-- SUMMARY: The server session: its channels, the control pipe, and the one disconnection that it reports.
import ZenRemote.Server.ChannelLife

/-!
# Sessions

A session has its own channel and lists the others by weak pointers. Every channel writes to
the control pipe of the session when one of its calls fails. The loop reads the pipe, and the
first message makes it disable all channels and report the disconnection.
-/

namespace ZenRemote.Server

namespace Session

/-- What the loop is doing for the session. -/
inductive Loop where
  | idle
  /-- In `DisableChannels`, before the channels of `rest`; `emits` tells whether it has been
  called for a message of the control pipe, or by `~Session`. -/
  | disabling (rest : List Nat) (emits : Bool)
  /-- With channel `i` locked. -/
  | inDisable (i : Nat) (rest : List Nat) (emits : Bool)
  /-- About to call `on_disconnect`. -/
  | emitting
  | destroyed
  deriving DecidableEq, Repr

/-- The channels that a pass of `DisableChannels` has still to disable. -/
def Loop.pending : Loop → Option (List Nat)
  | .idle | .destroyed => none
  | .disabling rest _ => some rest
  | .inDisable i rest _ => some (i :: rest)
  | .emitting => some []

def Loop.emits : Loop → Bool
  | .idle | .destroyed => false
  | .disabling _ emits | .inDisable _ _ emits => emits
  | .emitting => true

structure State where
  /-- Every channel that has been made. The first is the session channel. -/
  made : List ChannelLife.State := [{}]
  /-- `channels_`, by their places among those made. -/
  channels : List Nat := [0]
  connected : Bool := true
  /-- The number of messages in the control pipe. -/
  pipe : Nat := 0
  /-- The number of messages that have been written to it. -/
  notifications : Nat := 0
  loop : Loop := .idle
  /-- How often `on_disconnect` has been called. -/
  emitted : Nat := 0
  deriving DecidableEq, Repr

inductive Label where
  /-- On the loop's thread, since `channels_` is not locked. -/
  | createChannel
  /-- A step that some thread takes in channel `i`. -/
  | channel (i : Nat) (l : ChannelLife.Label)
  /-- The loop finds the control pipe readable. -/
  | dispatch
  | disableNext
  | disable
  | disabled
  | emit
  /-- The last user of the session lets it go. -/
  | destroy
  deriving DecidableEq, Repr

namespace State

/-- `expired()` is false, and `lock()` succeeds. -/
def alive (s : State) (i : Nat) : Bool := s.made[i]?.any fun c => 0 < c.strong

/-- The process ends with a channel that is destroyed by its own worker. -/
def isCrashed (s : State) : Bool := s.made.any fun c => c.life = .crashed

/-- The steps in a channel that belong to other threads than the loop's. The session channel
has the session as its only user. -/
def isForeign (s : State) (i : Nat) : ChannelLife.Label → Bool
  | .disablerLock | .disable | .disablerDrop => false
  | .userCopy => i ≠ 0
  | .userDrop => i ≠ 0 ∨ s.loop = .destroyed
  | _ => true

/-- What channel `i` writes arrives in the pipe unless it is full. -/
def stepChannel (capacity : Nat) (s : State) (i : Nat) (l : ChannelLife.Label) : Option State :=
  s.made[i]?.bind fun c => (c.step l).map fun c' =>
    let arriving := min (c'.written - c.written) (capacity - s.pipe)
    { s with
      made := s.made.set i c'
      pipe := s.pipe + arriving
      notifications := s.notifications + arriving }

/-- `AddChannel` forgets the channels that have expired. -/
def createChannel (s : State) : State :=
  { s with channels := s.channels.filter s.alive ++ [s.made.length], made := s.made ++ [{}] }

/-- `DisableChannels` begins: the channels of the list, and then the session channel. -/
def disableChannels (s : State) (emits : Bool) : State :=
  { s with loop := .disabling (s.channels ++ [0]) emits }

/-- Either message of the control pipe is a disconnection. -/
def handleControlEvent (s : State) : State :=
  if s.connected then { s with connected := false }.disableChannels true else s

/-- The session's own reference to its channel plays the part of a lock. -/
def disableNext (capacity : Nat) (s : State) : Option State :=
  match s.loop with
  | .disabling (i :: rest) emits =>
    if s.alive i then
      (s.stepChannel capacity i .disablerLock).map fun s' => { s' with loop := .inDisable i rest emits }
    else some { s with loop := .disabling rest emits }
  | .disabling [] true => some { s with loop := .emitting }
  | .disabling [] false => some { s with loop := .destroyed }
  | _ => none

def disable (capacity : Nat) (s : State) : Option State :=
  match s.loop with
  | .inDisable i _ _ => s.stepChannel capacity i .disable
  | _ => none

def disabled (capacity : Nat) (s : State) : Option State :=
  match s.loop with
  | .inDisable i rest emits =>
    (s.stepChannel capacity i .disablerDrop).map fun s' => { s' with loop := .disabling rest emits }
  | _ => none

def step (capacity : Nat) (s : State) (l : Label) : Option State :=
  if s.isCrashed then none
  else
    match l with
    | .createChannel => if s.loop = .idle then some s.createChannel else none
    | .channel i l => if s.isForeign i l then s.stepChannel capacity i l else none
    | .dispatch =>
      if s.loop = .idle ∧ 0 < s.pipe then some { s with pipe := s.pipe - 1 }.handleControlEvent
      else none
    | .disableNext => s.disableNext capacity
    | .disable => s.disable capacity
    | .disabled => s.disabled capacity
    | .emit =>
      if s.loop = .emitting then some { s with loop := .idle, emitted := s.emitted + 1 } else none
    | .destroy => if s.loop = .idle then some (s.disableChannels false) else none

end State

/-- Starts when `Connect` has succeeded. The control pipe holds `capacity` messages. -/
def machine (capacity : Nat) : Machine State Label where
  init := {}
  step := State.step capacity

variable {s s' : State} {capacity i j : Nat} {c d : ChannelLife.State}

/-- The states that a step can lead to. -/
inductive Stepped (capacity : Nat) (s : State) : Label → State → Prop
  | createChannel (hidle : s.loop = .idle) : Stepped capacity s .createChannel s.createChannel
  | channel (i : Nat) (l : ChannelLife.Label) {t : State} (hforeign : s.isForeign i l)
      (ht : s.stepChannel capacity i l = some t) : Stepped capacity s (.channel i l) t
  | dispatch (hidle : s.loop = .idle) (hsome : 0 < s.pipe) :
      Stepped capacity s .dispatch { s with pipe := s.pipe - 1 }.handleControlEvent
  | lockNext {i : Nat} {rest : List Nat} {emits : Bool} {t : State}
      (hloop : s.loop = .disabling (i :: rest) emits) (halive : s.alive i)
      (ht : s.stepChannel capacity i .disablerLock = some t) :
      Stepped capacity s .disableNext { t with loop := .inDisable i rest emits }
  | skipNext {i : Nat} {rest : List Nat} {emits : Bool}
      (hloop : s.loop = .disabling (i :: rest) emits) (hgone : ¬ s.alive i) :
      Stepped capacity s .disableNext { s with loop := .disabling rest emits }
  | beginEmit (hloop : s.loop = .disabling [] true) :
      Stepped capacity s .disableNext { s with loop := .emitting }
  | endDestroy (hloop : s.loop = .disabling [] false) :
      Stepped capacity s .disableNext { s with loop := .destroyed }
  | disable {i : Nat} {rest : List Nat} {emits : Bool} {t : State}
      (hloop : s.loop = .inDisable i rest emits) (ht : s.stepChannel capacity i .disable = some t) :
      Stepped capacity s .disable t
  | disabled {i : Nat} {rest : List Nat} {emits : Bool} {t : State}
      (hloop : s.loop = .inDisable i rest emits) (ht : s.stepChannel capacity i .disablerDrop = some t) :
      Stepped capacity s .disabled { t with loop := .disabling rest emits }
  | emit (hemitting : s.loop = .emitting) :
      Stepped capacity s .emit { s with loop := .idle, emitted := s.emitted + 1 }
  | destroy (hidle : s.loop = .idle) : Stepped capacity s .destroy (s.disableChannels false)

theorem stepped_of_disableNext (hstep : s.disableNext capacity = some s') :
    Stepped capacity s .disableNext s' := by
  unfold State.disableNext at hstep
  split at hstep
  · next hloop =>
    split at hstep
    · next halive =>
      obtain ⟨t, ht, rfl⟩ := Option.map_eq_some_iff.mp hstep
      exact .lockNext hloop halive ht
    · next hgone => exact Option.some.inj hstep ▸ .skipNext hloop hgone
  · next hloop => exact Option.some.inj hstep ▸ .beginEmit hloop
  · next hloop => exact Option.some.inj hstep ▸ .endDestroy hloop
  · cases hstep

theorem stepped_of_disable (hstep : s.disable capacity = some s') : Stepped capacity s .disable s' := by
  unfold State.disable at hstep
  split at hstep
  · next hloop => exact .disable hloop hstep
  · cases hstep

theorem stepped_of_disabled (hstep : s.disabled capacity = some s') : Stepped capacity s .disabled s' := by
  unfold State.disabled at hstep
  split at hstep
  · next hloop =>
    obtain ⟨t, ht, rfl⟩ := Option.map_eq_some_iff.mp hstep
    exact .disabled hloop ht
  · cases hstep

theorem stepped_of_step {l : Label} (hstep : s.step capacity l = some s') : Stepped capacity s l s' := by
  obtain ⟨-, hstep⟩ := Option.ite_none_left_eq_some.mp hstep
  cases l with
  | createChannel =>
    obtain ⟨hidle, hs'⟩ := Option.ite_none_right_eq_some.mp hstep
    exact Option.some.inj hs' ▸ .createChannel hidle
  | channel i l =>
    obtain ⟨hforeign, ht⟩ := Option.ite_none_right_eq_some.mp hstep
    exact .channel i l hforeign ht
  | dispatch =>
    obtain ⟨⟨hidle, hsome⟩, hs'⟩ := Option.ite_none_right_eq_some.mp hstep
    exact Option.some.inj hs' ▸ .dispatch hidle hsome
  | disableNext => exact stepped_of_disableNext hstep
  | disable => exact stepped_of_disable hstep
  | disabled => exact stepped_of_disabled hstep
  | emit =>
    obtain ⟨hemitting, hs'⟩ := Option.ite_none_right_eq_some.mp hstep
    exact Option.some.inj hs' ▸ .emit hemitting
  | destroy =>
    obtain ⟨hidle, hs'⟩ := Option.ite_none_right_eq_some.mp hstep
    exact Option.some.inj hs' ▸ .destroy hidle

-- ---------------------------------------------------------------------------
-- Steps in a channel
-- ---------------------------------------------------------------------------

theorem stepChannel_eq_some {l : ChannelLife.Label} (hstep : s.stepChannel capacity i l = some s') :
    ∃ c c' arriving, s.made[i]? = some c ∧ c.step l = some c' ∧
      s' = { s with
        made := s.made.set i c', pipe := s.pipe + arriving
        notifications := s.notifications + arriving } := by
  obtain ⟨c, hc, hstep⟩ := Option.bind_eq_some_iff.mp hstep
  obtain ⟨c', hc', rfl⟩ := Option.map_eq_some_iff.mp hstep
  exact ⟨c, c', _, hc, hc', rfl⟩

theorem loop_stepChannel {l : ChannelLife.Label} (hstep : s.stepChannel capacity i l = some s') :
    s'.loop = s.loop := by
  obtain ⟨_, _, _, -, -, rfl⟩ := stepChannel_eq_some hstep
  rfl

/-- Where a channel comes from in a step of channel `i`. -/
theorem made_before {l : ChannelLife.Label} (hstep : s.stepChannel capacity i l = some s')
    (hd : s'.made[j]? = some d) :
    j ≠ i ∧ s.made[j]? = some d ∨ j = i ∧ ∃ c, s.made[j]? = some c ∧ c.step l = some d := by
  obtain ⟨c, c', _, hc, hc', rfl⟩ := stepChannel_eq_some hstep
  by_cases hji : j = i
  · subst hji
    refine .inr ⟨rfl, c, hc, ?_⟩
    obtain ⟨hlt, -⟩ := List.getElem?_eq_some_iff.mp hc
    rw [List.getElem?_set_self hlt] at hd
    exact hc'.trans hd
  · rw [List.getElem?_set_ne (Ne.symm hji)] at hd
    exact .inl ⟨hji, hd⟩

/-- What becomes of a channel in a step of channel `i`. -/
theorem made_after {l : ChannelLife.Label} (hstep : s.stepChannel capacity i l = some s')
    (hd : s.made[j]? = some d) :
    ∃ d', s'.made[j]? = some d' ∧ (d' = d ∨ j = i ∧ d.step l = some d') := by
  obtain ⟨c, c', _, hc, hc', rfl⟩ := stepChannel_eq_some hstep
  by_cases hji : j = i
  · subst hji
    cases hc.symm.trans hd
    obtain ⟨hlt, -⟩ := List.getElem?_eq_some_iff.mp hc
    exact ⟨c', List.getElem?_set_self hlt, .inr ⟨rfl, hc'⟩⟩
  · exact ⟨d, (List.getElem?_set_ne (Ne.symm hji)).trans hd, .inl rfl⟩

-- ---------------------------------------------------------------------------
-- The invariant
-- ---------------------------------------------------------------------------

/-- The session lists every channel that is alive. While the loop is in `DisableChannels`,
whatever it has passed is disabled. The disconnection is to come, about to be reported, or
reported. -/
structure Invariant (s : State) : Prop where
  made : ∀ (i : Nat) c, s.made[i]? = some c → ChannelLife.Disabling c
  listed : ∀ (i : Nat) c, s.made[i]? = some c → 0 < c.strong → i ∈ s.channels
  sessionChannel : s.loop ≠ .destroyed → ∃ c, s.made[0]? = some c ∧ 0 < c.users
  pending : ∀ rest, s.loop.pending = some rest → ∀ (i : Nat) c, s.made[i]? = some c → 0 < c.strong →
    c.enabled = false ∨ i ∈ rest
  once : s.emitted + s.loop.emits.toNat + s.connected.toNat = 1
  pipe : s.pipe ≤ s.notifications
  notified : s.connected = false → 0 < s.notifications

theorem invariant_init : Invariant (machine capacity).init where
  made := by
    intro i c hc
    obtain ⟨hlt, hc⟩ := List.getElem?_eq_some_iff.mp hc
    cases List.mem_singleton.mp (hc ▸ List.getElem_mem hlt)
    exact ChannelLife.disabling_init
  listed := by
    intro i c hc _
    obtain ⟨hlt, -⟩ := List.getElem?_eq_some_iff.mp hc
    exact List.mem_singleton.mpr (Nat.lt_one_iff.mp hlt)
  sessionChannel := fun _ => ⟨_, rfl, Nat.one_pos⟩
  pending := nofun
  once := rfl
  pipe := Nat.le_refl _
  notified := nofun

theorem Invariant.stepChannel (h : Invariant s) {l : ChannelLife.Label}
    (hdrop : l = .userDrop → i = 0 → s.loop = .destroyed)
    (hstep : s.stepChannel capacity i l = some s') : Invariant s' := by
  obtain ⟨c, c', arriving, hc, hc', hs'⟩ := stepChannel_eq_some hstep
  have hloop := loop_stepChannel hstep
  refine ⟨?_, ?_, ?_, ?_, ?_, ?_, ?_⟩
  · intro j d hd
    obtain ⟨-, hd⟩ | ⟨-, c, hc, hcd⟩ := made_before hstep hd
    · exact h.made j d hd
    · exact (h.made j c hc).step hcd
  · intro j d hd hpos
    have hsame : s'.channels = s.channels := by rw [hs']
    rw [hsame]
    obtain ⟨-, hd⟩ | ⟨-, c, hc, hcd⟩ := made_before hstep hd
    · exact h.listed j d hd hpos
    · exact h.listed j c hc ((h.made j c hc).strong_step hcd hpos)
  · intro hkept
    rw [hloop] at hkept
    obtain ⟨d, hd, hpos⟩ := h.sessionChannel hkept
    obtain ⟨d', hd', rfl | ⟨rfl, hstepped⟩⟩ := made_after hstep hd
    · exact ⟨d', hd', hpos⟩
    · have hother : l ≠ .userDrop := fun hl => hkept (hdrop hl rfl)
      exact ⟨d', hd', Nat.lt_of_lt_of_le hpos (ChannelLife.users_step hother hstepped)⟩
  · intro rest hrest j d hd hpos
    rw [hloop] at hrest
    obtain ⟨-, hd⟩ | ⟨-, c, hc, hcd⟩ := made_before hstep hd
    · exact h.pending rest hrest j d hd hpos
    · have hsound := h.made j c hc
      refine (h.pending rest hrest j c hc (hsound.strong_step hcd hpos)).imp_left fun hdisabled => ?_
      exact (hsound.disabled_step hdisabled hcd).1
  · rw [hs']
    exact h.once
  · rw [hs']
    exact Nat.add_le_add_right h.pipe arriving
  · rw [hs']
    exact fun hconnected => Nat.lt_of_lt_of_le (h.notified hconnected) (Nat.le_add_right _ _)

/-- The loop goes on within `DisableChannels`. -/
theorem Invariant.withLoop (h : Invariant s) {loop : Loop} (hemits : loop.emits = s.loop.emits)
    (hloop : s.loop ≠ .destroyed)
    (hpending : ∀ rest, loop.pending = some rest → ∀ (i : Nat) c, s.made[i]? = some c → 0 < c.strong →
      c.enabled = false ∨ i ∈ rest) : Invariant { s with loop } where
  made := h.made
  listed := h.listed
  sessionChannel := fun _ => h.sessionChannel hloop
  pending := hpending
  once := by
    rw [hemits]
    exact h.once
  pipe := h.pipe
  notified := h.notified

theorem alive_iff : s.alive i ↔ ∃ c, s.made[i]? = some c ∧ 0 < c.strong := by
  unfold State.alive
  cases s.made[i]? <;> simp

theorem Invariant.createChannel (h : Invariant s) (hidle : s.loop = .idle) : Invariant s.createChannel := by
  have hmade : ∀ j d, s.createChannel.made[j]? = some d →
      s.made[j]? = some d ∨ j = s.made.length ∧ d = {} := by
    intro j d hd
    obtain hlt | hle := Nat.lt_or_ge j s.made.length
    · exact .inl ((List.getElem?_append_left hlt).symm.trans hd)
    · obtain ⟨hbound, hd⟩ := List.getElem?_eq_some_iff.mp hd
      simp only [State.createChannel, List.length_append, List.length_singleton] at hbound
      obtain rfl : j = s.made.length := by omega
      exact .inr ⟨rfl, by rw [← hd]; simp [State.createChannel]⟩
  refine ⟨?_, ?_, ?_, ?_, h.once, h.pipe, h.notified⟩
  · intro j d hd
    obtain hd | ⟨-, rfl⟩ := hmade j d hd
    · exact h.made j d hd
    · exact ChannelLife.disabling_init
  · intro j d hd hpos
    obtain hd | ⟨rfl, -⟩ := hmade j d hd
    · refine List.mem_append_left _ (List.mem_filter.mpr ⟨h.listed j d hd hpos, ?_⟩)
      exact alive_iff.mpr ⟨d, hd, hpos⟩
    · exact List.mem_append_right _ (List.mem_singleton_self _)
  · intro hkept
    obtain ⟨c, hc, hpos⟩ := h.sessionChannel hkept
    obtain ⟨hlt, -⟩ := List.getElem?_eq_some_iff.mp hc
    exact ⟨c, (List.getElem?_append_left hlt).trans hc, hpos⟩
  · intro rest hrest
    have hloop : s.createChannel.loop = .idle := hidle
    rw [hloop] at hrest
    cases hrest

theorem Invariant.dispatch (h : Invariant s) (hidle : s.loop = .idle) (hsome : 0 < s.pipe) :
    Invariant { s with pipe := s.pipe - 1 }.handleControlEvent := by
  have hpipe := h.pipe
  have honce := h.once
  unfold State.handleControlEvent
  split
  · rename_i hconnected
    refine ⟨h.made, h.listed, fun _ => h.sessionChannel (by simp [hidle]), ?_, ?_, ?_, ?_⟩
    · intro rest hrest i c hc hpos
      cases hrest
      exact .inr (List.mem_append_left _ (h.listed i c hc hpos))
    · rw [hidle, show s.connected = true from hconnected] at honce
      exact honce
    · exact Nat.le_trans (Nat.sub_le _ _) hpipe
    · exact fun _ => Nat.lt_of_lt_of_le hsome hpipe
  · exact ⟨h.made, h.listed, h.sessionChannel, h.pending, honce, Nat.le_trans (Nat.sub_le _ _) hpipe,
      h.notified⟩

/-- The loop has come back from `Disable`, so the channel is disabled. -/
theorem Invariant.disabled (h : Invariant s) {i : Nat} {rest : List Nat} {emits : Bool} {t : State}
    (hloop : s.loop = .inDisable i rest emits) (ht : s.stepChannel capacity i .disablerDrop = some t) :
    Invariant { t with loop := .disabling rest emits } := by
  have hdropped := h.stepChannel (by simp) ht
  have hkept := (loop_stepChannel ht).trans hloop
  refine hdropped.withLoop (by rw [hkept]; rfl) (by simp [hkept]) fun rest' hrest' j d hd hpos => ?_
  cases hrest'
  obtain hdisabled | hmem := hdropped.pending (i :: rest) (by rw [hkept]; rfl) j d hd hpos
  · exact .inl hdisabled
  obtain rfl | hmem := List.mem_cons.mp hmem
  · obtain ⟨hne, -⟩ | ⟨-, c, hc, hcd⟩ := made_before ht hd
    · exact absurd rfl hne
    · have hsound := h.made j c hc
      cases (ChannelLife.stepped_of_step hcd).2 with
      | disablerDrop hdone => exact .inl (hsound.disabled_step (hsound.done hdone) hcd).1
  · exact .inr hmem

theorem Invariant.step (h : Invariant s) {l : Label} (hstep : s.step capacity l = some s') : Invariant s' := by
  cases stepped_of_step hstep with
  | createChannel hidle => exact h.createChannel hidle
  | channel i l hforeign ht =>
    refine h.stepChannel ?_ ht
    rintro rfl rfl
    simpa [State.isForeign] using hforeign
  | dispatch hidle hsome => exact h.dispatch hidle hsome
  | lockNext hloop halive ht =>
    have hlocked := h.stepChannel (by simp) ht
    have hkept := (loop_stepChannel ht).trans hloop
    refine hlocked.withLoop (by rw [hkept]; rfl) (by simp [hkept]) fun rest' hrest' => ?_
    exact hlocked.pending rest' (by rw [hkept]; exact hrest')
  | skipNext hloop hgone =>
    have hpending := h.pending _ (by rw [hloop]; rfl)
    refine h.withLoop (by rw [hloop]; rfl) (by simp [hloop]) fun rest' hrest' j d hd hpos => ?_
    cases hrest'
    refine (hpending j d hd hpos).imp_right fun hmem => (List.mem_cons.mp hmem).resolve_left ?_
    rintro rfl
    exact hgone (alive_iff.mpr ⟨d, hd, hpos⟩)
  | beginEmit hloop =>
    refine h.withLoop (by rw [hloop]; rfl) (by simp [hloop]) fun rest' hrest' => ?_
    exact h.pending rest' (by rw [hloop]; exact hrest')
  | endDestroy hloop => exact h.withLoop (by rw [hloop]; rfl) (by simp [hloop]) nofun
  | disable hloop ht => exact h.stepChannel (by simp) ht
  | disabled hloop ht => exact h.disabled hloop ht
  | emit hemitting =>
    have honce := h.once
    rw [hemitting] at honce
    exact ⟨h.made, h.listed, fun _ => h.sessionChannel (by simp [hemitting]), nofun, honce, h.pipe, h.notified⟩
  | destroy hidle =>
    have honce := h.once
    rw [hidle] at honce
    refine ⟨h.made, h.listed, fun _ => h.sessionChannel (by simp [hidle]), ?_, honce, h.pipe, h.notified⟩
    intro rest hrest i c hc hpos
    cases hrest
    exact .inr (List.mem_append_left _ (h.listed i c hc hpos))

-- ---------------------------------------------------------------------------
-- The disconnection
-- ---------------------------------------------------------------------------

/-- A channel that has been disabled keeps quiet in every step of the session. -/
theorem made_step (hsound : ∀ (i : Nat) c, s.made[i]? = some c → ChannelLife.Disabling c) {l : Label}
    (hstep : s.step capacity l = some s') (hc : s.made[i]? = some c) (hdisabled : c.enabled = false) :
    ∃ c', s'.made[i]? = some c' ∧ c'.enabled = false ∧
      c'.work.jobs.uncancelled = c.work.jobs.uncancelled ∧ c'.written = c.written := by
  have hchannel : ∀ {j l t}, s.stepChannel capacity j l = some t → ∃ c', t.made[i]? = some c' ∧
      c'.enabled = false ∧ c'.work.jobs.uncancelled = c.work.jobs.uncancelled ∧ c'.written = c.written := by
    intro j l t ht
    obtain ⟨c', hc', rfl | ⟨-, hcc'⟩⟩ := made_after ht hc
    · exact ⟨c', hc', hdisabled, rfl, rfl⟩
    · exact ⟨c', hc', (hsound i c hc).disabled_step hdisabled hcc'⟩
  cases stepped_of_step hstep with
  | createChannel hidle =>
    obtain ⟨hlt, -⟩ := List.getElem?_eq_some_iff.mp hc
    exact ⟨c, (List.getElem?_append_left hlt).trans hc, hdisabled, rfl, rfl⟩
  | channel j l hforeign ht => exact hchannel ht
  | dispatch hidle hsome =>
    unfold State.handleControlEvent
    split <;> exact ⟨c, hc, hdisabled, rfl, rfl⟩
  | lockNext hloop halive ht | disabled hloop ht =>
    obtain ⟨c', hc', hkept⟩ := hchannel ht
    exact ⟨c', hc', hkept⟩
  | disable hloop ht => exact hchannel ht
  | skipNext | beginEmit | endDestroy | emit | destroy => exact ⟨c, hc, hdisabled, rfl, rfl⟩

/-- A channel of the session is disabled in `s` and at rest. Whatever is done after that, none of its jobs
is performed uncancelled, and it does not write. -/
structure Silenced (capacity : Nat) (s : State) (i : Nat) (c : ChannelLife.State) : Prop where
  disabled : c.enabled = false
  idle : c.work.jobs.queue.worker = .exited
  afterwards : ∀ ls s', (machine capacity).runFrom s ls = some s' →
    ∃ c', s'.made[i]? = some c' ∧ c'.work.jobs.uncancelled = c.work.jobs.uncancelled ∧
      c'.written = c.written

theorem Invariant.silenced (h : Invariant s) (hc : s.made[i]? = some c) (hdisabled : c.enabled = false) :
    Silenced capacity s i c := by
  refine ⟨hdisabled, ?_, fun ls s' hrun => ?_⟩
  · exact (h.made i c hc).work.jobs.returned (ChannelLife.enabled_eq_false.mp hdisabled)
  · have hlater := Machine.runFrom_invariant
      (I := fun t => Invariant t ∧ ∃ c', t.made[i]? = some c' ∧ c'.enabled = false ∧
        c'.work.jobs.uncancelled = c.work.jobs.uncancelled ∧ c'.written = c.written)
      (fun t l t' ⟨hinv, d, hd, hdisabled, huncancelled, hwritten⟩ hstep => by
        obtain ⟨d', hd', hdisabled', huncancelled', hwritten'⟩ := made_step hinv.made hstep hd hdisabled
        exact ⟨hinv.step hstep, d', hd', hdisabled', huncancelled'.trans huncancelled,
          hwritten'.trans hwritten⟩)
      ⟨h, c, hc, hdisabled, rfl, rfl⟩ hrun
    obtain ⟨-, c', hc', -, huncancelled, hwritten⟩ := hlater
    exact ⟨c', hc', huncancelled, hwritten⟩

/-- `on_disconnect` is called once at most, and when it is called, a notification has been
written, the session channel is alive, and every channel that is alive has been silenced. -/
structure Disconnects (capacity : Nat) (s : State) : Prop where
  once : s.emitted ≤ 1
  notified : ∀ s', s.step capacity .emit = some s' → 0 < s.notifications
  sessionChannel : ∀ s', s.step capacity .emit = some s' → s.alive 0
  silenced : ∀ s', s.step capacity .emit = some s' →
    ∀ (i : Nat) c, s.made[i]? = some c → 0 < c.strong → Silenced capacity s' i c

theorem Invariant.disconnects (h : Invariant s) : Disconnects capacity s := by
  have honce := h.once
  have hemitting : ∀ s', s.step capacity .emit = some s' → s.loop = .emitting ∧ s'.made = s.made := by
    intro s' hstep
    cases stepped_of_step hstep with
    | emit hemitting => exact ⟨hemitting, rfl⟩
  refine ⟨by omega, fun s' hstep => ?_, fun s' hstep => ?_, fun s' hstep i c hc hpos => ?_⟩
  · refine h.notified ?_
    rw [(hemitting s' hstep).1] at honce
    cases hconnected : s.connected with
    | true => simp [Loop.emits, hconnected] at honce
    | false => rfl
  · obtain ⟨c, hc, hpos⟩ := h.sessionChannel (by simp [(hemitting s' hstep).1])
    refine alive_iff.mpr ⟨c, hc, ?_⟩
    simp only [ChannelLife.State.strong, ChannelLife.State.others]
    omega
  · obtain ⟨hloop, hmade⟩ := hemitting s' hstep
    have hdisabled := (h.pending [] (by rw [hloop]; rfl) i c hc hpos).resolve_right List.not_mem_nil
    exact (h.step hstep).silenced (by rw [hmade]; exact hc) hdisabled

theorem disconnects_run {ls : List Label} (hrun : (machine capacity).run ls = some s) :
    Disconnects capacity s :=
  (Machine.run_invariant invariant_init (fun _ _ _ h hstep => h.step hstep) hrun).disconnects

/-- Two channels write before the loop reads the pipe, a third one expires before the fourth
is made, and the loop disables those that are left. -/
def disconnectedOnce : List Label :=
  [.createChannel, .createChannel,
    .channel 0 (.work (.request false)), .channel 0 (.work (.push 0)), .channel 0 (.work .notify),
    .channel 0 .leave, .channel 0 (.work .wake), .channel 0 (.work .lock), .channel 0 (.work .build),
    .channel 0 (.work .pushCaller), .channel 0 (.work .leave), .channel 0 (.work .finish),
    .channel 1 (.work (.request true)), .channel 1 (.work (.push 0)), .channel 1 (.work .notify),
    .channel 1 .leave, .channel 1 (.work .wake), .channel 1 (.work .lock), .channel 1 (.work .build),
    .channel 1 (.work .pushCaller), .channel 1 (.work .leave), .channel 1 (.work .finish),
    .channel 2 .userDrop, .createChannel,
    .channel 0 (.complete true), .channel 1 (.complete true), .channel 1 .notifyDisconnection,
    .channel 0 .notifyDisconnection, .channel 1 .leaveCompletion, .dispatch,
    .disableNext, .disable, .channel 0 (.work .terminateNotify), .channel 0 (.work .wake),
    .channel 0 (.work .join), .disabled,
    .disableNext, .disable, .channel 1 (.work .terminateNotify), .channel 1 (.work .wake),
    .channel 1 (.work .join), .disabled,
    .disableNext, .disable, .channel 3 (.work .terminateNotify), .channel 3 (.work .wake),
    .channel 3 (.work .join), .disabled, .disableNext, .disable, .disabled, .disableNext]

theorem disconnects_disconnectedOnce :
    ∃ s s', (machine 3).run disconnectedOnce = some s ∧ s.step 3 .emit = some s' ∧
      s.channels = [0, 1, 3] ∧ s.notifications = 2 ∧ Disconnects 3 s := by
  obtain ⟨s, s', hrun, hstep, hchannels, hnotifications⟩ : ∃ s s', (machine 3).run disconnectedOnce = some s ∧
      s.step 3 .emit = some s' ∧ s.channels = [0, 1, 3] ∧ s.notifications = 2 :=
    ⟨_, _, rfl, rfl, rfl, rfl⟩
  exact ⟨s, s', hrun, hstep, hchannels, hnotifications, disconnects_run hrun⟩

end Session

end ZenRemote.Server

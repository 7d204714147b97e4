-- SUMMARY: An application on the server: resource objects created, called and destroyed from any thread, and what is pushed for them.
import Mathlib.Data.List.Perm.Basic
import ZenRemote.Server.Resources

/-!
# An application

The threads of an application create channels, and resource objects on them. Between
the constructor of an object and its `Init`, other threads may do the same. An object
is called and destroyed only while it exists; that the ids which an application passes
are of objects that exist, nobody checks.
-/

namespace ZenRemote.Server

open Client (Kind)
open scoped List

/-- A resource object. -/
structure Resource where
  channel : Nat
  kind : Kind
  id : UInt64
  deriving DecidableEq

/-- `created` records all objects for which `Init` has run. -/
structure Application where
  serial : SessionSerial := {}
  channels : List Nat := []
  /-- The objects with `Init` still to run. -/
  constructed : List (Resource × Creation) := []
  resources : List Resource := []
  created : List Resource := []

inductive Operation where
  | createChannel
  /-- The constructor of a resource object. -/
  | construct (channel : Nat) (c : Creation)
  | init (i : Nat)
  | call (o : Resource) (m : Method)
  | destroy (o : Resource)

namespace Application

/-- What an operation pushes: a request, and the channel of its job. -/
abbrev Pushed := List (Nat × Client.Request)

def step (s : Application) : Operation → Option (Application × Pushed)
  | .createChannel =>
    let (id, serial) := s.serial.nextChannelSerial
    some ({ s with serial, channels := s.channels ++ [id.toNat] }, [])
  | .construct channel c =>
    if channel ∈ s.channels then
      let (id, serial) := s.serial.nextResourceSerial
      some ({ s with serial, constructed := s.constructed ++ [(⟨channel, c.kind, id⟩, c)] }, [])
    else none
  | .init i => s.constructed[i]?.map fun (o, c) =>
    ({ s with
      constructed := s.constructed.eraseIdx i
      resources := s.resources ++ [o]
      created := s.created ++ [o] }, [(o.channel, c.init o.id)])
  | .call o m =>
    if o ∈ s.resources ∧ m.kind = o.kind then some (s, [(o.channel, m.request o.id)]) else none
  | .destroy o =>
    if o ∈ s.resources then
      some ({ s with resources := s.resources.filter (· ≠ o) }, [(o.channel, deleteRequest o.id o.kind)])
    else none

/-- All that an operation can do. -/
inductive Stepped (s : Application) : Operation → Application → Pushed → Prop
  | createChannel : Stepped s .createChannel { s with
      serial := s.serial.nextChannelSerial.2
      channels := s.channels ++ [s.serial.channel.toNat] } []
  | construct {channel : Nat} (hchannel : channel ∈ s.channels) (c : Creation) :
      Stepped s (.construct channel c) { s with
        serial := s.serial.nextResourceSerial.2
        constructed := s.constructed ++ [(⟨channel, c.kind, s.serial.resource⟩, c)] } []
  | init {i : Nat} {o : Resource} {c : Creation} (hi : s.constructed[i]? = some (o, c)) :
      Stepped s (.init i) { s with
        constructed := s.constructed.eraseIdx i
        resources := s.resources ++ [o]
        created := s.created ++ [o] } [(o.channel, c.init o.id)]
  | call {o : Resource} (ho : o ∈ s.resources) {m : Method} (hm : m.kind = o.kind) :
      Stepped s (.call o m) s [(o.channel, m.request o.id)]
  | destroy {o : Resource} (ho : o ∈ s.resources) :
      Stepped s (.destroy o) { s with resources := s.resources.filter (· ≠ o) }
        [(o.channel, deleteRequest o.id o.kind)]

variable {s s' : Application} {op : Operation} {out : Pushed}

theorem step_cases (h : s.step op = some (s', out)) : Stepped s op s' out := by
  cases op with
  | createChannel =>
    cases h
    exact .createChannel
  | construct channel c =>
    obtain ⟨hchannel, h⟩ := Option.ite_none_right_eq_some.mp h
    cases h
    exact .construct hchannel c
  | init i =>
    obtain ⟨⟨o, c⟩, hi, h⟩ := Option.map_eq_some_iff.mp h
    cases h
    exact .init hi
  | call o m =>
    obtain ⟨⟨ho, hm⟩, h⟩ := Option.ite_none_right_eq_some.mp h
    cases h
    exact .call ho hm
  | destroy o =>
    obtain ⟨ho, h⟩ := Option.ite_none_right_eq_some.mp h
    cases h
    exact .destroy ho

/-- The resource that a new one belongs to exists, on the same channel. -/
def Parented (s : Application) (o : Resource) (c : Creation) : Prop :=
  ∀ p ∈ c.parent, ⟨o.channel, p.1, p.2⟩ ∈ s.resources

instance (s : Application) (o : Resource) (c : Creation) : Decidable (s.Parented o c) :=
  match hparent : c.parent with
  | none => isTrue fun p hp => by simp [hparent] at hp
  | some p => decidable_of_iff (⟨o.channel, p.1, p.2⟩ ∈ s.resources) <| by
    simp [Parented, hparent]

/-- The ids taken so far. -/
def taken (s : Application) : Nat := s.created.length + s.constructed.length

/-- How an application has to use the library. The serials have 64 bits. -/
def Proper (s : Application) : Operation → Prop
  | .createChannel => s.channels.length < 100
  | .construct _ _ => s.taken < 2 ^ 64
  | .init i => ∀ p ∈ s.constructed[i]?, s.Parented p.1 p.2
  | .call _ _ | .destroy _ => True

/-- All that has been pushed to each channel, after one more operation. -/
def push (pushed : Nat → List Client.Request) (out : Pushed) : Nat → List Client.Request :=
  out.foldl (fun pushed p => Function.update pushed p.1 (pushed p.1 ++ [p.2])) pushed

-- ---------------------------------------------------------------------------
-- The invariant
-- ---------------------------------------------------------------------------

/-- How an application stands to what it has pushed to its channels. -/
structure Sound (s : Application) (pushed : Nat → List Client.Request) : Prop where
  serial : s.serial.resource = UInt64.ofNat (s.taken + 1)
  few : s.taken ≤ 2 ^ 64
  ids : (s.created ++ s.constructed.map Prod.fst).map Resource.id ~
    (List.range s.taken).map fun n => UInt64.ofNat (n + 1)
  constructed : ∀ p ∈ s.constructed, p.1.kind = p.2.kind ∧ p.1.channel ∈ s.channels
  created : ∀ c, lifetimes.created (pushed c) =
    (s.created.filter (·.channel = c)).map fun o => (o.kind, o.id)
  orderly : ∀ c, lifetimes.Orderly (pushed c)
  fits : ∀ c, ∀ r ∈ pushed c, r.FieldsFit
  resources : ∀ o : Resource, o ∈ s.resources ↔ lifetimes.Present (pushed o.channel) (o.kind, o.id)
  channels : ∀ c, pushed c ≠ [] → c ∈ s.channels
  fewChannels : s.channels.length ≤ 100

variable {pushed : Nat → List Client.Request}

theorem sound_new : Sound {} fun _ => [] where
  serial := rfl
  few := Nat.zero_le _
  ids := .refl _
  constructed := by simp
  created := by simp [Lifetimes.created]
  orderly := fun _ => Lifetimes.orderly_nil
  fits := by simp
  resources := by simp [Lifetimes.Present, Lifetimes.created]
  channels := by simp
  fewChannels := Nat.zero_le _

theorem Sound.nodup (h : Sound s pushed) :
    ((s.created ++ s.constructed.map Prod.fst).map Resource.id).Nodup := by
  rw [h.ids.nodup_iff]
  refine List.Nodup.map_on ?_ List.nodup_range
  intro n hn m hm heq
  have hfew := h.few
  have htoNat := congrArg UInt64.toNat heq
  rw [UInt64.toNat_ofNat', UInt64.toNat_ofNat'] at htoNat
  rw [List.mem_range] at hn hm
  omega

/-- Objects that have been created differ in their ids. -/
theorem Sound.eq_of_id (h : Sound s pushed) {o o' : Resource} (ho : o ∈ s.created)
    (ho' : o' ∈ s.created) (hid : o.id = o'.id) : o = o' := by
  have hnodup := h.nodup
  rw [List.map_append] at hnodup
  exact List.inj_on_of_nodup_map hnodup.of_append_left ho ho' hid

theorem Sound.mem_created (h : Sound s pushed) {c : Nat} {p : Kind × UInt64}
    (hp : p ∈ lifetimes.created (pushed c)) : ⟨c, p.1, p.2⟩ ∈ s.created := by
  rw [h.created, List.mem_map] at hp
  obtain ⟨o, ho, rfl⟩ := hp
  obtain ⟨hmem, hc⟩ := List.mem_filter.mp ho
  obtain rfl := of_decide_eq_true hc
  exact hmem

theorem Sound.distinct (h : Sound s pushed) : lifetimes.Distinct pushed where
  once c := by
    rw [h.created]
    refine List.Nodup.map_on ?_ ?_
    · intro o ho o' ho' heq
      exact h.eq_of_id (List.mem_of_mem_filter ho) (List.mem_of_mem_filter ho') (Prod.mk.inj heq).2
    · have hnodup := h.nodup
      rw [List.map_append] at hnodup
      exact (List.Nodup.of_map _ hnodup.of_append_left).filter _
  home c c' p hp hp' := by
    have heq := h.eq_of_id (h.mem_created hp) (h.mem_created hp') rfl
    exact congrArg Resource.channel heq

/-- The id of an object that is being made is in no request yet that creates one. -/
theorem Sound.not_created (h : Sound s pushed) {p : Resource × Creation} (hp : p ∈ s.constructed)
    (c : Nat) (k : Kind) : (k, p.1.id) ∉ lifetimes.created (pushed c) := by
  intro hmem
  have hnodup := h.nodup
  rw [List.map_append, List.nodup_append] at hnodup
  exact hnodup.2.2 _ (List.mem_map_of_mem (h.mem_created hmem)) _
    (List.mem_map_of_mem (List.mem_map_of_mem hp)) rfl

/-- One request more on channel `c`. -/
abbrev pushOn (pushed : Nat → List Client.Request) (c : Nat) (r : Client.Request) :
    Nat → List Client.Request :=
  Function.update pushed c (pushed c ++ [r])

/-- A request that finds what it names is pushed, and no id is taken. -/
theorem Sound.pushOn (h : Sound s pushed) {c : Nat} {r : Client.Request}
    (hadmits : lifetimes.Admits (pushed c) r) (hfits : r.FieldsFit) (hc : c ∈ s.channels)
    (hserial : s'.serial = s.serial) (hchannels : s'.channels = s.channels)
    (hids : s'.created ++ s'.constructed.map Prod.fst ~ s.created ++ s.constructed.map Prod.fst)
    (hconstructed : s'.constructed ⊆ s.constructed)
    (hcreated : ∀ c', lifetimes.created (pushOn pushed c r c') =
      (s'.created.filter (·.channel = c')).map fun o => (o.kind, o.id))
    (hresources : ∀ o : Resource, o ∈ s'.resources ↔
      lifetimes.Present (pushOn pushed c r o.channel) (o.kind, o.id)) :
    Sound s' (pushOn pushed c r) := by
  have htaken : s'.taken = s.taken := by simpa [taken] using hids.length_eq
  constructor
  · rw [hserial, htaken]
    exact h.serial
  · rw [htaken]
    exact h.few
  · rw [htaken]
    exact (hids.map _).trans h.ids
  · intro p hp
    rw [hchannels]
    exact h.constructed p (hconstructed hp)
  · exact hcreated
  · intro c'
    by_cases hc' : c' = c
    · subst hc'
      rw [Application.pushOn, Function.update_self]
      exact (h.orderly c').concat hadmits
    · rw [Application.pushOn, Function.update_of_ne hc']
      exact h.orderly c'
  · intro c' r' hr'
    by_cases hc' : c' = c
    · subst hc'
      rw [Application.pushOn, Function.update_self, List.mem_append, List.mem_singleton] at hr'
      rcases hr' with hr' | rfl
      · exact h.fits c' r' hr'
      · exact hfits
    · rw [Application.pushOn, Function.update_of_ne hc'] at hr'
      exact h.fits c' r' hr'
  · exact hresources
  · intro c' hne
    rw [hchannels]
    by_cases hc' : c' = c
    · exact hc' ▸ hc
    · rw [Application.pushOn, Function.update_of_ne hc'] at hne
      exact h.channels c' hne
  · rw [hchannels]
    exact h.fewChannels

theorem created_pushOn (c c' : Nat) (r : Client.Request) :
    lifetimes.created (pushOn pushed c r c') = lifetimes.created (pushed c') ++
      if c' = c then (lifetimes.creates r).toList else [] := by
  by_cases hc : c' = c
  · subst hc
    rw [Application.pushOn, Function.update_self, Lifetimes.created_append, if_pos rfl]
    congr 1
  · simp [hc]

/-- The channel of an existing object is one of the application's. -/
theorem Sound.channel_mem (h : Sound s pushed) {o : Resource} (ho : o ∈ s.resources) :
    o.channel ∈ s.channels := by
  refine h.channels _ fun hnil => ?_
  have hpresent := (h.resources o).mp ho
  rw [hnil] at hpresent
  exact List.not_mem_nil hpresent.1

theorem Sound.call (h : Sound s pushed) {o : Resource} (ho : o ∈ s.resources) {m : Method}
    (hm : m.kind = o.kind) : Sound s (Application.pushOn pushed o.channel (m.request o.id)) := by
  refine h.pushOn ⟨?_, by simp⟩ (fieldsFit_request _ _) (h.channel_mem ho) rfl rfl (.refl _)
    (List.Subset.refl _) (fun c => ?_) fun o' => ?_
  · intro p hp
    rw [uses_request, Option.some.injEq] at hp
    exact hp ▸ hm ▸ (h.resources o).mp ho
  · rw [created_pushOn, ← h.created]
    simp
  · rw [h.resources]
    by_cases hc : o'.channel = o.channel
    · rw [hc, Application.pushOn, Function.update_self, Lifetimes.present_concat]
      simp [Lifetimes.Present]
    · rw [Application.pushOn, Function.update_of_ne hc]

theorem Sound.destroy (h : Sound s pushed) {o : Resource} (ho : o ∈ s.resources) :
    Sound { s with resources := s.resources.filter (· ≠ o) }
      (Application.pushOn pushed o.channel (deleteRequest o.id o.kind)) := by
  refine h.pushOn ⟨by simp, ?_⟩ (fieldsFit_deleteRequest _ _) (h.channel_mem ho) rfl rfl (.refl _)
    (List.Subset.refl _) (fun c => ?_) fun o' => ?_
  · intro p hp
    rw [deletes_deleteRequest, Option.some.injEq] at hp
    exact hp ▸ (h.resources o).mp ho
  · rw [created_pushOn, ← h.created]
    simp
  · show o' ∈ s.resources.filter (· ≠ o) ↔ _
    rw [List.mem_filter, h.resources, decide_eq_true_eq]
    by_cases hc : o'.channel = o.channel
    · rw [hc, Application.pushOn, Function.update_self, Lifetimes.present_concat]
      have hne : o' ≠ o ↔ (o.kind, o.id) ≠ (o'.kind, o'.id) := by
        refine not_congr ⟨fun heq => heq ▸ rfl, fun heq => ?_⟩
        obtain ⟨hkind, hid⟩ := Prod.mk.inj heq
        cases o
        cases o'
        simp_all
      rw [hne]
      simp [Lifetimes.Present, and_assoc]
    · rw [Application.pushOn, Function.update_of_ne hc, and_iff_left]
      rintro rfl
      exact hc rfl

theorem Sound.init (h : Sound s pushed) {i : Nat} {o : Resource} {c : Creation}
    (hi : s.constructed[i]? = some (o, c)) (hparented : s.Parented o c) :
    Sound { s with
      constructed := s.constructed.eraseIdx i
      resources := s.resources ++ [o]
      created := s.created ++ [o] } (Application.pushOn pushed o.channel (c.init o.id)) := by
  have hmem : (o, c) ∈ s.constructed := List.mem_of_getElem? hi
  obtain ⟨hkind, hchannel⟩ : o.kind = c.kind ∧ o.channel ∈ s.channels := h.constructed _ hmem
  have hperm : (o, c) :: s.constructed.eraseIdx i ~ s.constructed := by
    obtain ⟨hlt, heq⟩ := List.getElem?_eq_some_iff.mp hi
    rw [← heq]
    exact List.getElem_cons_eraseIdx_perm hlt
  refine h.pushOn ⟨?_, by simp⟩ (fieldsFit_init _ _) hchannel rfl rfl ?_
    (List.eraseIdx_sublist _ _).subset (fun c' => ?_) fun o' => ?_
  · intro p hp
    rw [uses_init] at hp
    exact (h.resources _).mp (hparented p hp)
  · show s.created ++ [o] ++ (s.constructed.eraseIdx i).map Prod.fst ~ _
    rw [List.append_assoc, List.singleton_append]
    exact (hperm.map Prod.fst).append_left _
  · rw [created_pushOn, h.created, creates_init]
    show _ = ((s.created ++ [o]).filter (·.channel = c')).map _
    rw [List.filter_append, List.map_append]
    congr 1
    by_cases hc : c' = o.channel
    · subst hc
      simp [hkind]
    · simp [hc, Ne.symm hc]
  · show o' ∈ s.resources ++ [o] ↔ _
    rw [List.mem_append, List.mem_singleton, h.resources]
    by_cases hc : o'.channel = o.channel
    · rw [hc, Application.pushOn, Function.update_self, Lifetimes.present_concat, creates_init, ← hkind,
        deletes_init]
      have heq : o' = o ↔ some (o.kind, o.id) = some (o'.kind, o'.id) := by
        refine ⟨fun heq => heq ▸ rfl, fun heq => ?_⟩
        obtain ⟨hkind, hid⟩ := Prod.mk.inj (Option.some.inj heq)
        cases o
        cases o'
        simp_all
      have hnew : some (o.kind, o.id) = some (o'.kind, o'.id) →
          (o'.kind, o'.id) ∉ lifetimes.deleted (pushed o.channel) := by
        intro hsame hdeleted
        rw [← Option.some.inj hsame] at hdeleted
        exact h.not_created hmem _ _ ((h.orderly o.channel).created_of_deleted hdeleted)
      rw [heq, Lifetimes.Present]
      have hnone : (none : Option (Kind × UInt64)) ≠ some (o'.kind, o'.id) := (Option.some_ne_none _).symm
      tauto
    · rw [Application.pushOn, Function.update_of_ne hc, or_iff_left]
      rintro rfl
      exact hc rfl

theorem Sound.construct (h : Sound s pushed) {channel : Nat} (hchannel : channel ∈ s.channels)
    (c : Creation) (hfew : s.taken < 2 ^ 64) : Sound { s with
      serial := s.serial.nextResourceSerial.2
      constructed := s.constructed ++ [(⟨channel, c.kind, s.serial.resource⟩, c)] } pushed := by
  set s' : Application := { s with
      serial := s.serial.nextResourceSerial.2
      constructed := s.constructed ++ [(⟨channel, c.kind, s.serial.resource⟩, c)] } with hs'
  have htaken : s'.taken = s.taken + 1 := by simp [hs', taken, Nat.add_assoc]
  refine ⟨?_, htaken ▸ hfew, ?_, ?_, h.created, h.orderly, h.fits, h.resources, h.channels,
    h.fewChannels⟩
  · show s.serial.resource + 1 = _
    rw [h.serial, htaken, UInt64.ofNat_add (s.taken + 1) 1]
    rfl
  · have hsplit : (s'.created ++ s'.constructed.map Prod.fst).map Resource.id =
        (s.created ++ s.constructed.map Prod.fst).map Resource.id ++ [s.serial.resource] := by
      simp [hs']
    rw [hsplit, htaken, List.range_succ, @List.map_append _ _ _ (List.range _), h.serial]
    exact h.ids.append_right _
  · intro p hp
    rcases List.mem_append.mp hp with hp | hp
    · exact h.constructed p hp
    · obtain rfl := List.mem_singleton.mp hp
      exact ⟨rfl, hchannel⟩

theorem Sound.step (h : Sound s pushed) (hproper : s.Proper op) (hstep : s.step op = some (s', out)) :
    Sound s' (push pushed out) := by
  cases step_cases hstep with
  | createChannel =>
    refine ⟨h.serial, h.few, h.ids, fun p hp => ?_, h.created, h.orderly, h.fits, h.resources,
      fun c hc => List.mem_append_left _ (h.channels c hc), ?_⟩
    · obtain ⟨hkind, hchannel⟩ := h.constructed p hp
      exact ⟨hkind, List.mem_append_left _ hchannel⟩
    · rw [List.length_append]
      exact hproper
  | construct hchannel c => exact h.construct hchannel c hproper
  | init hi => exact h.init hi (hproper _ hi)
  | call ho hm => exact h.call ho hm
  | destroy ho => exact h.destroy ho

end Application

end ZenRemote.Server

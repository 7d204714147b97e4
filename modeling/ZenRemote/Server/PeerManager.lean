-- SUMMARY: Peer discovery: UDP broadcasts, the port-forward prober, ping timers, and which peers the manager reports.
import Mathlib.Data.List.AList
import ZenRemote.Lib.Machine

/-!
# Peer discovery

A peer is discovered by a broadcast or by a successful probe, and lost when its timer
expires or a probe fails. All of it happens in callbacks of the loop, on one thread, and
each of them is one step. Users take pointers to peers, and these keep the peer and its
timer beyond the list.
-/

namespace ZenRemote.Server

/-- A pointer to a peer is the peer's id. -/
structure Peer where
  host : String
  wired : Bool
  alive : Bool := true
  /-- The timer has been armed. Nothing reads it, so it goes on calling once it has expired. -/
  armed : Bool := false
  deriving DecidableEq, Repr

namespace PeerManager

inductive Signal where
  | onPeerDiscover (id : Nat)
  | onPeerLost (id : Nat)
  | onError (message : String)
  | onWarn (message : String)
  deriving DecidableEq, Repr

end PeerManager

structure PeerManager where
  peers : List Nat := []
  /-- The peers made so far. One exists as long as a pointer refers to it. -/
  made : AList (fun _ : Nat => Peer) := ∅
  /-- The pointers of the users. -/
  held : List Nat := []
  nextId : Nat := 0
  signals : List PeerManager.Signal := []

def FdSource.kReadable : Nat := 1

def kPortForwardedPeerHost : String := "127.0.0.1"

def discoverPacketPreamble : List UInt8 :=
  "55d65470abe34d2ca21c21e4eb1033d5".toList.map fun c => c.val.toUInt8

def discoverPacketVersion : Nat := 1

namespace PeerManager

def refersTo (m : PeerManager) (id : Nat) : Bool := m.peers.contains id || m.held.contains id

def hostOf (m : PeerManager) (id : Nat) : Option String := (m.made.lookup id).map Peer.host

def isAlive (m : PeerManager) (id : Nat) : Bool := ((m.made.lookup id).map Peer.alive).getD false

def modify (m : PeerManager) (id : Nat) (f : Peer → Peer) : PeerManager :=
  match m.made.lookup id with
  | some peer => { m with made := m.made.insert id (f peer) }
  | none => m

def emit (m : PeerManager) (signals : List Signal) : PeerManager :=
  { m with signals := m.signals ++ signals }

/-- The peer leaves the list, and the users are told. -/
def lose (m : PeerManager) (id : Nat) : PeerManager :=
  { m with peers := m.peers.filter (· ≠ id) }.emit [.onPeerLost id]

/-- `Peer::Expire`, with the `on_expired` that the manager sets. -/
def expire (m : PeerManager) (id : Nat) : PeerManager :=
  if m.isAlive id then (m.modify id fun peer => { peer with alive := false }).lose id else m

/-- `Peer::Ping`; `armed` tells whether `timerfd_settime` succeeds. -/
def ping (m : PeerManager) (id : Nat) (armed : Bool) : PeerManager :=
  if m.isAlive id then
    if armed then m.modify id fun peer => { peer with armed := true } else m.expire id
  else m

def findHost (m : PeerManager) (host : String) : Option Nat :=
  m.peers.find? fun id => m.hostOf id = some host

def createPeer (m : PeerManager) (host : String) (wired : Bool) : PeerManager :=
  { m with made := m.made.insert m.nextId { host, wired }, nextId := m.nextId + 1 }

def announce (m : PeerManager) (id : Nat) : PeerManager :=
  { m with peers := m.peers ++ [id] }.emit [.onPeerDiscover id]

/-- A sign of life from a host; `created` tells whether `CreatePeer` succeeds. -/
def discover (m : PeerManager) (host : String) (wired created armed : Bool) : PeerManager :=
  match m.findHost host with
  | some id => m.ping id armed
  | none =>
    if created then ((m.createPeer host wired).ping m.nextId armed).announce m.nextId
    else { m with nextId := m.nextId + 1 }

/-- The host a valid packet has come from, or what is emitted instead. The buffer takes
no more than the size of a packet. -/
def checkPacket (mask : Nat) (received : Except String (String × List UInt8)) :
    Except (List Signal) String :=
  if mask ≠ FdSource.kReadable then
    .error [.onError "Error on socket listening for UDP broadcast"]
  else
    match received with
    | .error what => .error [.onError ("Failed to read from UDP socket: " ++ what)]
    | .ok (host, datagram) =>
      let packet := datagram.take 34
      if packet.length ≠ 34 then .error []
      else if packet.take 32 ≠ discoverPacketPreamble then .error []
      else if (packet.getD 32 0).toNat + 256 * (packet.getD 33 0).toNat ≠ discoverPacketVersion then
        .error [.onWarn "Client version mismatch"]
      else .ok host

def acceptUdpBroadcast (m : PeerManager) (mask : Nat)
    (received : Except String (String × List UInt8)) (created armed : Bool) : PeerManager :=
  match checkPacket mask received with
  | .error signals => m.emit signals
  | .ok host => m.discover host false created armed

def portForwardedPeerProbe (m : PeerManager) (success created armed : Bool) : PeerManager :=
  if success then m.discover kPortForwardedPeerHost true created armed
  else (m.peers.filter fun id => m.hostOf id = some kPortForwardedPeerHost).foldl lose m

def get (m : PeerManager) (id : Nat) : Option Nat := m.peers.find? (· = id)

inductive Label where
  | acceptUdpBroadcast (mask : Nat) (received : Except String (String × List UInt8))
      (created armed : Bool)
  | portForwardedPeerProbe (success created armed : Bool)
  /-- The loop calls back for the timer of a peer. -/
  | timer (id : Nat)
  | get (id : Nat)
  | drop (id : Nat)

def step (m : PeerManager) : Label → Option PeerManager
  | .acceptUdpBroadcast mask received created armed =>
    some (m.acceptUdpBroadcast mask received created armed)
  | .portForwardedPeerProbe success created armed =>
    some (m.portForwardedPeerProbe success created armed)
  | .timer id =>
    if m.refersTo id ∧ ((m.made.lookup id).map Peer.armed).getD false then some (m.expire id)
    else none
  | .get id => some { m with held := m.held ++ (m.get id).toList }
  | .drop id => if id ∈ m.held then some { m with held := m.held.erase id } else none

def machine : Machine PeerManager Label where
  init := {}
  step := step

-- ---------------------------------------------------------------------------
-- The peers made so far
-- ---------------------------------------------------------------------------

variable {m m' : PeerManager} {id id' : Nat} {host : String}

@[simp] theorem peers_modify (f : Peer → Peer) : (m.modify id f).peers = m.peers := by
  unfold modify
  split <;> rfl

@[simp] theorem signals_modify (f : Peer → Peer) : (m.modify id f).signals = m.signals := by
  unfold modify
  split <;> rfl

@[simp] theorem nextId_modify (f : Peer → Peer) : (m.modify id f).nextId = m.nextId := by
  unfold modify
  split <;> rfl

theorem lookup_modify (f : Peer → Peer) :
    (m.modify id f).made.lookup id' =
      if id' = id then (m.made.lookup id).map f else m.made.lookup id' := by
  by_cases h : id' = id
  · subst h
    cases hlookup : m.made.lookup id' with
    | none => simp [modify, hlookup]
    | some peer => simp [modify, hlookup]
  · rw [if_neg h]
    cases hlookup : m.made.lookup id with
    | none => simp [modify, hlookup]
    | some peer => simp [modify, hlookup, AList.lookup_insert_ne h]

@[simp] theorem mem_modify (f : Peer → Peer) : id' ∈ (m.modify id f).made ↔ id' ∈ m.made := by
  rw [← AList.lookup_isSome, ← AList.lookup_isSome, lookup_modify]
  split
  · rename_i h
    rw [h, Option.isSome_map]
  · rfl

theorem hostOf_modify {f : Peer → Peer} (hf : ∀ peer, (f peer).host = peer.host) :
    (m.modify id f).hostOf id' = m.hostOf id' := by
  rw [hostOf, hostOf, lookup_modify]
  split
  · rename_i h
    subst h
    simp only [Option.map_map, Function.comp_def, hf]
  · rfl

theorem isAlive_modify_of_ne {f : Peer → Peer} (h : id' ≠ id) :
    (m.modify id f).isAlive id' = m.isAlive id' := by
  rw [isAlive, lookup_modify, if_neg h, isAlive]

theorem isAlive_modify {f : Peer → Peer} (hf : ∀ peer, (f peer).alive = peer.alive) :
    (m.modify id f).isAlive id' = m.isAlive id' := by
  rw [isAlive, isAlive, lookup_modify]
  split
  · rename_i h
    subst h
    simp only [Option.map_map, Function.comp_def, hf]
  · rfl

-- ---------------------------------------------------------------------------
-- Discovery
-- ---------------------------------------------------------------------------

/-- Every loss comes after the discovery. -/
def LostAfter (signals : List Signal) : Prop :=
  ∀ id before after, signals = before ++ .onPeerLost id :: after → .onPeerDiscover id ∈ before

/-- The list holds one peer a host, all alive; each peer that was made has been discovered
once and lost at most once; and the list holds those that are not lost. -/
structure Discovery (m : PeerManager) : Prop where
  hosts : (m.peers.map m.hostOf).Nodup
  alive : ∀ id ∈ m.peers, m.isAlive id
  discovered : ∀ id, m.signals.count (.onPeerDiscover id) = if id ∈ m.made then 1 else 0
  lost : ∀ id, m.signals.count (.onPeerLost id) ≤ 1
  lostAfter : LostAfter m.signals
  exact : ∀ id, id ∈ m.peers ↔ .onPeerDiscover id ∈ m.signals ∧ .onPeerLost id ∉ m.signals

structure Invariant (m : PeerManager) : Prop extends Discovery m where
  fresh : ∀ id ∈ m.made, id < m.nextId

theorem invariant_init : Invariant ({} : PeerManager) where
  hosts := List.nodup_nil
  alive := nofun
  discovered := fun _ => rfl
  lost := fun _ => Nat.zero_le _
  lostAfter := by
    intro id before after h
    simp at h
  exact := by
    intro id
    simp
  fresh := nofun

theorem LostAfter.concat {signals : List Signal} (h : LostAfter signals) {signal : Signal}
    (hlost : ∀ id, signal = .onPeerLost id → .onPeerDiscover id ∈ signals) :
    LostAfter (signals ++ [signal]) := by
  intro id before after heq
  rcases List.eq_nil_or_concat after with rfl | ⟨after', signal', rfl⟩
  · obtain ⟨rfl, hsignal⟩ := List.append_inj' heq rfl
    exact hlost id (List.singleton_inj.mp hsignal)
  · rw [List.concat_eq_append, ← List.cons_append, ← List.append_assoc] at heq
    exact h id before after' (List.append_inj' heq rfl).1

theorem Discovery.mem_made (h : Discovery m) : .onPeerDiscover id ∈ m.signals ↔ id ∈ m.made := by
  rw [← List.count_pos_iff, h.discovered]
  split
  · rename_i hmade
    simp [hmade]
  · rename_i hmade
    simp [hmade]

/-- A change that the list and the signals have no part in. -/
theorem Invariant.unlisted (h : Invariant m) (hpeers : m'.peers = m.peers) (hmade : m'.made = m.made)
    (hsignals : m'.signals = m.signals) (hnext : m.nextId ≤ m'.nextId) : Invariant m' := by
  cases m'
  subst hpeers hmade hsignals
  exact ⟨⟨h.hosts, h.alive, h.discovered, h.lost, h.lostAfter, h.exact⟩, fun id hid =>
    Nat.lt_of_lt_of_le (h.fresh id hid) hnext⟩

/-- Signals of another kind. -/
theorem Invariant.emit (h : Invariant m) {signals : List Signal}
    (hother : ∀ id, .onPeerDiscover id ∉ signals ∧ .onPeerLost id ∉ signals) :
    Invariant (m.emit signals) := by
  have hafter : ∀ l : List Signal, (∀ id, .onPeerLost id ∉ l) → LostAfter (m.signals ++ l) := by
    intro l hl
    induction l using List.reverseRecOn with
    | nil => simpa using h.lostAfter
    | append_singleton l signal ih =>
      rw [← List.append_assoc]
      refine (ih fun id hid => hl id (List.mem_append_left _ hid)).concat ?_
      rintro id rfl
      exact absurd (List.mem_append_right l List.mem_cons_self) (hl id)
  refine ⟨⟨h.hosts, h.alive, ?_, ?_, hafter signals fun id => (hother id).2, ?_⟩, h.fresh⟩
  · intro id
    rw [PeerManager.emit, List.count_append, List.count_eq_zero_of_not_mem (hother id).1]
    exact h.discovered id
  · intro id
    rw [PeerManager.emit, List.count_append, List.count_eq_zero_of_not_mem (hother id).2]
    exact h.lost id
  · intro id
    show id ∈ m.peers ↔ _ ∈ m.signals ++ signals ∧ _ ∉ m.signals ++ signals
    rw [List.mem_append, List.mem_append, or_iff_left (hother id).1, or_iff_left (hother id).2]
    exact h.exact id

theorem Invariant.modify (h : Invariant m) {f : Peer → Peer}
    (hhost : ∀ peer, (f peer).host = peer.host)
    (halive : id ∈ m.peers → ∀ peer, (f peer).alive = peer.alive) : Invariant (m.modify id f) where
  hosts := by
    have hsame : (m.modify id f).hostOf = m.hostOf := funext fun _ => hostOf_modify hhost
    rw [peers_modify, hsame]
    exact h.hosts
  alive := by
    intro id' hid'
    rw [peers_modify] at hid'
    by_cases heq : id' = id
    · subst heq
      rw [isAlive_modify (halive hid')]
      exact h.alive _ hid'
    · rw [isAlive_modify_of_ne heq]
      exact h.alive _ hid'
  discovered := by
    intro id'
    rw [signals_modify, h.discovered]
    simp only [mem_modify]
  lost := by simpa using h.lost
  lostAfter := by simpa using h.lostAfter
  exact := by simpa using h.exact
  fresh := by simpa using h.fresh

/-- A peer of the list is lost. -/
theorem Invariant.lose (h : Invariant m) (hmem : id ∈ m.peers) : Invariant (m.lose id) := by
  obtain ⟨hdiscovered, hlost⟩ := (h.exact id).mp hmem
  refine ⟨⟨?_, ?_, ?_, ?_, ?_, ?_⟩, h.fresh⟩
  · exact h.hosts.sublist (List.filter_sublist.map _)
  · exact fun id' hid' => h.alive id' (List.mem_of_mem_filter hid')
  · intro id'
    show (m.signals ++ [Signal.onPeerLost id]).count _ = _
    rw [List.count_append]
    exact h.discovered id'
  · intro id'
    show (m.signals ++ [Signal.onPeerLost id]).count _ ≤ 1
    rw [List.count_append]
    by_cases heq : id' = id
    · rw [heq, List.count_eq_zero_of_not_mem hlost]
      exact Nat.le_of_eq (by simp)
    · have hother : [Signal.onPeerLost id].count (.onPeerLost id') = 0 := by
        rw [List.count_eq_zero, List.mem_singleton]
        exact fun hsame => heq (Signal.onPeerLost.inj hsame)
      rw [hother]
      exact h.lost id'
  · refine h.lostAfter.concat ?_
    rintro id' ⟨⟩
    exact hdiscovered
  · intro id'
    show id' ∈ m.peers.filter (· ≠ id) ↔
      _ ∈ m.signals ++ [.onPeerLost id] ∧ _ ∉ m.signals ++ [.onPeerLost id]
    rw [List.mem_filter, h.exact id']
    simp only [List.mem_append, List.mem_singleton, reduceCtorEq, or_false, not_or,
      Signal.onPeerLost.injEq, decide_eq_true_eq]
    exact and_assoc

theorem Invariant.expire (h : Invariant m) (hmem : m.isAlive id → id ∈ m.peers) :
    Invariant (m.expire id) := by
  unfold PeerManager.expire
  split
  · rename_i halive
    -- The order of the two effects does not matter to the result.
    have hcomm : (m.modify id fun peer => { peer with alive := false }).lose id =
        (m.lose id).modify id fun peer => { peer with alive := false } := by
      unfold PeerManager.modify PeerManager.lose PeerManager.emit
      dsimp only
      split <;> rfl
    rw [hcomm]
    refine (h.lose (hmem halive)).modify (fun _ => rfl) fun hleft => ?_
    exact absurd rfl (of_decide_eq_true (List.mem_filter.mp hleft).2)
  · exact h

theorem Invariant.ping (h : Invariant m) (hmem : id ∈ m.peers) (armed : Bool) :
    Invariant (m.ping id armed) := by
  unfold PeerManager.ping
  split
  · split
    · exact h.modify (fun _ => rfl) fun _ _ => rfl
    · exact h.expire fun _ => hmem
  · exact h

theorem Invariant.loseAll (h : Invariant m) {ids : List Nat} (hids : ids.Nodup)
    (hmem : ∀ id ∈ ids, id ∈ m.peers) : Invariant (ids.foldl PeerManager.lose m) := by
  induction ids generalizing m with
  | nil => exact h
  | cons id ids ih =>
    rw [List.nodup_cons] at hids
    refine ih (h.lose (hmem id List.mem_cons_self)) hids.2 fun id' hid' => ?_
    have hne : id' ≠ id := fun heq => hids.1 (heq ▸ hid')
    exact List.mem_filter.mpr ⟨hmem id' (List.mem_cons_of_mem _ hid'), decide_eq_true hne⟩

theorem hostOf_createPeer (h : Invariant m) (hmem : id ∈ m.made) {wired : Bool} :
    (m.createPeer host wired).hostOf id = m.hostOf id := by
  rw [hostOf, createPeer, AList.lookup_insert_ne (Nat.ne_of_lt (h.fresh id hmem)), hostOf]

theorem isAlive_createPeer (h : Invariant m) (hmem : id ∈ m.made) {wired : Bool} :
    (m.createPeer host wired).isAlive id = m.isAlive id := by
  rw [isAlive, createPeer, AList.lookup_insert_ne (Nat.ne_of_lt (h.fresh id hmem)), isAlive]

/-- A new peer whose timer can be armed joins the list. -/
theorem Invariant.join (h : Invariant m) (hnew : ∀ id ∈ m.peers, m.hostOf id ≠ some host)
    {wired : Bool} : Invariant ((m.createPeer host wired).announce m.nextId) := by
  have hmade : ∀ {id}, id ∈ m.peers → id ∈ m.made :=
    fun hid => h.mem_made.mp ((h.exact _).mp hid).1
  have hunmade : m.nextId ∉ m.made := fun hid => Nat.lt_irrefl _ (h.fresh _ hid)
  have hundiscovered : .onPeerDiscover m.nextId ∉ m.signals := fun hid => hunmade (h.mem_made.mp hid)
  have hunlost : .onPeerLost m.nextId ∉ m.signals := by
    intro hid
    obtain ⟨before, after, heq⟩ := List.append_of_mem hid
    exact hundiscovered (heq ▸ List.mem_append_left _ (h.lostAfter _ before after heq))
  have hself : (m.createPeer host wired).hostOf m.nextId = some host := by
    simp [hostOf, createPeer]
  refine ⟨⟨?_, ?_, ?_, ?_, ?_, ?_⟩, ?_⟩
  · show ((m.peers ++ [m.nextId]).map (m.createPeer host wired).hostOf).Nodup
    rw [List.map_append, List.map_singleton, hself,
      List.map_congr_left fun id hid => hostOf_createPeer h (hmade hid)]
    refine List.Nodup.append h.hosts (List.nodup_singleton _) ?_
    rw [List.disjoint_singleton]
    rintro hhost
    obtain ⟨id, hid, hsame⟩ := List.mem_map.mp hhost
    exact hnew id hid hsame
  · intro id hid
    rcases List.mem_append.mp hid with hid | hid
    · exact (isAlive_createPeer h (hmade hid)).trans (h.alive id hid)
    · rw [List.mem_singleton.mp hid]
      simp [isAlive, announce, PeerManager.emit, createPeer]
  · intro id
    show (m.signals ++ [Signal.onPeerDiscover m.nextId]).count _ = if id ∈ m.made.insert _ _ then 1 else 0
    rw [List.count_append, h.discovered]
    simp only [AList.mem_insert]
    by_cases heq : id = m.nextId
    · simp [heq, hunmade]
    · simp [heq, Ne.symm heq]
  · intro id
    show (m.signals ++ [Signal.onPeerDiscover m.nextId]).count _ ≤ 1
    rw [List.count_append]
    exact h.lost id
  · exact h.lostAfter.concat nofun
  · intro id
    show id ∈ m.peers ++ [m.nextId] ↔ _ ∈ m.signals ++ [.onPeerDiscover m.nextId] ∧
      _ ∉ m.signals ++ [.onPeerDiscover m.nextId]
    rw [List.mem_append, List.mem_singleton, h.exact id]
    simp only [List.mem_append, List.mem_singleton, reduceCtorEq, or_false,
      Signal.onPeerDiscover.injEq]
    constructor
    · rintro (⟨hdiscovered, hlost⟩ | rfl)
      · exact ⟨.inl hdiscovered, hlost⟩
      · exact ⟨.inr rfl, hunlost⟩
    · rintro ⟨hdiscovered | rfl, hlost⟩
      · exact .inl ⟨hdiscovered, hlost⟩
      · exact .inr rfl
  · intro id hid
    rcases (AList.mem_insert _).mp hid with rfl | hid
    · exact Nat.lt_succ_self _
    · exact Nat.lt_succ_of_lt (h.fresh id hid)

theorem Invariant.discover (h : Invariant m) {wired created armed : Bool}
    (harmed : m.findHost host = none → created → armed) :
    Invariant (m.discover host wired created armed) := by
  unfold PeerManager.discover
  split
  · rename_i id hid
    exact h.ping (List.mem_of_find?_eq_some hid) armed
  · rename_i hnone
    split
    · rename_i hcreated
      have hnew : ∀ id ∈ m.peers, m.hostOf id ≠ some host :=
        fun id hid => of_decide_eq_false (Bool.eq_false_iff.mpr (List.find?_eq_none.mp hnone id hid))
      have halive : (m.createPeer host wired).isAlive m.nextId := by simp [isAlive, createPeer]
      have hping : ((m.createPeer host wired).ping m.nextId armed).announce m.nextId =
          ((m.createPeer host wired).announce m.nextId).modify m.nextId
            fun peer => { peer with armed := true } := by
        rw [PeerManager.ping, if_pos halive, if_pos (harmed hnone hcreated)]
        unfold PeerManager.modify announce PeerManager.emit
        dsimp only
        split <;> rfl
      rw [hping]
      exact (h.join hnew).modify (fun _ => rfl) fun _ _ => rfl
    · exact h.unlisted rfl rfl rfl (Nat.le_succ _)

theorem checkPacket_other {mask : Nat} {received : Except String (String × List UInt8)}
    {signals : List Signal} (h : checkPacket mask received = .error signals) (id : Nat) :
    .onPeerDiscover id ∉ signals ∧ .onPeerLost id ∉ signals := by
  unfold checkPacket at h
  split at h
  · cases h
    simp
  · split at h
    · cases h
      simp
    · dsimp only at h
      split at h
      · cases h
        simp
      · split at h
        · cases h
          simp
        · split at h
          · cases h
            simp
          · cases h

-- ---------------------------------------------------------------------------
-- Runs
-- ---------------------------------------------------------------------------

/-- The timer of a new peer can be armed, and no timer expires of a peer that is alive but
not in the list any more. -/
def Timely (m : PeerManager) : Label → Prop
  | .acceptUdpBroadcast mask received created armed =>
    ∀ host, checkPacket mask received = .ok host → m.findHost host = none → created → armed
  | .portForwardedPeerProbe success created armed =>
    success → m.findHost kPortForwardedPeerHost = none → created → armed
  | .timer id => m.isAlive id → id ∈ m.peers
  | .get _ | .drop _ => True

theorem Invariant.step (h : Invariant m) {l : Label} (htimely : Timely m l)
    (hstep : m.step l = some m') : Invariant m' := by
  cases l with
  | acceptUdpBroadcast mask received created armed =>
    cases hstep
    unfold PeerManager.acceptUdpBroadcast
    split
    · rename_i signals hcheck
      exact h.emit (checkPacket_other hcheck)
    · rename_i host hcheck
      exact h.discover (htimely host hcheck)
  | portForwardedPeerProbe success created armed =>
    cases hstep
    unfold PeerManager.portForwardedPeerProbe
    split
    · rename_i hsuccess
      exact h.discover (htimely hsuccess)
    · exact h.loseAll (h.hosts.of_map.filter _) fun id hid => (List.mem_filter.mp hid).1
  | timer id =>
    obtain ⟨-, hm'⟩ := Option.ite_none_right_eq_some.mp hstep
    cases hm'
    exact h.expire htimely
  | get id =>
    cases hstep
    exact h.unlisted rfl rfl rfl (Nat.le_refl _)
  | drop id =>
    obtain ⟨-, hm'⟩ := Option.ite_none_right_eq_some.mp hstep
    cases hm'
    exact h.unlisted rfl rfl rfl (Nat.le_refl _)

/-- In every state that a run reaches whose steps are all timely. -/
theorem discovery_run {ls : List Label} (halong : machine.Along Timely ls)
    (hrun : machine.run ls = some m) : Discovery m :=
  (halong.invariant (I := Invariant) invariant_init (fun _ _ _ h htimely hstep => h.step htimely hstep)
    hrun).toDiscovery

def validPacket (host : String) : Except String (String × List UInt8) :=
  .ok (host, discoverPacketPreamble ++ [1, 0])

/-- Two peers are discovered; one is pinged, taken by a user and expires, the other is lost
to a failed probe. -/
def expiredAndUnreachable : List Label :=
  [.acceptUdpBroadcast 1 (validPacket "10.0.0.2") true true,
    .acceptUdpBroadcast 1 (validPacket "10.0.0.2") true true, .portForwardedPeerProbe true true true,
    .get 0, .timer 0, .timer 0, .portForwardedPeerProbe false true true]

theorem discovery_expiredAndUnreachable :
    ∃ m, machine.run expiredAndUnreachable = some m ∧ Discovery m ∧
      m.signals = [.onPeerDiscover 0, .onPeerDiscover 1, .onPeerLost 0, .onPeerLost 1] := by
  obtain ⟨m, hrun, hsignals⟩ : ∃ m, machine.run expiredAndUnreachable = some m ∧
      m.signals = [.onPeerDiscover 0, .onPeerDiscover 1, .onPeerLost 0, .onPeerLost 1] := ⟨_, rfl, rfl⟩
  have halong : machine.Along Timely expiredAndUnreachable :=
    ⟨fun _ _ _ _ => rfl, fun _ _ _ _ => rfl, fun _ _ _ => rfl, trivial, fun _ => by decide +kernel,
      fun halive => absurd halive (by decide +kernel), nofun, trivial⟩
  exact ⟨m, hrun, discovery_run halong hrun, hsignals⟩

/-- A user keeps a peer that a failed probe has removed, and its timer expires. -/
def heldBeyondProbe : List Label :=
  [.portForwardedPeerProbe true true true, .get 0, .portForwardedPeerProbe false true true, .timer 0]

/-- The timer of a new peer cannot be armed. -/
def unarmed : List Label := [.acceptUdpBroadcast 1 (validPacket "10.0.0.2") true false]

theorem not_discovery_heldBeyondProbe_unarmed :
    (∃ m, machine.run heldBeyondProbe = some m ∧ ¬ Discovery m) ∧
      ∃ m, machine.run unarmed = some m ∧ ¬ Discovery m := by
  constructor
  · obtain ⟨m, hrun, hsignals⟩ : ∃ m, machine.run heldBeyondProbe = some m ∧
        m.signals = [.onPeerDiscover 0, .onPeerLost 0, .onPeerLost 0] := ⟨_, rfl, rfl⟩
    refine ⟨m, hrun, fun h => ?_⟩
    have htwice := h.lost 0
    rw [hsignals] at htwice
    exact absurd htwice (by decide)
  · obtain ⟨m, hrun, hsignals⟩ : ∃ m, machine.run unarmed = some m ∧
        m.signals = [.onPeerLost 0, .onPeerDiscover 0] := ⟨_, rfl, rfl⟩
    exact ⟨m, hrun, fun h => absurd (h.lostAfter 0 [] [.onPeerDiscover 0] hsignals) (by simp)⟩

end PeerManager

end ZenRemote.Server

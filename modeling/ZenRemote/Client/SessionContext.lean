-- SUMMARY: The metadata of a session-scoped request: what the server writes, and what the client takes for it.
import ZenRemote.Core.Common
import ZenRemote.Lib.Decimal

/-!
# Session contexts

`SerialRequestContext` writes three numbers as decimal numerals, and `IsSessionContext`
reads them back. It reads more than numerals, so it takes some requests that no server has
written.
-/

namespace ZenRemote

/-- The entries of the metadata, in the order in which a search passes them. -/
abbrev Metadata := List (String × List Char)

def kGrpcMetadataSerialKey : String := "serial"

def kGrpcMetadataSessionKey : String := "session"

def kGrpcMetadataChannelKey : String := "channel"

namespace Metadata

/-- The value under a key, `none` at the end of the map. -/
def find (metadata : Metadata) (key : String) : Option (List Char) :=
  (metadata.find? fun entry => entry.1 == key).map Prod.snd

theorem find_append_of_ne {before rest : Metadata} {key : String} (h : ∀ entry ∈ before, entry.1 ≠ key) :
    Metadata.find (before ++ rest) key = rest.find key := by
  have hnone : before.find? (fun entry => entry.1 == key) = none :=
    List.find?_eq_none.mpr fun entry hentry hkey => h entry hentry (beq_iff_eq.mp hkey)
  rw [find, find, List.find?_append, hnone, Option.none_or]

end Metadata

/-- What `SerialRequestContext` adds to the metadata of its call. -/
def RequestContext.metadata (context : RequestContext) : Metadata :=
  [(kGrpcMetadataSerialKey, Decimal.toString context.serial),
    (kGrpcMetadataSessionKey, Decimal.toString context.session),
    (kGrpcMetadataChannelKey, Decimal.toString context.channel)]

namespace Client

/-- The three outputs of `IsSessionContext`. -/
structure SessionContext where
  sessionId : UInt64
  requestSerial : UInt64
  channelId : UInt64
  deriving DecidableEq, Repr

/-- The number that it writes, or `none` when it returns false and writes nothing. -/
def stringRefToUint64 (stringRef : List Char) : Option UInt64 :=
  match Decimal.stoull stringRef with
  | .ok n => some n
  | .error .invalidArgument => none
  | .error .outOfRange => none

/-- What it returns, and its outputs, which are `out` before the call. -/
def isSessionContext (metadata : Metadata) (out : SessionContext) : Bool × SessionContext :=
  match metadata.find kGrpcMetadataSessionKey with
  | none => (false, out)
  | some session =>
    match stringRefToUint64 session with
    | none => (false, out)
    | some sessionId =>
      match metadata.find kGrpcMetadataSerialKey with
      | none => (false, out)
      | some serial =>
        match stringRefToUint64 serial with
        | none => (false, out)
        | some requestSerial =>
          match metadata.find kGrpcMetadataChannelKey with
          | none => (false, out)
          | some channel =>
            match stringRefToUint64 channel with
            | none => (false, out)
            | some channelId => (true, ⟨sessionId, requestSerial, channelId⟩)

namespace SessionContext

def toRequestContext (ids : SessionContext) : RequestContext :=
  ⟨ids.sessionId.toNat, ids.requestSerial.toNat, ids.channelId.toNat⟩

/-- The values under the three keys are texts of the three numbers, as `R` has it. -/
structure HeldIn (R : List Char → UInt64 → Prop) (ids : SessionContext) (metadata : Metadata) : Prop where
  session : ∃ text, metadata.find kGrpcMetadataSessionKey = some text ∧ R text ids.sessionId
  serial : ∃ text, metadata.find kGrpcMetadataSerialKey = some text ∧ R text ids.requestSerial
  channel : ∃ text, metadata.find kGrpcMetadataChannelKey = some text ∧ R text ids.channelId

theorem exists_toRequestContext {context : RequestContext} (h : context.Fits) :
    ∃ ids : SessionContext, ids.toRequestContext = context := by
  refine ⟨⟨.ofNat context.session, .ofNat context.serial, .ofNat context.channel⟩, ?_⟩
  simp only [toRequestContext, UInt64.toNat_ofNat_of_lt' h.session, UInt64.toNat_ofNat_of_lt' h.serial,
    UInt64.toNat_ofNat_of_lt' h.channel]

end SessionContext

variable {metadata : Metadata} {out ids : SessionContext}

theorem stringRefToUint64_eq_some_iff {stringRef : List Char} {n : UInt64} :
    stringRefToUint64 stringRef = some n ↔ Decimal.Reads stringRef n := by
  rw [← Decimal.stoull_eq_ok_iff, stringRefToUint64]
  cases Decimal.stoull stringRef with
  | ok m => rw [Option.some.injEq, Except.ok.injEq]
  | error e =>
    cases e with
    | invalidArgument => exact iff_of_false nofun nofun
    | outOfRange => exact iff_of_false nofun nofun

-- ---------------------------------------------------------------------------
-- What is read
-- ---------------------------------------------------------------------------

/-- The number that the value under a key is read as. -/
def reading (metadata : Metadata) (key : String) : Option UInt64 :=
  (metadata.find key).bind stringRefToUint64

theorem reading_eq_some_iff {key : String} {n : UInt64} :
    reading metadata key = some n ↔ ∃ text, metadata.find key = some text ∧ Decimal.Reads text n := by
  rw [reading, Option.bind_eq_some_iff]
  exact exists_congr fun text => and_congr_right fun _ => stringRefToUint64_eq_some_iff

/-- The three numbers, read one after the other. -/
def readContext (metadata : Metadata) : Option SessionContext := do
  let sessionId ← reading metadata kGrpcMetadataSessionKey
  let requestSerial ← reading metadata kGrpcMetadataSerialKey
  let channelId ← reading metadata kGrpcMetadataChannelKey
  return ⟨sessionId, requestSerial, channelId⟩

theorem readContext_eq_some_iff :
    readContext metadata = some ids ↔ ids.HeldIn Decimal.Reads metadata := by
  simp only [readContext, Option.bind_eq_bind, Option.bind_eq_some_iff]
  constructor
  · rintro ⟨sessionId, hsession, requestSerial, hserial, channelId, hchannel, hids⟩
    cases hids
    exact ⟨reading_eq_some_iff.mp hsession, reading_eq_some_iff.mp hserial,
      reading_eq_some_iff.mp hchannel⟩
  · rintro ⟨hsession, hserial, hchannel⟩
    exact ⟨_, reading_eq_some_iff.mpr hsession, _, reading_eq_some_iff.mpr hserial, _,
      reading_eq_some_iff.mpr hchannel, rfl⟩

/-- The early returns are all alike. -/
theorem isSessionContext_eq :
    isSessionContext metadata out =
      match readContext metadata with
      | some ids => (true, ids)
      | none => (false, out) := by
  simp only [isSessionContext, readContext, reading]
  cases metadata.find kGrpcMetadataSessionKey with
  | none => rfl
  | some session =>
    cases hsession : stringRefToUint64 session with
    | none => simp only [Option.bind_some, hsession]; rfl
    | some sessionId =>
      simp only [Option.bind_some, hsession]
      cases metadata.find kGrpcMetadataSerialKey with
      | none => rfl
      | some serial =>
        cases hserial : stringRefToUint64 serial with
        | none => simp only [Option.bind_some, hserial]; rfl
        | some requestSerial =>
          simp only [Option.bind_some, hserial]
          cases metadata.find kGrpcMetadataChannelKey with
          | none => rfl
          | some channel =>
            cases hchannel : stringRefToUint64 channel with
            | none => simp only [Option.bind_some, hchannel]; rfl
            | some channelId => simp only [Option.bind_some, hchannel]; rfl

theorem isSessionContext_of_heldIn (h : ids.HeldIn Decimal.Reads metadata) :
    isSessionContext metadata out = (true, ids) := by
  rw [isSessionContext_eq, readContext_eq_some_iff.mpr h]

/-- Nothing is written when the metadata is not taken. -/
theorem isSessionContext_of_not_heldIn (h : ∀ ids : SessionContext, ¬ ids.HeldIn Decimal.Reads metadata) :
    isSessionContext metadata out = (false, out) := by
  rw [isSessionContext_eq]
  cases hread : readContext metadata with
  | none => rfl
  | some ids => exact absurd (readContext_eq_some_iff.mp hread) (h ids)

theorem SessionContext.HeldIn.and {R Q : List Char → UInt64 → Prop} :
    ids.HeldIn (fun text n => R text n ∧ Q text n) metadata ↔ ids.HeldIn R metadata ∧ ids.HeldIn Q metadata := by
  have hand : ∀ (key : String) (n : UInt64), (∃ text, metadata.find key = some text ∧ R text n ∧ Q text n) ↔
      (∃ text, metadata.find key = some text ∧ R text n) ∧
        ∃ text, metadata.find key = some text ∧ Q text n := by
    intro key n
    constructor
    · rintro ⟨text, hfind, hR, hQ⟩
      exact ⟨⟨text, hfind, hR⟩, ⟨text, hfind, hQ⟩⟩
    · rintro ⟨⟨text, hfind, hR⟩, ⟨text', hfind', hQ⟩⟩
      obtain rfl := Option.some.inj (hfind.symm.trans hfind')
      exact ⟨text, hfind, hR, hQ⟩
  constructor
  · rintro ⟨hsession, hserial, hchannel⟩
    rw [hand] at hsession hserial hchannel
    exact ⟨⟨hsession.1, hserial.1, hchannel.1⟩, ⟨hsession.2, hserial.2, hchannel.2⟩⟩
  · rintro ⟨⟨hsession, hserial, hchannel⟩, ⟨hsession', hserial', hchannel'⟩⟩
    exact ⟨(hand _ _).mpr ⟨hsession, hsession'⟩, (hand _ _).mpr ⟨hserial, hserial'⟩,
      (hand _ _).mpr ⟨hchannel, hchannel'⟩⟩

theorem heldIn_numeral_iff :
    ids.HeldIn Decimal.Numeral metadata ↔
      ids.HeldIn Decimal.Reads metadata ∧ ids.HeldIn (fun text _ => Decimal.AllDigits text) metadata := by
  have hnumeral : Decimal.Numeral = fun text n => Decimal.Reads text n ∧ Decimal.AllDigits text :=
    funext fun _ => funext fun _ => propext Decimal.numeral_iff
  rw [hnumeral]
  exact SessionContext.HeldIn.and

-- ---------------------------------------------------------------------------
-- What is taken
-- ---------------------------------------------------------------------------

/-- The metadata is taken exactly if the three values are numerals. -/
structure AcceptsExactly (metadata : Metadata) (out : SessionContext) : Prop where
  accepts : ∀ ids : SessionContext, ids.HeldIn Decimal.Numeral metadata →
    isSessionContext metadata out = (true, ids)
  rejects : (∀ ids : SessionContext, ¬ ids.HeldIn Decimal.Numeral metadata) →
    isSessionContext metadata out = (false, out)

/-- Where the three values can be read, they have nothing but digits. -/
def DigitsOnly (metadata : Metadata) : Prop :=
  ∀ ids : SessionContext, ids.HeldIn Decimal.Reads metadata →
    ids.HeldIn (fun text _ => Decimal.AllDigits text) metadata

theorem acceptsExactly_iff : AcceptsExactly metadata out ↔ DigitsOnly metadata := by
  constructor
  · rintro ⟨-, hrejects⟩ ids hread
    by_cases hnumeral : ∃ ids' : SessionContext, ids'.HeldIn Decimal.Numeral metadata
    · obtain ⟨ids', hnumeral⟩ := hnumeral
      obtain ⟨-, hsession, hserial, hchannel⟩ := heldIn_numeral_iff.mp hnumeral
      exact ⟨hsession, hserial, hchannel⟩
    · have hrejected := hrejects (not_exists.mp hnumeral)
      rw [isSessionContext_of_heldIn hread] at hrejected
      exact absurd (congrArg Prod.fst hrejected) Bool.noConfusion
  · intro hdigits
    refine ⟨fun ids hnumeral => isSessionContext_of_heldIn (heldIn_numeral_iff.mp hnumeral).1,
      fun hnumeral => isSessionContext_of_not_heldIn fun ids hread => ?_⟩
    exact hnumeral ids (heldIn_numeral_iff.mpr ⟨hread, hdigits ids hread⟩)

def signedSerial : Metadata :=
  [(kGrpcMetadataSerialKey, ['-', '1']), (kGrpcMetadataSessionKey, ['1']),
    (kGrpcMetadataChannelKey, ['2', 'x'])]

/-- A serial with a sign and a channel with a letter behind it. -/
theorem not_acceptsExactly_signedSerial :
    isSessionContext signedSerial ⟨0, 0, 0⟩ = (true, ⟨1, 18446744073709551615, 2⟩) ∧
      ¬ AcceptsExactly signedSerial ⟨0, 0, 0⟩ := by
  have htaken : isSessionContext signedSerial ⟨0, 0, 0⟩ = (true, ⟨1, 18446744073709551615, 2⟩) := rfl
  refine ⟨htaken, fun h => ?_⟩
  have hrejected : isSessionContext signedSerial ⟨0, 0, 0⟩ = (false, ⟨0, 0, 0⟩) := by
    refine h.rejects ?_
    rintro ids ⟨-, ⟨text, hfind, hnumeral⟩, -⟩
    cases hfind
    exact absurd hnumeral.digits (by decide)
  exact Bool.noConfusion (congrArg Prod.fst (htaken.symm.trans hrejected))

/-- What the server writes is taken, and read back as it was. -/
theorem isSessionContext_metadata (ids out : SessionContext) {before after : Metadata}
    (hsession : ∀ entry ∈ before, entry.1 ≠ kGrpcMetadataSessionKey)
    (hserial : ∀ entry ∈ before, entry.1 ≠ kGrpcMetadataSerialKey)
    (hchannel : ∀ entry ∈ before, entry.1 ≠ kGrpcMetadataChannelKey) :
    isSessionContext (before ++ (ids.toRequestContext.metadata ++ after)) out = (true, ids) := by
  have hreads (n : UInt64) : Decimal.Reads (Decimal.toString n.toNat) n :=
    (Decimal.numeral_iff.mp (Decimal.numeral_toString n)).1
  apply isSessionContext_of_heldIn
  refine ⟨⟨_, ?_, hreads ids.sessionId⟩, ⟨_, ?_, hreads ids.requestSerial⟩,
    ⟨_, ?_, hreads ids.channelId⟩⟩
  · rw [Metadata.find_append_of_ne hsession]
    rfl
  · rw [Metadata.find_append_of_ne hserial]
    rfl
  · rw [Metadata.find_append_of_ne hchannel]
    rfl

end Client

end ZenRemote

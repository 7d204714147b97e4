-- SUMMARY: Decimal numerals, what reads them as a 64-bit number, and which other texts it reads as one.
import Mathlib.Algebra.Ring.Nat
import Mathlib.Data.List.TakeWhile

/-!
# Decimal numerals

A numeral is a non-empty string of digits. The reader of the C library takes more than
numerals: it skips white space, takes a sign, and stops at the first character that is not a
digit. `Reads` says which texts it takes, and as which number.
-/

namespace Decimal

/-- The value of a string of digits. -/
def value (digits : List Char) : Nat := Nat.ofDigitChars 10 digits 0

def AllDigits (text : List Char) : Prop := ∀ c ∈ text, c.isDigit = true

instance (text : List Char) : Decidable (AllDigits text) := List.decidableBAll _ text

/-- The text is a numeral of `n`. -/
structure Numeral (text : List Char) (n : UInt64) : Prop where
  ne_nil : text ≠ []
  digits : AllDigits text
  value : value text = n.toNat

/-- `isspace` of the C locale. -/
def isSpace (c : Char) : Bool := c == ' ' || (9 ≤ c.toNat && c.toNat ≤ 13)

inductive Sign where
  | none
  | plus
  | minus
  deriving DecidableEq, Repr

namespace Sign

def text : Sign → List Char
  | none => []
  | plus => ['+']
  | minus => ['-']

/-- A minus negates the unsigned number, as the unsigned operator does. -/
def apply : Sign → UInt64 → UInt64
  | none, n => n
  | plus, n => n
  | minus, n => -n

end Sign

def splitSign : List Char → Sign × List Char
  | '+' :: text => (.plus, text)
  | '-' :: text => (.minus, text)
  | text => (.none, text)

inductive Error where
  | invalidArgument
  | outOfRange
  deriving DecidableEq, Repr

/-- `std::stoull`, in base 10 and the C locale. -/
def stoull (text : List Char) : Except Error UInt64 :=
  let (sign, body) := splitSign (text.dropWhile isSpace)
  let digits := body.takeWhile Char.isDigit
  if digits = [] then .error .invalidArgument
  else if 2 ^ 64 ≤ value digits then .error .outOfRange
  else .ok (sign.apply (UInt64.ofNat (value digits)))

/-- `std::to_string` of an unsigned number. -/
def toString (n : Nat) : List Char := Nat.toDigits 10 n

-- ---------------------------------------------------------------------------
-- Numerals
-- ---------------------------------------------------------------------------

theorem numeral_toString (n : UInt64) : Numeral (toString n.toNat) n where
  ne_nil := Nat.toDigits_ne_nil
  digits := fun _ hc => Nat.isDigit_of_mem_toDigits (by decide) (by decide) hc
  value := Nat.ofDigitChars_ten_toDigits

-- ---------------------------------------------------------------------------
-- What is read
-- ---------------------------------------------------------------------------

/-- The text is white space, a sign, the digits of a number below 2^64, and anything that
does not go on with a digit. -/
def Reads (text : List Char) (n : UInt64) : Prop :=
  ∃ spaces sign digits rest, text = spaces ++ (Sign.text sign ++ (digits ++ rest)) ∧
    (∀ c ∈ spaces, isSpace c = true) ∧ digits ≠ [] ∧ AllDigits digits ∧
    (∀ c ∈ rest.head?, c.isDigit = false) ∧ value digits < 2 ^ 64 ∧
    n = sign.apply (UInt64.ofNat (value digits))

theorem isSpace_eq_false_of_isDigit {c : Char} (hc : c.isDigit = true) : isSpace c = false := by
  have hlow : 48 ≤ c.toNat := by
    have h := (Bool.and_eq_true_iff.mp hc).1
    exact UInt32.le_iff_toNat_le.mp (of_decide_eq_true h)
  have hspace : c ≠ ' ' := by
    rintro rfl
    exact absurd hlow (by decide)
  simp only [isSpace, Bool.or_eq_false_iff, beq_eq_false_iff_ne, Bool.and_eq_false_iff,
    decide_eq_false_iff_not]
  exact ⟨hspace, .inr (by omega)⟩

/-- A sign or a digit ends the white space. -/
theorem dropWhile_isSpace (spaces : List Char) (sign : Sign) {d : Char} {text : List Char}
    (hspaces : ∀ c ∈ spaces, isSpace c = true) (hd : d.isDigit = true) :
    (spaces ++ (sign.text ++ d :: text)).dropWhile isSpace = sign.text ++ d :: text := by
  rw [List.dropWhile_append_of_pos hspaces]
  cases sign with
  | none => exact List.dropWhile_cons_of_neg (Bool.eq_false_iff.mp (isSpace_eq_false_of_isDigit hd))
  | plus => rfl
  | minus => rfl

theorem splitSign_text (sign : Sign) {d : Char} (text : List Char) (hd : d.isDigit = true) :
    splitSign (sign.text ++ d :: text) = (sign, d :: text) := by
  cases sign with
  | plus => rfl
  | minus => rfl
  | none =>
    rw [Sign.text, List.nil_append]
    unfold splitSign
    split
    · next heq =>
      cases heq
      exact absurd hd (by decide)
    · next heq =>
      cases heq
      exact absurd hd (by decide)
    · rfl

theorem text_splitSign (text : List Char) :
    (splitSign text).1.text ++ (splitSign text).2 = text := by
  unfold splitSign
  split
  · rfl
  · rfl
  · rfl

theorem takeWhile_isDigit {digits rest : List Char} (hdigits : AllDigits digits)
    (hrest : ∀ c ∈ rest.head?, c.isDigit = false) :
    (digits ++ rest).takeWhile Char.isDigit = digits := by
  rw [List.takeWhile_append_of_pos hdigits]
  cases rest with
  | nil => rw [List.takeWhile_nil, List.append_nil]
  | cons c rest =>
    rw [List.takeWhile_cons_of_neg (Bool.eq_false_iff.mp (hrest c rfl)), List.append_nil]

theorem stoull_of_reads {text : List Char} {n : UInt64} (h : Reads text n) : stoull text = .ok n := by
  obtain ⟨spaces, sign, digits, rest, rfl, hspaces, hne, hdigits, hrest, hlt, rfl⟩ := h
  obtain ⟨d, ds, rfl⟩ := List.exists_cons_of_ne_nil hne
  have hd : d.isDigit = true := hdigits d List.mem_cons_self
  simp only [stoull, List.cons_append, dropWhile_isSpace spaces sign hspaces hd,
    splitSign_text sign _ hd]
  rw [← List.cons_append, takeWhile_isDigit hdigits hrest, if_neg hne, if_neg (Nat.not_le.mpr hlt)]

theorem reads_of_stoull {text : List Char} {n : UInt64} (h : stoull text = .ok n) : Reads text n := by
  simp only [stoull] at h
  split at h
  · cases h
  · next hne =>
    split at h
    · cases h
    · next hlt =>
      cases h
      let body := (splitSign (text.dropWhile isSpace)).2
      refine ⟨text.takeWhile isSpace, (splitSign (text.dropWhile isSpace)).1, body.takeWhile Char.isDigit,
        body.dropWhile Char.isDigit, ?_, fun c hc => List.mem_takeWhile_imp hc, hne,
        fun c hc => List.mem_takeWhile_imp hc, ?_, Nat.not_le.mp hlt, rfl⟩
      · rw [List.takeWhile_append_dropWhile, text_splitSign, List.takeWhile_append_dropWhile]
      · have hhead := List.head?_dropWhile_not Char.isDigit body
        intro c hc
        rw [Option.mem_def.mp hc] at hhead
        exact hhead

theorem stoull_eq_ok_iff {text : List Char} {n : UInt64} : stoull text = .ok n ↔ Reads text n :=
  ⟨reads_of_stoull, stoull_of_reads⟩

/-- The numerals are the texts that are read and have nothing but digits. -/
theorem numeral_iff {text : List Char} {n : UInt64} :
    Numeral text n ↔ Reads text n ∧ AllDigits text := by
  constructor
  · rintro ⟨hne, hdigits, hvalue⟩
    have hlt : value text < 2 ^ 64 := hvalue ▸ n.toNat_lt
    refine ⟨⟨[], .none, text, [], ?_, nofun, hne, hdigits, nofun, hlt, ?_⟩, hdigits⟩
    · rw [List.append_nil]
      rfl
    · rw [hvalue, Sign.apply, UInt64.ofNat_toNat]
  · rintro ⟨⟨spaces, sign, digits, rest, rfl, hspaces, hne, hdigits, hrest, hlt, rfl⟩, hall⟩
    obtain rfl : spaces = [] := by
      refine List.eq_nil_iff_forall_not_mem.mpr fun c hc => ?_
      have hdigit := isSpace_eq_false_of_isDigit (hall c (List.mem_append_left _ hc))
      rw [hspaces c hc] at hdigit
      exact Bool.noConfusion hdigit
    obtain rfl : sign = .none := by
      cases sign with
      | none => rfl
      | plus => exact absurd (hall '+' List.mem_cons_self) (by decide)
      | minus => exact absurd (hall '-' List.mem_cons_self) (by decide)
    obtain rfl : rest = [] := by
      cases rest with
      | nil => rfl
      | cons c rest =>
        have hdigit := hall c (List.mem_append_right digits List.mem_cons_self)
        rw [hrest c rfl] at hdigit
        exact Bool.noConfusion hdigit
    rw [List.append_nil]
    exact ⟨hne, hdigits, (UInt64.toNat_ofNat_of_lt hlt).symm⟩

end Decimal

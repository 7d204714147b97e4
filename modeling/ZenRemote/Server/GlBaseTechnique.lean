-- SUMMARY: The server's uniform variables: the payload of a request, as large as a product in 32 bits.
import Mathlib.Algebra.Ring.Nat
import ZenRemote.Client.GlBaseTechnique

/-!
# Uniform variables on the server

Four public methods build the same request. Its payload is copied from an array of the
caller, which holds `count` vectors or matrices of four-byte components.
-/

namespace ZenRemote.Server.GlBaseTechnique

open Client (Bytes UniformVariable)

/-- The operands have 32 bits, and so has the product. -/
def valueSize (col row count : UInt32) : UInt64 := (4 * col * row * count).toUInt64

def glUniform (location : UInt32) (name : Bytes) (type : Int32) (col row count : UInt32)
    (transpose : Bool) (value : Bytes) : UniformVariable where
  location := location
  name := name
  type := type
  col := col
  row := row
  count := count
  transpose := transpose
  value := value.take (valueSize col row count).toNat

/-- The three methods for integers, for unsigned integers and for floats, by the type. -/
def glUniformVector (type : Int32) (location : UInt32) (name : Bytes) (size count : UInt32)
    (value : Bytes) : UniformVariable :=
  glUniform location name type 1 size count false value

def glUniformMatrix (location : UInt32) (name : Bytes) (col row count : UInt32) (transpose : Bool)
    (value : Bytes) : UniformVariable :=
  glUniform location name 2 col row count transpose value

/-- The bytes of the array. -/
def arraySize (col row count : UInt32) : Nat := 4 * col.toNat * row.toNat * count.toNat

theorem toNat_valueSize (col row count : UInt32) :
    (valueSize col row count).toNat = arraySize col row count % 2 ^ 32 := by
  rw [valueSize, arraySize, UInt32.toNat_toUInt64, UInt32.toNat_mul, UInt32.toNat_mul,
    UInt32.toNat_mul, Nat.mod_mul_mod, Nat.mul_assoc, Nat.mod_mul_mod, ← Nat.mul_assoc]
  rfl

/-- The payload is the whole array exactly if the product fits. -/
theorem length_value_glUniform {col row count : UInt32} {value : Bytes}
    (hvalue : arraySize col row count ≤ value.length) (location : UInt32) (name : Bytes)
    (type : Int32) (transpose : Bool) :
    (glUniform location name type col row count transpose value).value.length =
      arraySize col row count ↔ arraySize col row count < 2 ^ 32 := by
  have hmod := Nat.mod_lt (arraySize col row count) (Nat.two_pow_pos 32)
  have hle := Nat.mod_le (arraySize col row count) (2 ^ 32)
  have hlength : (glUniform location name type col row count transpose value).value.length =
      arraySize col row count % 2 ^ 32 := by
    rw [glUniform, toNat_valueSize]
    exact List.length_take_of_le (Nat.le_trans hle hvalue)
  rw [hlength]
  constructor
  · intro heq
    exact heq ▸ hmod
  · exact Nat.mod_eq_of_lt

end ZenRemote.Server.GlBaseTechnique

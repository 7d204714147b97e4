-- SUMMARY: The server's texture uploads: how many bytes of a buffer a request takes, and how many of them GL reads.
import ZenRemote.Client.Gl
import ZenRemote.Lib.Rows

/-!
# The size of a texture upload

The server copies as many bytes of a buffer into a request as `CalcTextureSize` says. The
client replays the call on those bytes, and has never set how GL unpacks them, so
that each row of the image starts at a multiple of four.
-/

namespace ZenRemote.Server

open Client (Bytes Image2D SubImage2D)

/-- The types of `CalcTextureSize`, under their names without `GL_`. -/
inductive PixelType where
  | unsignedByte
  | byte
  | unsignedShort_5_6_5
  | unsignedShort_4_4_4_4
  | unsignedShort_5_5_5_1
  | unsignedShort
  | short
  | halfFloat
  | unsignedInt_2_10_10_10_rev
  | unsignedInt_10f_11f_11f_rev
  | unsignedInt_5_9_9_9_rev
  | unsignedInt_24_8
  | unsignedInt
  | int
  | float
  | float_32_unsignedInt_24_8_rev
  deriving DecidableEq, Repr

inductive PixelFormat where
  | red
  | redInteger
  | depthComponent
  | alpha
  | stencilIndex
  | luminance
  | rg
  | rgInteger
  | depthStencil
  | luminanceAlpha
  | rgb
  | rgbInteger
  | rgba
  | rgbaInteger
  deriving DecidableEq, Repr

namespace PixelType

/-- The `GLenum`. -/
def code : PixelType → UInt32
  | unsignedByte => 0x1401
  | byte => 0x1400
  | unsignedShort_5_6_5 => 0x8363
  | unsignedShort_4_4_4_4 => 0x8033
  | unsignedShort_5_5_5_1 => 0x8034
  | unsignedShort => 0x1403
  | short => 0x1402
  | halfFloat => 0x140B
  | unsignedInt_2_10_10_10_rev => 0x8368
  | unsignedInt_10f_11f_11f_rev => 0x8C3B
  | unsignedInt_5_9_9_9_rev => 0x8C3E
  | unsignedInt_24_8 => 0x84FA
  | unsignedInt => 0x1405
  | int => 0x1404
  | float => 0x1406
  | float_32_unsignedInt_24_8_rev => 0x8DAD

def all : List PixelType :=
  [unsignedByte, byte, unsignedShort_5_6_5, unsignedShort_4_4_4_4, unsignedShort_5_5_5_1,
    unsignedShort, short, halfFloat, unsignedInt_2_10_10_10_rev, unsignedInt_10f_11f_11f_rev,
    unsignedInt_5_9_9_9_rev, unsignedInt_24_8, unsignedInt, int, float, float_32_unsignedInt_24_8_rev]

def ofCode (type : UInt32) : Option PixelType := all.find? fun t => t.code = type

end PixelType

namespace PixelFormat

/-- The `GLenum`. -/
def code : PixelFormat → UInt32
  | red => 0x1903
  | redInteger => 0x8D94
  | depthComponent => 0x1902
  | alpha => 0x1906
  | stencilIndex => 0x1901
  | luminance => 0x1909
  | rg => 0x8227
  | rgInteger => 0x8228
  | depthStencil => 0x84F9
  | luminanceAlpha => 0x190A
  | rgb => 0x1907
  | rgbInteger => 0x8D98
  | rgba => 0x1908
  | rgbaInteger => 0x8D99

def all : List PixelFormat :=
  [red, redInteger, depthComponent, alpha, stencilIndex, luminance, rg, rgInteger, depthStencil,
    luminanceAlpha, rgb, rgbInteger, rgba, rgbaInteger]

def ofCode (format : UInt32) : Option PixelFormat := all.find? fun f => f.code = format

end PixelFormat

namespace GlTexture

/-- The first `switch`: `external_bytes_per_pixel` and `take_format_into_account`. -/
def typeSwitch (type : UInt32) : UInt64 × Bool :=
  match PixelType.ofCode type with
  | some .unsignedByte | some .byte => (1, true)
  -- these fall through to the next group
  | some .unsignedShort_5_6_5 | some .unsignedShort_4_4_4_4 | some .unsignedShort_5_5_5_1 => (2, false)
  | some .unsignedShort | some .short | some .halfFloat => (2, true)
  -- and so do these
  | some .unsignedInt_2_10_10_10_rev | some .unsignedInt_10f_11f_11f_rev
  | some .unsignedInt_5_9_9_9_rev | some .unsignedInt_24_8 => (4, false)
  | some .unsignedInt | some .int | some .float => (4, true)
  | some .float_32_unsignedInt_24_8_rev => (8, false)
  | none => (0, true)

/-- The factor of the second `switch`. -/
def formatSwitch (format : UInt32) : UInt64 :=
  match PixelFormat.ofCode format with
  | some .red | some .redInteger | some .depthComponent | some .alpha | some .stencilIndex
  | some .luminance => 1
  | some .rg | some .rgInteger | some .depthStencil | some .luminanceAlpha => 2
  | some .rgb | some .rgbInteger => 3
  | some .rgba | some .rgbaInteger => 4
  | none => 1

def externalBytesPerPixel (format type : UInt32) : UInt64 :=
  let (bytes, takeFormatIntoAccount) := typeSwitch type
  if takeFormatIntoAccount then bytes * formatSwitch format else bytes

/-- `size_t` has 64 bits. -/
def calcTextureSize (width height format type : UInt32) : UInt64 :=
  externalBytesPerPixel format type * width.toUInt64 * height.toUInt64

/-- `set_data`, from the start of the buffer. -/
def requestData (width height format type : UInt32) (buffer : Bytes) : Bytes :=
  buffer.take (calcTextureSize width height format type).toNat

/-- The data of the request. -/
def glTexImage2D (args : Image2D) (buffer : Bytes) : Bytes :=
  requestData args.width args.height args.format args.type buffer

def glTexSubImage2D (args : SubImage2D) (buffer : Bytes) : Bytes :=
  requestData args.width args.height args.format args.type buffer

end GlTexture

-- ---------------------------------------------------------------------------
-- What GL reads
-- ---------------------------------------------------------------------------

/-- The bytes of a component or, for a packed type, of a pixel. -/
def PixelType.size : PixelType → Nat
  | unsignedByte | byte => 1
  | unsignedShort_5_6_5 | unsignedShort_4_4_4_4 | unsignedShort_5_5_5_1 | unsignedShort | short
  | halfFloat => 2
  | unsignedInt_2_10_10_10_rev | unsignedInt_10f_11f_11f_rev | unsignedInt_5_9_9_9_rev
  | unsignedInt_24_8 | unsignedInt | int | float => 4
  | float_32_unsignedInt_24_8_rev => 8

def PixelType.packed : PixelType → Bool
  | unsignedShort_5_6_5 | unsignedShort_4_4_4_4 | unsignedShort_5_5_5_1 | unsignedInt_2_10_10_10_rev
  | unsignedInt_10f_11f_11f_rev | unsignedInt_5_9_9_9_rev | unsignedInt_24_8
  | float_32_unsignedInt_24_8_rev => true
  | unsignedByte | byte | unsignedShort | short | halfFloat | unsignedInt | int | float => false

def PixelFormat.components : PixelFormat → Nat
  | red | redInteger | depthComponent | alpha | stencilIndex | luminance => 1
  | rg | rgInteger | depthStencil | luminanceAlpha => 2
  | rgb | rgbInteger => 3
  | rgba | rgbaInteger => 4

def bytesPerPixel (f : PixelFormat) (t : PixelType) : Nat :=
  if t.packed then t.size else f.components * t.size

/-- The initial value of `GL_UNPACK_ALIGNMENT`. -/
def unpackAlignment : Nat := 4

/-- What GL reads for an image, from the start of its data. -/
def bytesRead (width height : UInt32) (f : PixelFormat) (t : PixelType) : Nat :=
  Rows.extent unpackAlignment height.toNat (width.toNat * bytesPerPixel f t)

namespace GlTexture

variable (width height : UInt32) (f : PixelFormat) (t : PixelType)

/-- The two switches agree with the tables. -/
theorem toNat_externalBytesPerPixel :
    (externalBytesPerPixel f.code t.code).toNat = bytesPerPixel f t := by
  have htype : typeSwitch t.code = (UInt64.ofNat t.size, !t.packed) := by
    cases t with
    | _ => rfl
  have hformat : formatSwitch f.code = UInt64.ofNat f.components := by
    cases f with
    | _ => rfl
  rw [externalBytesPerPixel, htype, hformat, bytesPerPixel]
  cases f with
  | _ =>
    cases t with
    | _ => rfl

theorem bytesPerPixel_pos : 0 < bytesPerPixel f t := by
  cases f with
  | _ =>
    cases t with
    | _ => decide

theorem toNat_calcTextureSize : (calcTextureSize width height f.code t.code).toNat =
    height.toNat * (width.toNat * bytesPerPixel f t) % 2 ^ 64 := by
  rw [calcTextureSize, UInt64.toNat_mul, UInt64.toNat_mul, Nat.mod_mul_mod,
    toNat_externalBytesPerPixel, UInt32.toNat_toUInt64, UInt32.toNat_toUInt64, Nat.mul_comm,
    Nat.mul_comm (bytesPerPixel f t)]

/-- The rows of the image are packed for GL too, and it is not too large for a `size_t`. -/
def Packed : Prop :=
  height.toNat * (width.toNat * bytesPerPixel f t) < 2 ^ 64 ∧
    (width = 0 ∨ height ≤ 1 ∨ 4 ∣ width.toNat * bytesPerPixel f t)

instance : Decidable (Packed width height f t) := inferInstanceAs (Decidable (_ ∧ _))

/-- The size is enough for GL exactly for the packed images. -/
theorem bytesRead_le_iff : bytesRead width height f t ≤
    (calcTextureSize width height f.code t.code).toNat ↔ Packed width height f t := by
  have hpacked := Rows.extent_le_mul_iff (show 0 < unpackAlignment by decide) height.toNat
    (width.toNat * bytesPerPixel f t)
  have hwidth : width.toNat * bytesPerPixel f t = 0 ↔ width = 0 := by
    rw [Nat.mul_eq_zero, ← UInt32.toNat_inj]
    exact or_iff_left (Nat.ne_of_gt (bytesPerPixel_pos f t))
  have hheight : height.toNat ≤ (1 : UInt32).toNat ↔ height ≤ 1 := UInt32.le_iff_toNat_le.symm
  rw [hwidth, show height.toNat ≤ 1 ↔ height ≤ 1 from hheight] at hpacked
  rw [toNat_calcTextureSize, bytesRead, Packed]
  constructor
  · intro hle
    have hreach := Rows.mul_le_extent (show 0 < unpackAlignment by decide) height.toNat
      (width.toNat * bytesPerPixel f t)
    have hmod := Nat.mod_lt (height.toNat * (width.toNat * bytesPerPixel f t)) (Nat.two_pow_pos 64)
    have hsmall := Nat.lt_of_le_of_lt (hreach.trans hle) hmod
    rw [Nat.mod_eq_of_lt hsmall] at hle
    exact ⟨hsmall, hpacked.mp hle⟩
  · rintro ⟨hsmall, hrows⟩
    rw [Nat.mod_eq_of_lt hsmall]
    exact hpacked.mpr hrows

/-- An image of at most 2^60 bytes does not wrap. -/
theorem calcTextureSize_of_le (hle : height.toNat * (width.toNat * bytesPerPixel f t) ≤ 2 ^ 60) :
    (calcTextureSize width height f.code t.code).toNat =
      height.toNat * (width.toNat * bytesPerPixel f t) := by
  rw [toNat_calcTextureSize]
  exact Nat.mod_eq_of_lt (Nat.lt_of_le_of_lt hle (by decide))

/-- The data of a request are enough for the replayed call, and their size is that of
the image. -/
def DataSuffice (data : Bytes) : Prop :=
  bytesRead width height f t ≤ data.length ∧
    (height.toNat * (width.toNat * bytesPerPixel f t) ≤ 2 ^ 60 →
      data.length = height.toNat * (width.toNat * bytesPerPixel f t))

theorem dataSuffice_requestData {buffer : Bytes}
    (hbuffer : (calcTextureSize width height f.code t.code).toNat ≤ buffer.length) :
    DataSuffice width height f t (requestData width height f.code t.code buffer) ↔
      Packed width height f t := by
  have hlength : (requestData width height f.code t.code buffer).length =
      (calcTextureSize width height f.code t.code).toNat := List.length_take_of_le hbuffer
  rw [DataSuffice, hlength, bytesRead_le_iff]
  exact and_iff_left (calcTextureSize_of_le width height f t)

/-- Both requests carry enough data exactly for the packed images. -/
theorem dataSuffice_iff_packed (image : Image2D) (subImage : SubImage2D) {buffer : Bytes}
    (hbuffer : (calcTextureSize width height f.code t.code).toNat ≤ buffer.length) :
    (DataSuffice width height f t
        (glTexImage2D { image with width, height, format := f.code, type := t.code } buffer) ↔
      Packed width height f t) ∧
    (DataSuffice width height f t
        (glTexSubImage2D { subImage with width, height, format := f.code, type := t.code } buffer) ↔
      Packed width height f t) :=
  ⟨dataSuffice_requestData width height f t hbuffer, dataSuffice_requestData width height f t hbuffer⟩

/-- Of three bytes a pixel, two rows of four are packed, and two rows of three are not. -/
theorem dataSuffice_iff_packed_twoRows :
    ((DataSuffice 4 2 .rgb .unsignedByte (glTexImage2D
          ⟨0x0DE1, 0, 0x1907, 4, 2, 0, PixelFormat.rgb.code, PixelType.unsignedByte.code⟩
          (List.replicate 24 255)) ↔ Packed 4 2 .rgb .unsignedByte) ∧
      (DataSuffice 4 2 .rgb .unsignedByte (glTexSubImage2D
          ⟨0x0DE1, 0, 0, 0, 4, 2, PixelFormat.rgb.code, PixelType.unsignedByte.code⟩
          (List.replicate 24 255)) ↔ Packed 4 2 .rgb .unsignedByte)) ∧
      Packed 4 2 .rgb .unsignedByte ∧
    ((DataSuffice 3 2 .rgb .unsignedByte (glTexImage2D
          ⟨0x0DE1, 0, 0x1907, 3, 2, 0, PixelFormat.rgb.code, PixelType.unsignedByte.code⟩
          (List.replicate 18 255)) ↔ Packed 3 2 .rgb .unsignedByte) ∧
      (DataSuffice 3 2 .rgb .unsignedByte (glTexSubImage2D
          ⟨0x0DE1, 0, 0, 0, 3, 2, PixelFormat.rgb.code, PixelType.unsignedByte.code⟩
          (List.replicate 18 255)) ↔ Packed 3 2 .rgb .unsignedByte)) ∧
      ¬ Packed 3 2 .rgb .unsignedByte :=
  ⟨dataSuffice_iff_packed 4 2 .rgb .unsignedByte ⟨0x0DE1, 0, 0x1907, 0, 0, 0, 0, 0⟩
      ⟨0x0DE1, 0, 0, 0, 0, 0, 0, 0⟩ (by decide), by decide,
    dataSuffice_iff_packed 3 2 .rgb .unsignedByte ⟨0x0DE1, 0, 0x1907, 0, 0, 0, 0, 0⟩
      ⟨0x0DE1, 0, 0, 0, 0, 0, 0, 0⟩ (by decide), by decide⟩

/-- Of two red pixels, one below the other, the second starts at the fourth byte for GL. -/
theorem not_dataSuffice_column : ¬ ∀ (image : Image2D) (f : PixelFormat) (t : PixelType)
    (buffer : Bytes), image.format = f.code → image.type = t.code →
      (calcTextureSize image.width image.height f.code t.code).toNat ≤ buffer.length →
      DataSuffice image.width image.height f t (glTexImage2D image buffer) := by
  intro h
  have hle := (h ⟨0x0DE1, 0, 0x1907, 1, 2, 0, PixelFormat.rgb.code, PixelType.unsignedByte.code⟩ .rgb
    .unsignedByte [255, 0, 0, 255, 0, 0] rfl rfl (by decide)).1
  exact absurd hle (by decide)

end GlTexture

end ZenRemote.Server

import TianJi.Lib.Bytes
import Mathlib.Data.UInt

/-!
# TianJi — the firmware's data types

The UEFI types that the applications share, as `Uefi.h` and the protocol headers
declare them: status codes, wide characters, pixels of the graphics output protocol
and key strokes. Machine integers keep their widths: `UINTN` is the 64-bit one of the
X64 build, so its arithmetic wraps at `2 ^ 64`.
-/

namespace TianJi.Model

abbrev UINT8 := UInt8
abbrev UINT16 := UInt16
abbrev UINT32 := UInt32
abbrev UINTN := UInt64
abbrev CHAR16 := UInt16

/-! ## Status codes -/

/-- A `RETURN_STATUS`: the top bit marks an error, other nonzero codes are warnings. -/
abbrev EFI_STATUS := UINTN

/-- `MAX_BIT` of the 64-bit build. -/
def MAX_BIT : UINTN := 0x8000000000000000

def ENCODE_ERROR (StatusCode : UINTN) : EFI_STATUS := MAX_BIT ||| StatusCode

def EFI_ERROR (Status : EFI_STATUS) : Bool := decide (MAX_BIT ≤ Status)

def EFI_SUCCESS : EFI_STATUS := 0
def EFI_INVALID_PARAMETER : EFI_STATUS := ENCODE_ERROR 2
def EFI_UNSUPPORTED : EFI_STATUS := ENCODE_ERROR 3
def EFI_BAD_BUFFER_SIZE : EFI_STATUS := ENCODE_ERROR 4
def EFI_BUFFER_TOO_SMALL : EFI_STATUS := ENCODE_ERROR 5
def EFI_DEVICE_ERROR : EFI_STATUS := ENCODE_ERROR 7
def EFI_WRITE_PROTECTED : EFI_STATUS := ENCODE_ERROR 8
def EFI_OUT_OF_RESOURCES : EFI_STATUS := ENCODE_ERROR 9
def EFI_NOT_FOUND : EFI_STATUS := ENCODE_ERROR 14

@[simp] theorem EFI_ERROR_success : EFI_ERROR EFI_SUCCESS = false := by decide

/-! ## Strings, pixels and keys -/

/-- A wide string literal of the source, without its terminator. -/
def L (s : String) : List CHAR16 := s.toList.map fun c => UInt16.ofNat c.toNat

/-- `EFI_GRAPHICS_OUTPUT_BLT_PIXEL`. -/
structure EFI_GRAPHICS_OUTPUT_BLT_PIXEL where
  Blue : UINT8
  Green : UINT8
  Red : UINT8
  Reserved : UINT8
  deriving DecidableEq, Repr, Inhabited

/-- `EFI_INPUT_KEY`. -/
structure EFI_INPUT_KEY where
  ScanCode : UINT16
  UnicodeChar : CHAR16
  deriving DecidableEq, Repr

def SCAN_RIGHT : UINT16 := 0x0003
def SCAN_LEFT : UINT16 := 0x0004
def CHAR_CARRIAGE_RETURN : CHAR16 := 0x000D

/-! ## Fields in memory -/

open Bytes

/-- A block of memory by its byte offsets. -/
abbrev ByteBuffer := Nat → UINT8

def readUint16 (m : ByteBuffer) (off : Nat) : UINT16 := UInt16.ofNat (leNat m off 2)

def readUint32 (m : ByteBuffer) (off : Nat) : UINT32 := UInt32.ofNat (leNat m off 4)

def uint16Bytes (v : UINT16) : List UINT8 := leBytes 2 v.toNat

def uint32Bytes (v : UINT32) : List UINT8 := leBytes 4 v.toNat

@[simp] theorem length_uint16Bytes (v : UINT16) : (uint16Bytes v).length = 2 := length_leBytes _ _

theorem length_flatMap_uint16Bytes (s : List CHAR16) :
    (s.flatMap uint16Bytes).length = 2 * s.length := by
  induction s with
  | nil => rfl
  | cons c s ih =>
    rw [List.flatMap_cons, List.length_append, length_uint16Bytes, ih, List.length_cons]
    omega

@[simp] theorem length_uint32Bytes (v : UINT32) : (uint32Bytes v).length = 4 := length_leBytes _ _

theorem readUint16_of_holds {m : ByteBuffer} {off : Nat} {v : UINT16}
    (h : Holds m off (uint16Bytes v)) : readUint16 m off = v := by
  have hLt : v.toNat < 256 ^ 2 := by have := v.toNat_lt; omega
  rw [readUint16, leNat_of_holds h, Nat.mod_eq_of_lt hLt, UInt16.ofNat_toNat]

theorem readUint32_of_holds {m : ByteBuffer} {off : Nat} {v : UINT32}
    (h : Holds m off (uint32Bytes v)) : readUint32 m off = v := by
  have hLt : v.toNat < 256 ^ 4 := by have := v.toNat_lt; omega
  rw [readUint32, leNat_of_holds h, Nat.mod_eq_of_lt hLt, UInt32.ofNat_toNat]

theorem readUint16_congr {m m' : ByteBuffer} {off : Nat}
    (h : ∀ i, i < off + 2 → m i = m' i) : readUint16 m off = readUint16 m' off := by
  rw [readUint16, readUint16, leNat_congr fun i _ hi => h i hi]

theorem readUint32_congr {m m' : ByteBuffer} {off : Nat}
    (h : ∀ i, i < off + 4 → m i = m' i) : readUint32 m off = readUint32 m' off := by
  rw [readUint32, readUint32, leNat_congr fun i _ hi => h i hi]

end TianJi.Model

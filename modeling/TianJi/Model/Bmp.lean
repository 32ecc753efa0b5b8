import TianJi.Model.Uefi

/-!
# TianJi — the BMP header

`BMP_IMAGE_HEADER` as `IndustryStandard/Bmp.h` packs it: the fields, their offsets in the
file, how they are read out of memory and written to it, little-endian.

* `read_of_holds` — memory that holds a header's 54 bytes reads as that header.
* `read_congr`    — the header depends on those 54 bytes only.
-/

namespace TianJi.Model

open Bytes

structure BMP_IMAGE_HEADER where
  CharB : UINT8
  CharM : UINT8
  Size : UINT32
  Reserved0 : UINT16
  Reserved1 : UINT16
  ImageOffset : UINT32
  HeaderSize : UINT32
  PixelWidth : UINT32
  PixelHeight : UINT32
  Planes : UINT16
  BitPerPixel : UINT16
  CompressionType : UINT32
  ImageSize : UINT32
  XPixelsPerMeter : UINT32
  YPixelsPerMeter : UINT32
  NumberOfColors : UINT32
  ImportantColors : UINT32
  deriving DecidableEq, Repr

/-- `sizeof (BMP_IMAGE_HEADER)` -/
def sizeofBmpHeader : UINT32 := 54

/-- `OFFSET_OF (BMP_IMAGE_HEADER, HeaderSize)` -/
def offsetOfHeaderSize : UINT32 := 14

namespace BMP_IMAGE_HEADER

/-- Width and height as exact numbers. -/
def W (h : BMP_IMAGE_HEADER) : Nat := h.PixelWidth.toNat
def H (h : BMP_IMAGE_HEADER) : Nat := h.PixelHeight.toNat

/-- The header at the start of a block. -/
def read (m : ByteBuffer) : BMP_IMAGE_HEADER where
  CharB := m 0
  CharM := m 1
  Size := readUint32 m 2
  Reserved0 := readUint16 m 6
  Reserved1 := readUint16 m 8
  ImageOffset := readUint32 m 10
  HeaderSize := readUint32 m 14
  PixelWidth := readUint32 m 18
  PixelHeight := readUint32 m 22
  Planes := readUint16 m 26
  BitPerPixel := readUint16 m 28
  CompressionType := readUint32 m 30
  ImageSize := readUint32 m 34
  XPixelsPerMeter := readUint32 m 38
  YPixelsPerMeter := readUint32 m 42
  NumberOfColors := readUint32 m 46
  ImportantColors := readUint32 m 50

/-- The header's bytes in a file. -/
def bytes (h : BMP_IMAGE_HEADER) : List UINT8 :=
  [h.CharB, h.CharM] ++ uint32Bytes h.Size ++ uint16Bytes h.Reserved0 ++
  uint16Bytes h.Reserved1 ++ uint32Bytes h.ImageOffset ++ uint32Bytes h.HeaderSize ++
  uint32Bytes h.PixelWidth ++ uint32Bytes h.PixelHeight ++ uint16Bytes h.Planes ++
  uint16Bytes h.BitPerPixel ++ uint32Bytes h.CompressionType ++ uint32Bytes h.ImageSize ++
  uint32Bytes h.XPixelsPerMeter ++ uint32Bytes h.YPixelsPerMeter ++
  uint32Bytes h.NumberOfColors ++ uint32Bytes h.ImportantColors

@[simp] theorem length_bytes (h : BMP_IMAGE_HEADER) : h.bytes.length = 54 := by simp [bytes]

/-- **Header round trip.** Every field is read where it was written. -/
theorem read_of_holds {m : ByteBuffer} {h : BMP_IMAGE_HEADER} (hHolds : Holds m 0 h.bytes) :
    read m = h := by
  simp only [bytes, holds_append, List.length_append, length_uint32Bytes, length_uint16Bytes,
    List.length_cons, List.length_nil, Nat.zero_add] at hHolds
  obtain ⟨⟨⟨⟨⟨⟨⟨⟨⟨⟨⟨⟨⟨⟨⟨hSig, h1⟩, h2⟩, h3⟩, h4⟩, h5⟩, h6⟩, h7⟩, h8⟩, h9⟩, h10⟩, h11⟩, h12⟩,
    h13⟩, h14⟩, h15⟩ := hHolds
  obtain ⟨hB, hM⟩ := holds_cons.mp hSig
  obtain ⟨hM, -⟩ := holds_cons.mp hM
  cases h
  simp only [read, mk.injEq]
  exact ⟨hB, hM, readUint32_of_holds h1, readUint16_of_holds h2, readUint16_of_holds h3,
    readUint32_of_holds h4, readUint32_of_holds h5, readUint32_of_holds h6,
    readUint32_of_holds h7, readUint16_of_holds h8, readUint16_of_holds h9,
    readUint32_of_holds h10, readUint32_of_holds h11, readUint32_of_holds h12,
    readUint32_of_holds h13, readUint32_of_holds h14, readUint32_of_holds h15⟩

theorem read_congr {m m' : ByteBuffer} (h : ∀ i < 54, m i = m' i) : read m = read m' := by
  have h32 : ∀ off, off ≤ 50 → readUint32 m off = readUint32 m' off := fun off hOff =>
    readUint32_congr fun i hi => h i (by omega)
  have h16 : ∀ off, off ≤ 50 → readUint16 m off = readUint16 m' off := fun off hOff =>
    readUint16_congr fun i hi => h i (by omega)
  simp only [read, h 0 (by omega), h 1 (by omega), h32 2 (by omega), h16 6 (by omega),
    h16 8 (by omega), h32 10 (by omega), h32 14 (by omega), h32 18 (by omega),
    h32 22 (by omega), h16 26 (by omega), h16 28 (by omega), h32 30 (by omega),
    h32 34 (by omega), h32 38 (by omega), h32 42 (by omega), h32 46 (by omega),
    h32 50 (by omega)]

end BMP_IMAGE_HEADER

end TianJi.Model

import Mathlib.Tactic.IntervalCases
import TianJi.Lib.Raster
import TianJi.Model.Bmp

/-!
# TianJi — the reference BMP library

`TranslateBmpToGopBlt` and `TranslateGopBltToBmp` (BmpSupportLib.c) with the checked
arithmetic they use (SafeIntLib.c). Out-parameters are returned; the tests of their
addresses against NULL have no counterpart here.

The decoder checks the header (`checkBmp`), then walks the file forwards with a byte
pointer while a pixel pointer walks the buffer's rows bottom up. The encoder writes a
header and the same rows, three bytes a pixel.

* `accepted_of_checkBmp`, `checkBmp_of_accepted` — what an accepted header satisfies, and
  that it is enough.
* `decodeRows_direct`    — the decoder's loops for the depths without a colour map, as one
  list of partial writes.
-/

namespace TianJi.Model

open Bytes Canvas Memory

-- ---------------------------------------------------------------------------
-- Checked arithmetic
-- ---------------------------------------------------------------------------

def MAX_UINT32 : UINTN := 0xFFFFFFFF

/-- The conversion of SafeIntLib, or an error where the word does not fit. -/
def SafeUint64ToUint32 (Operand : UINTN) : Except EFI_STATUS UINT32 :=
  if Operand ≤ MAX_UINT32 then .ok Operand.toUInt32 else .error EFI_BUFFER_TOO_SMALL

/-- A product of 32 bits, or an error. -/
def SafeUint32Mult (Multiplicand Multiplier : UINT32) : Except EFI_STATUS UINT32 :=
  SafeUint64ToUint32 (Multiplicand.toUInt64 * Multiplier.toUInt64)

/-- A sum of 32 bits, or an error. -/
def SafeUint32Add (Augend Addend : UINT32) : Except EFI_STATUS UINT32 :=
  if Augend + Addend ≥ Augend then .ok (Augend + Addend) else .error EFI_BUFFER_TOO_SMALL

/-- The products and sums that pass are the exact ones. -/
theorem SafeUint32Mult_ok_iff {a b c : UINT32} :
    SafeUint32Mult a b = .ok c ↔ c.toNat = a.toNat * b.toNat := by
  have ha := a.toNat_lt
  have hb := b.toNat_lt
  have hc := c.toNat_lt
  have hArea : a.toNat * b.toNat ≤ (2 ^ 32 - 1) * (2 ^ 32 - 1) :=
    Nat.mul_le_mul (by omega) (by omega)
  have hProduct : (a.toUInt64 * b.toUInt64).toNat = a.toNat * b.toNat := by
    rw [UInt64.toNat_mul, UInt32.toNat_toUInt64, UInt32.toNat_toUInt64]
    exact Nat.mod_eq_of_lt (by omega)
  have hTest : a.toUInt64 * b.toUInt64 ≤ MAX_UINT32 ↔ a.toNat * b.toNat < 2 ^ 32 := by
    rw [UInt64.le_iff_toNat_le, hProduct]
    show _ ≤ 4294967295 ↔ _
    omega
  unfold SafeUint32Mult SafeUint64ToUint32
  split_ifs with h
  · rw [Except.ok.injEq, ← UInt32.toNat_inj, UInt64.toNat_toUInt32, hProduct,
      Nat.mod_eq_of_lt (hTest.mp h), eq_comm]
  · refine iff_of_false (by simp) fun hEq => h (hTest.mpr ?_)
    omega

/-- The sum is the one of numbers when there is one. -/
theorem SafeUint32Add_ok_iff {a b c : UINT32} :
    SafeUint32Add a b = .ok c ↔ c.toNat = a.toNat + b.toNat := by
  have ha := a.toNat_lt
  have hb := b.toNat_lt
  have hc := c.toNat_lt
  have hSum : (a + b).toNat = (a.toNat + b.toNat) % 2 ^ 32 := UInt32.toNat_add a b
  have hTest : a + b ≥ a ↔ a.toNat + b.toNat < 2 ^ 32 := by
    rw [ge_iff_le, UInt32.le_iff_toNat_le, hSum]
    omega
  unfold SafeUint32Add
  split_ifs with h
  · rw [Except.ok.injEq, ← UInt32.toNat_inj, hSum, Nat.mod_eq_of_lt (hTest.mp h), eq_comm]
  · refine iff_of_false (by simp) fun hEq => h (hTest.mpr ?_)
    omega

/-- `if (condition) return RETURN_UNSUPPORTED;` -/
def unsupportedIf (condition : Prop) [Decidable condition] : Except EFI_STATUS Unit :=
  if condition then .error EFI_UNSUPPORTED else .ok ()

/-- A failed check of the arithmetic is reported as `RETURN_UNSUPPORTED`. -/
def orUnsupported {α : Type} : Except EFI_STATUS α → Except EFI_STATUS α
  | .ok a => .ok a
  | .error _ => .error EFI_UNSUPPORTED

/-- Checks in a row succeed when all of them do. -/
theorem bind_ok_iff {α β : Type} {x : Except EFI_STATUS α} {f : α → Except EFI_STATUS β} {b : β} :
    x >>= f = .ok b ↔ ∃ a, x = .ok a ∧ f a = .ok b := by
  cases x <;> simp [bind, Except.bind]

/-- A check succeeds when its condition is false. -/
theorem unsupportedIf_ok_iff {condition : Prop} [Decidable condition] {u : Unit} :
    unsupportedIf condition = .ok u ↔ ¬ condition := by
  unfold unsupportedIf
  split_ifs with h <;> simp [h]

/-- A changed status does not matter to what succeeds. -/
theorem orUnsupported_ok_iff {α : Type} {x : Except EFI_STATUS α} {a : α} :
    orUnsupported x = .ok a ↔ x = .ok a := by
  cases x <;> simp [orUnsupported]

-- ---------------------------------------------------------------------------
-- Decoding
-- ---------------------------------------------------------------------------

/-- Number of colour map entries of a bit depth. -/
def ColorMapNum (BitPerPixel : UINT16) : UINTN :=
  if BitPerPixel = 1 then 2
  else if BitPerPixel = 4 then 16
  else if BitPerPixel = 8 then 256
  else 0

/-- The checks of `TranslateBmpToGopBlt`, up to `BltBufferSize`. -/
def checkBmp (h : BMP_IMAGE_HEADER) (BmpImageSize : UINTN) : Except EFI_STATUS UINT32 := do
  unsupportedIf (h.CharB ≠ 0x42 ∨ h.CharM ≠ 0x4D)
  unsupportedIf (h.CompressionType ≠ 0)
  unsupportedIf (h.PixelHeight = 0 ∨ h.PixelWidth = 0)
  unsupportedIf (h.HeaderSize ≠ sizeofBmpHeader - offsetOfHeaderSize)
  let DataSizePerLine ← orUnsupported (SafeUint32Mult h.PixelWidth h.BitPerPixel.toUInt32)
  let DataSizePerLine ← orUnsupported (SafeUint32Add DataSizePerLine 31)
  let DataSizePerLine := (DataSizePerLine >>> 3) &&& ~~~ (0x3 : UINT32)
  let _BltBufferSize ← orUnsupported (SafeUint32Mult DataSizePerLine h.PixelHeight)
  let DataSize ← orUnsupported (SafeUint32Mult h.PixelHeight DataSizePerLine)
  unsupportedIf (h.Size.toUInt64 ≠ BmpImageSize ∨ h.Size < h.ImageOffset ∨
    h.Size - h.ImageOffset ≠ DataSize)
  unsupportedIf (h.ImageOffset < sizeofBmpHeader)
  -- the file may have padding between the header section and the data section
  unsupportedIf (h.ImageOffset > sizeofBmpHeader ∧
    h.ImageOffset.toUInt64 - sizeofBmpHeader.toUInt64 < 4 * ColorMapNum h.BitPerPixel)
  let BltBufferSize ← orUnsupported (SafeUint32Mult h.PixelWidth h.PixelHeight)
  orUnsupported (SafeUint32Mult BltBufferSize 4)

/-- The walking pointers of the decoder: `Image` as a file offset, `Blt` as an index into
the buffer, the column counter, and the buffer. -/
structure DecodeState where
  Image : Nat
  Blt : Nat
  Width : Nat
  BltBuffer : Region EFI_GRAPHICS_OUTPUT_BLT_PIXEL

/-- Assign the three colours of a pixel; `Reserved` stays what it was. -/
def setColor (Blue Green Red : UINT8) (p : EFI_GRAPHICS_OUTPUT_BLT_PIXEL) :
    EFI_GRAPHICS_OUTPUT_BLT_PIXEL :=
  { p with Blue := Blue, Green := Green, Red := Red }

/-- Assign the colours of `*Blt`. -/
def DecodeState.put (s : DecodeState) (Blue Green Red : UINT8) : DecodeState :=
  { s with BltBuffer := s.BltBuffer.store s.Blt (setColor Blue Green Red (s.BltBuffer.cells s.Blt)) }

/-- Assign the colours of `BmpColorMap[i]` to `*Blt`. -/
def DecodeState.putMapped (s : DecodeState) (m : ByteBuffer) (i : Nat) : DecodeState :=
  s.put (m (sizeofBmpHeader.toNat + 4 * i)) (m (sizeofBmpHeader.toNat + 4 * i + 1))
    (m (sizeofBmpHeader.toNat + 4 * i + 2))

/-- The loop body for one pixel (one byte of a 1-bit or 4-bit row); `none` for a depth that
is not supported. -/
def decodePixel (h : BMP_IMAGE_HEADER) (m : ByteBuffer) (s : DecodeState) : Option DecodeState :=
  let byte := (m s.Image).toNat
  if h.BitPerPixel = 1 then
    let s := (List.range 8).foldl (fun (s : DecodeState) Index =>
      if s.Width < h.PixelWidth.toNat then
        let s := s.putMapped m (byte / 2 ^ (7 - Index) % 2)
        { s with Blt := s.Blt + 1, Width := s.Width + 1 }
      else s) s
    some { s with Blt := s.Blt - 1, Width := s.Width - 1 }
  else if h.BitPerPixel = 4 then
    let s := s.putMapped m (byte / 16)
    if s.Width < h.PixelWidth.toNat - 1 then
      let s := { s with Blt := s.Blt + 1, Width := s.Width + 1 }
      some (s.putMapped m (byte % 16))
    else some s
  else if h.BitPerPixel = 8 then
    some (s.putMapped m byte)
  else if h.BitPerPixel = 24 then
    let s := s.put (m s.Image) (m (s.Image + 1)) (m (s.Image + 2))
    some { s with Image := s.Image + 2 }
  else if h.BitPerPixel = 32 then
    let s := s.put (m s.Image) (m (s.Image + 1)) (m (s.Image + 2))
    some { s with Image := s.Image + 3 }
  else none

/-- `for (Width = ..; Width < PixelWidth; Width++, Image++, Blt++)`. Every turn takes `Width`
further, so `PixelWidth` turns are enough. -/
def decodeColumns (h : BMP_IMAGE_HEADER) (m : ByteBuffer) : Nat → DecodeState → Option DecodeState
  | 0, s => some s
  | fuel + 1, s =>
    if s.Width < h.PixelWidth.toNat then do
      let s ← decodePixel h m s
      decodeColumns h m fuel { s with Width := s.Width + 1, Image := s.Image + 1, Blt := s.Blt + 1 }
    else some s

/-- One row of the file, and the step to the next 32-bit boundary after it. -/
def decodeRow (h : BMP_IMAGE_HEADER) (m : ByteBuffer) (s : DecodeState) (Height : Nat) :
    Option DecodeState := do
  let s ← decodeColumns h m h.PixelWidth.toNat
    { s with Blt := (h.PixelHeight.toNat - Height - 1) * h.PixelWidth.toNat, Width := 0 }
  let ImageIndex := s.Image - h.ImageOffset.toNat
  if ImageIndex % 4 ≠ 0 then some { s with Image := s.Image + (4 - ImageIndex % 4) } else some s

/-- The decoder's loops. -/
def decodeRows (h : BMP_IMAGE_HEADER) (m : ByteBuffer)
    (BltBuffer : Region EFI_GRAPHICS_OUTPUT_BLT_PIXEL) : Option DecodeState :=
  (List.range h.PixelHeight.toNat).foldlM (decodeRow h m) ⟨h.ImageOffset.toNat, 0, 0, BltBuffer⟩

/-- What `TranslateBmpToGopBlt` returns, in its status and through its parameters. -/
structure DecodeResult where
  Status : EFI_STATUS
  GopBlt : Option (Region EFI_GRAPHICS_OUTPUT_BLT_PIXEL)
  GopBltSize : UINTN
  PixelHeight : UINTN
  PixelWidth : UINTN

/-- `TranslateBmpToGopBlt`. `pool` is what `AllocatePool` hands out, `none` for NULL. -/
def TranslateBmpToGopBlt (BmpImage : Option ByteBuffer) (BmpImageSize : UINTN)
    (GopBlt : Option (Region EFI_GRAPHICS_OUTPUT_BLT_PIXEL))
    (GopBltSize PixelHeight PixelWidth : UINTN)
    (pool : Option (Nat → EFI_GRAPHICS_OUTPUT_BLT_PIXEL)) : DecodeResult :=
  match BmpImage with
  | none => ⟨EFI_INVALID_PARAMETER, GopBlt, GopBltSize, PixelHeight, PixelWidth⟩
  | some m =>
    if BmpImageSize < sizeofBmpHeader.toUInt64 then
      ⟨EFI_UNSUPPORTED, GopBlt, GopBltSize, PixelHeight, PixelWidth⟩
    else
      let h := BMP_IMAGE_HEADER.read m
      match checkBmp h BmpImageSize with
      | .error Status => ⟨Status, GopBlt, GopBltSize, PixelHeight, PixelWidth⟩
      | .ok BltBufferSize =>
        let translate (GopBltSize : UINTN) (BltBuffer : Region EFI_GRAPHICS_OUTPUT_BLT_PIXEL)
            (unsupported : Option (Region EFI_GRAPHICS_OUTPUT_BLT_PIXEL)) : DecodeResult :=
          match decodeRows h m BltBuffer with
          | some s => ⟨EFI_SUCCESS, some s.BltBuffer, GopBltSize, h.PixelHeight.toUInt64,
              h.PixelWidth.toUInt64⟩
          | none => ⟨EFI_UNSUPPORTED, unsupported, GopBltSize, h.PixelHeight.toUInt64,
              h.PixelWidth.toUInt64⟩
        match GopBlt with
        | none =>
          match pool with
          | none => ⟨EFI_OUT_OF_RESOURCES, none, BltBufferSize.toUInt64, PixelHeight, PixelWidth⟩
          -- a buffer of its own is freed again when the depth is not supported
          | some cells => translate BltBufferSize.toUInt64 (Region.fresh cells) none
        | some BltBuffer =>
          if GopBltSize < BltBufferSize.toUInt64 then
            ⟨EFI_BUFFER_TOO_SMALL, GopBlt, BltBufferSize.toUInt64, PixelHeight, PixelWidth⟩
          else translate GopBltSize BltBuffer (some BltBuffer)

-- ---------------------------------------------------------------------------
-- Accepted headers
-- ---------------------------------------------------------------------------

/-- Bytes of a row of the file, a multiple of four. -/
def BMP_IMAGE_HEADER.line (h : BMP_IMAGE_HEADER) : Nat := (h.W * h.BitPerPixel.toNat + 31) / 32 * 4

/-- What the checks establish, in exact numbers. -/
structure Accepted (h : BMP_IMAGE_HEADER) (n : UINTN) : Prop where
  signature : h.CharB = 0x42 ∧ h.CharM = 0x4D
  compression : h.CompressionType = 0
  height : h.H ≠ 0
  width : h.W ≠ 0
  headerSize : h.HeaderSize = 40
  row : h.W * h.BitPerPixel.toNat + 31 < 2 ^ 32
  size : h.Size.toUInt64 = n
  data : h.ImageOffset.toNat + h.H * h.line = h.Size.toNat
  offset : 54 ≤ h.ImageOffset.toNat
  colorMap : 54 < h.ImageOffset.toNat →
    4 * (ColorMapNum h.BitPerPixel).toNat ≤ h.ImageOffset.toNat - 54
  pixels : h.W * h.H * 4 < 2 ^ 32

/-- Every way to fail reports `RETURN_UNSUPPORTED`. -/
def OnlyUnsupported {α : Type} (x : Except EFI_STATUS α) : Prop :=
  ∀ Status, x = .error Status → Status = EFI_UNSUPPORTED

/-- Checks in a row fail with the status of one of them. -/
theorem onlyUnsupported_bind {α β : Type} {x : Except EFI_STATUS α}
    {f : α → Except EFI_STATUS β} (hx : OnlyUnsupported x) (hf : ∀ a, OnlyUnsupported (f a)) :
    OnlyUnsupported (x >>= f) := by
  intro Status hError
  cases x with
  | error e =>
    refine hx Status ?_
    simpa [bind, Except.bind] using hError
  | ok a => exact hf a Status (by simpa [bind, Except.bind] using hError)

/-- A check has one status to fail with. -/
theorem onlyUnsupported_unsupportedIf (condition : Prop) [Decidable condition] :
    OnlyUnsupported (unsupportedIf condition) := by
  intro Status hError
  unfold unsupportedIf at hError
  split_ifs at hError
  exact (Except.error.inj hError).symm

/-- So has a failure whose status is replaced. -/
theorem onlyUnsupported_orUnsupported {α : Type} (x : Except EFI_STATUS α) :
    OnlyUnsupported (orUnsupported x) := by
  intro Status hError
  cases x with
  | error e => exact (Except.error.inj hError).symm
  | ok a => cases hError

/-- All that the header is turned down with is `RETURN_UNSUPPORTED`. -/
theorem onlyUnsupported_checkBmp (h : BMP_IMAGE_HEADER) (n : UINTN) :
    OnlyUnsupported (checkBmp h n) := by
  unfold checkBmp
  repeat' first
    | exact onlyUnsupported_unsupportedIf _
    | exact onlyUnsupported_orUnsupported _
    | refine onlyUnsupported_bind ?_ fun _ => ?_

/-- Dropping the low bits of a byte count leaves whole words. -/
theorem toNat_alignedLine (x : UINT32) :
    ((x >>> 3) &&& ~~~ (0x3 : UINT32)).toNat = x.toNat / 32 * 4 := by
  have hShift : (x >>> 3) &&& ~~~ (0x3 : UINT32) = (x >>> 5) <<< 2 := by
    apply UInt32.toBitVec_inj.mp
    ext i hi
    simp only [UInt32.toBitVec_and, UInt32.toBitVec_shiftRight, UInt32.toBitVec_shiftLeft]
    interval_cases i <;> simp
  have hx := x.toNat_lt
  rw [hShift, UInt32.toNat_shiftLeft, UInt32.toNat_shiftRight]
  simp only [UInt32.reduceToNat, Nat.reduceMod, Nat.shiftRight_eq_div_pow, Nat.shiftLeft_eq]
  omega

/-- The size of a colour map does not wrap around. -/
theorem toNat_four_mul_colorMapNum (b : UINT16) :
    (4 * ColorMapNum b).toNat = 4 * (ColorMapNum b).toNat := by
  unfold ColorMapNum
  split_ifs <;> rfl

/-- The room for the colour map is measured without wrap-around once the headers fit. -/
theorem colorMap_lt_iff {h : BMP_IMAGE_HEADER} (hOffset : 54 ≤ h.ImageOffset.toNat) :
    h.ImageOffset.toUInt64 - sizeofBmpHeader.toUInt64 < 4 * ColorMapNum h.BitPerPixel ↔
      ¬ 4 * (ColorMapNum h.BitPerPixel).toNat ≤ h.ImageOffset.toNat - 54 := by
  have hLe : sizeofBmpHeader.toUInt64 ≤ h.ImageOffset.toUInt64 := by
    rw [UInt64.le_iff_toNat_le, UInt32.toNat_toUInt64, UInt32.toNat_toUInt64]
    exact hOffset
  rw [UInt64.lt_iff_toNat_lt, toNat_four_mul_colorMapNum, UInt64.toNat_sub_of_le _ _ hLe,
    UInt32.toNat_toUInt64, UInt32.toNat_toUInt64, Nat.not_le]
  rfl

/-- **What acceptance means.** The chained checks leave exact numbers: no product wrapped,
and the rows fill the file from `ImageOffset` to its end. -/
theorem accepted_of_checkBmp {h : BMP_IMAGE_HEADER} {n : UINTN} {size : UINT32}
    (hOk : checkBmp h n = .ok size) : Accepted h n ∧ size.toNat = h.W * h.H * 4 := by
  simp only [checkBmp, bind_ok_iff, unsupportedIf_ok_iff, orUnsupported_ok_iff,
    SafeUint32Mult_ok_iff, SafeUint32Add_ok_iff] at hOk
  obtain ⟨_, hSig, _, hComp, _, hDim, _, hHead, bits, hRow, bits31, hRow31, _, -, data, hData, _,
    hFile, _, hLow, _, hMap, area, hArea, hBytes⟩ := hOk
  rw [UInt16.toNat_toUInt32] at hRow
  have h31 : UInt32.toNat 31 = 31 := rfl
  have hLine : (bits31 >>> 3 &&& ~~~ (0x3 : UINT32)).toNat = h.line := by
    rw [toNat_alignedLine, hRow31, hRow]
    rfl
  obtain ⟨hB, hM⟩ := not_or.mp hSig
  obtain ⟨hH, hW⟩ := not_or.mp hDim
  obtain ⟨hN, hRest⟩ := not_or.mp hFile
  obtain ⟨hLe, hSub⟩ := not_or.mp hRest
  have hLe' := UInt32.le_iff_toNat_le.mp (UInt32.not_lt.mp hLe)
  have hSub' := UInt32.toNat_sub_of_le _ _ (UInt32.not_lt.mp hLe)
  have hOffset : 54 ≤ h.ImageOffset.toNat :=
    UInt32.le_iff_toNat_le.mp (UInt32.not_lt.mp hLow)
  have hBits31 := bits31.toNat_lt
  have hSize := size.toNat_lt
  have hFour : UInt32.toNat 4 = 4 := rfl
  have hExact : size.toNat = h.W * h.H * 4 := by
    rw [hBytes, hArea, hFour]
    rfl
  refine ⟨⟨⟨not_not.mp hB, not_not.mp hM⟩, not_not.mp hComp, ?_, ?_, not_not.mp hHead, ?_,
    not_not.mp hN, ?_, hOffset, ?_, by omega⟩, hExact⟩
  · exact fun hZero => hH (UInt32.toNat_inj.mp hZero)
  · exact fun hZero => hW (UInt32.toNat_inj.mp hZero)
  · rw [hRow31, hRow, h31] at hBits31
    exact hBits31
  · rw [not_not.mp hSub, hData, hLine] at hSub'
    show _ + h.PixelHeight.toNat * h.line = _
    omega
  · intro hGap
    have hRoom := not_and.mp hMap (UInt32.lt_iff_toNat_lt.mpr hGap)
    rw [colorMap_lt_iff hOffset, not_not] at hRoom
    exact hRoom

/-- **The checks ask for nothing else.** -/
theorem checkBmp_of_accepted {h : BMP_IMAGE_HEADER} {n : UINTN} (hAccepted : Accepted h n) :
    ∃ size, checkBmp h n = .ok size ∧ size.toNat = h.W * h.H * 4 := by
  have hBits := hAccepted.row
  have hData := hAccepted.data
  have hOffset := hAccepted.offset
  have hPixels := hAccepted.pixels
  have hSize := h.Size.toNat_lt
  have hDepth : h.PixelWidth.toNat * h.BitPerPixel.toUInt32.toNat = h.W * h.BitPerPixel.toNat := by
    rw [UInt16.toNat_toUInt32]
    rfl
  have h31 : (UInt32.ofNat (h.W * h.BitPerPixel.toNat + 31)).toNat =
      h.W * h.BitPerPixel.toNat + 31 := UInt32.toNat_ofNat_of_lt' hBits
  have hLine : (UInt32.ofNat (h.W * h.BitPerPixel.toNat + 31) >>> 3 &&& ~~~ (0x3 : UINT32)).toNat =
      h.line := by
    rw [toNat_alignedLine, h31]
    rfl
  have hArea : h.W * h.H < 2 ^ 32 := by omega
  have hRows : h.H * h.line < 2 ^ 32 := by omega
  refine ⟨UInt32.ofNat (h.W * h.H * 4), ?_, UInt32.toNat_ofNat_of_lt' hPixels⟩
  simp only [checkBmp, bind_ok_iff, unsupportedIf_ok_iff, orUnsupported_ok_iff,
    SafeUint32Mult_ok_iff, SafeUint32Add_ok_iff]
  refine ⟨(), ?_, (), ?_, (), ?_, (), ?_, UInt32.ofNat (h.W * h.BitPerPixel.toNat), ?_,
    UInt32.ofNat (h.W * h.BitPerPixel.toNat + 31), ?_, UInt32.ofNat (h.H * h.line), ?_,
    UInt32.ofNat (h.H * h.line), ?_, (), ?_, (), ?_, (), ?_, UInt32.ofNat (h.W * h.H), ?_, ?_⟩
  · exact not_or.mpr ⟨not_not.mpr hAccepted.signature.1, not_not.mpr hAccepted.signature.2⟩
  · exact not_not.mpr hAccepted.compression
  · refine not_or.mpr ⟨fun hZero => hAccepted.height ?_, fun hZero => hAccepted.width ?_⟩
    · rw [BMP_IMAGE_HEADER.H, hZero]
      rfl
    · rw [BMP_IMAGE_HEADER.W, hZero]
      rfl
  · exact not_not.mpr hAccepted.headerSize
  · rw [hDepth, UInt32.toNat_ofNat_of_lt' (show _ < 2 ^ 32 by omega)]
  · rw [h31, UInt32.toNat_ofNat_of_lt' (show _ < 2 ^ 32 by omega)]
    rfl
  · rw [hLine, UInt32.toNat_ofNat_of_lt' hRows, Nat.mul_comm]
    rfl
  · rw [hLine, UInt32.toNat_ofNat_of_lt' hRows]
    rfl
  · have hLe : h.ImageOffset ≤ h.Size := UInt32.le_iff_toNat_le.mpr (by omega)
    refine not_or.mpr ⟨not_not.mpr hAccepted.size, not_or.mpr ⟨UInt32.not_lt.mpr hLe, not_not.mpr ?_⟩⟩
    rw [← UInt32.toNat_inj, UInt32.toNat_sub_of_le _ _ hLe, UInt32.toNat_ofNat_of_lt' hRows]
    omega
  · exact UInt32.not_lt.mpr (UInt32.le_iff_toNat_le.mpr hOffset)
  · rintro ⟨hGap, hRoom⟩
    have hMap := hAccepted.colorMap (UInt32.lt_iff_toNat_lt.mp hGap)
    exact (colorMap_lt_iff hOffset).mp hRoom hMap
  · rw [UInt32.toNat_ofNat_of_lt' hArea]
    rfl
  · rw [UInt32.toNat_ofNat_of_lt' hPixels, UInt32.toNat_ofNat_of_lt' hArea]
    rfl

-- ---------------------------------------------------------------------------
-- The loops as a list, for the depths without a colour map
-- ---------------------------------------------------------------------------

variable {h : BMP_IMAGE_HEADER} {m : ByteBuffer} {b : Nat}

/-- The depth stores `b` bytes a pixel, the three colours first. -/
def Direct (h : BMP_IMAGE_HEADER) (b : Nat) : Prop :=
  (h.BitPerPixel = 24 ∧ b = 3) ∨ (h.BitPerPixel = 32 ∧ b = 4)

/-- A pixel that is no index is read as it stands. -/
theorem decodePixel_direct (hb : Direct h b) (s : DecodeState) :
    decodePixel h m s = some { s.put (m s.Image) (m (s.Image + 1)) (m (s.Image + 2)) with
      Image := s.Image + (b - 1) } := by
  unfold decodePixel
  rcases hb with ⟨hDepth, rfl⟩ | ⟨hDepth, rfl⟩ <;> simp [hDepth, DecodeState.put]

/-- The write made for the pixel at file offset `o`. -/
def colorAt (m : ByteBuffer) (o : Nat) :
    EFI_GRAPHICS_OUTPUT_BLT_PIXEL → EFI_GRAPHICS_OUTPUT_BLT_PIXEL :=
  setColor (m o) (m (o + 1)) (m (o + 2))

/-- A row, one pixel after the other; the induction is on the pixels that are left. -/
theorem decodeColumns_direct (hb : Direct h b) (fuel : Nat) :
    ∀ s : DecodeState, s.Width + fuel = h.W → decodeColumns h m fuel s =
      some ⟨s.Image + b * fuel, s.Blt + fuel, h.W, s.BltBuffer.updateAll
        ((List.range fuel).map fun x => (s.Blt + x, colorAt m (s.Image + b * x)))⟩ := by
  have hPos : 1 ≤ b := by
    rcases hb with ⟨-, rfl⟩ | ⟨-, rfl⟩ <;> omega
  induction fuel with
  | zero =>
    intro s hLeft
    obtain ⟨Image, Blt, Width, BltBuffer⟩ := s
    simpa [decodeColumns] using hLeft
  | succ fuel ih =>
    intro s hLeft
    have hMore : s.Width < h.PixelWidth.toNat := by
      show s.Width < h.W
      omega
    rw [decodeColumns, if_pos hMore, decodePixel_direct hb]
    show decodeColumns h m fuel _ = _
    rw [ih _ (by simp only [DecodeState.put]; omega)]
    have hImage : s.Image + (b - 1) + 1 = s.Image + b := by omega
    have hNext : ∀ x, s.Image + b + b * x = s.Image + b * (x + 1) := fun x => by
      rw [Nat.mul_succ]
      omega
    have hBlt : ∀ x, s.Blt + 1 + x = s.Blt + (x + 1) := fun x => by omega
    simp only [DecodeState.put, hImage, hNext, hBlt, List.range_succ_eq_map, List.map_cons,
      List.map_map, Region.updateAll_cons]
    rfl

/-- The depth's row fills whole words. -/
theorem line_direct (hb : Direct h b) : h.line = (b * h.W + 3) / 4 * 4 := by
  unfold BMP_IMAGE_HEADER.line
  rcases hb with ⟨hDepth, rfl⟩ | ⟨hDepth, rfl⟩
  · rw [hDepth, show UInt16.toNat 24 = 24 from rfl]
    omega
  · rw [hDepth, show UInt16.toNat 32 = 32 from rfl]
    omega

/-- Row `y` of the file goes to row `H - 1 - y` of the buffer. -/
theorem decodeRow_direct (hb : Direct h b) {s : DecodeState} {y : Nat}
    (hImage : s.Image = h.ImageOffset.toNat + y * h.line) :
    ∃ s', decodeRow h m s y = some s' ∧ s'.Image = h.ImageOffset.toNat + (y + 1) * h.line ∧
      s'.BltBuffer = s.BltBuffer.updateAll ((List.range h.W).map fun x =>
        (index h.W (flipRow h.H (y, x)), colorAt m (h.ImageOffset.toNat + y * h.line + b * x))) := by
  have hLine := line_direct hb
  have hWords : y * h.line = 4 * (y * ((b * h.W + 3) / 4)) := by
    rw [hLine]
    ring
  have hRow : h.PixelHeight.toNat - y - 1 = h.H - 1 - y := Nat.sub_right_comm _ _ _
  rw [decodeRow, show h.PixelWidth.toNat = h.W from rfl, hRow,
    decodeColumns_direct hb h.W _ (Nat.zero_add _)]
  simp only [hImage, Option.bind_eq_bind, Option.bind_some]
  split_ifs with hAligned
  · refine ⟨_, rfl, ?_, rfl⟩
    simp only [Nat.add_mul, Nat.one_mul]
    omega
  · refine ⟨_, rfl, ?_, rfl⟩
    simp only [Nat.add_mul, Nat.one_mul]
    omega

/-- **The decoder's loops as a list.** With `b` bytes a pixel, the colours of every point of
the file go to the same point upside down; no pixel is turned down. -/
theorem decodeRows_direct (hb : Direct h b) (r : Region EFI_GRAPHICS_OUTPUT_BLT_PIXEL) :
    ∃ s, decodeRows h m r = some s ∧ s.BltBuffer = r.updateAll ((points h.W h.H).map fun p =>
      (index h.W (flipRow h.H p),
        colorAt m (h.ImageOffset.toNat + p.1 * h.line + b * p.2))) := by
  have hRows : ∀ k, ∃ s, (List.range k).foldlM (decodeRow h m) ⟨h.ImageOffset.toNat, 0, 0, r⟩ =
      some s ∧ s.Image = h.ImageOffset.toNat + k * h.line ∧
      s.BltBuffer = r.updateAll ((points h.W k).map fun p => (index h.W (flipRow h.H p),
        colorAt m (h.ImageOffset.toNat + p.1 * h.line + b * p.2))) := by
    intro k
    induction k with
    | zero => exact ⟨_, rfl, by simp, rfl⟩
    | succ k ih =>
      obtain ⟨s, hs, hImage, hBuffer⟩ := ih
      obtain ⟨s', hs', hImage', hBuffer'⟩ := decodeRow_direct (m := m) hb hImage
      refine ⟨s', ?_, hImage', ?_⟩
      · rw [List.range_succ, List.foldlM_append, hs]
        simpa using hs'
      · rw [hBuffer', hBuffer, points_succ, List.map_append, Region.updateAll_append, List.map_map]
        rfl
  obtain ⟨s, hs, -, hBuffer⟩ := hRows h.H
  exact ⟨s, hs, hBuffer⟩

end TianJi.Model

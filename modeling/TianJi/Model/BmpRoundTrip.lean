import TianJi.Model.BmpAgree
import TianJi.Model.BmpEncoder

/-!
# TianJi — what the picture writer writes, the reference decoder reads

`TranslateGopBltToBmp` as 截屏 uses it, followed by `TranslateBmpToGopBlt`. Writer and decoder
pad their rows differently: the one adds `W mod 4` bytes, the other rounds the row's bits up
to words and realigns its pointer. For three bytes a pixel the two agree (`line_eq_rowSize`).

* `picture_accepted` — the decoder's checks let the written header through.
* `decodeRows_picture` — its loops leave the pixels that were written.
* `encode_roundTrip` — the whole way, for every buffer of a representable size.
-/

namespace TianJi.Model

open Bytes Canvas Memory

variable {GopBlt : Nat → EFI_GRAPHICS_OUTPUT_BLT_PIXEL} {W H : UINT32} {m : ByteBuffer}

/-- A call of the decoder returns this picture and stays inside the buffer `r₀` it started
with. -/
structure DecodeResult.Returns (d : DecodeResult) (r₀ : Region EFI_GRAPHICS_OUTPUT_BLT_PIXEL)
    (W H : UINT32) (GopBlt : Nat → EFI_GRAPHICS_OUTPUT_BLT_PIXEL) : Prop where
  status : d.Status = EFI_SUCCESS
  width : d.PixelWidth = W.toUInt64
  height : d.PixelHeight = H.toUInt64
  pixels : ∃ r, d.GopBlt = some r ∧
    (r₀.InBounds (W.toNat * H.toNat) → r.InBounds (W.toNat * H.toNat)) ∧
    ∀ y < H.toNat, ∀ x < W.toNat,
      SameColor (r.cells (y * W.toNat + x)) (GopBlt (y * W.toNat + x))

-- ---------------------------------------------------------------------------
-- Acceptance
-- ---------------------------------------------------------------------------

/-- Rounding three bytes a pixel up to words adds as many bytes as `W mod 4`. -/
theorem line_eq_rowSize (size H W : UINT32) : (imageHeader size H W).line = rowSize W.toNat := by
  have hDirect : Direct (imageHeader size H W) 3 := Or.inl ⟨rfl, rfl⟩
  have hWidth : (imageHeader size H W).W = W.toNat := rfl
  rw [line_direct hDirect, rowSize, hWidth]
  omega

/-- **The written header is accepted**, for every representable size. -/
theorem picture_accepted (hEnc : Encodable W H) (hBits : 24 * W.toNat + 31 < 2 ^ 32)
    (hArea : W.toNat * H.toNat * 4 < 2 ^ 32) :
    Accepted (imageHeader (UInt32.ofNat (pictureSize W.toNat H.toNat)) H W)
      (UInt32.ofNat (pictureSize W.toNat H.toNat)).toUInt64 := by
  obtain ⟨hW, hH, hSize⟩ := hEnc
  refine ⟨⟨rfl, rfl⟩, rfl, ?_, ?_, rfl, ?_, rfl, ?_, le_refl _, ?_, hArea⟩
  · show H.toNat ≠ 0
    omega
  · show W.toNat ≠ 0
    omega
  · show W.toNat * 24 + 31 < 2 ^ 32
    omega
  · rw [line_eq_rowSize]
    show 54 + H.toNat * rowSize W.toNat = (UInt32.ofNat (pictureSize W.toNat H.toNat)).toNat
    rw [UInt32.toNat_ofNat_of_lt' hSize, pictureSize, Nat.mul_comm]
    omega
  · intro hGap
    exact absurd hGap (lt_irrefl _)

-- ---------------------------------------------------------------------------
-- Pixels
-- ---------------------------------------------------------------------------

/-- **The decoder's loops over a written picture.** Row by row from the file's start they fill
the buffer from its last row upwards with the pixels that were written. -/
theorem decodeRows_picture (hHeld : Holds m 0 (picture24 GopBlt W H))
    (r₀ : Region EFI_GRAPHICS_OUTPUT_BLT_PIXEL) :
    ∃ s, decodeRows (BMP_IMAGE_HEADER.read m) m r₀ = some s ∧
      (r₀.InBounds (W.toNat * H.toNat) → s.BltBuffer.InBounds (W.toNat * H.toNat)) ∧
      ∀ y < H.toNat, ∀ x < W.toNat,
        SameColor (s.BltBuffer.cells (y * W.toNat + x)) (GopBlt (y * W.toNat + x)) := by
  rw [header_of_picture hHeld]
  generalize UInt32.ofNat (pictureSize W.toNat H.toNat) = size
  have hDirect : Direct (imageHeader size H W) 3 := Or.inl ⟨rfl, rfl⟩
  obtain ⟨s, hRows, hBuffer⟩ := decodeRows_direct (m := m) hDirect r₀
  rw [line_eq_rowSize] at hBuffer
  refine ⟨s, hRows, ?_, ?_⟩
  · intro hStart
    rw [hBuffer]
    exact inBounds_updatePoints _ (fun p hp => flipRow_mem hp) hStart
  · intro y hy x hx
    have hp : (y, x) ∈ points W.toNat H.toNat := mem_points.mpr ⟨hy, hx⟩
    have hCell := cells_updatePoints (r := r₀)
      (fun p => colorAt m (54 + p.1 * rowSize W.toNat + 3 * p.2))
      (fun p hp => flipRow_mem hp) (fun p hp q hq hEq => flipRow_inj hp hq hEq) (flipRow_mem hp)
    rw [flipRow_flipRow hp] at hCell
    have hPixel := pixel_of_picture hHeld hx hy
    have hCell' : s.BltBuffer.cells (y * W.toNat + x) =
        colorAt m (54 + (H.toNat - 1 - y) * rowSize W.toNat + 3 * x)
          (r₀.cells (y * W.toNat + x)) := by
      rw [hBuffer]
      exact hCell
    rw [hCell']
    exact ⟨hPixel 2 _ rfl, hPixel 1 _ rfl, hPixel 0 _ rfl⟩

-- ---------------------------------------------------------------------------
-- The whole way
-- ---------------------------------------------------------------------------

/-- The decoder on memory that holds a picture: it allocates a buffer or takes a given one that
is large enough. -/
theorem decode_picture (hEnc : Encodable W H) (hBits : 24 * W.toNat + 31 < 2 ^ 32)
    (hArea : W.toNat * H.toNat * 4 < 2 ^ 32) (hHeld : Holds m 0 (picture24 GopBlt W H)) :
    (∀ pool n h w, (TranslateBmpToGopBlt (some m)
        (UInt32.ofNat (pictureSize W.toNat H.toNat)).toUInt64 none n h w (some pool)).Returns
      (Region.fresh pool) W H GopBlt) ∧
    ∀ r n h w pool, W.toNat * H.toNat * 4 ≤ n.toNat → (TranslateBmpToGopBlt (some m)
        (UInt32.ofNat (pictureSize W.toNat H.toNat)).toUInt64 (some r) n h w pool).Returns
      r W H GopBlt := by
  obtain ⟨size, hCheck, hSize⟩ := checkBmp_of_accepted (picture_accepted hEnc hBits hArea)
  have hExact : (UInt32.ofNat (pictureSize W.toNat H.toNat)).toUInt64.toNat =
      pictureSize W.toNat H.toNat := by
    rw [UInt32.toNat_toUInt64, UInt32.toNat_ofNat_of_lt' hEnc.2.2]
  have hLong : ¬ (UInt32.ofNat (pictureSize W.toNat H.toNat)).toUInt64 <
      sizeofBmpHeader.toUInt64 := by
    rw [UInt64.lt_iff_toNat_lt, hExact, pictureSize]
    show ¬ _ < 54
    omega
  rw [← header_of_picture hHeld] at hCheck
  have hHeader := header_of_picture hHeld
  constructor
  · intro pool n h w
    obtain ⟨s, hRows, hBound, hColors⟩ := decodeRows_picture hHeld (Region.fresh pool)
    unfold TranslateBmpToGopBlt
    simp only [if_neg hLong, hCheck, hRows]
    exact ⟨rfl, by rw [hHeader]; rfl, by rw [hHeader]; rfl, _, rfl, hBound, hColors⟩
  · intro r n h w pool hRoom
    obtain ⟨s, hRows, hBound, hColors⟩ := decodeRows_picture hHeld r
    have hFits : ¬ n < size.toUInt64 := by
      rw [UInt64.lt_iff_toNat_lt, UInt32.toNat_toUInt64, hSize]
      exact Nat.not_lt.mpr hRoom
    unfold TranslateBmpToGopBlt
    simp only [if_neg hLong, hCheck, hRows, if_neg hFits]
    exact ⟨rfl, by rw [hHeader]; rfl, by rw [hHeader]; rfl, _, rfl, hBound, hColors⟩

/--
**Nothing of a picture is lost.** For every buffer of a representable size the writer, which
allocates the image itself, reports the image's length as its size, in its result and in the
header, and writes only inside. Any memory with these bytes is accepted by the decoder, which
returns the sides and the colour of every pixel, in a buffer of its own or in a given one.
-/
theorem encode_roundTrip (GopBlt : Nat → EFI_GRAPHICS_OUTPUT_BLT_PIXEL) (W H BmpImageSize : UINT32)
    (hW : 1 ≤ W.toNat) (hH : 1 ≤ H.toNat) (hBits : 24 * W.toNat + 31 < 2 ^ 32)
    (hArea : W.toNat * H.toNat * 4 < 2 ^ 32)
    (hSize : H.toNat * (3 * W.toNat + W.toNat % 4) + 54 < 2 ^ 32) :
    ∃ block size,
      TranslateGopBltToBmp (some GopBlt) H W none BmpImageSize true =
        ⟨EFI_SUCCESS, some block, size⟩ ∧
      size.toNat = H.toNat * (3 * W.toNat + W.toNat % 4) + 54 ∧
      (BMP_IMAGE_HEADER.read block.cells).Size = size ∧
      block.InBounds size.toNat ∧
      ∀ m : ByteBuffer, (∀ i < size.toNat, m i = block.cells i) →
        (∀ pool n h w, (TranslateBmpToGopBlt (some m) size.toUInt64 none n h w
          (some pool)).Returns (Region.fresh pool) W H GopBlt) ∧
        ∀ r n h w pool, W.toNat * H.toNat * 4 ≤ n.toNat →
          (TranslateBmpToGopBlt (some m) size.toUInt64 (some r) n h w pool).Returns r W H GopBlt := by
  have hLength : H.toNat * (3 * W.toNat + W.toNat % 4) + 54 = pictureSize W.toNat H.toNat := by
    rw [pictureSize, rowSize, Nat.mul_comm]
  have hEnc : Encodable W H := ⟨hW, hH, hLength ▸ hSize⟩
  have hExact := UInt32.toNat_ofNat_of_lt' hEnc.2.2
  obtain ⟨block, hRun, hHeld, hBound⟩ := encode_fresh GopBlt BmpImageSize hEnc
  refine ⟨block, _, hRun, by rw [hExact, hLength], ?_, by rwa [hExact], ?_⟩
  · rw [header_of_picture hHeld]
    rfl
  · intro m hSame
    refine decode_picture hEnc hBits hArea ?_
    intro i b hGet
    rw [hSame (0 + i) ?_]
    · exact hHeld i b hGet
    · rw [hExact, ← length_picture24 GopBlt, Nat.zero_add]
      exact (List.getElem?_eq_some_iff.mp hGet).1

/-- Two rows of three pixels, all of them different. -/
def sixColours (i : Nat) : EFI_GRAPHICS_OUTPUT_BLT_PIXEL := ⟨i.toUInt8, 2 * i.toUInt8, 255, 0⟩

/-- They come back as they were. -/
theorem encode_roundTrip_sixColours : ∃ block size,
    TranslateGopBltToBmp (some sixColours) 2 3 none 0 true = ⟨EFI_SUCCESS, some block, size⟩ ∧
    (TranslateBmpToGopBlt (some block.cells) size.toUInt64 none 0 0 0
      (some fun _ => ⟨0, 0, 0, 0⟩)).Returns (Region.fresh fun _ => ⟨0, 0, 0, 0⟩) 3 2 sixColours := by
  obtain ⟨block, size, hRun, -, -, -, hDecode⟩ := encode_roundTrip sixColours
    3 2 0 (by decide) (by decide) (by decide) (by decide) (by decide)
  exact ⟨block, size, hRun, (hDecode block.cells fun _ _ => rfl).1 _ 0 0 0⟩

end TianJi.Model

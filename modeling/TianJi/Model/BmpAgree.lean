import TianJi.Model.BmpReader
import TianJi.Model.BmpSupportLib

/-!
# TianJi — the two decoders agree

`读取并转换Bmp` (天玑.c) against `TranslateBmpToGopBlt` (BmpSupportLib.c) on 32-bit files. The
reference walks the file forwards and the buffer's rows bottom up; the hand-written reader
walks the buffer forwards and computes where each pixel lies in the file. Both are lists of
stores over the same points, one of them upside down, and what the reference checks before
it starts is what the reader needs to stay inside the file.

* `reader_agrees` — a file that the reference accepts is read safely and alike.
-/

namespace TianJi.Model

open Canvas Memory Ownership

/-- Two pixels of one colour; `Reserved` is left out, the reference does not set it. -/
def SameColor (p q : EFI_GRAPHICS_OUTPUT_BLT_PIXEL) : Prop :=
  p.Red = q.Red ∧ p.Green = q.Green ∧ p.Blue = q.Blue

instance (p q : EFI_GRAPHICS_OUTPUT_BLT_PIXEL) : Decidable (SameColor p q) :=
  inferInstanceAs (Decidable (_ ∧ _))

/-- A call of the reader succeeds, stays inside the file and its buffer, and returns the
picture that the reference decoder returned. -/
structure Agrees (e : «读图环境») (L : Ledger) (d : DecodeResult) : Prop where
  succeeds : EFI_ERROR («读取并转换Bmp» e L).1.Status = false
  safe : SafeRead e L
  width : («读取并转换Bmp» e L).1.PixelWidth = d.PixelWidth
  height : («读取并转换Bmp» e L).1.PixelHeight = d.PixelHeight
  size : («读取并转换Bmp» e L).1.GopBltSize = d.GopBltSize
  colors : ∃ s allocated GopBlt, («读取并转换Bmp» e L).1.converted = some (s, allocated) ∧
    d.GopBlt = some GopBlt ∧ ∀ y < d.PixelHeight.toNat, ∀ x < d.PixelWidth.toNat,
      SameColor (s.GopBlt.cells (y * d.PixelWidth.toNat + x))
        (GopBlt.cells (y * d.PixelWidth.toNat + x))

section

variable {m : ByteBuffer} {n size₀ h₀ w₀ : UINTN}
  {pool : Nat → EFI_GRAPHICS_OUTPUT_BLT_PIXEL}

/-- A successful call of the reference, taken apart: the file is long enough for a header,
the checks pass, and the loops end. -/
theorem decode_success
    (hAccept : (TranslateBmpToGopBlt (some m) n none size₀ h₀ w₀ (some pool)).Status = EFI_SUCCESS) :
    54 ≤ n.toNat ∧ ∃ BltBufferSize s,
      checkBmp (BMP_IMAGE_HEADER.read m) n = .ok BltBufferSize ∧
      decodeRows (BMP_IMAGE_HEADER.read m) m (Region.fresh pool) = some s ∧
      TranslateBmpToGopBlt (some m) n none size₀ h₀ w₀ (some pool) =
        ⟨EFI_SUCCESS, some s.BltBuffer, BltBufferSize.toUInt64,
          (BMP_IMAGE_HEADER.read m).PixelHeight.toUInt64,
          (BMP_IMAGE_HEADER.read m).PixelWidth.toUInt64⟩ := by
  have hUnsupported : EFI_UNSUPPORTED ≠ EFI_SUCCESS := by decide
  by_cases hShort : n < sizeofBmpHeader.toUInt64
  · rw [TranslateBmpToGopBlt] at hAccept
    simp only [if_pos hShort] at hAccept
    exact absurd hAccept hUnsupported
  refine ⟨UInt64.le_iff_toNat_le.mp (UInt64.not_lt.mp hShort), ?_⟩
  rw [TranslateBmpToGopBlt] at hAccept ⊢
  simp only [if_neg hShort] at hAccept ⊢
  cases hCheck : checkBmp (BMP_IMAGE_HEADER.read m) n with
  | error Status =>
    simp only [hCheck] at hAccept
    exact absurd ((onlyUnsupported_checkBmp _ _ _ hCheck).symm.trans hAccept) hUnsupported
  | ok BltBufferSize =>
    cases hRows : decodeRows (BMP_IMAGE_HEADER.read m) m (Region.fresh pool) with
    | none =>
      simp only [hCheck, hRows] at hAccept
      exact absurd hAccept hUnsupported
    | some s => exact ⟨BltBufferSize, s, rfl, rfl, rfl⟩

variable {e : «读图环境»}

/-- The rows of a 32-bit picture have no padding. -/
theorem line_four {h : BMP_IMAGE_HEADER} (hDepth : Direct h 4) : h.line = 4 * h.W := by
  rw [line_direct hDepth]
  omega

/-- The rows of an accepted 32-bit file end where the file ends. -/
theorem data_end {h : BMP_IMAGE_HEADER} (hDepth : Direct h 4) (hAccepted : Accepted h n) :
    h.ImageOffset.toNat + 4 * (h.W * h.H) = n.toNat := by
  have hData := hAccepted.data
  have hSize := congrArg UInt64.toNat hAccepted.size
  rw [UInt32.toNat_toUInt64] at hSize
  rw [line_four hDepth, Nat.mul_comm h.H, Nat.mul_assoc] at hData
  omega

/-- At a point both decoders look at the same three bytes of the file: the reference when
it comes to the row from the bottom, the reader when it computes where the row lies. -/
theorem pixelOffset_eq {h : BMP_IMAGE_HEADER} (hDepth : Direct h 4) {p : Nat × Nat} :
    pixelOffset h p =
      h.ImageOffset.toNat + (flipRow h.H p).1 * h.line + 4 * (flipRow h.H p).2 := by
  rw [pixelOffset, line_four hDepth, index, Nat.mul_add, Nat.mul_left_comm]
  omega

/-- What both decoders leave at a point, when they read the same bytes there. -/
theorem sameColor_at {s : DecodeState} (hDirect : Direct e.header 4)
    (hArea : e.header.W * e.header.H < 2 ^ 32)
    (hRows : decodeRows e.header m (Region.fresh pool) = some s) {p : Nat × Nat}
    (hp : p ∈ points e.header.W e.header.H)
    (hSame : ∀ k < 4, e.mem (pixelOffset e.header p + k) = m (pixelOffset e.header p + k)) :
    SameColor (e.final.GopBlt.cells (index e.header.W p))
      (s.BltBuffer.cells (index e.header.W p)) := by
  obtain ⟨s', hs', hBuffer⟩ := decodeRows_direct (m := m) hDirect (Region.fresh pool)
  obtain rfl : s' = s := Option.some.inj (hs'.symm.trans hRows)
  have hRead := cells_storePoints (r := Region.fresh e.pool) (g := id)
    (fun p => loadPixel e.header e.mem
      (srcIndex e.header (UInt64.ofNat p.1) (UInt64.ofNat p.2)))
    (fun p hp => hp) (fun p _ q _ hEq => hEq) hp
  have hReference := cells_updatePoints (r := Region.fresh pool)
    (fun p => colorAt m (e.header.ImageOffset.toNat + p.1 * e.header.line + 4 * p.2))
    (fun p hp => flipRow_mem hp) (fun p hp q hq hEq => flipRow_inj hp hq hEq) (flipRow_mem hp)
  rw [flipRow_flipRow hp] at hReference
  simp only [id_eq] at hRead
  rw [final_eq, hBuffer, hRead, hReference, loadPixel_eq hArea hp, ← pixelOffset_eq hDirect,
    colorAt]
  exact ⟨hSame 2 (by omega), hSame 1 (by omega), hSame 0 (by omega)⟩

/--
**The two decoders agree.** Whatever 32-bit file the reference decoder accepts, the reader
succeeds on it, loads only the file's bytes, stores only into its buffer, and returns the
same sizes and the same colours.
-/
theorem reader_agrees
    (hAccept : (TranslateBmpToGopBlt (some m) n none size₀ h₀ w₀ (some pool)).Status = EFI_SUCCESS)
    (hDepth : (BMP_IMAGE_HEADER.read m).BitPerPixel = 32) (hOk : e.Succeeds)
    (hLength : e.BytesRead = n) (hFile : ∀ i < n.toNat, e.mem i = m i) (L : Ledger) :
    Agrees e L (TranslateBmpToGopBlt (some m) n none size₀ h₀ w₀ (some pool)) := by
  obtain ⟨hLong, BltBufferSize, s, hCheck, hRows, hResult⟩ := decode_success hAccept
  obtain ⟨hAccepted, hBytes⟩ := accepted_of_checkBmp hCheck
  -- the reader sees the reference's header
  have hHeader : e.header = BMP_IMAGE_HEADER.read m :=
    BMP_IMAGE_HEADER.read_congr fun i hi => hFile i (by omega)
  rw [← hHeader] at hAccepted hBytes hRows hDepth hResult
  have hDirect : Direct e.header 4 := Or.inr ⟨hDepth, rfl⟩
  have hEnd := data_end hDirect hAccepted
  have hArea : e.header.W * e.header.H < 2 ^ 32 := by
    have := hAccepted.pixels
    omega
  have hSigned : e.Signed := by
    obtain ⟨hB, hM⟩ := hAccepted.signature
    exact ⟨hB, hM⟩
  obtain ⟨hStatus, hBltSize, hHeight, hWidth, hConverted⟩ := reader_signed hOk hSigned L
  rw [hResult]
  refine ⟨by rw [hStatus]; exact hOk.read, ?_, hWidth, hHeight, ?_, ?_⟩
  · refine safeRead_of_room hOk hSigned (by rw [hLength]; omega) hArea (Or.inr ?_) L
    rw [hLength, hEnd]
  · rw [hBltSize, ← UInt64.toNat_inj, toNat_pixelBytes, Nat.mod_eq_of_lt hArea,
      UInt32.toNat_toUInt64, hBytes]
  · refine ⟨e.final, _, _, hConverted, rfl, fun y hy x hx => ?_⟩
    rw [UInt32.toNat_toUInt64] at hy hx ⊢
    have hp : (y, x) ∈ points e.header.W e.header.H := mem_points.mpr ⟨hy, hx⟩
    have hIn := index_lt (flipRow_mem hp)
    refine sameColor_at hDirect hArea hRows hp fun k hk => hFile _ ?_
    rw [pixelOffset]
    omega

/-- A picture of two by two pixels, read by both. -/
theorem reader_agrees_squareFile :
    Agrees (.ofFile squareFile fun _ => 0) .empty
      (TranslateBmpToGopBlt (some fun i => squareFile.getD i 0) 70 none 0 0 0
        (some fun _ => default)) :=
  reader_agrees (by decide +kernel) (by decide +kernel) (by decide) (by decide +kernel)
    (fun _ _ => rfl) _

end

end TianJi.Model

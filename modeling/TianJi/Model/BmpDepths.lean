import TianJi.Model.BmpSupportLib

/-!
# TianJi — every depth of the reference decoder

`TranslateBmpToGopBlt` (BmpSupportLib.c) over the depths it knows: 1, 4 and 8 bits a pixel
through a colour map behind the header, 24 and 32 bits with the colours in place. The 1-bit
and 4-bit cases move the pixel pointer and the column inside the loop's body, more than one
pixel a turn; the row still ends at the width.

* `decodePixel_packed`       — a turn of the loop writes the pixels of one byte.
* `decodeRows_supported`     — the loops as one list of partial writes, at any known depth.
* `decodeRows_unsupported`   — any other depth is turned down at the first pixel.
-/

namespace TianJi.Model

open Bytes Canvas Memory

variable {h : BMP_IMAGE_HEADER} {m : ByteBuffer} {d P : Nat}

-- ---------------------------------------------------------------------------
-- Samples and the colour map
-- ---------------------------------------------------------------------------

/-- The depths the decoder's `switch` has a case for. -/
def BMP_IMAGE_HEADER.Supported (h : BMP_IMAGE_HEADER) : Prop :=
  h.BitPerPixel = 1 ∨ h.BitPerPixel = 4 ∨ h.BitPerPixel = 8 ∨ h.BitPerPixel = 24 ∨
    h.BitPerPixel = 32

instance (h : BMP_IMAGE_HEADER) : Decidable h.Supported :=
  inferInstanceAs (Decidable (_ ∨ _))

/-- The depth packs `P` pixels of `d` bits into a byte. -/
def Packed (h : BMP_IMAGE_HEADER) (d P : Nat) : Prop :=
  (h.BitPerPixel = 1 ∧ d = 1 ∧ P = 8) ∨ (h.BitPerPixel = 4 ∧ d = 4 ∧ P = 2) ∨
    (h.BitPerPixel = 8 ∧ d = 8 ∧ P = 1)

/-- The `x`-th group of `d` bits from file offset `o` on, the high bits of a byte first. -/
def sample (m : ByteBuffer) (d o x : Nat) : Nat :=
  (m (o + x / (8 / d))).toNat / 2 ^ (8 - d * (x % (8 / d) + 1)) % 2 ^ d

/-- The write made for entry `i` of the colour map, which begins where the header ends. -/
def mapped (m : ByteBuffer) (i : Nat) :
    EFI_GRAPHICS_OUTPUT_BLT_PIXEL → EFI_GRAPHICS_OUTPUT_BLT_PIXEL :=
  colorAt m (sizeofBmpHeader.toNat + 4 * i)

/-- File offset of row `y`, counted from the row that comes first in the file. -/
def BMP_IMAGE_HEADER.rowOffset (h : BMP_IMAGE_HEADER) (y : Nat) : Nat :=
  h.ImageOffset.toNat + y * h.line

/-- Where the colours of point `p` of the file lie. -/
def BMP_IMAGE_HEADER.colorOffset (h : BMP_IMAGE_HEADER) (m : ByteBuffer) (p : Nat × Nat) : Nat :=
  if h.BitPerPixel.toNat ≤ 8 then
    sizeofBmpHeader.toNat + 4 * sample m h.BitPerPixel.toNat (h.rowOffset p.1) p.2
  else h.rowOffset p.1 + h.BitPerPixel.toNat / 8 * p.2

/-- A sample is an index of its colour map. -/
theorem sample_lt (m : ByteBuffer) (d o x : Nat) : sample m d o x < 2 ^ d :=
  Nat.mod_lt _ (Nat.two_pow_pos d)

/-- Packed depths have less than a byte or one. -/
theorem packed_bits (hPacked : Packed h d P) :
    h.BitPerPixel.toNat = d ∧ d ≤ 8 ∧ 8 / d = P ∧ 0 < P := by
  rcases hPacked with ⟨hDepth, rfl, rfl⟩ | ⟨hDepth, rfl, rfl⟩ | ⟨hDepth, rfl, rfl⟩
  all_goals
    rw [hDepth]
    exact ⟨rfl, by omega, rfl, by omega⟩

/-- The other ones have three bytes or four. -/
theorem direct_bits {b : Nat} (hDirect : Direct h b) :
    h.BitPerPixel.toNat / 8 = b ∧ 8 < h.BitPerPixel.toNat := by
  rcases hDirect with ⟨hDepth, rfl⟩ | ⟨hDepth, rfl⟩
  all_goals
    rw [hDepth]
    exact ⟨rfl, by simp⟩

/-- These are all of them. -/
theorem supported_iff : h.Supported ↔ (∃ d P, Packed h d P) ∨ ∃ b, Direct h b := by
  constructor
  · rintro (hDepth | hDepth | hDepth | hDepth | hDepth)
    · exact .inl ⟨1, 8, .inl ⟨hDepth, rfl, rfl⟩⟩
    · exact .inl ⟨4, 2, .inr (.inl ⟨hDepth, rfl, rfl⟩)⟩
    · exact .inl ⟨8, 1, .inr (.inr ⟨hDepth, rfl, rfl⟩)⟩
    · exact .inr ⟨3, .inl ⟨hDepth, rfl⟩⟩
    · exact .inr ⟨4, .inr ⟨hDepth, rfl⟩⟩
  · rintro (⟨d, P, hPacked⟩ | ⟨b, hDirect⟩)
    · rcases hPacked with ⟨hDepth, -⟩ | ⟨hDepth, -⟩ | ⟨hDepth, -⟩ <;>
        simp [BMP_IMAGE_HEADER.Supported, hDepth]
    · rcases hDirect with ⟨hDepth, -⟩ | ⟨hDepth, -⟩ <;>
        simp [BMP_IMAGE_HEADER.Supported, hDepth]

/-- The samples of the byte at `o` come before those of the byte after it. -/
theorem sample_first {j : Nat} (hd : 8 / d = P) (hj : j < P) (o : Nat) :
    sample m d o j = (m o).toNat / 2 ^ (8 - d * (j + 1)) % 2 ^ d := by
  rw [sample, hd, Nat.div_eq_of_lt hj, Nat.mod_eq_of_lt hj, Nat.add_zero]

/-- The samples of a byte come from its high end. -/
theorem sample_next (hd : 8 / d = P) (hP : 0 < P) (o j : Nat) :
    sample m d o (P + j) = sample m d (o + 1) j := by
  rw [sample, sample, hd, Nat.add_div_left _ hP, Nat.add_mod_left]
  congr 4
  omega

-- ---------------------------------------------------------------------------
-- One byte
-- ---------------------------------------------------------------------------

/-- The write at `*Blt` and the step to the next pixel, `n` times. -/
theorem foldl_putMapped (index : Nat → Nat) (W : Nat) (n : Nat) (s : DecodeState)
    (hWidth : s.Width ≤ W) :
    (List.range n).foldl (fun (s : DecodeState) i =>
      if s.Width < W then
        let s := s.putMapped m (index i)
        { s with Blt := s.Blt + 1, Width := s.Width + 1 }
      else s) s =
    ⟨s.Image, s.Blt + min n (W - s.Width), s.Width + min n (W - s.Width),
      s.BltBuffer.updateAll ((List.range (min n (W - s.Width))).map fun i =>
        (s.Blt + i, mapped m (index i)))⟩ := by
  induction n with
  | zero => simp
  | succ n ih =>
    rw [List.range_succ, List.foldl_append, ih]
    simp only [List.foldl_cons, List.foldl_nil]
    split_ifs with hMore
    · have hAll : min n (W - s.Width) = n := by omega
      have hOne : min (n + 1) (W - s.Width) = n + 1 := by omega
      rw [hAll, hOne, List.range_succ, List.map_append, Region.updateAll_append]
      rfl
    · have hSame : min (n + 1) (W - s.Width) = min n (W - s.Width) := by omega
      rw [hSame]

/-- **One turn of the loop.** The pixels of the byte at `Image` are written, as many as the
row has room for; the pointer and the column stay on the last of them. -/
theorem decodePixel_packed (hPacked : Packed h d P) {s : DecodeState} (hMore : s.Width < h.W) :
    decodePixel h m s = some ⟨s.Image, s.Blt + (min P (h.W - s.Width) - 1),
      s.Width + (min P (h.W - s.Width) - 1),
      s.BltBuffer.updateAll ((List.range (min P (h.W - s.Width))).map fun j =>
        (s.Blt + j, mapped m (sample m d s.Image j)))⟩ := by
  obtain ⟨-, -, hd, hP⟩ := packed_bits hPacked
  have hByte := (m s.Image).toNat_lt
  have hWrites : ∀ k ≤ P, ((List.range k).map fun j => (s.Blt + j, mapped m (sample m d s.Image j))) =
      (List.range k).map fun j =>
        (s.Blt + j, mapped m ((m s.Image).toNat / 2 ^ (8 - d * (j + 1)) % 2 ^ d)) := by
    intro k hk
    refine List.map_congr_left fun j hj => ?_
    rw [sample_first hd ((List.mem_range.mp hj).trans_le hk)]
  rw [hWrites _ (Nat.min_le_left _ _)]
  unfold decodePixel
  rcases hPacked with ⟨hDepth, rfl, rfl⟩ | ⟨hDepth, rfl, rfl⟩ | ⟨hDepth, rfl, rfl⟩
  · -- eight pixels; the body steps past the last one and back
    simp only [hDepth, if_true]
    generalize hTurn : List.foldl _ s (List.range 8) = s'
    obtain rfl := hTurn.symm.trans
      (foldl_putMapped (m := m) (fun i => (m s.Image).toNat / 2 ^ (7 - i) % 2) h.W 8 s hMore.le)
    have hLeft : 1 ≤ min 8 (h.W - s.Width) := by omega
    have hBack : ∀ a, a + min 8 (h.W - s.Width) - 1 = a + (min 8 (h.W - s.Width) - 1) :=
      fun a => Nat.add_sub_assoc hLeft a
    have hShift : ∀ j, 8 - 1 * (j + 1) = 7 - j := fun j => by omega
    simp only [hBack, hShift, pow_one]
  · -- two pixels, or one at the end of a row of odd width
    have hHigh : (m s.Image).toNat / 16 % 16 = (m s.Image).toNat / 16 := by omega
    simp only [BMP_IMAGE_HEADER.W] at hMore ⊢
    by_cases hTwo : s.Width < h.PixelWidth.toNat - 1
    · have hMin : min 2 (h.PixelWidth.toNat - s.Width) = 2 := by omega
      simp [hDepth, hTwo, hMin, DecodeState.putMapped, DecodeState.put, mapped, colorAt,
        List.range_succ, hHigh]
    · have hMin : min 2 (h.PixelWidth.toNat - s.Width) = 1 := by omega
      simp [hDepth, hTwo, hMin, DecodeState.putMapped, DecodeState.put, mapped, colorAt, hHigh]
  · simp only [BMP_IMAGE_HEADER.W] at hMore ⊢
    have hMin : min 1 (h.PixelWidth.toNat - s.Width) = 1 := by omega
    have hAll : (m s.Image).toNat % 256 = (m s.Image).toNat := by omega
    simp [hDepth, hMin, DecodeState.putMapped, DecodeState.put, mapped, colorAt, hAll]

-- ---------------------------------------------------------------------------
-- Rows
-- ---------------------------------------------------------------------------

/-- A row of packed pixels, byte after byte; the induction is on the turns that are left, and
every turn begins a byte. -/
theorem decodeColumns_packed (hPacked : Packed h d P) (fuel : Nat) :
    ∀ s : DecodeState, s.Width ≤ h.W → h.W ≤ s.Width + fuel → decodeColumns h m fuel s =
      some ⟨s.Image + (h.W - s.Width + P - 1) / P, s.Blt + (h.W - s.Width), h.W,
        s.BltBuffer.updateAll ((List.range (h.W - s.Width)).map fun x =>
          (s.Blt + x, mapped m (sample m d s.Image x)))⟩ := by
  obtain ⟨-, -, hd, hP⟩ := packed_bits hPacked
  induction fuel with
  | zero =>
    intro s hLe hLeft
    obtain ⟨Image, Blt, Width, BltBuffer⟩ := s
    obtain rfl : Width = h.W := by
      simp only at hLe hLeft
      omega
    simp [decodeColumns, hP]
  | succ fuel ih =>
    intro s hLe hLeft
    rw [decodeColumns]
    by_cases hMore : s.Width < h.PixelWidth.toNat
    · rw [if_pos hMore, decodePixel_packed hPacked hMore]
      show decodeColumns h m fuel _ = _
      have hRoom : s.Width < h.W := hMore
      set k := min P (h.W - s.Width) with hk
      have hStep : ∀ a, a + (k - 1) + 1 = a + k := fun a => by omega
      rw [ih _ (by simp only; omega) (by simp only; omega)]
      simp only [hStep, ← Region.updateAll_append]
      -- either the byte is full or it was the last of the row
      have hRest : k = P ∨ h.W - (s.Width + k) = 0 := by omega
      have hSplit : h.W - s.Width = k + (h.W - (s.Width + k)) := by omega
      have hBytes : s.Image + 1 + (h.W - (s.Width + k) + P - 1) / P =
          s.Image + (h.W - s.Width + P - 1) / P := by
        rcases hRest with hFull | hLast
        · have hMany : h.W - s.Width + P - 1 = P + (h.W - (s.Width + k) + P - 1) := by omega
          rw [hMany, Nat.add_div_left _ hP]
          omega
        · have hFew : h.W - s.Width + P - 1 = P + (h.W - s.Width - 1) := by omega
          rw [hLast, hFew, Nat.add_div_left _ hP, Nat.div_eq_of_lt (show 0 + P - 1 < P by omega),
            Nat.div_eq_of_lt (show h.W - s.Width - 1 < P by omega)]
      have hWrites : (List.range (h.W - s.Width)).map (fun x =>
            (s.Blt + x, mapped m (sample m d s.Image x))) =
          ((List.range k).map fun j => (s.Blt + j, mapped m (sample m d s.Image j))) ++
            (List.range (h.W - (s.Width + k))).map fun x =>
              (s.Blt + k + x, mapped m (sample m d (s.Image + 1) x)) := by
        rw [hSplit, List.range_add, List.map_append, List.map_map]
        refine congrArg _ (List.map_congr_left fun x hx => ?_)
        rcases hRest with hFull | hLast
        · rw [Function.comp_apply, hFull, sample_next hd hP, Nat.add_assoc]
        · rw [hLast] at hx
          exact absurd (List.mem_range.mp hx) (Nat.not_lt_zero x)
      rw [hBytes, hWrites]
      have hEnd : s.Blt + k + (h.W - (s.Width + k)) = s.Blt + (h.W - s.Width) := by omega
      rw [hEnd]
    · rw [if_neg hMore]
      obtain ⟨Image, Blt, Width, BltBuffer⟩ := s
      obtain rfl : Width = h.W := Nat.le_antisymm hLe (Nat.le_of_not_lt hMore)
      simp [hP]

/-- A row of the file, by what it does to the buffer: `f o x` is the write at column `x` of a
row whose bytes begin at file offset `o`. -/
def RowWrites (h : BMP_IMAGE_HEADER) (m : ByteBuffer) (bytes : Nat)
    (f : Nat → Nat → EFI_GRAPHICS_OUTPUT_BLT_PIXEL → EFI_GRAPHICS_OUTPUT_BLT_PIXEL) : Prop :=
  ∀ s : DecodeState, s.Width = 0 → decodeColumns h m h.W s =
    some ⟨s.Image + bytes, s.Blt + h.W, h.W,
      s.BltBuffer.updateAll ((List.range h.W).map fun x => (s.Blt + x, f s.Image x))⟩

section

variable {bytes : Nat}
  {f : Nat → Nat → EFI_GRAPHICS_OUTPUT_BLT_PIXEL → EFI_GRAPHICS_OUTPUT_BLT_PIXEL}

/-- One row and the step to the next word: the following row begins a line further on. -/
theorem decodeRow_of_writes (hRow : RowWrites h m bytes f) (hLine : h.line = (bytes + 3) / 4 * 4)
    {s : DecodeState} {y : Nat} (hImage : s.Image = h.rowOffset y) :
    ∃ s', decodeRow h m s y = some s' ∧ s'.Image = h.rowOffset (y + 1) ∧
      s'.BltBuffer = s.BltBuffer.updateAll ((List.range h.W).map fun x =>
        (index h.W (flipRow h.H (y, x)), f (h.rowOffset y) x)) := by
  have hWords : y * h.line = 4 * (y * ((bytes + 3) / 4)) := by
    rw [hLine]
    ring
  have hUp : h.PixelHeight.toNat - y - 1 = h.H - 1 - y := Nat.sub_right_comm _ _ _
  rw [decodeRow, show h.PixelWidth.toNat = h.W from rfl, hUp, hRow _ rfl]
  simp only [hImage, BMP_IMAGE_HEADER.rowOffset, Option.bind_eq_bind, Option.bind_some]
  split_ifs with hAligned
  · refine ⟨_, rfl, ?_, rfl⟩
    simp only [Nat.add_mul, Nat.one_mul]
    omega
  · refine ⟨_, rfl, ?_, rfl⟩
    simp only [Nat.add_mul, Nat.one_mul]
    omega

/-- All rows, by induction on how many of them are done. -/
theorem decodeRows_of_writes (hRow : RowWrites h m bytes f)
    (hLine : h.line = (bytes + 3) / 4 * 4) (r : Region EFI_GRAPHICS_OUTPUT_BLT_PIXEL) :
    ∃ s, decodeRows h m r = some s ∧ s.BltBuffer = r.updateAll ((points h.W h.H).map fun p =>
      (index h.W (flipRow h.H p), f (h.rowOffset p.1) p.2)) := by
  have hRows : ∀ k, ∃ s, (List.range k).foldlM (decodeRow h m) ⟨h.ImageOffset.toNat, 0, 0, r⟩ =
      some s ∧ s.Image = h.rowOffset k ∧
      s.BltBuffer = r.updateAll ((points h.W k).map fun p =>
        (index h.W (flipRow h.H p), f (h.rowOffset p.1) p.2)) := by
    intro k
    induction k with
    | zero => exact ⟨_, rfl, by simp [BMP_IMAGE_HEADER.rowOffset], rfl⟩
    | succ k ih =>
      obtain ⟨s, hs, hImage, hBuffer⟩ := ih
      obtain ⟨s', hs', hImage', hBuffer'⟩ := decodeRow_of_writes hRow hLine hImage
      refine ⟨s', ?_, hImage', ?_⟩
      · rw [List.range_succ, List.foldlM_append, hs]
        simpa using hs'
      · rw [hBuffer', hBuffer, points_succ, List.map_append, Region.updateAll_append, List.map_map]
        rfl
  obtain ⟨s, hs, -, hBuffer⟩ := hRows h.H
  exact ⟨s, hs, hBuffer⟩

end

/-- A row of packed samples. -/
theorem rowWrites_packed (hPacked : Packed h d P) :
    RowWrites h m ((h.W + P - 1) / P) fun o x => mapped m (sample m d o x) := by
  intro s hWidth
  have hColumns := decodeColumns_packed (m := m) hPacked h.W s (by omega) (by omega)
  rwa [hWidth, Nat.sub_zero] at hColumns

/-- A row of colours. -/
theorem rowWrites_direct {b : Nat} (hDirect : Direct h b) :
    RowWrites h m (b * h.W) fun o x => colorAt m (o + b * x) := by
  intro s hWidth
  exact decodeColumns_direct hDirect h.W s (by omega)

/-- A line is filled up to a multiple of four bytes. -/
theorem line_packed (hPacked : Packed h d P) : h.line = ((h.W + P - 1) / P + 3) / 4 * 4 := by
  unfold BMP_IMAGE_HEADER.line
  rw [(packed_bits hPacked).1]
  rcases hPacked with ⟨-, rfl, rfl⟩ | ⟨-, rfl, rfl⟩ | ⟨-, rfl, rfl⟩ <;> omega

/-- **The decoder's loops as a list, at every depth they know.** The colours of every point of
the file go to the same point upside down. -/
theorem decodeRows_supported (hSupported : h.Supported) (m : ByteBuffer)
    (r : Region EFI_GRAPHICS_OUTPUT_BLT_PIXEL) :
    ∃ s, decodeRows h m r = some s ∧ s.BltBuffer = r.updateAll ((points h.W h.H).map fun p =>
      (index h.W (flipRow h.H p), colorAt m (h.colorOffset m p))) := by
  rcases supported_iff.mp hSupported with ⟨d, P, hPacked⟩ | ⟨b, hDirect⟩
  · obtain ⟨hBits, hFew, -⟩ := packed_bits hPacked
    obtain ⟨s, hs, hBuffer⟩ :=
      decodeRows_of_writes (rowWrites_packed (m := m) hPacked) (line_packed hPacked) r
    refine ⟨s, hs, hBuffer.trans ?_⟩
    simp only [BMP_IMAGE_HEADER.colorOffset, hBits, if_pos hFew, mapped]
  · obtain ⟨hBits, hMany⟩ := direct_bits hDirect
    obtain ⟨s, hs, hBuffer⟩ :=
      decodeRows_of_writes (rowWrites_direct (m := m) hDirect) (line_direct hDirect) r
    refine ⟨s, hs, hBuffer.trans ?_⟩
    simp only [BMP_IMAGE_HEADER.colorOffset, if_neg hMany.not_ge, hBits]

/-- A depth without a case stops the decoder at the first pixel of the first row. -/
theorem decodeRows_unsupported (hSupported : ¬ h.Supported) (hWidth : h.W ≠ 0) (hHeight : h.H ≠ 0)
    (m : ByteBuffer) (r : Region EFI_GRAPHICS_OUTPUT_BLT_PIXEL) : decodeRows h m r = none := by
  have hPixel : ∀ s, decodePixel h m s = none := by
    intro s
    simp only [BMP_IMAGE_HEADER.Supported, not_or] at hSupported
    obtain ⟨h1, h4, h8, h24, h32⟩ := hSupported
    simp only [decodePixel, if_neg h1, if_neg h4, if_neg h8, if_neg h24, if_neg h32]
  have hRow : ∀ s y, decodeRow h m s y = none := by
    intro s y
    obtain ⟨w, hw⟩ := Nat.exists_eq_succ_of_ne_zero hWidth
    simp only [BMP_IMAGE_HEADER.W] at hw
    simp [decodeRow, hw, decodeColumns, hPixel]
  obtain ⟨k, hk⟩ := Nat.exists_eq_succ_of_ne_zero hHeight
  simp only [BMP_IMAGE_HEADER.H] at hk
  rw [decodeRows, hk, List.range_succ_eq_map, List.foldlM_cons, hRow]
  rfl

end TianJi.Model

import TianJi.Model.BmpDepths

/-!
# TianJi — the reference decoder's calls

Every way a call of `TranslateBmpToGopBlt` (BmpSupportLib.c) can end. A file is decoded when
its header is accepted and its depth is known, into the caller's buffer or one of the call's
own. A call that fails stores no pixel, and one that succeeds stores every pixel once.

The colour map is read where the header ends. The checks make room for it only when the
pixels begin further on, so a file whose pixels follow the header at once has none, and its
samples pick bytes that the file need not have.

* `call_decodes`, `call_fails`          — the two ways a call ends.
* `TranslateBmpToGopBlt_picture`         — what a call that succeeds leaves.
* `TranslateBmpToGopBlt_readsFile_iff`   — when it reads nothing but the file.
-/

namespace TianJi.Model

open Bytes Canvas Memory

/-- The file goes through the checks and its depth is one the decoder knows. -/
structure Decodable (m : ByteBuffer) (n : UINTN) : Prop where
  long : 54 ≤ n.toNat
  accepted : Accepted (BMP_IMAGE_HEADER.read m) n
  supported : (BMP_IMAGE_HEADER.read m).Supported

/-- The buffer that a call decodes into: the caller's when it is large enough, one from the
pool when the caller brings none. -/
def destination (GopBlt : Option (Region EFI_GRAPHICS_OUTPUT_BLT_PIXEL)) (GopBltSize : UINTN)
    (pool : Option (Nat → EFI_GRAPHICS_OUTPUT_BLT_PIXEL)) (need : Nat) :
    Option (Region EFI_GRAPHICS_OUTPUT_BLT_PIXEL) :=
  match GopBlt with
  | none => pool.map Region.fresh
  | some r => if GopBltSize.toNat < need then none else some r

/-- `after` is `before` with the colours at `colorOffset` stored at every pixel, once each and
upside down. -/
def Shows (m : ByteBuffer) (W H : Nat) (colorOffset : Nat × Nat → Nat)
    (before after : Region EFI_GRAPHICS_OUTPUT_BLT_PIXEL) : Prop :=
  after.stores.Perm (before.stores ++ List.range (W * H)) ∧
    (∀ p ∈ points W H, after.cells (index W p) =
      colorAt m (colorOffset (flipRow H p)) (before.cells (index W p))) ∧
    ∀ i, W * H ≤ i → after.cells i = before.cells i

section

variable {m : ByteBuffer} {n GopBltSize : UINTN} (PixelHeight PixelWidth : UINTN)
  {GopBlt : Option (Region EFI_GRAPHICS_OUTPUT_BLT_PIXEL)}
  {pool : Option (Nat → EFI_GRAPHICS_OUTPUT_BLT_PIXEL)}

/-- A decodable file with a buffer to go to is decoded there. -/
theorem call_decodes (hFile : Decodable m n) {r : Region EFI_GRAPHICS_OUTPUT_BLT_PIXEL}
    (hRoom : destination GopBlt GopBltSize pool
      ((BMP_IMAGE_HEADER.read m).W * (BMP_IMAGE_HEADER.read m).H * 4) = some r) :
    ∃ s, decodeRows (BMP_IMAGE_HEADER.read m) m r = some s ∧
      ∃ size, (BMP_IMAGE_HEADER.read m).W * (BMP_IMAGE_HEADER.read m).H * 4 ≤ size.toNat ∧
        TranslateBmpToGopBlt (some m) n GopBlt GopBltSize PixelHeight PixelWidth pool =
          ⟨EFI_SUCCESS, some s.BltBuffer, size, (BMP_IMAGE_HEADER.read m).PixelHeight.toUInt64,
            (BMP_IMAGE_HEADER.read m).PixelWidth.toUInt64⟩ := by
  obtain ⟨s, hRows, -⟩ := decodeRows_supported hFile.supported m r
  obtain ⟨size, hCheck, hSize⟩ := checkBmp_of_accepted hFile.accepted
  have hLong : ¬ n < sizeofBmpHeader.toUInt64 :=
    UInt64.not_lt.mpr (UInt64.le_iff_toNat_le.mpr hFile.long)
  have hWide : size.toUInt64.toNat =
      (BMP_IMAGE_HEADER.read m).W * (BMP_IMAGE_HEADER.read m).H * 4 := by
    rw [UInt32.toNat_toUInt64, hSize]
  refine ⟨s, hRows, ?_⟩
  unfold TranslateBmpToGopBlt
  simp only [if_neg hLong, hCheck]
  cases GopBlt with
  | none =>
    cases pool with
    | none => simp [destination] at hRoom
    | some cells =>
      obtain rfl : Region.fresh cells = r := by simpa [destination] using hRoom
      exact ⟨size.toUInt64, hWide.ge, by simp only [hRows]⟩
  | some b =>
    by_cases hSmall : GopBltSize < size.toUInt64
    · have hShort : GopBltSize.toNat < size.toUInt64.toNat := UInt64.lt_iff_toNat_lt.mp hSmall
      rw [hWide] at hShort
      simp [destination, hShort] at hRoom
    · have hEnough : size.toUInt64.toNat ≤ GopBltSize.toNat :=
        UInt64.le_iff_toNat_le.mp (UInt64.not_lt.mp hSmall)
      rw [hWide] at hEnough
      obtain rfl : b = r := by simpa [destination, hEnough.not_gt] using hRoom
      exact ⟨GopBltSize, hEnough, by simp only [if_neg hSmall, hRows]⟩

/-- Any other call reports an error and stores nothing. -/
theorem call_fails (hFails : Decodable m n → destination GopBlt GopBltSize pool
      ((BMP_IMAGE_HEADER.read m).W * (BMP_IMAGE_HEADER.read m).H * 4) = none) :
    (TranslateBmpToGopBlt (some m) n GopBlt GopBltSize PixelHeight PixelWidth pool).Status ≠
        EFI_SUCCESS ∧
      (TranslateBmpToGopBlt (some m) n GopBlt GopBltSize PixelHeight PixelWidth pool).GopBlt =
        GopBlt := by
  have hUnsupported : EFI_UNSUPPORTED ≠ EFI_SUCCESS := by decide
  have hSmaller : EFI_BUFFER_TOO_SMALL ≠ EFI_SUCCESS := by decide
  have hResources : EFI_OUT_OF_RESOURCES ≠ EFI_SUCCESS := by decide
  unfold TranslateBmpToGopBlt
  by_cases hShort : n < sizeofBmpHeader.toUInt64
  · simp only [if_pos hShort]
    exact ⟨hUnsupported, trivial⟩
  have hLong : 54 ≤ n.toNat := UInt64.le_iff_toNat_le.mp (UInt64.not_lt.mp hShort)
  simp only [if_neg hShort]
  cases hCheck : checkBmp (BMP_IMAGE_HEADER.read m) n with
  | error Status =>
    obtain rfl : Status = EFI_UNSUPPORTED := onlyUnsupported_checkBmp _ _ _ hCheck
    exact ⟨hUnsupported, rfl⟩
  | ok size =>
    obtain ⟨hAccepted, hSize⟩ := accepted_of_checkBmp hCheck
    -- with a buffer to go to, only the depth is left to turn the file down
    have hRows : ∀ r, destination GopBlt GopBltSize pool
        ((BMP_IMAGE_HEADER.read m).W * (BMP_IMAGE_HEADER.read m).H * 4) = some r →
        decodeRows (BMP_IMAGE_HEADER.read m) m r = none := by
      intro r hRoom
      refine decodeRows_unsupported (fun hSupported => ?_) hAccepted.width hAccepted.height m r
      rw [hFails ⟨hLong, hAccepted, hSupported⟩] at hRoom
      cases hRoom
    cases GopBlt with
    | none =>
      cases pool with
      | none => exact ⟨hResources, rfl⟩
      | some cells =>
        simp only [hRows _ rfl]
        exact ⟨hUnsupported, trivial⟩
    | some b =>
      by_cases hSmall : GopBltSize < size.toUInt64
      · simp only [if_pos hSmall]
        exact ⟨hSmaller, trivial⟩
      · have hEnough : size.toUInt64.toNat ≤ GopBltSize.toNat :=
          UInt64.le_iff_toNat_le.mp (UInt64.not_lt.mp hSmall)
        rw [UInt32.toNat_toUInt64, hSize] at hEnough
        simp only [if_neg hSmall, hRows b (if_neg hEnough.not_gt)]
        exact ⟨hUnsupported, trivial⟩

/-- What the loops leave: every pixel stored once, with the colours of its point of the file. -/
theorem picture_of_rows {h : BMP_IMAGE_HEADER} (hSupported : h.Supported)
    {r : Region EFI_GRAPHICS_OUTPUT_BLT_PIXEL} {s : DecodeState}
    (hRows : decodeRows h m r = some s) :
    Shows m h.W h.H (h.colorOffset m) r s.BltBuffer := by
  obtain ⟨s', hs', hBuffer⟩ := decodeRows_supported hSupported m r
  obtain rfl : s' = s := Option.some.inj (hs'.symm.trans hRows)
  have hMem : ∀ p ∈ points h.W h.H, flipRow h.H p ∈ points h.W h.H := fun p hp => flipRow_mem hp
  have hInj : ∀ p ∈ points h.W h.H, ∀ q ∈ points h.W h.H, flipRow h.H p = flipRow h.H q → p = q :=
    fun p hp q hq => flipRow_inj hp hq
  rw [hBuffer]
  refine ⟨?_, ?_, ?_⟩
  · rw [Region.stores_updateAll, List.map_map]
    exact (perm_places hMem hInj).append_left _
  · intro p hp
    have hCell := cells_updatePoints (r := r) (fun p => colorAt m (h.colorOffset m p)) hMem hInj
      (hMem p hp)
    rwa [flipRow_flipRow hp] at hCell
  · intro i hOutside
    refine Region.cells_updateAll_of_not_mem fun hIn => ?_
    rw [List.map_map] at hIn
    obtain ⟨p, hp, rfl⟩ := List.mem_map.mp hIn
    exact (index_lt (hMem p hp)).not_ge hOutside

/--
**Which files are decoded.** A call succeeds exactly when the header is accepted, the depth is
one of the five and there is a buffer for the pixels; otherwise nothing was stored, at any depth.
-/
theorem TranslateBmpToGopBlt_success_iff (m : ByteBuffer) (n GopBltSize PixelHeight PixelWidth : UINTN)
    (GopBlt : Option (Region EFI_GRAPHICS_OUTPUT_BLT_PIXEL))
    (pool : Option (Nat → EFI_GRAPHICS_OUTPUT_BLT_PIXEL)) :
    ((TranslateBmpToGopBlt (some m) n GopBlt GopBltSize PixelHeight PixelWidth pool).Status =
        EFI_SUCCESS ↔ Decodable m n ∧ destination GopBlt GopBltSize pool
          ((BMP_IMAGE_HEADER.read m).W * (BMP_IMAGE_HEADER.read m).H * 4) ≠ none) ∧
      ((TranslateBmpToGopBlt (some m) n GopBlt GopBltSize PixelHeight PixelWidth pool).Status ≠
        EFI_SUCCESS →
        (TranslateBmpToGopBlt (some m) n GopBlt GopBltSize PixelHeight PixelWidth pool).GopBlt =
          GopBlt) := by
  by_cases hGoes : Decodable m n ∧ destination GopBlt GopBltSize pool
      ((BMP_IMAGE_HEADER.read m).W * (BMP_IMAGE_HEADER.read m).H * 4) ≠ none
  · obtain ⟨hFile, hRoom⟩ := id hGoes
    obtain ⟨r, hr⟩ := Option.ne_none_iff_exists'.mp hRoom
    obtain ⟨s, -, size, -, hCall⟩ := call_decodes PixelHeight PixelWidth hFile hr
    rw [hCall]
    exact ⟨iff_of_true rfl hGoes, fun hFail => absurd rfl hFail⟩
  · obtain ⟨hStatus, hSame⟩ := call_fails PixelHeight PixelWidth fun hFile =>
      not_not.mp fun hRoom => hGoes ⟨hFile, hRoom⟩
    exact ⟨iff_of_false hStatus hGoes, fun _ => hSame⟩

variable {PixelHeight PixelWidth}

/-- A successful call, taken apart. -/
theorem call_success
    (hSuccess : (TranslateBmpToGopBlt (some m) n GopBlt GopBltSize PixelHeight PixelWidth
      pool).Status = EFI_SUCCESS) :
    Decodable m n ∧ ∃ r, destination GopBlt GopBltSize pool
      ((BMP_IMAGE_HEADER.read m).W * (BMP_IMAGE_HEADER.read m).H * 4) = some r := by
  by_contra hGoes
  refine (call_fails PixelHeight PixelWidth fun hFile => ?_).1 hSuccess
  exact Option.not_isSome_iff_eq_none.mp fun hSome =>
    hGoes ⟨hFile, Option.isSome_iff_exists.mp hSome⟩

/--
**What a decoded picture is.** At every depth, the buffer that a successful call returns was
stored exactly once at each pixel and nowhere else, bottom row of the file first, with the
colours the file has for the pixel, through the colour map or in place; `Reserved` and what
lies behind the picture are kept.
-/
theorem TranslateBmpToGopBlt_picture
    (hSuccess : (TranslateBmpToGopBlt (some m) n GopBlt GopBltSize PixelHeight PixelWidth
      pool).Status = EFI_SUCCESS) :
    ∃ before after,
      destination GopBlt GopBltSize pool
        ((BMP_IMAGE_HEADER.read m).W * (BMP_IMAGE_HEADER.read m).H * 4) = some before ∧
      (TranslateBmpToGopBlt (some m) n GopBlt GopBltSize PixelHeight PixelWidth pool).GopBlt =
        some after ∧
      Shows m (BMP_IMAGE_HEADER.read m).W (BMP_IMAGE_HEADER.read m).H
        ((BMP_IMAGE_HEADER.read m).colorOffset m) before after := by
  obtain ⟨hFile, before, hRoom⟩ := call_success hSuccess
  obtain ⟨s, hRows, size, -, hCall⟩ := call_decodes PixelHeight PixelWidth hFile hRoom
  exact ⟨before, s.BltBuffer, hRoom, congrArg DecodeResult.GopBlt hCall,
    picture_of_rows hFile.supported hRows⟩

/-- Two rows of three pixels, one bit each, black and white. -/
def twoColourFile : List UINT8 :=
  BMP_IMAGE_HEADER.bytes ⟨0x42, 0x4D, 70, 0, 0, 62, 40, 3, 2, 1, 1, 0, 8, 0, 0, 0, 0⟩ ++
    [0, 0, 0, 0, 255, 255, 255, 0] ++ [0xA0, 0, 0, 0, 0x40, 0, 0, 0]

def twoColours : ByteBuffer := fun i => twoColourFile.getD i 0

/-- The two-colour picture, into a buffer of the call's own. -/
theorem TranslateBmpToGopBlt_picture_twoColours :
    ∃ before after,
      destination none 0 (some fun _ => default) ((BMP_IMAGE_HEADER.read twoColours).W *
        (BMP_IMAGE_HEADER.read twoColours).H * 4) = some before ∧
      (TranslateBmpToGopBlt (some twoColours) 70 none 0 0 0 (some fun _ => default)).GopBlt =
        some after ∧
      Shows twoColours (BMP_IMAGE_HEADER.read twoColours).W (BMP_IMAGE_HEADER.read twoColours).H
        ((BMP_IMAGE_HEADER.read twoColours).colorOffset twoColours) before after := by
  have hSuccess : (TranslateBmpToGopBlt (some twoColours) 70 none 0 0 0
      (some fun _ => default)).Status = EFI_SUCCESS := by decide +kernel
  exact TranslateBmpToGopBlt_picture hSuccess

end

-- ---------------------------------------------------------------------------
-- What a call reads
-- ---------------------------------------------------------------------------

section

variable {m m' : ByteBuffer} {n : UINTN} {h : BMP_IMAGE_HEADER}

/-- An accepted file holds its header. -/
theorem Accepted.long (hAccepted : Accepted h n) : 54 ≤ n.toNat := by
  have hOffset := hAccepted.offset
  have hEnd := hAccepted.data
  have hSize := congrArg UInt64.toNat hAccepted.size
  rw [UInt32.toNat_toUInt64] at hSize
  omega

/-- A row of an accepted file ends inside the file. -/
theorem rowOffset_le (hAccepted : Accepted h n) {y : Nat} (hy : y < h.H) :
    h.rowOffset y + h.line ≤ n.toNat := by
  have hEnd := hAccepted.data
  have hSize := congrArg UInt64.toNat hAccepted.size
  rw [UInt32.toNat_toUInt64] at hSize
  have hRows : (y + 1) * h.line ≤ h.H * h.line := Nat.mul_le_mul_right _ hy
  rw [Nat.add_mul, Nat.one_mul] at hRows
  rw [BMP_IMAGE_HEADER.rowOffset]
  omega

/-- The byte with a pixel's sample is a byte of the file. -/
theorem sampleOffset_lt {d P : Nat} (hPacked : Packed h d P) (hAccepted : Accepted h n)
    {p : Nat × Nat} (hp : p ∈ points h.W h.H) : h.rowOffset p.1 + p.2 / (8 / d) < n.toNat := by
  obtain ⟨hy, hx⟩ := mem_points.mp hp
  obtain ⟨-, -, hd, hP⟩ := packed_bits hPacked
  have hRow := rowOffset_le hAccepted hy
  have hLine := line_packed hPacked
  have hBytes : (h.W + P - 1) / P = (h.W - 1) / P + 1 := by
    have hSplit : h.W + P - 1 = h.W - 1 + P := by omega
    rw [hSplit, Nat.add_div_right _ hP]
  have hColumn : p.2 / P ≤ (h.W - 1) / P := Nat.div_le_div_right (by omega)
  rw [hd]
  omega

/-- The colours of a pixel that has them in place are bytes of the file. -/
theorem colorOffset_le_of_direct {b : Nat} (hDirect : Direct h b) (hAccepted : Accepted h n)
    {p : Nat × Nat} (hp : p ∈ points h.W h.H) : h.colorOffset m p + 3 ≤ n.toNat := by
  obtain ⟨hy, hx⟩ := mem_points.mp hp
  obtain ⟨hBits, hMany⟩ := direct_bits hDirect
  have hThree : 3 ≤ b := by
    rcases hDirect with ⟨-, rfl⟩ | ⟨-, rfl⟩ <;> omega
  have hRow := rowOffset_le hAccepted hy
  have hLine := line_direct hDirect
  have hColumn : b * (p.2 + 1) ≤ b * h.W := Nat.mul_le_mul_left b hx
  rw [Nat.mul_succ] at hColumn
  rw [BMP_IMAGE_HEADER.colorOffset, if_neg hMany.not_ge, hBits]
  omega

/-- Where a pixel's colours lie is told by the file's own bytes. -/
theorem colorOffset_congr (hSupported : h.Supported) (hAccepted : Accepted h n)
    (hSame : ∀ i < n.toNat, m' i = m i) {p : Nat × Nat} (hp : p ∈ points h.W h.H) :
    h.colorOffset m' p = h.colorOffset m p := by
  rcases supported_iff.mp hSupported with ⟨d, P, hPacked⟩ | ⟨b, hDirect⟩
  · obtain ⟨hBits, hFew, -⟩ := packed_bits hPacked
    simp only [BMP_IMAGE_HEADER.colorOffset, hBits, if_pos hFew, sample,
      hSame _ (sampleOffset_lt hPacked hAccepted hp)]
  · simp only [BMP_IMAGE_HEADER.colorOffset, if_neg (direct_bits hDirect).2.not_ge]

/-- A file with a gap between its header and its pixels has every entry of the colour map. -/
theorem colorOffset_le_of_gap (hSupported : h.Supported) (hAccepted : Accepted h n)
    (hGap : 54 < h.ImageOffset.toNat) {p : Nat × Nat} (hp : p ∈ points h.W h.H) :
    h.colorOffset m p + 3 ≤ n.toNat := by
  rcases supported_iff.mp hSupported with ⟨d, P, hPacked⟩ | ⟨b, hDirect⟩
  · obtain ⟨hBits, hFew, -⟩ := packed_bits hPacked
    have hEntry := sample_lt m d (h.rowOffset p.1) p.2
    have hMap := hAccepted.colorMap hGap
    have hEntries : (ColorMapNum h.BitPerPixel).toNat = 2 ^ d := by
      rcases hPacked with ⟨hDepth, rfl, -⟩ | ⟨hDepth, rfl, -⟩ | ⟨hDepth, rfl, -⟩ <;>
        rw [hDepth] <;> rfl
    have hStart := rowOffset_le hAccepted (mem_points.mp hp).1
    have hHeader : sizeofBmpHeader.toNat = 54 := rfl
    rw [hEntries] at hMap
    rw [BMP_IMAGE_HEADER.rowOffset] at hStart
    simp only [BMP_IMAGE_HEADER.colorOffset, hBits, if_pos hFew, hHeader]
    omega
  · exact colorOffset_le_of_direct hDirect hAccepted hp

/-- Changing the bytes behind the file does not change whether it is decoded. -/
theorem decodable_congr (hSame : ∀ i < n.toNat, m' i = m i) :
    Decodable m' n ↔ Decodable m n := by
  have hHeader : 54 ≤ n.toNat → BMP_IMAGE_HEADER.read m' = BMP_IMAGE_HEADER.read m :=
    fun hLong => BMP_IMAGE_HEADER.read_congr fun i hi => hSame i (by omega)
  constructor
  · rintro ⟨hLong, hAccepted, hSupported⟩
    rw [hHeader hLong] at hAccepted hSupported
    exact ⟨hLong, hAccepted, hSupported⟩
  · rintro ⟨hLong, hAccepted, hSupported⟩
    rw [← hHeader hLong] at hAccepted hSupported
    exact ⟨hLong, hAccepted, hSupported⟩

variable {GopBltSize : UINTN} (PixelHeight PixelWidth : UINTN)
  {GopBlt : Option (Region EFI_GRAPHICS_OUTPUT_BLT_PIXEL)}
  {pool : Option (Nat → EFI_GRAPHICS_OUTPUT_BLT_PIXEL)}

/-- A call looks at the header and at what the loops make of the rest. -/
theorem call_congr
    (hHeader : 54 ≤ n.toNat → BMP_IMAGE_HEADER.read m' = BMP_IMAGE_HEADER.read m)
    (hRows : Accepted (BMP_IMAGE_HEADER.read m) n → ∀ r, destination GopBlt GopBltSize pool
      ((BMP_IMAGE_HEADER.read m).W * (BMP_IMAGE_HEADER.read m).H * 4) = some r →
      (decodeRows (BMP_IMAGE_HEADER.read m) m' r).map DecodeState.BltBuffer =
        (decodeRows (BMP_IMAGE_HEADER.read m) m r).map DecodeState.BltBuffer) :
    TranslateBmpToGopBlt (some m') n GopBlt GopBltSize PixelHeight PixelWidth pool =
      TranslateBmpToGopBlt (some m) n GopBlt GopBltSize PixelHeight PixelWidth pool := by
  unfold TranslateBmpToGopBlt
  by_cases hShort : n < sizeofBmpHeader.toUInt64
  · simp only [if_pos hShort]
  simp only [if_neg hShort, hHeader (UInt64.le_iff_toNat_le.mp (UInt64.not_lt.mp hShort))]
  cases hCheck : checkBmp (BMP_IMAGE_HEADER.read m) n with
  | error Status => rfl
  | ok size =>
    obtain ⟨hAccepted, hSize⟩ := accepted_of_checkBmp hCheck
    simp only
    cases GopBlt with
    | none =>
      cases pool with
      | none => rfl
      | some cells =>
        have hEq := hRows hAccepted _ rfl
        cases hLeft : decodeRows (BMP_IMAGE_HEADER.read m) m' (Region.fresh cells) <;>
          cases hRight : decodeRows (BMP_IMAGE_HEADER.read m) m (Region.fresh cells) <;>
            simp_all
    | some b =>
      by_cases hSmall : GopBltSize < size.toUInt64
      · simp only [if_pos hSmall]
      · have hEnough : size.toUInt64.toNat ≤ GopBltSize.toNat :=
          UInt64.le_iff_toNat_le.mp (UInt64.not_lt.mp hSmall)
        rw [UInt32.toNat_toUInt64, hSize] at hEnough
        have hEq := hRows hAccepted b (if_neg hEnough.not_gt)
        cases hLeft : decodeRows (BMP_IMAGE_HEADER.read m) m' b <;>
          cases hRight : decodeRows (BMP_IMAGE_HEADER.read m) m b <;>
            simp_all

variable (m n GopBltSize GopBlt pool)

/-- The call's results are told by the `n` bytes of the file. -/
def ReadsFile : Prop :=
  ∀ m' : ByteBuffer, (∀ i < n.toNat, m' i = m i) →
    TranslateBmpToGopBlt (some m') n GopBlt GopBltSize PixelHeight PixelWidth pool =
      TranslateBmpToGopBlt (some m) n GopBlt GopBltSize PixelHeight PixelWidth pool

variable {m n GopBltSize GopBlt pool PixelHeight PixelWidth}

/-- Colours that lie in the file are enough. -/
theorem readsFile_of_colors
    (hColors : Decodable m n → ∀ r, destination GopBlt GopBltSize pool
      ((BMP_IMAGE_HEADER.read m).W * (BMP_IMAGE_HEADER.read m).H * 4) = some r →
      ∀ p ∈ points (BMP_IMAGE_HEADER.read m).W (BMP_IMAGE_HEADER.read m).H,
        (BMP_IMAGE_HEADER.read m).colorOffset m p + 3 ≤ n.toNat) :
    ReadsFile m n GopBltSize PixelHeight PixelWidth GopBlt pool := by
  intro m' hSame
  refine call_congr PixelHeight PixelWidth
    (fun hLong => BMP_IMAGE_HEADER.read_congr fun i hi => hSame i (by omega))
    fun hAccepted r hRoom => ?_
  by_cases hSupported : (BMP_IMAGE_HEADER.read m).Supported
  · have hIn := hColors ⟨hAccepted.long, hAccepted, hSupported⟩ r hRoom
    obtain ⟨s, hs, hBuffer⟩ := decodeRows_supported hSupported m r
    obtain ⟨s', hs', hBuffer'⟩ := decodeRows_supported hSupported m' r
    rw [hs, hs', Option.map_some, Option.map_some, hBuffer, hBuffer']
    refine congrArg (fun l => some (r.updateAll l)) (List.map_congr_left fun p hp => ?_)
    have hOffset := hIn p hp
    rw [colorOffset_congr hSupported hAccepted hSame hp]
    simp only [colorAt, hSame _ (show (BMP_IMAGE_HEADER.read m).colorOffset m p < n.toNat by omega),
      hSame _ (show (BMP_IMAGE_HEADER.read m).colorOffset m p + 1 < n.toNat by omega),
      hSame _ (show (BMP_IMAGE_HEADER.read m).colorOffset m p + 2 < n.toNat by omega)]
  · rw [decodeRows_unsupported hSupported hAccepted.width hAccepted.height,
      decodeRows_unsupported hSupported hAccepted.width hAccepted.height]

/-- A colour behind the file shows in the picture: another byte there gives another picture. -/
theorem colors_of_readsFile (hReads : ReadsFile m n GopBltSize PixelHeight PixelWidth GopBlt pool)
    (hFile : Decodable m n) {r : Region EFI_GRAPHICS_OUTPUT_BLT_PIXEL}
    (hRoom : destination GopBlt GopBltSize pool
      ((BMP_IMAGE_HEADER.read m).W * (BMP_IMAGE_HEADER.read m).H * 4) = some r) {p : Nat × Nat}
    (hp : p ∈ points (BMP_IMAGE_HEADER.read m).W (BMP_IMAGE_HEADER.read m).H) :
    (BMP_IMAGE_HEADER.read m).colorOffset m p + 3 ≤ n.toNat := by
  by_contra hOutside
  set o := (BMP_IMAGE_HEADER.read m).colorOffset m p with ho
  have hSame : ∀ i < n.toNat, Function.update m (o + 2) (m (o + 2) + 1) i = m i := fun i hi =>
    Function.update_of_ne (by omega) _ _
  have hHeader : BMP_IMAGE_HEADER.read (Function.update m (o + 2) (m (o + 2) + 1)) =
      BMP_IMAGE_HEADER.read m :=
    BMP_IMAGE_HEADER.read_congr fun i hi => hSame i (by have := hFile.long; omega)
  have hCalls := hReads _ hSame
  obtain ⟨s, hs, _, -, hCall⟩ := call_decodes PixelHeight PixelWidth hFile hRoom
  have hFile' := (decodable_congr hSame).mpr hFile
  rw [← hHeader] at hRoom
  obtain ⟨s', hs', _, -, hCall'⟩ := call_decodes PixelHeight PixelWidth hFile' hRoom
  rw [hHeader] at hs'
  rw [hCall, hCall'] at hCalls
  have hBuffers : s'.BltBuffer = s.BltBuffer :=
    Option.some.inj (congrArg DecodeResult.GopBlt hCalls)
  obtain ⟨-, hCells, -⟩ := picture_of_rows hFile.supported hs
  obtain ⟨-, hCells', -⟩ := picture_of_rows hFile.supported hs'
  have hPixel := hCells _ (flipRow_mem hp)
  have hPixel' := hCells' _ (flipRow_mem hp)
  rw [flipRow_flipRow hp] at hPixel hPixel'
  rw [colorOffset_congr hFile.supported hFile.accepted hSame hp, hBuffers, hPixel, ← ho] at hPixel'
  have hRed := congrArg EFI_GRAPHICS_OUTPUT_BLT_PIXEL.Red hPixel'
  simp only [colorAt, setColor, Function.update_self] at hRed
  exact absurd hRed (by simp)

/-- Success is told by the header. -/
theorem success_congr
    (hSuccess : (TranslateBmpToGopBlt (some m) n GopBlt GopBltSize PixelHeight PixelWidth
      pool).Status = EFI_SUCCESS) (hSame : ∀ i < 54, m' i = m i) :
    (TranslateBmpToGopBlt (some m') n GopBlt GopBltSize PixelHeight PixelWidth pool).Status =
      EFI_SUCCESS := by
  obtain ⟨hFile, r, hRoom⟩ := call_success hSuccess
  have hHeader : BMP_IMAGE_HEADER.read m' = BMP_IMAGE_HEADER.read m := BMP_IMAGE_HEADER.read_congr hSame
  have hFile' : Decodable m' n := ⟨hFile.long, hHeader ▸ hFile.accepted, hHeader ▸ hFile.supported⟩
  rw [← hHeader] at hRoom
  obtain ⟨s, -, size, -, hCall⟩ := call_decodes PixelHeight PixelWidth hFile' hRoom
  exact congrArg DecodeResult.Status hCall

/-- A call depends on the file's bytes alone exactly when, should it succeed, the colours of every
pixel are there. -/
theorem readsFile_iff_colors : ReadsFile m n GopBltSize PixelHeight PixelWidth GopBlt pool ↔
    ((TranslateBmpToGopBlt (some m) n GopBlt GopBltSize PixelHeight PixelWidth pool).Status =
      EFI_SUCCESS → ∀ p ∈ points (BMP_IMAGE_HEADER.read m).W (BMP_IMAGE_HEADER.read m).H,
        (BMP_IMAGE_HEADER.read m).colorOffset m p + 3 ≤ n.toNat) := by
  refine ⟨fun hReads hSuccess p hp => ?_, fun hColors => readsFile_of_colors ?_⟩
  · obtain ⟨hFile, r, hRoom⟩ := call_success hSuccess
    exact colors_of_readsFile hReads hFile hRoom hp
  · intro hFile r hRoom
    obtain ⟨s, -, size, -, hCall⟩ := call_decodes PixelHeight PixelWidth hFile hRoom
    exact hColors (congrArg DecodeResult.Status hCall)

/-- A byte of ones has the last entry of the colour map for its first pixel. -/
theorem sample_ones {d P : Nat} (hPacked : Packed h d P) {o : Nat} (hOnes : m o = 0xFF) :
    sample m d o 0 = 2 ^ d - 1 := by
  obtain ⟨-, -, hSplit, hPos⟩ := packed_bits hPacked
  rw [sample_first hSplit hPos, hOnes]
  rcases hPacked with ⟨-, rfl, -⟩ | ⟨-, rfl, -⟩ | ⟨-, rfl, -⟩ <;> rfl

/-- A file without a gap may name any entry of the colour map: all of its pixels' bytes may be
ones. -/
theorem last_entry_named {d P : Nat} (hPacked : Packed h d P) (hNoGap : h.ImageOffset.toNat = 54)
    {all : ByteBuffer} (hOnes : ∀ i, 54 ≤ i → all i = 0xFF) :
    h.colorOffset all (0, 0) = 54 + 4 * (2 ^ d - 1) := by
  obtain ⟨hBits, hFew, -⟩ := packed_bits hPacked
  have hFirst : h.rowOffset 0 = 54 := by
    rw [BMP_IMAGE_HEADER.rowOffset, hNoGap, Nat.zero_mul]
  rw [BMP_IMAGE_HEADER.colorOffset, hBits, if_pos hFew, hFirst, sample_ones hPacked (hOnes 54 le_rfl)]
  rfl

/-- All files with the header of one without a gap are read inside exactly when the last entry of the
colour map lies in them. -/
theorem readsFile_all_iff {d P : Nat}
    (hSuccess : (TranslateBmpToGopBlt (some m) n GopBlt GopBltSize PixelHeight PixelWidth
      pool).Status = EFI_SUCCESS)
    (hNoGap : (BMP_IMAGE_HEADER.read m).ImageOffset.toNat = 54)
    (hPacked : Packed (BMP_IMAGE_HEADER.read m) d P) :
    (∀ m' : ByteBuffer, (∀ i < 54, m' i = m i) →
        ReadsFile m' n GopBltSize PixelHeight PixelWidth GopBlt pool) ↔
      54 + 4 * 2 ^ d ≤ n.toNat + 1 := by
  obtain ⟨hFile, -⟩ := call_success hSuccess
  obtain ⟨hBits, hFew, -⟩ := packed_bits hPacked
  have hEntries : 0 < 2 ^ d := Nat.two_pow_pos d
  constructor
  · -- among these files is one whose pixels are all ones
    intro hReads
    set ones : ByteBuffer := fun i => if i < 54 then m i else 0xFF
    have hSame : ∀ i < 54, ones i = m i := fun i hi => if_pos hi
    have hHeader : BMP_IMAGE_HEADER.read ones = BMP_IMAGE_HEADER.read m :=
      BMP_IMAGE_HEADER.read_congr hSame
    have hFirst : ((0, 0) : Nat × Nat) ∈ points (BMP_IMAGE_HEADER.read ones).W
        (BMP_IMAGE_HEADER.read ones).H := by
      rw [hHeader]
      exact mem_points.mpr ⟨Nat.pos_of_ne_zero hFile.accepted.height,
        Nat.pos_of_ne_zero hFile.accepted.width⟩
    have hColor := readsFile_iff_colors.mp (hReads ones hSame) (success_congr hSuccess hSame)
      (0, 0) hFirst
    rw [hHeader, last_entry_named hPacked hNoGap fun i hi => if_neg (Nat.not_lt.mpr hi)] at hColor
    omega
  · intro hLong m' hSame
    have hHeader : BMP_IMAGE_HEADER.read m' = BMP_IMAGE_HEADER.read m :=
      BMP_IMAGE_HEADER.read_congr hSame
    refine readsFile_iff_colors.mpr fun _ p _ => ?_
    have hEntry := sample_lt m' d ((BMP_IMAGE_HEADER.read m).rowOffset p.1) p.2
    have hStart : sizeofBmpHeader.toNat = 54 := rfl
    rw [hHeader, BMP_IMAGE_HEADER.colorOffset, hBits, if_pos hFew]
    omega

variable (m n GopBltSize PixelHeight PixelWidth GopBlt pool)

/--
**When the decoder stays inside the file.** A call depends on nothing but the file's bytes
exactly when, should it succeed, the three colours of every pixel lie in the file. A gap between
header and pixels is enough for that. Without one, and with at most 8 bits a pixel, the header
alone decides about success, and all files with this header are read inside exactly when they are
as long as a whole colour map, whose entries no check has asked for.
--/
theorem TranslateBmpToGopBlt_readsFile_iff :
    (ReadsFile m n GopBltSize PixelHeight PixelWidth GopBlt pool ↔
      ((TranslateBmpToGopBlt (some m) n GopBlt GopBltSize PixelHeight PixelWidth pool).Status =
        EFI_SUCCESS → ∀ p ∈ points (BMP_IMAGE_HEADER.read m).W (BMP_IMAGE_HEADER.read m).H,
          (BMP_IMAGE_HEADER.read m).colorOffset m p + 3 ≤ n.toNat)) ∧
      (54 < (BMP_IMAGE_HEADER.read m).ImageOffset.toNat →
        ReadsFile m n GopBltSize PixelHeight PixelWidth GopBlt pool) ∧
      ((TranslateBmpToGopBlt (some m) n GopBlt GopBltSize PixelHeight PixelWidth pool).Status =
          EFI_SUCCESS →
        ¬ 54 < (BMP_IMAGE_HEADER.read m).ImageOffset.toNat →
        (BMP_IMAGE_HEADER.read m).BitPerPixel.toNat ≤ 8 →
        (∀ m' : ByteBuffer, (∀ i < 54, m' i = m i) →
          (TranslateBmpToGopBlt (some m') n GopBlt GopBltSize PixelHeight PixelWidth pool).Status =
            EFI_SUCCESS) ∧
        ((∀ m' : ByteBuffer, (∀ i < 54, m' i = m i) →
            ReadsFile m' n GopBltSize PixelHeight PixelWidth GopBlt pool) ↔
          54 + 4 * 2 ^ (BMP_IMAGE_HEADER.read m).BitPerPixel.toNat ≤ n.toNat + 1)) := by
  refine ⟨readsFile_iff_colors, fun hGap => ?_, fun hSuccess hNoGap hDepth => ⟨?_, ?_⟩⟩
  · exact readsFile_of_colors fun hFile _ _ p hp =>
      colorOffset_le_of_gap hFile.supported hFile.accepted hGap hp
  · exact fun m' hSame => success_congr hSuccess hSame
  · obtain ⟨hFile, -⟩ := call_success hSuccess
    have hOffset : (BMP_IMAGE_HEADER.read m).ImageOffset.toNat = 54 :=
      Nat.le_antisymm (Nat.not_lt.mp hNoGap) hFile.accepted.offset
    obtain ⟨d, P, hPacked⟩ | ⟨b, hDirect⟩ := supported_iff.mp hFile.supported
    · rw [(packed_bits hPacked).1]
      exact readsFile_all_iff hSuccess hOffset hPacked
    · exact absurd hDepth (Nat.not_le.mpr (direct_bits hDirect).2)

/-- A file of one 8-bit pixel and no colour map goes through the checks; its colour lies 796
bytes behind the end of the file. -/
example :
    let h : BMP_IMAGE_HEADER := ⟨0x42, 0x4D, 58, 0, 0, 54, 40, 1, 1, 1, 8, 0, 4, 0, 0, 0, 0⟩
    let m : ByteBuffer := fun i => (h.bytes ++ [200, 0, 0, 0]).getD i 0
    (checkBmp (BMP_IMAGE_HEADER.read m) 58).isOk = true ∧
      (BMP_IMAGE_HEADER.read m).colorOffset m (0, 0) = 58 + 796 := by
  decide +kernel

end

end TianJi.Model

import TianJi.Model.BmpSupportLib

/-!
# TianJi — the picture writer

`TranslateGopBltToBmp` (BmpSupportLib.c): a 24-bit picture, bottom row first, rows padded to
whole words. It writes into the caller's buffer when that is said to be large enough and
into a zeroed one of its own when there is none.

`picture24` is what such a file is, stated as bytes: the header and then the rows. The
walking byte pointer of the code lays it out exactly (`encodeInto_holds`).

* `bmpSize_ok_iff`   — the checked size is the picture's length.
* `encodeInto_holds` — a zeroed buffer ends up holding the picture.
* `encode_unsupported`, `encode_fresh`, `encode_given` — the call, case by case.
-/

namespace TianJi.Model

open Bytes Memory Memory.Region

-- ---------------------------------------------------------------------------
-- The code
-- ---------------------------------------------------------------------------

/-- `mBmpImageHeaderTemplate` -/
def mBmpImageHeaderTemplate : BMP_IMAGE_HEADER where
  CharB := 0x42
  CharM := 0x4D
  Size := 0
  Reserved0 := 0
  Reserved1 := 0
  ImageOffset := sizeofBmpHeader
  HeaderSize := sizeofBmpHeader - offsetOfHeaderSize
  PixelWidth := 0
  PixelHeight := 0
  Planes := 1
  BitPerPixel := 24
  CompressionType := 0
  ImageSize := 0
  XPixelsPerMeter := 0
  YPixelsPerMeter := 0
  NumberOfColors := 0
  ImportantColors := 0

/-- `PaddingSize = PixelWidth & 0x3` -/
def PaddingSize (PixelWidth : UINT32) : UINT32 := PixelWidth &&& 0x3

/-- The chain of checks that computes `BmpSize`. -/
def bmpSize (PixelHeight PixelWidth : UINT32) : Except EFI_STATUS UINT32 := do
  let BmpSize ← orUnsupported (SafeUint32Mult PixelWidth 3)
  let BmpSize ← orUnsupported (SafeUint32Add BmpSize (PaddingSize PixelWidth))
  let BmpSize ← orUnsupported (SafeUint32Mult BmpSize PixelHeight)
  orUnsupported (SafeUint32Add BmpSize sizeofBmpHeader)

/-- The template with the fields that are assigned after `CopyMem`. -/
def imageHeader (BmpImageSize PixelHeight PixelWidth : UINT32) : BMP_IMAGE_HEADER :=
  { mBmpImageHeaderTemplate with
    Size := BmpImageSize
    ImageSize := BmpImageSize - sizeofBmpHeader
    PixelWidth := PixelWidth
    PixelHeight := PixelHeight }

/-- The walking pointers of the encoder: `Image` as an offset into the image, `BltPixel` as
an index into the buffer, and the image's block. -/
structure EncodeState where
  Image : Nat
  BltPixel : Nat
  block : Region UINT8

/-- `*Image++ = Blue; *Image++ = Green; *Image++ = Red; BltPixel++;` -/
def encodePixel (GopBlt : Nat → EFI_GRAPHICS_OUTPUT_BLT_PIXEL) (s : EncodeState) : EncodeState where
  Image := s.Image + 3
  BltPixel := s.BltPixel + 1
  block := s.block.storeAll (cursor s.Image
    [(GopBlt s.BltPixel).Blue, (GopBlt s.BltPixel).Green, (GopBlt s.BltPixel).Red])

/-- One row and the step over its padding. -/
def encodeRow (GopBlt : Nat → EFI_GRAPHICS_OUTPUT_BLT_PIXEL) (PixelHeight PixelWidth : UINT32)
    (s : EncodeState) (Row : Nat) : EncodeState :=
  let s := (List.range PixelWidth.toNat).foldl (fun s _ => encodePixel GopBlt s)
    { s with BltPixel := (PixelHeight.toNat - Row - 1) * PixelWidth.toNat }
  { s with Image := s.Image + (PaddingSize PixelWidth).toNat }

/-- Header and rows, into a given block. -/
def encodeInto (GopBlt : Nat → EFI_GRAPHICS_OUTPUT_BLT_PIXEL)
    (PixelHeight PixelWidth BmpImageSize : UINT32) (block : Region UINT8) : Region UINT8 :=
  let block := block.storeAll
    (cursor 0 (imageHeader BmpImageSize PixelHeight PixelWidth).bytes)
  ((List.range PixelHeight.toNat).foldl (encodeRow GopBlt PixelHeight PixelWidth)
    ⟨sizeofBmpHeader.toNat, 0, block⟩).block

/-- What `TranslateGopBltToBmp` returns, in its status and through its parameters. -/
structure EncodeResult where
  Status : EFI_STATUS
  BmpImage : Option (Region UINT8)
  BmpImageSize : UINT32

/-- `TranslateGopBltToBmp`. `pool` says whether `AllocateZeroPool` succeeds. -/
def TranslateGopBltToBmp (GopBlt : Option (Nat → EFI_GRAPHICS_OUTPUT_BLT_PIXEL))
    (PixelHeight PixelWidth : UINT32) (BmpImage : Option (Region UINT8)) (BmpImageSize : UINT32)
    (pool : Bool) : EncodeResult :=
  match GopBlt with
  | none => ⟨EFI_INVALID_PARAMETER, BmpImage, BmpImageSize⟩
  | some GopBlt =>
    if PixelHeight = 0 ∨ PixelWidth = 0 then ⟨EFI_UNSUPPORTED, BmpImage, BmpImageSize⟩
    else
      match bmpSize PixelHeight PixelWidth with
      | .error Status => ⟨Status, BmpImage, BmpImageSize⟩
      | .ok BmpSize =>
        match BmpImage with
        | none =>
          if pool then
            ⟨EFI_SUCCESS, some (encodeInto GopBlt PixelHeight PixelWidth BmpSize
              (Region.fresh fun _ => 0)), BmpSize⟩
          else ⟨EFI_OUT_OF_RESOURCES, none, BmpImageSize⟩
        | some block =>
          if BmpImageSize < BmpSize then ⟨EFI_BUFFER_TOO_SMALL, some block, BmpSize⟩
          else ⟨EFI_SUCCESS, some (encodeInto GopBlt PixelHeight PixelWidth BmpImageSize block),
            BmpImageSize⟩

-- ---------------------------------------------------------------------------
-- The picture as bytes
-- ---------------------------------------------------------------------------

/-- A pixel's three bytes. -/
def bgr (p : EFI_GRAPHICS_OUTPUT_BLT_PIXEL) : List UINT8 := [p.Blue, p.Green, p.Red]

/-- The bytes of `n` pixels from index `k` on. -/
def pixelBytes (GopBlt : Nat → EFI_GRAPHICS_OUTPUT_BLT_PIXEL) (k n : Nat) : List UINT8 :=
  (List.range n).flatMap fun x => bgr (GopBlt (k + x))

/-- The colours of row `y` of the buffer, then padding to a whole number of words. -/
def paddedRow (GopBlt : Nat → EFI_GRAPHICS_OUTPUT_BLT_PIXEL) (W y : Nat) : List UINT8 :=
  pixelBytes GopBlt (y * W) W ++ List.replicate (W % 4) 0

/-- Bytes of a row and of the whole file. -/
def rowSize (W : Nat) : Nat := 3 * W + W % 4
def pictureSize (W H : Nat) : Nat := rowSize W * H + 54

/-- The 24-bit picture of a `W × H` buffer, bottom row first. -/
def picture24 (GopBlt : Nat → EFI_GRAPHICS_OUTPUT_BLT_PIXEL) (W H : UINT32) : List UINT8 :=
  (imageHeader (UInt32.ofNat (pictureSize W.toNat H.toNat)) H W).bytes ++
    (List.range H.toNat).flatMap fun Row => paddedRow GopBlt W.toNat (H.toNat - Row - 1)

@[simp] theorem length_pixelBytes (GopBlt : Nat → EFI_GRAPHICS_OUTPUT_BLT_PIXEL) (k n : Nat) :
    (pixelBytes GopBlt k n).length = 3 * n := by
  simp [pixelBytes, bgr, Nat.mul_comm]

theorem length_paddedRow (GopBlt : Nat → EFI_GRAPHICS_OUTPUT_BLT_PIXEL) (W y : Nat) :
    (paddedRow GopBlt W y).length = rowSize W := by
  simp [paddedRow, rowSize]

theorem length_rows (GopBlt : Nat → EFI_GRAPHICS_OUTPUT_BLT_PIXEL) (W H n : Nat) :
    ((List.range n).flatMap fun Row => paddedRow GopBlt W (H - Row - 1)).length =
      n * rowSize W := by
  simp [length_paddedRow]

theorem length_picture24 (GopBlt : Nat → EFI_GRAPHICS_OUTPUT_BLT_PIXEL) (W H : UINT32) :
    (picture24 GopBlt W H).length = pictureSize W.toNat H.toNat := by
  rw [picture24, List.length_append, BMP_IMAGE_HEADER.length_bytes, length_rows, pictureSize,
    Nat.mul_comm, Nat.add_comm]

section

variable {m : ByteBuffer} {GopBlt : Nat → EFI_GRAPHICS_OUTPUT_BLT_PIXEL} {W H : UINT32} {x y : Nat}

theorem header_of_picture (h : Holds m 0 (picture24 GopBlt W H)) : BMP_IMAGE_HEADER.read m =
    imageHeader (UInt32.ofNat (pictureSize W.toNat H.toNat)) H W :=
  BMP_IMAGE_HEADER.read_of_holds (holds_append.mp h).1

/-- Row `y` of the buffer lies behind the header and the rows below it. -/
theorem row_of_picture (h : Holds m 0 (picture24 GopBlt W H)) (hy : y < H.toNat) :
    Holds m (54 + (H.toNat - 1 - y) * rowSize W.toNat) (paddedRow GopBlt W.toNat y) := by
  have hRows := (holds_append.mp h).2
  rw [BMP_IMAGE_HEADER.length_bytes, Nat.zero_add] at hRows
  have hRow := holds_flatMap_range (fun Row => length_paddedRow _ _ _) hRows
    (show H.toNat - 1 - y < H.toNat by omega)
  rwa [show H.toNat - (H.toNat - 1 - y) - 1 = y by omega] at hRow

/-- The three bytes of a pixel lie three bytes a pixel behind the row's start. -/
theorem pixel_of_picture (h : Holds m 0 (picture24 GopBlt W H)) (hx : x < W.toNat)
    (hy : y < H.toNat) : Holds m (54 + (H.toNat - 1 - y) * rowSize W.toNat + 3 * x)
      (bgr (GopBlt (y * W.toNat + x))) := by
  have hPixels := (holds_append.mp (row_of_picture h hy)).1
  have hPixel := holds_flatMap_range (k := 3) (fun x => rfl) hPixels hx
  rwa [Nat.mul_comm x 3] at hPixel

end

-- ---------------------------------------------------------------------------
-- The size
-- ---------------------------------------------------------------------------

/-- A picture the encoder takes: no side is 0, and the file's length is a `UINT32`. -/
def Encodable (W H : UINT32) : Prop :=
  1 ≤ W.toNat ∧ 1 ≤ H.toNat ∧ pictureSize W.toNat H.toNat < 2 ^ 32

instance (W H : UINT32) : Decidable (Encodable W H) := inferInstanceAs (Decidable (_ ∧ _))

theorem toNat_paddingSize (W : UINT32) : (PaddingSize W).toNat = W.toNat % 4 := by
  rw [PaddingSize, UInt32.toNat_and]
  exact Nat.and_two_pow_sub_one_eq_mod W.toNat 2

/-- The chain of checks lets exactly the representable lengths through. -/
theorem bmpSize_ok_iff {W H size : UINT32} (hH : 1 ≤ H.toNat) :
    bmpSize H W = .ok size ↔ size.toNat = pictureSize W.toNat H.toNat := by
  have hThree : UInt32.toNat 3 = 3 := rfl
  have h54 : sizeofBmpHeader.toNat = 54 := rfl
  simp only [bmpSize, bind_ok_iff, orUnsupported_ok_iff, SafeUint32Mult_ok_iff,
    SafeUint32Add_ok_iff, toNat_paddingSize, hThree, h54]
  constructor
  · rintro ⟨a, ha, b, hb, c, hc, hSize⟩
    rw [hSize, hc, hb, ha, pictureSize, rowSize, Nat.mul_comm W.toNat]
  · intro hSize
    have hLt := size.toNat_lt
    have hRow : rowSize W.toNat ≤ rowSize W.toNat * H.toNat := Nat.le_mul_of_pos_right _ hH
    rw [pictureSize] at hSize
    have hParts : 3 * W.toNat ≤ rowSize W.toNat := Nat.le_add_right _ _
    -- every intermediate result is at most the last one
    refine ⟨UInt32.ofNat (3 * W.toNat), ?_, UInt32.ofNat (rowSize W.toNat), ?_,
      UInt32.ofNat (rowSize W.toNat * H.toNat), ?_, ?_⟩
    · rw [UInt32.toNat_ofNat_of_lt' (lt_of_le_of_lt (by omega) hLt), Nat.mul_comm]
    · rw [UInt32.toNat_ofNat_of_lt' (lt_of_le_of_lt (by omega) hLt),
        UInt32.toNat_ofNat_of_lt' (lt_of_le_of_lt (by omega) hLt)]
      rfl
    · rw [UInt32.toNat_ofNat_of_lt' (lt_of_le_of_lt (by omega) hLt),
        UInt32.toNat_ofNat_of_lt' (lt_of_le_of_lt (by omega) hLt)]
    · rw [hSize, UInt32.toNat_ofNat_of_lt' (lt_of_le_of_lt (by omega) hLt)]

theorem onlyUnsupported_bmpSize (H W : UINT32) : OnlyUnsupported (bmpSize H W) := by
  unfold bmpSize
  repeat' first
    | exact onlyUnsupported_orUnsupported _
    | refine onlyUnsupported_bind ?_ fun _ => ?_

theorem bmpSize_of_encodable {W H : UINT32} (h : Encodable W H) :
    bmpSize H W = .ok (UInt32.ofNat (pictureSize W.toNat H.toNat)) := by
  rw [bmpSize_ok_iff h.2.1, UInt32.toNat_ofNat_of_lt' h.2.2]

-- ---------------------------------------------------------------------------
-- The loops
-- ---------------------------------------------------------------------------

variable {GopBlt : Nat → EFI_GRAPHICS_OUTPUT_BLT_PIXEL}

/-- The pixels of a row lie one after the other. -/
theorem foldl_encodePixel (n : Nat) (s : EncodeState) :
    (List.range n).foldl (fun s _ => encodePixel GopBlt s) s =
      ⟨s.Image + 3 * n, s.BltPixel + n,
        s.block.storeAll (cursor s.Image (pixelBytes GopBlt s.BltPixel n))⟩ := by
  induction n with
  | zero => rfl
  | succ n ih =>
    rw [List.range_succ, List.foldl_append, ih]
    simp only [List.foldl_cons, List.foldl_nil, encodePixel, EncodeState.mk.injEq]
    refine ⟨by omega, by omega, ?_⟩
    rw [← storeAll_append]
    have hPixels : pixelBytes GopBlt s.BltPixel (n + 1) =
        pixelBytes GopBlt s.BltPixel n ++ bgr (GopBlt (s.BltPixel + n)) := by
      rw [pixelBytes, List.range_succ, List.flatMap_append, List.flatMap_singleton]
      rfl
    rw [hPixels, cursor_append, length_pixelBytes]
    rfl

theorem encodeRow_eq (W H : UINT32) (s : EncodeState) (Row : Nat) :
    encodeRow GopBlt H W s Row = ⟨s.Image + rowSize W.toNat,
      (H.toNat - Row - 1) * W.toNat + W.toNat, s.block.storeAll (cursor s.Image
        (pixelBytes GopBlt ((H.toNat - Row - 1) * W.toNat) W.toNat))⟩ := by
  rw [encodeRow, foldl_encodePixel, toNat_paddingSize, rowSize, Nat.add_assoc]

/-- What the block looks like when `k` rows are written: header and rows are held, behind
them everything is still zero, and nothing was stored further than the pixels reach. -/
structure Written (W H size : UINT32) (GopBlt : Nat → EFI_GRAPHICS_OUTPUT_BLT_PIXEL) (k : Nat)
    (s : EncodeState) : Prop where
  image : s.Image = 54 + k * rowSize W.toNat
  held : Holds s.block.cells 0 ((imageHeader size H W).bytes ++
    (List.range k).flatMap fun Row => paddedRow GopBlt W.toNat (H.toNat - Row - 1))
  zero : ∀ i, 54 + k * rowSize W.toNat ≤ i → s.block.cells i = 0
  bound : s.block.InBounds (54 + k * rowSize W.toNat)

theorem holds_replicate_zero {m : ByteBuffer} {off n : Nat} (h : ∀ i, off ≤ i → m i = 0) :
    Holds m off (List.replicate n 0) := by
  intro i b hGet
  rw [List.getElem?_replicate] at hGet
  split_ifs at hGet
  rw [← Option.some.inj hGet]
  exact h _ (Nat.le_add_right _ _)

theorem written_row {W H size : UINT32} {k : Nat} {s : EncodeState}
    (h : Written W H size GopBlt k s) :
    Written W H size GopBlt (k + 1) (encodeRow GopBlt H W s k) := by
  obtain ⟨hImage, hHeld, hZero, hBound⟩ := h
  have hNext : 54 + (k + 1) * rowSize W.toNat = 54 + k * rowSize W.toNat + rowSize W.toNat := by
    ring
  have hPixels : 3 * W.toNat ≤ rowSize W.toNat := Nat.le_add_right _ _
  have hLength : ((imageHeader size H W).bytes ++ (List.range k).flatMap fun Row =>
      paddedRow GopBlt W.toNat (H.toNat - Row - 1)).length = 54 + k * rowSize W.toNat := by
    rw [List.length_append, BMP_IMAGE_HEADER.length_bytes, length_rows]
  rw [encodeRow_eq]
  refine ⟨by rw [hImage, hNext], ?_, ?_, ?_⟩
  · rw [List.range_succ, List.flatMap_append, List.flatMap_singleton, ← List.append_assoc]
    refine holds_append.mpr ⟨hHeld.frame_before (by rw [hLength, hImage, Nat.zero_add]), ?_⟩
    rw [hLength, Nat.zero_add, ← hImage, paddedRow]
    refine holds_append.mpr ⟨holds_write _ _ _, holds_replicate_zero fun i hi => ?_⟩
    -- the padding is stepped over, so it keeps the zeros of the pool
    rw [cells_write_after hi]
    rw [length_pixelBytes] at hi
    exact hZero i (by omega)
  · intro i hi
    rw [cells_write_after (by rw [length_pixelBytes, hImage]; omega)]
    exact hZero i (by omega)
  · refine inBounds_storeAll.mpr ⟨fun i hi => ?_, ?_⟩
    · have := hBound i hi
      omega
    · rintro ⟨i, v⟩ hMem
      have hi : i ∈ List.range' s.Image (3 * W.toNat) := by
        rw [← length_pixelBytes GopBlt ((H.toNat - k - 1) * W.toNat), ← map_fst_cursor]
        exact List.mem_map_of_mem (f := Prod.fst) hMem
      rw [List.mem_range'_1] at hi
      show i < _
      omega

theorem written_header (W H size : UINT32) (GopBlt : Nat → EFI_GRAPHICS_OUTPUT_BLT_PIXEL) :
    Written W H size GopBlt 0 ⟨54, 0, (Region.fresh fun _ => 0).storeAll
      (cursor 0 (imageHeader size H W).bytes)⟩ := by
  have hLength := BMP_IMAGE_HEADER.length_bytes (imageHeader size H W)
  refine ⟨by rw [Nat.zero_mul], ?_, ?_, ?_⟩
  · rw [List.range_zero, List.flatMap_nil, List.append_nil]
    exact holds_write _ 0 _
  · intro i hi
    rw [Nat.zero_mul] at hi
    have hBehind : 0 + (imageHeader size H W).bytes.length ≤ i := by
      rw [hLength]
      omega
    dsimp only
    rw [cells_write_after hBehind, cells_fresh]
  · intro i hi
    rw [stores_storeAll, map_fst_cursor, hLength] at hi
    rw [Nat.zero_mul]
    simpa [Region.fresh] using hi

/-- **The encoder's output.** A zeroed block ends up holding the header and the rows, and
nothing is stored behind them. -/
theorem encodeInto_holds (W H size : UINT32) (GopBlt : Nat → EFI_GRAPHICS_OUTPUT_BLT_PIXEL) :
    Holds (encodeInto GopBlt H W size (Region.fresh fun _ => 0)).cells 0
      ((imageHeader size H W).bytes ++
        (List.range H.toNat).flatMap fun Row => paddedRow GopBlt W.toNat (H.toNat - Row - 1)) ∧
    (encodeInto GopBlt H W size (Region.fresh fun _ => 0)).InBounds
      (pictureSize W.toNat H.toNat) := by
  have hRows : ∀ k, Written W H size GopBlt k ((List.range k).foldl (encodeRow GopBlt H W)
      ⟨54, 0, (Region.fresh fun _ => 0).storeAll (cursor 0 (imageHeader size H W).bytes)⟩) := by
    intro k
    induction k with
    | zero => exact written_header W H size GopBlt
    | succ k ih =>
      rw [List.range_succ, List.foldl_append]
      exact written_row ih
  have hLast := hRows H.toNat
  refine ⟨hLast.held, ?_⟩
  rw [pictureSize, Nat.mul_comm, Nat.add_comm]
  exact hLast.bound

/-- Any call that writes at all writes the block's first byte. -/
theorem zero_mem_stores_encodeInto (W H size : UINT32) (block : Region UINT8) :
    0 ∈ (encodeInto GopBlt H W size block).stores := by
  have hRows : ∀ (rows : List Nat) (s : EncodeState), 0 ∈ s.block.stores →
      0 ∈ (rows.foldl (encodeRow GopBlt H W) s).block.stores := by
    intro rows
    induction rows with
    | nil => exact fun s hs => hs
    | cons Row rows ih =>
      intro s hs
      refine ih _ ?_
      rw [encodeRow_eq, stores_storeAll]
      exact List.mem_append_left _ hs
  refine hRows _ _ ?_
  rw [stores_storeAll, map_fst_cursor, BMP_IMAGE_HEADER.length_bytes]
  exact List.mem_append_right _ (by decide)

-- ---------------------------------------------------------------------------
-- The call, case by case
-- ---------------------------------------------------------------------------

section

variable {W H : UINT32} {BmpImageSize : UINT32} {pool : Bool}

/-- What is not representable is turned down before anything is touched. -/
theorem encode_unsupported (h : ¬ Encodable W H) (BmpImage : Option (Region UINT8)) :
    TranslateGopBltToBmp (some GopBlt) H W BmpImage BmpImageSize pool =
      ⟨EFI_UNSUPPORTED, BmpImage, BmpImageSize⟩ := by
  have hZero : ∀ x : UINT32, x = 0 ↔ x.toNat = 0 := fun x => by
    rw [← UInt32.toNat_inj]
    rfl
  unfold TranslateGopBltToBmp
  by_cases hSide : H = 0 ∨ W = 0
  · simp only [if_pos hSide]
  · have hSides := not_or.mp hSide
    rw [hZero, hZero] at hSides
    cases hSize : bmpSize H W with
    | error Status =>
      rw [onlyUnsupported_bmpSize H W Status hSize]
      simp only [if_neg hSide]
    | ok size =>
      have hExact := (bmpSize_ok_iff (by omega)).mp hSize
      have hLt := size.toNat_lt
      exact absurd ⟨by omega, by omega, by omega⟩ h

/-- Given no buffer, the encoder allocates one and leaves the picture in it. -/
theorem encode_fresh (GopBlt : Nat → EFI_GRAPHICS_OUTPUT_BLT_PIXEL) (BmpImageSize : UINT32)
    (h : Encodable W H) : ∃ block : Region UINT8,
    TranslateGopBltToBmp (some GopBlt) H W none BmpImageSize true =
      ⟨EFI_SUCCESS, some block, UInt32.ofNat (pictureSize W.toNat H.toNat)⟩ ∧
    Holds block.cells 0 (picture24 GopBlt W H) ∧
    block.InBounds (pictureSize W.toNat H.toNat) := by
  obtain ⟨hHeld, hBound⟩ :=
    encodeInto_holds W H (UInt32.ofNat (pictureSize W.toNat H.toNat)) GopBlt
  refine ⟨_, ?_, hHeld, hBound⟩
  have hSide : ¬ (H = 0 ∨ W = 0) := by
    rintro (rfl | rfl)
    · exact absurd h.2.1 (by decide)
    · exact absurd h.1 (by decide)
  simp only [TranslateGopBltToBmp, if_neg hSide, bmpSize_of_encodable h, if_true]

/-- Given a buffer, the encoder believes the size it is given with it. -/
theorem encode_given (GopBlt : Nat → EFI_GRAPHICS_OUTPUT_BLT_PIXEL) (BmpImageSize : UINT32)
    (pool : Bool) (h : Encodable W H) (block : Region UINT8) :
    TranslateGopBltToBmp (some GopBlt) H W (some block) BmpImageSize pool =
      if BmpImageSize.toNat < pictureSize W.toNat H.toNat then
        ⟨EFI_BUFFER_TOO_SMALL, some block, UInt32.ofNat (pictureSize W.toNat H.toNat)⟩
      else ⟨EFI_SUCCESS, some (encodeInto GopBlt H W BmpImageSize block), BmpImageSize⟩ := by
  have hSide : ¬ (H = 0 ∨ W = 0) := by
    rintro (rfl | rfl)
    · exact absurd h.2.1 (by decide)
    · exact absurd h.1 (by decide)
  simp only [TranslateGopBltToBmp, if_neg hSide, bmpSize_of_encodable h, UInt32.lt_iff_toNat_lt,
    UInt32.toNat_ofNat_of_lt' h.2.2]

end

end TianJi.Model

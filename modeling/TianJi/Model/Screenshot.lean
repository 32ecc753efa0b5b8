import TianJi.Model.BmpAgree
import TianJi.Model.BmpEncoder

/-!
# TianJi — the screenshot

`UefiMain` of 截屏.c: capture the screen, encode it with `TranslateGopBltToBmp` and write it
to `截屏.图片`. The locals `Bmp` and `BmpSize`, which the encoder takes as a buffer offered to
it, are not initialised, every exit behind the encoder's call hands `Bmp` to `FreePool`, and the
file is opened without being cut to length.

* `screenshot_file`             — what one run leaves on the volume.
* `screenshot_reads_back_iff`   — when the picture reader gets the screen back.
* `screenshots_independent_iff` — when two runs over one screen leave one file.
-/

namespace TianJi.Model

open Bytes Canvas Memory Ownership

/-- What a run of 截屏 meets: statuses and allocations, the screen, the two uninitialised
locals, and the file from before. -/
structure «截屏环境» where
  Gop : EFI_STATUS
  HorizontalResolution : UINT32
  VerticalResolution : UINT32
  /-- The pixel in column `x` of row `y`. -/
  screen : Picture EFI_GRAPHICS_OUTPUT_BLT_PIXEL
  BltImage : Option (Nat → EFI_GRAPHICS_OUTPUT_BLT_PIXEL)
  Blt : EFI_STATUS
  /-- `Bmp` on entry: NULL, or an address the run does not own and what lies there. -/
  Bmp : Option ByteBuffer
  BmpSize : UINT32
  ZeroPool : Bool
  Sfs : EFI_STATUS
  OpenVolume : EFI_STATUS
  Open : EFI_STATUS
  Write : EFI_STATUS
  /-- `截屏.图片` before the run, if there is one. -/
  file : Option (List UINT8)

/-- What a run leaves: the file, the blocks it wrote to with the bytes it had allocated
for them (none for `Bmp` when the address was not its own), and the account of its blocks and
handles. -/
structure «截屏结果» where
  Status : EFI_STATUS
  file : Option (List UINT8)
  BltImage : Region EFI_GRAPHICS_OUTPUT_BLT_PIXEL
  BltSize : UINTN
  Bmp : Option (Region UINT8)
  allocated : Nat
  ledger : Ledger

namespace «截屏环境»

/-- `UINTN BltSize`: the product of the resolutions is a 32-bit one. -/
def BltSize (e : «截屏环境») : UINTN :=
  (e.HorizontalResolution * e.VerticalResolution).toUInt64 * 4

/-- `Blt` with `EfiBltVideoToBltBuffer` of the whole screen. -/
def capture (e : «截屏环境») (pool : Nat → EFI_GRAPHICS_OUTPUT_BLT_PIXEL) :
    Region EFI_GRAPHICS_OUTPUT_BLT_PIXEL :=
  (Region.fresh pool).storeAll
    ((List.range (e.HorizontalResolution.toNat * e.VerticalResolution.toNat)).map fun k =>
      (k, e.screen (k % e.HorizontalResolution.toNat) (k / e.HorizontalResolution.toNat)))

/-- All firmware calls and allocations of a run succeed. -/
structure Succeeds (e : «截屏环境») : Prop where
  gop : EFI_ERROR e.Gop = false
  image : e.BltImage.isSome = true
  blt : EFI_ERROR e.Blt = false
  zeroPool : e.ZeroPool = true
  sfs : EFI_ERROR e.Sfs = false
  volume : EFI_ERROR e.OpenVolume = false
  opened : EFI_ERROR e.Open = false
  write : EFI_ERROR e.Write = false

end «截屏环境»

/-- A write from position 0 into a file that was not cut to length. -/
def overwrite (old new : List UINT8) : List UINT8 := new ++ old.drop new.length

/-- `UefiMain` of 截屏.c. -/
def «截屏» (e : «截屏环境») : «截屏结果» :=
  if EFI_ERROR e.Gop then ⟨e.Gop, e.file, Region.fresh fun _ => default, 0, none, 0, .empty⟩
  else
    let (image, L) := Ledger.empty.tryAcquire e.BltImage.isSome
    match e.BltImage with
    | none => ⟨EFI_OUT_OF_RESOURCES, e.file, Region.fresh fun _ => default, e.BltSize, none, 0, L⟩
    | some pool =>
      if EFI_ERROR e.Blt then
        ⟨e.Blt, e.file, Region.fresh pool, e.BltSize, none, 0, L.release image⟩
      else
        let BltImage := e.capture pool
        let r := TranslateGopBltToBmp (some BltImage.cells) e.VerticalResolution
          e.HorizontalResolution (e.Bmp.map Region.fresh) e.BmpSize e.ZeroPool
        -- the encoder assigns `Bmp` only where it was NULL
        let (bmp, L) := if e.Bmp.isSome then (.wild, L) else L.tryAcquire r.BmpImage.isSome
        let allocated := if e.Bmp.isNone then r.BmpImageSize.toNat else 0
        let ends (Status : EFI_STATUS) (file : Option (List UINT8)) (L : Ledger) : «截屏结果» :=
          ⟨Status, file, BltImage, e.BltSize, r.BmpImage, allocated, L⟩
        -- `FreePool(BltImage)` and `FreePool(Bmp)`
        let free (L : Ledger) : Ledger := (L.release image).release bmp
        if EFI_ERROR r.Status then ends r.Status e.file (free L)
        else if EFI_ERROR e.Sfs then ends e.Sfs e.file (free L)
        -- `Root` is closed although it was not opened
        else if EFI_ERROR e.OpenVolume then ends e.OpenVolume e.file (free (L.release .wild))
        else
          let (Root, L) := L.acquire
          -- and so is `File`
          if EFI_ERROR e.Open then
            ends e.Open e.file (free ((L.release .wild).release Root))
          else
            let (File, L) := L.acquire
            let L := ((free L).release File).release Root
            -- `EFI_FILE_MODE_CREATE` makes an empty file or opens the one that is there
            let opened := e.file.getD []
            let data := (List.range r.BmpImageSize.toNat).map
              (r.BmpImage.getD (Region.fresh fun _ => 0)).cells
            if EFI_ERROR e.Write then ends e.Write (some opened) L
            else ends EFI_SUCCESS (some (overwrite opened data)) L

/-- No write of the run leaves the memory it allocated, and it releases nothing that it did not
acquire. -/
structure «截屏结果».StaysOwned (r : «截屏结果») : Prop where
  image : ∀ k ∈ r.BltImage.stores, 4 * k + 4 ≤ r.BltSize.toNat
  bmp : ∀ block, r.Bmp = some block → block.InBounds r.allocated
  released : r.ledger.Sound

-- ---------------------------------------------------------------------------
-- One run
-- ---------------------------------------------------------------------------

namespace «截屏环境»

variable {e : «截屏环境»}

/-- The captured buffer, as the encoder reads it. -/
def pixels (e : «截屏环境») : Nat → EFI_GRAPHICS_OUTPUT_BLT_PIXEL :=
  (e.capture (e.BltImage.getD fun _ => default)).cells

/-- The picture of the screen. -/
def picture (e : «截屏环境») : List UINT8 :=
  picture24 e.pixels e.HorizontalResolution e.VerticalResolution

/-- The bytes the encoder needs. -/
def needed (e : «截屏环境») : Nat :=
  pictureSize e.HorizontalResolution.toNat e.VerticalResolution.toNat

/-- The encoder takes this resolution. -/
def Encodes (e : «截屏环境») : Prop := Encodable e.HorizontalResolution e.VerticalResolution

/-- The encoder takes the stale `Bmp` for a buffer that is large enough. -/
def WritesStale (e : «截屏环境») : Prop := e.Encodes ∧ e.Bmp ≠ none ∧ e.needed ≤ e.BmpSize.toNat

/-- A pixel of the block is one of the screen. -/
theorem pixels_eq {x y : Nat} (hx : x < e.HorizontalResolution.toNat)
    (hy : y < e.VerticalResolution.toNat) :
    e.pixels (y * e.HorizontalResolution.toNat + x) = e.screen x y := by
  refine Region.cells_storeAll_of_mem ?_ (List.mem_map.mpr
    ⟨y * e.HorizontalResolution.toNat + x, List.mem_range.mpr (rowMajor_lt hx hy), ?_⟩)
  · simp [List.map_map, Function.comp_def, List.nodup_range]
  · rw [rowMajor_mod hx, rowMajor_div hx]

/-- Every pixel of the block is written. -/
theorem stores_capture (e : «截屏环境») (pool : Nat → EFI_GRAPHICS_OUTPUT_BLT_PIXEL) :
    (e.capture pool).stores =
      List.range (e.HorizontalResolution.toNat * e.VerticalResolution.toNat) := by
  simp [capture, Region.stores_storeAll, Function.comp_def]

/-- Its size in bytes. The number of pixels is counted in 32 bits. -/
theorem toNat_bltSize (e : «截屏环境») : e.BltSize.toNat =
    (e.HorizontalResolution.toNat * e.VerticalResolution.toNat) % 2 ^ 32 * 4 := by
  have hLt := Nat.mod_lt (e.HorizontalResolution.toNat * e.VerticalResolution.toNat)
    (show 0 < 2 ^ 32 by decide)
  rw [BltSize, UInt64.toNat_mul, UInt32.toNat_toUInt64, UInt32.toNat_mul]
  exact Nat.mod_eq_of_lt (by simp only [UInt64.reduceToNat]; omega)

/-- The capture stays in its block exactly when the pixel count is a 32-bit number. -/
theorem capture_inBounds_iff (pool : Nat → EFI_GRAPHICS_OUTPUT_BLT_PIXEL) :
    (∀ k ∈ (e.capture pool).stores, 4 * k + 4 ≤ e.BltSize.toNat) ↔
      e.HorizontalResolution.toNat * e.VerticalResolution.toNat < 2 ^ 32 := by
  have hMod := Nat.mod_lt (e.HorizontalResolution.toNat * e.VerticalResolution.toNat)
    (show 0 < 2 ^ 32 by decide)
  rw [stores_capture, toNat_bltSize]
  constructor
  · intro hAll
    by_contra hBig
    have := hAll _ (List.mem_range.mpr (show e.HorizontalResolution.toNat *
      e.VerticalResolution.toNat - 1 < _ by omega))
    omega
  · intro hSmall k hk
    have hk := List.mem_range.mp hk
    rw [Nat.mod_eq_of_lt hSmall]
    omega

/-- The encoder's call in a run in which nothing fails. -/
def encoded (e : «截屏环境») : EncodeResult :=
  TranslateGopBltToBmp (some e.pixels) e.VerticalResolution e.HorizontalResolution
    (e.Bmp.map Region.fresh) e.BmpSize true

/-- The account of a run in which nothing fails. -/
def account (e : «截屏环境») : Ledger :=
  let (image, L) := Ledger.empty.acquire
  let (bmp, L) := if e.Bmp.isSome then (.wild, L) else L.tryAcquire e.encoded.BmpImage.isSome
  if EFI_ERROR e.encoded.Status then (L.release image).release bmp
  else
    let (Root, L) := L.acquire
    let (File, L) := L.acquire
    (((L.release image).release bmp).release File).release Root

/-- **A stale `Bmp` is released** on every way out, a `Bmp` of the run's own once. -/
theorem account_sound_iff (e : «截屏环境») : e.account.Sound ↔ e.Bmp = none := by
  cases hBmp : e.Bmp with
  | some m =>
    refine iff_of_false (fun hSound => ?_) (by simp)
    simp only [account, hBmp, Option.isSome_some, if_true] at hSound
    split_ifs at hSound
    · exact Ledger.not_sound_release_wild hSound
    · -- the handles are closed behind it
      exact Ledger.not_sound_release_wild
        (Ledger.sound_of_release (Ledger.sound_of_release hSound))
  | none =>
    refine iff_of_true ?_ rfl
    obtain ⟨image, L, hImage, hOwes, hNe⟩ := Ledger.acquire_spec Ledger.owes_empty
    obtain ⟨bmp, L₁, hTry, hOwes₁, hNe₁, -⟩ :=
      Ledger.tryAcquire_spec hOwes e.encoded.BmpImage.isSome
    simp only [account, hImage, hBmp, Option.isSome_none, Bool.false_eq_true, if_false, hTry]
    split_ifs
    · exact (Ledger.owes_release (Ledger.owes_release (hOwes₁.perm (.swap _ _ _)) hNe) hNe₁).1
    · obtain ⟨Root, L₂, hRoot, hOwes₂, hNe₂⟩ := Ledger.acquire_spec hOwes₁
      obtain ⟨File, L₃, hFile, hOwes₃, hNe₃⟩ := Ledger.acquire_spec hOwes₂
      simp only [hRoot, hFile]
      have hOrder : L₃.Owes [image, bmp, File, Root] :=
        hOwes₃.perm ((List.reverse_perm _).symm.trans (.cons _ (.cons _ (.swap _ _ _))))
      have hFreed := Ledger.owes_release (Ledger.owes_release hOrder hNe) hNe₁
      exact (Ledger.owes_release (Ledger.owes_release hFreed hNe₃) hNe₂).1

/-- A run in which no firmware call fails is decided by the encoder. -/
theorem screenshot_eq (hOk : e.Succeeds) :
    («截屏» e).file = (if EFI_ERROR e.encoded.Status then e.file else
      some (overwrite (e.file.getD []) ((List.range e.encoded.BmpImageSize.toNat).map
        (e.encoded.BmpImage.getD (Region.fresh fun _ => 0)).cells))) ∧
    ((«截屏» e).StaysOwned ↔
      e.HorizontalResolution.toNat * e.VerticalResolution.toNat < 2 ^ 32 ∧
      (∀ block, e.encoded.BmpImage = some block →
        block.InBounds (if e.Bmp.isNone then e.encoded.BmpImageSize.toNat else 0)) ∧
      e.Bmp = none) := by
  obtain ⟨pool, hPool⟩ := Option.isSome_iff_exists.mp hOk.image
  have hCells : (e.capture pool).cells = e.pixels := by rw [pixels, hPool, Option.getD_some]
  have hRun : «截屏» e = ⟨if EFI_ERROR e.encoded.Status then e.encoded.Status else EFI_SUCCESS,
      if EFI_ERROR e.encoded.Status then e.file else
        some (overwrite (e.file.getD []) ((List.range e.encoded.BmpImageSize.toNat).map
          (e.encoded.BmpImage.getD (Region.fresh fun _ => 0)).cells)),
      e.capture pool, e.BltSize, e.encoded.BmpImage,
      if e.Bmp.isNone then e.encoded.BmpImageSize.toNat else 0, e.account⟩ := by
    unfold «截屏» account encoded
    simp only [hOk.gop, hPool, hOk.blt, hOk.zeroPool, hOk.sfs, hOk.volume, hOk.opened, hOk.write,
      hCells, if_false, Bool.false_eq_true, Option.isSome_some, Ledger.tryAcquire, if_true]
    split_ifs <;> rfl
  rw [hRun]
  refine ⟨rfl, fun hOwned => ?_, fun h => ?_⟩
  · exact ⟨(capture_inBounds_iff pool).mp hOwned.image, hOwned.bmp,
      (account_sound_iff e).mp hOwned.released⟩
  · exact ⟨(capture_inBounds_iff pool).mpr h.1, h.2.1, (account_sound_iff e).mpr h.2.2⟩

/-- The four things a run can do with the offered buffer: turn the resolution down, write
the picture into a buffer of its own, turn the stale buffer down as too small, or write
into it. -/
theorem screenshot_file (hOk : e.Succeeds) :
    (¬ e.Encodes → («截屏» e).file = e.file) ∧
    (e.Encodes → e.Bmp = none →
      («截屏» e).file = some (overwrite (e.file.getD []) e.picture)) ∧
    (e.Encodes → e.Bmp ≠ none → ¬ e.WritesStale → («截屏» e).file = e.file) := by
  obtain ⟨hFile, -⟩ := screenshot_eq hOk
  refine ⟨fun hNot => ?_, fun hEnc hNull => ?_, fun hEnc hStale hSmall => ?_⟩
  · rw [hFile, encoded, encode_unsupported hNot]
    rfl
  · obtain ⟨block, hCall, hHeld, -⟩ :=
      encode_fresh e.pixels e.BmpSize hEnc
    have hLength := length_picture24 e.pixels e.HorizontalResolution e.VerticalResolution
    rw [hFile, encoded, hNull, Option.map_none, hCall]
    simp only [EFI_ERROR_success, Option.getD_some, UInt32.toNat_ofNat_of_lt' hEnc.2.2]
    rw [← hLength, map_range_of_holds hHeld]
    rfl
  · obtain ⟨m, hm⟩ := Option.ne_none_iff_exists'.mp hStale
    have hLt : e.BmpSize.toNat <
        pictureSize e.HorizontalResolution.toNat e.VerticalResolution.toNat := by
      by_contra hGe
      exact hSmall ⟨hEnc, hStale, Nat.not_lt.mp hGe⟩
    rw [hFile, encoded, hm, Option.map_some, encode_given _ _ _ hEnc, if_pos hLt]
    rfl

/-- A run stays inside its own memory exactly when its pixel count is a 32-bit number and `Bmp`
was NULL: what it wrote to the stale block does not matter, as that block is released anyway. -/
theorem screenshot_staysOwned_iff (hOk : e.Succeeds) : («截屏» e).StaysOwned ↔
    e.HorizontalResolution.toNat * e.VerticalResolution.toNat < 2 ^ 32 ∧ e.Bmp = none := by
  obtain ⟨-, hOwned⟩ := screenshot_eq hOk
  rw [hOwned]
  refine and_congr_right fun _ => ⟨fun h => h.2, fun hBmp => ⟨fun block hBlock => ?_, hBmp⟩⟩
  by_cases hEnc : e.Encodes
  · obtain ⟨block', hCall, -, hBound⟩ :=
      encode_fresh e.pixels e.BmpSize hEnc
    rw [encoded, hBmp, Option.map_none, hCall] at hBlock ⊢
    obtain rfl := Option.some.inj hBlock
    simpa [UInt32.toNat_ofNat_of_lt' hEnc.2.2] using hBound
  · -- turned down before a block is allocated
    rw [encoded, encode_unsupported hEnc, hBmp] at hBlock
    cases hBlock

end «截屏环境»

-- ---------------------------------------------------------------------------
-- Reading the picture back
-- ---------------------------------------------------------------------------

/-- A call of the reader that gets the file `f`, the whole of it. -/
def «读图环境».ReadsBack (r : «读图环境») (f : List UINT8) : Prop :=
  r.BytesRead.toNat = f.length ∧ Holds r.mem 0 f

/-- A call of the reader reports an error, or returns the screen of `e`. -/
def NeverWrong (e : «截屏环境») (r : «读图环境») (L : Ledger) : Prop :=
  EFI_ERROR («读取并转换Bmp» r L).1.Status = true ∨
    («读取并转换Bmp» r L).1.PixelWidth.toNat = e.HorizontalResolution.toNat ∧
    («读取并转换Bmp» r L).1.PixelHeight.toNat = e.VerticalResolution.toNat ∧
    ∃ s allocated, («读取并转换Bmp» r L).1.converted = some (s, allocated) ∧
      ∀ y < e.VerticalResolution.toNat, ∀ x < e.HorizontalResolution.toNat,
        SameColor (s.GopBlt.cells (y * e.HorizontalResolution.toNat + x)) (e.screen x y)

/-- The screen is black but for its first column. -/
def BlackBesidesFirst (e : «截屏环境») : Prop :=
  ∀ y < e.VerticalResolution.toNat, ∀ x < e.HorizontalResolution.toNat, 1 ≤ x →
    SameColor (e.screen x y) ⟨0, 0, 0, 0⟩

section

variable {e : «截屏环境»} {r : «读图环境»}

/-- Where row `y` of the screen starts in the file. -/
def rowOffset (e : «截屏环境») (y : Nat) : Nat :=
  54 + (e.VerticalResolution.toNat - 1 - y) * rowSize e.HorizontalResolution.toNat

/-- The reader sees the header that the writer wrote. -/
theorem header_readsBack (h : Holds r.mem 0 e.picture) : r.header =
    imageHeader (UInt32.ofNat e.needed) e.VerticalResolution e.HorizontalResolution :=
  header_of_picture h

/-- The picture begins as a BMP file does. -/
theorem signed_readsBack (h : Holds r.mem 0 e.picture) : r.Signed := by
  have hHeader := header_readsBack h
  exact ⟨congrArg BMP_IMAGE_HEADER.CharB hHeader, congrArg BMP_IMAGE_HEADER.CharM hHeader⟩

/-- The bytes of a row. -/
theorem row_readsBack (h : Holds r.mem 0 e.picture) {y : Nat} (hy : y < e.VerticalResolution.toNat) :
    Holds r.mem (rowOffset e y) (paddedRow e.pixels e.HorizontalResolution.toNat y) :=
  row_of_picture h hy

/-- The three bytes of a pixel lie three bytes a pixel behind the row's start. -/
theorem pixel_readsBack (h : Holds r.mem 0 e.picture) {x y : Nat}
    (hx : x < e.HorizontalResolution.toNat) (hy : y < e.VerticalResolution.toNat) :
    (e.screen x y).Blue = r.mem (rowOffset e y + 3 * x) ∧
    (e.screen x y).Green = r.mem (rowOffset e y + 3 * x + 1) ∧
    (e.screen x y).Red = r.mem (rowOffset e y + 3 * x + 2) := by
  have hPixel := pixel_of_picture h hx hy
  rw [«截屏环境».pixels_eq hx hy] at hPixel
  exact ⟨(hPixel 0 _ rfl).symm, (hPixel 1 _ rfl).symm, (hPixel 2 _ rfl).symm⟩

/-- And those that fill it up. -/
theorem padding_readsBack (h : Holds r.mem 0 e.picture) {y j : Nat}
    (hy : y < e.VerticalResolution.toNat) (hLow : 3 * e.HorizontalResolution.toNat ≤ j)
    (hHigh : j < rowSize e.HorizontalResolution.toNat) : r.mem (rowOffset e y + j) = 0 := by
  have hPadding := (holds_append.mp (row_readsBack h hy)).2
  rw [length_pixelBytes] at hPadding
  have hIn : j - 3 * e.HorizontalResolution.toNat < e.HorizontalResolution.toNat % 4 := by
    rw [rowSize] at hHigh
    omega
  have hByte := hPadding (j - 3 * e.HorizontalResolution.toNat) 0
    (by rw [List.getElem?_replicate, if_pos hIn])
  rwa [Nat.add_assoc, Nat.add_sub_cancel' hLow] at hByte

/-- The pixel the reader makes for a point: four bytes a pixel, whatever the depth. -/
theorem pixel_read (hEnc : e.Encodes) (h : Holds r.mem 0 e.picture) {x y : Nat}
    (hx : x < e.HorizontalResolution.toNat) (hy : y < e.VerticalResolution.toNat) :
    ∃ o, o = 54 + 4 * ((e.VerticalResolution.toNat - 1 - y) * e.HorizontalResolution.toNat + x) ∧
      r.final.GopBlt.cells (y * e.HorizontalResolution.toNat + x) =
        ⟨r.mem o, r.mem (o + 1), r.mem (o + 2), r.mem (o + 3)⟩ := by
  have hHeader := header_readsBack h
  have hW : r.header.W = e.HorizontalResolution.toNat := by rw [hHeader]; rfl
  have hH : r.header.H = e.VerticalResolution.toNat := by rw [hHeader]; rfl
  have hOffset : r.header.ImageOffset.toNat = 54 := by rw [hHeader]; rfl
  have hArea : r.header.W * r.header.H < 2 ^ 32 := by
    have hSize := hEnc.2.2
    rw [pictureSize, rowSize, Nat.add_mul, Nat.mul_assoc] at hSize
    rw [hW, hH]
    omega
  have hp : (y, x) ∈ points r.header.W r.header.H := by
    rw [hW, hH]
    exact mem_points.mpr ⟨hy, hx⟩
  have hCell := cells_storePoints (r := Region.fresh r.pool) (g := id)
    (fun p => loadPixel r.header r.mem
      (srcIndex r.header (UInt64.ofNat p.1) (UInt64.ofNat p.2)))
    (fun p hp => hp) (fun p _ q _ hEq => hEq) hp
  rw [loadPixel_eq hArea hp] at hCell
  refine ⟨pixelOffset r.header (y, x), ?_, ?_⟩
  · rw [pixelOffset, hOffset, index, flipRow, hW, hH]
  · rw [final_eq]
    simp only [id_eq, index, hW] at hCell ⊢
    exact hCell

/-- A row of three bytes a pixel, read with four: where byte `j` is the byte that the pixel's
number further on, the zeros of the padding run backwards to the second pixel. -/
theorem zero_of_sameRow {R : Nat → UINT8} {W : Nat}
    (hPad : ∀ j, 3 * W ≤ j → j < 4 * W → R j = 0)
    (hSame : ∀ j < 3 * W, R (j + j / 3) = R j) :
    ∀ {j : Nat}, 3 ≤ j → j < 4 * W → R j = 0 := by
  intro j
  induction hn : 4 * W - j using Nat.strong_induction_on generalizing j with
  | _ n ih =>
    intro h3 hj
    by_cases hIn : j < 3 * W
    · rw [← hSame j hIn]
      exact ih (4 * W - (j + j / 3)) (by omega) rfl (by omega) (by omega)
    · exact hPad j (by omega) hj

/-- The bytes of a row, pixel by pixel. -/
theorem forall_pixels_iff {P : Nat → Prop} {W : Nat} :
    (∀ x < W, P (3 * x) ∧ P (3 * x + 1) ∧ P (3 * x + 2)) ↔ ∀ j < 3 * W, P j := by
  constructor
  · intro h j hj
    obtain ⟨h₀, h₁, h₂⟩ := h (j / 3) (by omega)
    obtain hj' | hj' | hj' : j = 3 * (j / 3) ∨ j = 3 * (j / 3) + 1 ∨ j = 3 * (j / 3) + 2 := by
      omega
    · rwa [← hj'] at h₀
    · rwa [← hj'] at h₁
    · rwa [← hj'] at h₂
  · exact fun h x hx => ⟨h _ (by omega), h _ (by omega), h _ (by omega)⟩

/-- Taking four bytes a pixel from a row that has three gives the right colours only where
it does not matter: in the first column, and where everything behind it is zero. -/
theorem narrow_row {R : Nat → UINT8} {W : Nat}
    (hPad : ∀ j, 3 * W ≤ j → j < 4 * W → R j = 0) :
    (∀ x < W, R (4 * x) = R (3 * x) ∧ R (4 * x + 1) = R (3 * x + 1) ∧
      R (4 * x + 2) = R (3 * x + 2)) ↔
      ∀ x < W, 1 ≤ x → R (3 * x) = 0 ∧ R (3 * x + 1) = 0 ∧ R (3 * x + 2) = 0 := by
  have hRead : (∀ x < W, R (4 * x) = R (3 * x) ∧ R (4 * x + 1) = R (3 * x + 1) ∧
      R (4 * x + 2) = R (3 * x + 2)) ↔ ∀ j < 3 * W, R (j + j / 3) = R j := by
    rw [← forall_pixels_iff]
    refine forall₂_congr fun x _ => ?_
    rw [show 3 * x + 3 * x / 3 = 4 * x by omega,
      show 3 * x + 1 + (3 * x + 1) / 3 = 4 * x + 1 by omega,
      show 3 * x + 2 + (3 * x + 2) / 3 = 4 * x + 2 by omega]
  have hBlack : (∀ x < W, 1 ≤ x → R (3 * x) = 0 ∧ R (3 * x + 1) = 0 ∧ R (3 * x + 2) = 0) ↔
      ∀ j < 3 * W, 3 ≤ j → R j = 0 := by
    rw [← forall_pixels_iff]
    refine forall₂_congr fun x _ => ?_
    have h₀ : 3 ≤ 3 * x ↔ 1 ≤ x := by omega
    have h₁ : 3 ≤ 3 * x + 1 ↔ 1 ≤ x := by omega
    have h₂ : 3 ≤ 3 * x + 2 ↔ 1 ≤ x := by omega
    rw [h₀, h₁, h₂, imp_and, imp_and]
  rw [hRead, hBlack]
  constructor
  · exact fun h j hj h3 => zero_of_sameRow hPad h h3 (by omega)
  · intro h j hj
    by_cases hFirst : j < 3
    · rw [Nat.div_eq_of_lt hFirst, Nat.add_zero]
    · have hNext : R (j + j / 3) = 0 := by
        by_cases hIn : j + j / 3 < 3 * W
        · exact h _ hIn (by omega)
        · exact hPad _ (by omega) (by omega)
      rw [hNext, h j hj (by omega)]

/-- Up to three columns the rows of the file are as long as the reader takes them to be, so
the reader gets the screen exactly when it is black besides the first column. -/
theorem narrow_screen (hEnc : e.Encodes) (hW : e.HorizontalResolution.toNat ≤ 3)
    (h : Holds r.mem 0 e.picture) :
    (∀ y < e.VerticalResolution.toNat, ∀ x < e.HorizontalResolution.toNat,
      SameColor (r.final.GopBlt.cells (y * e.HorizontalResolution.toNat + x)) (e.screen x y)) ↔
      BlackBesidesFirst e := by
  have hRowSize : rowSize e.HorizontalResolution.toNat = 4 * e.HorizontalResolution.toNat := by
    rw [rowSize]
    omega
  refine forall₂_congr fun y hy => ?_
  have hRow := narrow_row (R := fun j => r.mem (rowOffset e y + j)) fun j hLow hHigh =>
    padding_readsBack h hy hLow (by rw [hRowSize]; exact hHigh)
  have hScreen : ∀ x < e.HorizontalResolution.toNat,
      (SameColor (r.final.GopBlt.cells (y * e.HorizontalResolution.toNat + x)) (e.screen x y) ↔
        r.mem (rowOffset e y + 4 * x) = r.mem (rowOffset e y + 3 * x) ∧
        r.mem (rowOffset e y + (4 * x + 1)) = r.mem (rowOffset e y + (3 * x + 1)) ∧
        r.mem (rowOffset e y + (4 * x + 2)) = r.mem (rowOffset e y + (3 * x + 2))) ∧
      (SameColor (e.screen x y) ⟨0, 0, 0, 0⟩ ↔
        r.mem (rowOffset e y + 3 * x) = 0 ∧ r.mem (rowOffset e y + (3 * x + 1)) = 0 ∧
        r.mem (rowOffset e y + (3 * x + 2)) = 0) := by
    intro x hx
    obtain ⟨hBlue, hGreen, hRed⟩ := pixel_readsBack h hx hy
    obtain ⟨o, ho, hCell⟩ := pixel_read hEnc h hx hy
    have ho' : o = rowOffset e y + 4 * x := by
      rw [ho, rowOffset, hRowSize, Nat.mul_add, Nat.mul_left_comm, Nat.add_assoc]
    rw [hCell, ho', SameColor, SameColor, hBlue, hGreen, hRed]
    simp only [Nat.add_assoc]
    constructor <;> constructor <;> rintro ⟨hRed', hGreen', hBlue'⟩ <;>
      exact ⟨hBlue', hGreen', hRed'⟩
  constructor
  · intro hAll x hx h1
    exact (hScreen x hx).2.mpr (hRow.mp (fun x hx => (hScreen x hx).1.mp (hAll x hx)) x hx h1)
  · intro hBlack x hx
    exact (hScreen x hx).1.mpr
      (hRow.mpr (fun x hx h1 => (hScreen x hx).2.mp (hBlack x hx h1)) x hx)

/-- A file is read as its bytes. -/
theorem readsBack_ofFile {f : List UINT8} (hLength : f.length < 2 ^ 64) (beyond : ByteBuffer) :
    («读图环境».ofFile f beyond).ReadsBack f := by
  refine ⟨UInt64.toNat_ofNat_of_lt' hLength, fun i b hByte => ?_⟩
  rw [mem_ofFile, Nat.zero_add, List.getD_eq_getElem?_getD, hByte, Option.getD_some]

/-- A picture read back without an error is converted from what the file says. -/
theorem neverWrong_iff (hFile : Holds r.mem 0 e.picture) (L : Ledger)
    (hOk : EFI_ERROR («读取并转换Bmp» r L).1.Status = false) : NeverWrong e r L ↔
      ∀ y < e.VerticalResolution.toNat, ∀ x < e.HorizontalResolution.toNat,
        SameColor (r.final.GopBlt.cells (y * e.HorizontalResolution.toNat + x)) (e.screen x y) := by
  obtain ⟨-, hHeight, hWidth, allocated, hConverted⟩ := reader_of_no_error hOk
  have hHeader := header_readsBack hFile
  constructor
  · rintro (hErr | ⟨-, -, s, n, hs, hAll⟩)
    · rw [hOk] at hErr
      cases hErr
    · rw [hConverted] at hs
      obtain ⟨rfl, -⟩ := Prod.mk.inj (Option.some.inj hs)
      exact hAll
  · intro hAll
    refine Or.inr ⟨?_, ?_, _, _, hConverted, hAll⟩
    · rw [hWidth, hHeader, UInt32.toNat_toUInt64]
      rfl
    · rw [hHeight, hHeader, UInt32.toNat_toUInt64]
      rfl

/-- From four columns on the last pixel of the top row is taken from behind the file. -/
theorem wide_screen (hEnc : e.Encodes) (hW : 4 ≤ e.HorizontalResolution.toNat) :
    ∃ beyond : ByteBuffer, ¬ SameColor ((«读图环境».ofFile e.picture beyond).final.GopBlt.cells
      (0 * e.HorizontalResolution.toNat + (e.HorizontalResolution.toNat - 1)))
      (e.screen (e.HorizontalResolution.toNat - 1) 0) := by
  obtain ⟨hW1, hH1, hSize⟩ := hEnc
  have hLength := length_picture24 e.pixels e.HorizontalResolution e.VerticalResolution
  refine ⟨fun _ => (e.screen (e.HorizontalResolution.toNat - 1) 0).Red + 1, fun hSame => ?_⟩
  have hFile := (readsBack_ofFile (f := e.picture)
    (lt_trans (by rw [«截屏环境».picture, hLength]; exact hSize) (by decide))
    fun _ => (e.screen (e.HorizontalResolution.toNat - 1) 0).Red + 1).2
  obtain ⟨o, ho, hCell⟩ := pixel_read (x := e.HorizontalResolution.toNat - 1) (y := 0)
    ⟨hW1, hH1, hSize⟩ hFile (by omega) hH1
  rw [hCell] at hSame
  have hBehind : e.picture.length ≤ o + 2 := by
    obtain ⟨k, hk⟩ : ∃ k, e.VerticalResolution.toNat = k + 1 :=
      ⟨e.VerticalResolution.toNat - 1, by omega⟩
    have hMod : e.HorizontalResolution.toNat % 4 < 4 := Nat.mod_lt _ (by decide)
    have hRow : rowSize e.HorizontalResolution.toNat ≤ 4 * e.HorizontalResolution.toNat - 4 := by
      rw [rowSize]
      omega
    have hRows : rowSize e.HorizontalResolution.toNat * k ≤
        4 * (k * e.HorizontalResolution.toNat) := by
      calc rowSize e.HorizontalResolution.toNat * k
          ≤ 4 * e.HorizontalResolution.toNat * k := Nat.mul_le_mul_right _ (by omega)
        _ = 4 * (k * e.HorizontalResolution.toNat) := by ring
    rw [«截屏环境».picture, hLength, pictureSize, ho, hk, Nat.mul_succ, Nat.sub_zero,
      Nat.add_sub_cancel]
    omega
  have hJunk : («读图环境».ofFile e.picture fun _ =>
      (e.screen (e.HorizontalResolution.toNat - 1) 0).Red + 1).mem (o + 2) =
      (e.screen (e.HorizontalResolution.toNat - 1) 0).Red + 1 := by
    rw [mem_ofFile, List.getD_eq_getElem?_getD, List.getElem?_eq_none hBehind, Option.getD_none]
  have hRed := hSame.1
  simp only [hJunk] at hRed
  simp at hRed

/-- A run with no file and no stale pointer leaves the picture. -/
theorem fresh_file (hOk : e.Succeeds) (hNull : e.Bmp = none) (hFresh : e.file = none)
    (hEnc : e.Encodes) : («截屏» e).file = some e.picture := by
  obtain ⟨-, hWritten, -⟩ := «截屏环境».screenshot_file hOk
  rw [hWritten hEnc hNull, hFresh]
  simp [overwrite]

/-- A call of the reader on the picture in which nothing fails. -/
theorem reads_picture (hEnc : e.Encodes) (beyond : ByteBuffer) :
    («读图环境».ofFile e.picture beyond).ReadsBack e.picture ∧
      EFI_ERROR («读取并转换Bmp» (.ofFile e.picture beyond) .empty).1.Status = false := by
  have hShort : e.picture.length < 2 ^ 64 := by
    rw [«截屏环境».picture, length_picture24]
    exact lt_trans hEnc.2.2 (by decide)
  have hHeld := readsBack_ofFile hShort beyond
  have hOk := ofFile_succeeds e.picture beyond
  obtain ⟨hStatus, -⟩ := reader_signed hOk (signed_readsBack hHeld.2) .empty
  exact ⟨hHeld, by rw [hStatus]; exact hOk.read⟩

end

/--
**When the reader gets a screenshot back.** The writer stores three bytes a pixel and the
reader takes four without looking at the depth: it never returns wrong pixels exactly for
screens of at most three columns that are black besides the first.
-/
theorem screenshot_reads_back_iff (e : «截屏环境») (hOk : e.Succeeds) (hNull : e.Bmp = none)
    (hFresh : e.file = none) (hW : 1 ≤ e.HorizontalResolution.toNat)
    (hH : 1 ≤ e.VerticalResolution.toNat)
    (hSize : e.VerticalResolution.toNat * (3 * e.HorizontalResolution.toNat +
      e.HorizontalResolution.toNat % 4) + 54 < 2 ^ 32) :
    (∃ f, («截屏» e).file = some f ∧
      ∀ r : «读图环境», r.ReadsBack f → ∀ L, NeverWrong e r L) ↔
    e.HorizontalResolution.toNat ≤ 3 ∧ BlackBesidesFirst e := by
  have hEnc : e.Encodes := by
    refine ⟨hW, hH, ?_⟩
    rwa [pictureSize, rowSize, Nat.mul_comm]
  have hFile := fresh_file hOk hNull hFresh hEnc
  constructor
  · rintro ⟨f, hf, hAll⟩
    obtain rfl : e.picture = f := Option.some.inj (hFile.symm.trans hf)
    have hColors : ∀ beyond, ∀ y < e.VerticalResolution.toNat,
        ∀ x < e.HorizontalResolution.toNat,
        SameColor ((«读图环境».ofFile e.picture beyond).final.GopBlt.cells
          (y * e.HorizontalResolution.toNat + x)) (e.screen x y) := by
      intro beyond
      obtain ⟨hRead, hStatus⟩ := reads_picture hEnc beyond
      exact (neverWrong_iff hRead.2 .empty hStatus).mp (hAll _ hRead .empty)
    have hNarrow : e.HorizontalResolution.toNat ≤ 3 := by
      by_contra hWide
      obtain ⟨beyond, hWrong⟩ := wide_screen hEnc (Nat.lt_of_not_le hWide)
      exact hWrong (hColors beyond 0 hH _ (by omega))
    exact ⟨hNarrow, (narrow_screen hEnc hNarrow (reads_picture hEnc fun _ => 0).1.2).mp
      (hColors fun _ => 0)⟩
  · rintro ⟨hNarrow, hBlack⟩
    refine ⟨_, hFile, fun r hRead L => ?_⟩
    cases hStatus : EFI_ERROR («读取并转换Bmp» r L).1.Status with
    | true => exact Or.inl hStatus
    | false =>
      exact (neverWrong_iff hRead.2 L hStatus).mpr ((narrow_screen hEnc hNarrow hRead.2).mpr hBlack)

/-- A run over the given screen in which nothing fails, with no file there and no stale
pointer. -/
def freshRun (W H : UINT32) (screen : Picture EFI_GRAPHICS_OUTPUT_BLT_PIXEL) : «截屏环境» where
  Gop := EFI_SUCCESS
  HorizontalResolution := W
  VerticalResolution := H
  screen := screen
  BltImage := some fun _ => default
  Blt := EFI_SUCCESS
  Bmp := none
  BmpSize := 0
  ZeroPool := true
  Sfs := EFI_SUCCESS
  OpenVolume := EFI_SUCCESS
  Open := EFI_SUCCESS
  Write := EFI_SUCCESS
  file := none

/-- A run that starts with NULL saves its picture. -/
theorem freshRun_succeeds (W H : UINT32) (screen : Picture EFI_GRAPHICS_OUTPUT_BLT_PIXEL) :
    (freshRun W H screen).Succeeds :=
  ⟨EFI_ERROR_success, rfl, EFI_ERROR_success, rfl, EFI_ERROR_success, EFI_ERROR_success,
    EFI_ERROR_success, EFI_ERROR_success⟩

/-- A screen of one column. -/
theorem screenshot_reads_back_column :
    ∃ f, («截屏» (freshRun 1 2 fun _ y => ⟨y.toUInt8, 7, 9, 0⟩)).file = some f ∧
      ∀ r : «读图环境», r.ReadsBack f →
        ∀ L, NeverWrong (freshRun 1 2 fun _ y => ⟨y.toUInt8, 7, 9, 0⟩) r L :=
  (screenshot_reads_back_iff _ (freshRun_succeeds _ _ _) rfl rfl (by decide) (by decide)
    (by decide)).mpr ⟨by decide, by
      intro y _ x hx h1
      have : x < 1 := hx
      omega⟩

/-- Two white pixels: the second one comes back in other colours, and no error with it. -/
theorem screenshot_read_wrong :
    ∃ f r, («截屏» (freshRun 2 1 fun _ _ => ⟨255, 255, 255, 0⟩)).file = some f ∧
      «读图环境».ReadsBack r f ∧
      ¬ NeverWrong (freshRun 2 1 fun _ _ => ⟨255, 255, 255, 0⟩) r .empty := by
  have hEnc : (freshRun 2 1 fun _ _ => ⟨255, 255, 255, 0⟩).Encodes := by
    unfold «截屏环境».Encodes
    decide
  obtain ⟨hRead, hStatus⟩ := reads_picture hEnc fun _ => 0
  refine ⟨_, _, fresh_file (freshRun_succeeds _ _ _) rfl rfl hEnc, hRead, fun hNever => ?_⟩
  have hColors := (neverWrong_iff hRead.2 .empty hStatus).mp hNever
  have hBlack := (narrow_screen hEnc (by decide) hRead.2).mp hColors
  exact absurd (hBlack 0 (by decide) 1 (by decide) (by decide)) (by decide)

-- ---------------------------------------------------------------------------
-- Two runs over one screen
-- ---------------------------------------------------------------------------

/-- Two runs over one screen in which no firmware call fails. -/
structure SameScreen (e₁ e₂ : «截屏环境») : Prop where
  succeeds₁ : e₁.Succeeds
  succeeds₂ : e₂.Succeeds
  horizontal : e₁.HorizontalResolution = e₂.HorizontalResolution
  vertical : e₁.VerticalResolution = e₂.VerticalResolution
  screen : ∀ y < e₁.VerticalResolution.toNat, ∀ x < e₁.HorizontalResolution.toNat,
    e₁.screen x y = e₂.screen x y

/-- What the earlier files must have in common. A run that is turned down leaves its file
alone; a run that writes leaves the end of a file longer than the picture. -/
structure FilesAgree (e₁ e₂ : «截屏环境») : Prop where
  unsupported : ¬ e₁.Encodes → e₁.file = e₂.file
  encoded : e₁.Encodes →
    (e₁.file.getD []).drop e₁.needed = (e₂.file.getD []).drop e₁.needed

section

variable {e₁ e₂ : «截屏环境»}

/-- The picture is made from the screen alone. -/
theorem picture_congr (h : SameScreen e₁ e₂) : e₁.picture = e₂.picture := by
  have hPixels : ∀ k < e₁.VerticalResolution.toNat,
      paddedRow e₁.pixels e₁.HorizontalResolution.toNat k =
        paddedRow e₂.pixels e₁.HorizontalResolution.toNat k := by
    intro y hy
    refine congrArg (· ++ _) (List.flatMap_congr fun x hx => ?_)
    have hx := List.mem_range.mp hx
    have hx₂ : x < e₂.HorizontalResolution.toNat := h.horizontal ▸ hx
    have hy₂ : y < e₂.VerticalResolution.toNat := h.vertical ▸ hy
    have hSecond := «截屏环境».pixels_eq hx₂ hy₂
    rw [← h.horizontal] at hSecond
    rw [«截屏环境».pixels_eq hx hy, hSecond, h.screen y hy x hx]
  rw [«截屏环境».picture, «截屏环境».picture, picture24, picture24, ← h.horizontal, ← h.vertical]
  refine congrArg (_ ++ ·) (List.flatMap_congr fun Row hRow => hPixels _ ?_)
  have := List.mem_range.mp hRow
  omega

/-- What a run in which nothing fails leaves when `Bmp` was NULL. -/
theorem file_of_owned {e : «截屏环境»} (hOk : e.Succeeds) (hNull : e.Bmp = none) :
    (¬ e.Encodes → («截屏» e).file = e.file) ∧
    (e.Encodes → («截屏» e).file = some (e.picture ++ (e.file.getD []).drop e.needed)) := by
  obtain ⟨hUnsupported, hWritten, -⟩ := «截屏环境».screenshot_file hOk
  refine ⟨hUnsupported, fun hEnc => ?_⟩
  rw [hWritten hEnc hNull, overwrite, «截屏环境».needed, ← length_picture24 e.pixels]
  rfl

/-- Where both runs start with NULL, the files are the same when the earlier ones agree. -/
theorem files_eq_iff (h : SameScreen e₁ e₂) (h₁ : e₁.Bmp = none) (h₂ : e₂.Bmp = none) :
    («截屏» e₁).file = («截屏» e₂).file ↔ FilesAgree e₁ e₂ := by
  obtain ⟨hUn₁, hWrite₁⟩ := file_of_owned h.succeeds₁ h₁
  obtain ⟨hUn₂, hWrite₂⟩ := file_of_owned h.succeeds₂ h₂
  have hEncodes : e₂.Encodes ↔ e₁.Encodes := by
    rw [«截屏环境».Encodes, «截屏环境».Encodes, h.horizontal, h.vertical]
  have hNeeded : e₂.needed = e₁.needed := by
    rw [«截屏环境».needed, «截屏环境».needed, h.horizontal, h.vertical]
  rw [hEncodes] at hUn₂ hWrite₂
  rw [← picture_congr h, hNeeded] at hWrite₂
  by_cases hEnc : e₁.Encodes
  · rw [hWrite₁ hEnc, hWrite₂ hEnc, Option.some.injEq, List.append_right_inj]
    exact ⟨fun hEq => ⟨fun hNot => absurd hEnc hNot, fun _ => hEq⟩,
      fun hAgree => hAgree.encoded hEnc⟩
  · rw [hUn₁ hEnc, hUn₂ hEnc]
    exact ⟨fun hEq => ⟨fun _ => hEq, fun hE => absurd hE hEnc⟩,
      fun hAgree => hAgree.unsupported hEnc⟩

/--
**When screenshots depend on the screen alone.** Two runs over one screen write and release
only memory of their own and leave the same file exactly when the pixel count is a 32-bit
number, `Bmp` is NULL on entry in both, and the files from before agree in what the runs leave
of them.
-/
theorem screenshots_independent_iff (h : SameScreen e₁ e₂) :
    ((«截屏» e₁).StaysOwned ∧ («截屏» e₂).StaysOwned ∧ («截屏» e₁).file = («截屏» e₂).file) ↔
      e₁.HorizontalResolution.toNat * e₁.VerticalResolution.toNat < 2 ^ 32 ∧
      e₁.Bmp = none ∧ e₂.Bmp = none ∧ FilesAgree e₁ e₂ := by
  rw [«截屏环境».screenshot_staysOwned_iff h.succeeds₁, «截屏环境».screenshot_staysOwned_iff h.succeeds₂,
    ← h.horizontal, ← h.vertical]
  constructor
  · rintro ⟨⟨hSmall, h₁⟩, ⟨-, h₂⟩, hEq⟩
    exact ⟨hSmall, h₁, h₂, (files_eq_iff h h₁ h₂).mp hEq⟩
  · rintro ⟨hSmall, h₁, h₂, hAgree⟩
    exact ⟨⟨hSmall, h₁⟩, ⟨hSmall, h₂⟩, (files_eq_iff h h₁ h₂).mpr hAgree⟩

end

/-- Two such runs that differ only in the file from before. -/
theorem sameScreen_files (W H : UINT32) (screen : Picture EFI_GRAPHICS_OUTPUT_BLT_PIXEL)
    (file₁ file₂ : Option (List UINT8)) :
    SameScreen { freshRun W H screen with file := file₁ } { freshRun W H screen with file := file₂ } := by
  obtain ⟨h1, h2, h3, h4, h5, h6, h7, h8⟩ := freshRun_succeeds W H screen
  exact ⟨⟨h1, h2, h3, h4, h5, h6, h7, h8⟩, ⟨h1, h2, h3, h4, h5, h6, h7, h8⟩, rfl, rfl,
    fun _ _ _ _ => rfl⟩

/-- Two by two pixels, all of them different. -/
def fourPixels : Picture EFI_GRAPHICS_OUTPUT_BLT_PIXEL := fun x y =>
  ⟨x.toUInt8, y.toUInt8, 9, 0⟩

/-- Their picture has 70 bytes: an empty file, and one of 60 bytes that were there. -/
theorem screenshots_independent_fourPixels :
    («截屏» { freshRun 2 2 fourPixels with file := some [] }).StaysOwned ∧
    («截屏» { freshRun 2 2 fourPixels with file := some (List.replicate 60 7) }).StaysOwned ∧
    («截屏» { freshRun 2 2 fourPixels with file := some [] }).file =
      («截屏» { freshRun 2 2 fourPixels with file := some (List.replicate 60 7) }).file := by
  refine (screenshots_independent_iff (sameScreen_files 2 2 fourPixels _ _)).mpr
    ⟨by decide, rfl, rfl, fun hNot => absurd ?_ hNot, fun _ => by decide⟩
  unfold «截屏环境».Encodes
  decide

/-- The same over a file of a hundred bytes: the end of the old file stays. -/
theorem screenshot_keeps_old_end :
    SameScreen { freshRun 2 2 fourPixels with file := none }
      { freshRun 2 2 fourPixels with file := some (List.replicate 100 0) } ∧
    («截屏» { freshRun 2 2 fourPixels with file := none }).file ≠
      («截屏» { freshRun 2 2 fourPixels with file := some (List.replicate 100 0) }).file :=
  ⟨sameScreen_files 2 2 fourPixels _ _, by decide +kernel⟩

end TianJi.Model

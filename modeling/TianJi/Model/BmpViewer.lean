import TianJi.Model.BmpReader
import TianJi.Model.Screen

/-!
# TianJi — showing a picture

`UefiMain` of 显示32位Bmp图片.c: read Apple.bmp whole, convert its pixels as `读取并转换Bmp` does,
blend them over the part of the screen that starts one width right of the edge, and draw the
result there. Of the header only the signature is checked.

* `viewer_safe_iff`    — which runs stay inside the bytes read and the blocks allocated.
* `viewer_screen`      — what such a run makes of the screen.
* `viewer_settled_iff` — which runs release everything once.
-/

namespace TianJi.Model.BmpViewer

open Canvas Memory Ownership Ledger

/-- What the firmware answers to the calls of one run, and what the blocks hold. -/
structure «显示环境» where
  Sfsp : EFI_STATUS
  OpenVolume : EFI_STATUS
  Open : EFI_STATUS
  FileInfo : Bool
  GetInfo : EFI_STATUS
  FileSize : UINTN
  BmpData : Bool
  Read : EFI_STATUS
  /-- What `Read` leaves in `FileSize`: the bytes it read. -/
  BytesRead : UINTN
  read_le : BytesRead ≤ FileSize
  /-- The block behind `BmpData` after `Read`. -/
  mem : ByteBuffer
  Gop : EFI_STATUS
  HorizontalResolution : UINT32
  VerticalResolution : UINT32
  /-- The pixel buffers as they come from the pool, if they do. -/
  BltBuffer : Option Model.BltBuffer
  «背景» : Option Model.BltBuffer
  «混合结果» : Option Model.BltBuffer

namespace «显示环境»

/-- The screen as `Blt` sees it. -/
def screen (e : «显示环境») : «版面» := ⟨e.HorizontalResolution, e.VerticalResolution, 0, 0, 0⟩

/-- `BmpHeader` -/
def header (e : «显示环境») : BMP_IMAGE_HEADER := BMP_IMAGE_HEADER.read e.mem

end «显示环境»

/-- `(背景 * (255-透明度) + 图像 * 透明度)/255`, in `int` and stored to a byte. -/
def «混合分量» («背景» «图像» «透明度» : UINT8) : UINT8 :=
  UInt8.ofNat ((«背景».toNat * (255 - «透明度».toNat) + «图像».toNat * «透明度».toNat) / 255)

/-- The body of the blending loop. -/
def «混合像素» («背景» BltBuffer : EFI_GRAPHICS_OUTPUT_BLT_PIXEL) : EFI_GRAPHICS_OUTPUT_BLT_PIXEL where
  Red := «混合分量» «背景».Red BltBuffer.Red BltBuffer.Reserved
  Green := «混合分量» «背景».Green BltBuffer.Green BltBuffer.Reserved
  Blue := «混合分量» «背景».Blue BltBuffer.Blue BltBuffer.Reserved
  Reserved := 0

/-- The blending loop. -/
def «混合» (PixelCount : UINT32) («背景» BltBuffer : BltBuffer)
    («混合结果» : Region EFI_GRAPHICS_OUTPUT_BLT_PIXEL) : Region EFI_GRAPHICS_OUTPUT_BLT_PIXEL :=
  «混合结果».storeAll ((List.range PixelCount.toNat).map fun i =>
    (i, «混合像素» («背景» i) (BltBuffer i)))

/-- Offsets of the signature and of the fields that are printed. -/
def printedLoads : List Nat := [0, 1] ++ List.range' 18 4 ++ List.range' 22 4 ++ List.range' 28 2

/-- The pixel buffers that were stored to. -/
structure «显示缓冲» where
  BltBuffer : Region EFI_GRAPHICS_OUTPUT_BLT_PIXEL
  «混合结果» : Region EFI_GRAPHICS_OUTPUT_BLT_PIXEL

/-- The result of a run: status, screen, and what was accessed. -/
structure «显示结果» where
  Status : EFI_STATUS
  video : Video
  /-- Whether `FileInfo` was not null where `FileSize` was taken from it. -/
  info : Bool := true
  /-- Offsets loaded from the file's block. -/
  loads : List Nat := []
  «缓冲» : Option «显示缓冲» := none

/-- From the conversion to the second `Blt`. Behind a null pointer there are zeros. -/
def «显示» (e : «显示环境») (video : Video) : «显示结果» :=
  let Width := e.header.PixelWidth.toUInt64
  let Height := e.header.PixelHeight.toUInt64
  let zeros : BltBuffer := fun _ => ⟨0, 0, 0, 0⟩
  let converted := «转换» e.header e.mem
    ⟨printedLoads ++ List.range' 10 4, Region.fresh (e.BltBuffer.getD zeros)⟩
  let «背景» := BltVideoToBltBuffer e.screen video Width 0 Width Height 0 (e.«背景».getD zeros)
  let «混合结果» := «混合» (PixelCount e.header) «背景» converted.GopBlt.cells
    (Region.fresh (e.«混合结果».getD zeros))
  { Status := EFI_SUCCESS
    video := BltBufferToVideo e.screen «混合结果».cells Width 0 Width Height 0 video
    info := e.FileInfo
    loads := converted.loads
    «缓冲» := some ⟨converted.GopBlt, «混合结果»⟩ }

/-- The pixel buffers are allocated, and at the end released in the same order. -/
def «像素缓冲» (e : «显示环境») (L : Ledger) : Ledger :=
  let (BltBuffer, L) := L.tryAcquire e.BltBuffer.isSome
  let («背景», L) := L.tryAcquire e.«背景».isSome
  let («混合结果», L) := L.tryAcquire e.«混合结果».isSome
  ((L.release BltBuffer).release «背景»).release «混合结果»

/-- The pool is followed from the start to every way out. -/
def UefiMain (e : «显示环境») (video : Video) (L : Ledger) : «显示结果» × Ledger :=
  if EFI_ERROR e.Sfsp then ({ Status := e.Sfsp, video := video }, L)
  else if EFI_ERROR e.OpenVolume then ({ Status := e.OpenVolume, video := video }, L)
  else
    let (RootDir, L) := L.acquire
    if EFI_ERROR e.Open then ({ Status := e.Open, video := video }, L.release RootDir)
    else
      let (BmpFile, L) := L.acquire
      let (FileInfo, L) := L.tryAcquire e.FileInfo
      if EFI_ERROR e.GetInfo then
        ({ Status := e.GetInfo, video := video }, (L.release BmpFile).release RootDir)
      else
        let L := L.release FileInfo
        let (BmpData, L) := L.tryAcquire e.BmpData
        let closed := ((L.release BmpData).release BmpFile).release RootDir
        if EFI_ERROR e.Read then ({ Status := e.Read, video := video, info := e.FileInfo }, closed)
        else if e.mem 0 ≠ 0x42 ∨ e.mem 1 ≠ 0x4D then
          ({ Status := EFI_INVALID_PARAMETER, video := video, info := e.FileInfo
             loads := if e.mem 0 ≠ 0x42 then [0] else [0, 1] }, closed)
        else if EFI_ERROR e.Gop then
          ({ Status := e.Gop, video := video, info := e.FileInfo, loads := printedLoads }, closed)
        else
          let L := «像素缓冲» e L
          («显示» e video, ((L.release BmpData).release BmpFile).release RootDir)

-- ---------------------------------------------------------------------------
-- Blending
-- ---------------------------------------------------------------------------

variable {e : «显示环境»} {video : Video} {L L₀ : Ledger}

/-- A weighted mean of bytes is a byte. -/
theorem toNat_blend (bg fg a : UINT8) : («混合分量» bg fg a).toNat =
    (bg.toNat * (255 - a.toNat) + fg.toNat * a.toNat) / 255 := by
  have hbg := bg.toNat_lt
  have hfg := fg.toNat_lt
  have ha := a.toNat_lt
  have hMean : bg.toNat * (255 - a.toNat) + fg.toNat * a.toNat ≤ 255 * 255 := by
    calc bg.toNat * (255 - a.toNat) + fg.toNat * a.toNat
        ≤ 255 * (255 - a.toNat) + 255 * a.toNat := by gcongr <;> omega
      _ = 255 * 255 := by omega
  rw [«混合分量», UInt8.toNat_ofNat_of_lt']
  show _ < 256
  omega

/-- **Blending stays between** what is behind and what is in front, and is exact at both ends of
the alpha channel. -/
theorem blend_bounds (bg fg a : UINT8) :
    min bg.toNat fg.toNat ≤ («混合分量» bg fg a).toNat ∧
      («混合分量» bg fg a).toNat ≤ max bg.toNat fg.toNat ∧
      («混合分量» bg fg 0 = bg ∧ «混合分量» bg fg 255 = fg) := by
  have ha : a.toNat ≤ 255 := Nat.le_of_lt_succ a.toNat_lt
  have hSum : ∀ m : Nat, m * (255 - a.toNat) + m * a.toNat = 255 * m := fun m => by
    rw [← Nat.mul_add, Nat.sub_add_cancel ha, Nat.mul_comm]
  refine ⟨?_, ?_, ?_, ?_⟩
  · rw [toNat_blend, Nat.le_div_iff_mul_le (by decide), Nat.mul_comm, ← hSum]
    gcongr
    · exact Nat.min_le_left _ _
    · exact Nat.min_le_right _ _
  · rw [toNat_blend]
    refine Nat.div_le_of_le_mul ?_
    rw [← hSum]
    gcongr
    · exact Nat.le_max_left _ _
    · exact Nat.le_max_right _ _
  · rw [← UInt8.toNat_inj, toNat_blend, UInt8.toNat_zero]
    omega
  · rw [← UInt8.toNat_inj, toNat_blend]
    show (bg.toNat * (255 - 255) + fg.toNat * 255) / 255 = fg.toNat
    omega

/-- The viewer blends as `混合Blt` does. -/
theorem blendPixel_eq (bg fg : EFI_GRAPHICS_OUTPUT_BLT_PIXEL) :
    «混合像素» bg fg = Model.«混合像素» fg bg := by
  simp only [«混合像素», «混合分量», Model.«混合像素», Model.«混合分量», Nat.add_comm]

-- ---------------------------------------------------------------------------
-- Memory safety
-- ---------------------------------------------------------------------------

namespace «显示环境»

/-- The run gets as far as the file's size. -/
def Informed (e : «显示环境») : Prop :=
  EFI_ERROR e.Sfsp = false ∧ EFI_ERROR e.OpenVolume = false ∧ EFI_ERROR e.Open = false ∧
    EFI_ERROR e.GetInfo = false

/-- What was read starts with the two characters the code looks for. -/
def Signed (e : «显示环境») : Prop := e.mem 0 = 0x42 ∧ e.mem 1 = 0x4D

/-- The run gets to its drawing calls. -/
def Draws (e : «显示环境») : Prop :=
  e.Informed ∧ EFI_ERROR e.Read = false ∧ e.Signed ∧ EFI_ERROR e.Gop = false

instance (e : «显示环境») : Decidable e.Informed := inferInstanceAs (Decidable (_ ∧ _))
instance (e : «显示环境») : Decidable e.Signed := inferInstanceAs (Decidable (_ ∧ _))
instance (e : «显示环境») : Decidable e.Draws := inferInstanceAs (Decidable (_ ∧ _))

/-- The part of the screen that the run draws on. -/
def «框» (e : «显示环境») : Rect := ⟨e.header.W, 0, e.header.W, e.header.H⟩

/-- It lies on the screen, so that neither call of `Blt` is refused. -/
def OnScreen (e : «显示环境») : Prop :=
  e.«框».Inside e.HorizontalResolution.toNat e.VerticalResolution.toNat

instance (e : «显示环境») : Decidable e.OnScreen := inferInstanceAs (Decidable (_ ∧ _))

/-- Bytes of the file in the block behind `BmpData`. -/
def available (e : «显示环境») : Nat := if e.BmpData then e.BytesRead.toNat else 0

/-- Pixels in a block that was asked for with `PixelCount`. -/
def room (e : «显示环境») (block : Option Model.BltBuffer) : Nat :=
  if block.isSome then (PixelCount e.header).toNat else 0

/-- Pixels that each call of `Blt` moves between screen and buffer. -/
def moved (e : «显示环境») : Nat := if e.OnScreen then e.header.W * e.header.H else 0

/-- All three pixel buffers are there. -/
def Allocates (e : «显示环境») : Prop :=
  e.BltBuffer.isSome = true ∧ e.«背景».isSome = true ∧ e.«混合结果».isSome = true

end «显示环境»

/-- What memory safety asks of the pixel buffers: the loops store inside of their blocks, the
blending loop loads inside of its two, and so does `Blt` with what it moves. -/
structure «显示缓冲».Safe (s : «显示缓冲») (e : «显示环境») : Prop where
  converted : s.BltBuffer.InBounds (e.room e.BltBuffer)
  mixed : s.«混合结果».InBounds (e.room e.«混合结果»)
  loads : ∀ i < (PixelCount e.header).toNat, i < e.room e.BltBuffer ∧ i < e.room e.«背景»
  moves : ∀ i < e.moved, i < e.room e.«背景» ∧ i < e.room e.«混合结果»

/-- No access outside of the bytes read from the file and the blocks allocated. -/
structure «显示结果».Safe (r : «显示结果») (e : «显示环境») : Prop where
  info : r.info = true
  loads : ∀ o ∈ r.loads, o < e.available
  buffers : ∀ s, r.«缓冲» = some s → s.Safe e

/-- **The ways a run ends.** -/
theorem fst_uefiMain (e : «显示环境») (video : Video) (L : Ledger) :
    (¬ e.Informed ∧ ∃ Status, (UefiMain e video L).1 = { Status := Status, video := video }) ∨
    (e.Informed ∧ EFI_ERROR e.Read = true ∧
      (UefiMain e video L).1 = { Status := e.Read, video := video, info := e.FileInfo }) ∨
    (e.Informed ∧ EFI_ERROR e.Read = false ∧ ¬ e.Signed ∧ (UefiMain e video L).1 =
      { Status := EFI_INVALID_PARAMETER, video := video, info := e.FileInfo
        loads := if e.mem 0 ≠ 0x42 then [0] else [0, 1] }) ∨
    (e.Informed ∧ EFI_ERROR e.Read = false ∧ e.Signed ∧ EFI_ERROR e.Gop = true ∧
      (UefiMain e video L).1 =
        { Status := e.Gop, video := video, info := e.FileInfo, loads := printedLoads }) ∨
    (e.Draws ∧ (UefiMain e video L).1 = «显示» e video) := by
  unfold UefiMain
  by_cases hSfsp : EFI_ERROR e.Sfsp = true
  · rw [if_pos hSfsp]
    exact Or.inl ⟨fun h => absurd h.1 (by rw [hSfsp]; decide), _, rfl⟩
  by_cases hVolume : EFI_ERROR e.OpenVolume = true
  · rw [if_neg hSfsp, if_pos hVolume]
    exact Or.inl ⟨fun h => absurd h.2.1 (by rw [hVolume]; decide), _, rfl⟩
  rw [if_neg hSfsp, if_neg hVolume]
  generalize L.acquire = volume
  obtain ⟨RootDir, L₁⟩ := volume
  by_cases hOpen : EFI_ERROR e.Open = true
  · simp only [if_pos hOpen]
    exact Or.inl ⟨fun h => absurd h.2.2.1 (by rw [hOpen]; decide), _, rfl⟩
  simp only [if_neg hOpen]
  generalize L₁.acquire = file
  obtain ⟨BmpFile, L₂⟩ := file
  generalize L₂.tryAcquire e.FileInfo = info
  obtain ⟨FileInfo, L₃⟩ := info
  by_cases hGet : EFI_ERROR e.GetInfo = true
  · simp only [if_pos hGet]
    exact Or.inl ⟨fun h => absurd h.2.2.2 (by rw [hGet]; decide), _, rfl⟩
  have hInformed : e.Informed := ⟨Bool.eq_false_iff.mpr hSfsp, Bool.eq_false_iff.mpr hVolume,
    Bool.eq_false_iff.mpr hOpen, Bool.eq_false_iff.mpr hGet⟩
  refine Or.inr ?_
  by_cases hRead : EFI_ERROR e.Read = true
  · simp only [if_neg hGet, if_pos hRead]
    exact Or.inl ⟨hInformed, hRead, trivial⟩
  refine Or.inr ?_
  by_cases hSig : e.mem 0 ≠ 0x42 ∨ e.mem 1 ≠ 0x4D
  · simp only [if_neg hGet, if_neg hRead, if_pos hSig]
    exact Or.inl ⟨hInformed, Bool.eq_false_iff.mpr hRead, not_and_or.mpr hSig, trivial⟩
  refine Or.inr ?_
  obtain ⟨hB, hM⟩ := not_or.mp hSig
  have hSigned : e.Signed := ⟨not_not.mp hB, not_not.mp hM⟩
  by_cases hGop : EFI_ERROR e.Gop = true
  · simp only [if_neg hGet, if_neg hRead, if_neg hSig, if_pos hGop]
    exact Or.inl ⟨hInformed, Bool.eq_false_iff.mpr hRead, hSigned, hGop, trivial⟩
  · simp only [if_neg hGet, if_neg hRead, if_neg hSig, if_neg hGop]
    exact Or.inr ⟨⟨hInformed, Bool.eq_false_iff.mpr hRead, hSigned, Bool.eq_false_iff.mpr hGop⟩, trivial⟩

/-- The pixel count is the number of pixels where 32 bits hold that. -/
theorem toNat_PixelCount {h : BMP_IMAGE_HEADER} (hArea : h.W * h.H < 2 ^ 32) :
    (PixelCount h).toNat = h.W * h.H := by
  have hCount : (PixelCount h).toNat = (h.W * h.H) % 2 ^ 32 := UInt32.toNat_mul _ _
  rw [hCount, Nat.mod_eq_of_lt hArea]

/-- The conversion stores every pixel of the picture. -/
theorem converted_inBounds_iff {h : BMP_IMAGE_HEADER} {m : ByteBuffer} {loads : List Nat}
    {cells : BltBuffer} {n : Nat} :
    («转换» h m ⟨loads, Region.fresh cells⟩).GopBlt.InBounds n ↔ h.W * h.H ≤ n := by
  have hPlaces : ((points h.W h.H).map (storeAt h m)).map Prod.fst =
      (points h.W h.H).map fun p => index h.W (id p) := by
    rw [List.map_map]
    exact List.map_congr_left fun p hp => toNat_dstIndex hp
  have hPerm := perm_places (w := h.W) (h := h.H) (g := id) (fun p hp => hp) fun p _ q _ hEq => hEq
  rw [convert_eq, Region.InBounds, Region.stores_storeAll, Region.stores_fresh, List.nil_append,
    hPlaces]
  constructor
  · intro hAll
    by_contra hMore
    have hLast : n ∈ (points h.W h.H).map fun p => index h.W (id p) :=
      hPerm.mem_iff.mpr (List.mem_range.mpr (Nat.not_le.mp hMore))
    exact absurd (hAll n hLast) (Nat.lt_irrefl n)
  · intro hLe i hi
    exact Nat.lt_of_lt_of_le (List.mem_range.mp (hPerm.mem_iff.mp hi)) hLe

/-- A mix reads and writes as far as its count goes. -/
theorem mixed_inBounds_iff {count : UINT32} {bg fg cells : BltBuffer} {n : Nat} :
    («混合» count bg fg (Region.fresh cells)).InBounds n ↔ count.toNat ≤ n := by
  have hEmpty : (Region.fresh cells).InBounds n := fun i hi => absurd hi List.not_mem_nil
  rw [«混合», Region.inBounds_storeAll, List.forall_mem_map, and_iff_right hEmpty]
  constructor
  · intro hAll
    by_contra hMore
    exact absurd (hAll n (List.mem_range.mpr (Nat.not_le.mp hMore))) (Nat.lt_irrefl n)
  · intro hLe i hi
    exact Nat.lt_of_lt_of_le (List.mem_range.mp hi) hLe

/-- The last of the bytes that are printed is the thirtieth. -/
theorem printed_loads_lt_iff {n : Nat} : (∀ o ∈ printedLoads, o < n) ↔ 30 ≤ n := by
  constructor
  · intro h
    exact h 29 (by decide)
  · intro h o ho
    have hBelow : ∀ o ∈ printedLoads, o < 30 := by decide
    exact Nat.lt_of_lt_of_le (hBelow o ho) h
/-- The picture has no pixels, or all that it needs is there: the pixel buffers, a number of pixels
that 32 bits hold, and the pixels in the file. -/
def «显示环境».Fits (e : «显示环境») : Prop :=
  e.header.W * e.header.H = 0 ∨ e.Allocates ∧ e.header.W * e.header.H < 2 ^ 32 ∧
    e.header.ImageOffset.toNat + 4 * (e.header.W * e.header.H) ≤ e.available

/-- A block has no more room than was asked for. -/
theorem room_le (e : «显示环境») (block : Option BltBuffer) :
    e.room block ≤ (PixelCount e.header).toNat := by
  unfold «显示环境».room
  split_ifs
  · exact Nat.le_refl _
  · exact Nat.zero_le _

/-- What has room was allocated. -/
theorem isSome_of_room {block : Option BltBuffer} {n : Nat} (h : n < e.room block) :
    block.isSome = true := by
  unfold «显示环境».room at h
  split_ifs at h with hSome
  · exact hSome
  · exact absurd h (Nat.not_lt_zero n)

/-- The pixel buffers are large enough where they are there and the count does not wrap. -/
theorem buffers_safe_iff {s : «显示缓冲»} {loads : List Nat} {cells bg out : BltBuffer}
    (hConverted : s.BltBuffer = («转换» e.header e.mem ⟨loads, Region.fresh cells⟩).GopBlt)
    (hMixed : s.«混合结果» =
      «混合» (PixelCount e.header) bg s.BltBuffer.cells (Region.fresh out)) :
    s.Safe e ↔ e.header.W * e.header.H = 0 ∨ e.Allocates ∧ e.header.W * e.header.H < 2 ^ 32 := by
  constructor
  · rintro ⟨hBlt, hOut, hLoads, -⟩
    rw [hConverted, converted_inBounds_iff] at hBlt
    rw [hMixed, mixed_inBounds_iff] at hOut
    refine or_iff_not_imp_left.mpr fun hSome => ?_
    have hArea : e.header.W * e.header.H < 2 ^ 32 :=
      Nat.lt_of_le_of_lt (hBlt.trans (room_le e _)) (PixelCount e.header).toNat_lt
    rw [toNat_PixelCount hArea] at hOut hLoads
    have hFirst := Nat.pos_of_ne_zero hSome
    exact ⟨⟨isSome_of_room (hLoads 0 hFirst).1, isSome_of_room (hLoads 0 hFirst).2,
      isSome_of_room (Nat.lt_of_lt_of_le hFirst hOut)⟩, hArea⟩
  · intro h
    have hArea : e.header.W * e.header.H < 2 ^ 32 := by
      rcases h with hNone | ⟨-, hArea⟩
      · rw [hNone]
        decide
      · exact hArea
    -- every block has a place for each of the pixels
    have hRoom : ∀ block : Option BltBuffer, (e.Allocates → block.isSome = true) →
        e.header.W * e.header.H ≤ e.room block := by
      intro block hBlock
      rcases h with hNone | ⟨hThere, -⟩
      · rw [hNone]
        exact Nat.zero_le _
      · rw [«显示环境».room, if_pos (hBlock hThere), toNat_PixelCount hArea]
    have hBlt := hRoom e.BltBuffer fun hThere => hThere.1
    have hBg := hRoom e.«背景» fun hThere => hThere.2.1
    have hOut := hRoom e.«混合结果» fun hThere => hThere.2.2
    have hMoved : e.moved ≤ e.header.W * e.header.H := by
      unfold «显示环境».moved
      split_ifs
      · exact Nat.le_refl _
      · exact Nat.zero_le _
    refine ⟨?_, ?_, fun i hi => ?_, fun i hi => ?_⟩
    · rw [hConverted, converted_inBounds_iff]
      exact hBlt
    · rw [hMixed, mixed_inBounds_iff, toNat_PixelCount hArea]
      exact hOut
    · rw [toNat_PixelCount hArea] at hi
      exact ⟨Nat.lt_of_lt_of_le hi hBlt, Nat.lt_of_lt_of_le hi hBg⟩
    · have hIn := Nat.lt_of_lt_of_le hi hMoved
      exact ⟨Nat.lt_of_lt_of_le hIn hBg, Nat.lt_of_lt_of_le hIn hOut⟩

/-- Drawing is safe exactly when the header's fields lie in the file and the picture fits. -/
theorem draw_safe_iff (e : «显示环境») (video : Video) : («显示» e video).Safe e ↔
    e.FileInfo = true ∧ 30 ≤ e.available ∧ e.Fits := by
  have hLoads : («显示» e video).loads = printedLoads ++ List.range' 10 4 ++
      (points e.header.W e.header.H).flatMap (loadsAt e.header) := by
    simp only [«显示», convert_eq]
  have hOffset : ∀ {n : Nat}, 30 ≤ n → ∀ o ∈ List.range' 10 4, o < n := fun hn o ho => by
    have hBelow := (List.mem_range'_1.mp ho).2
    omega
  constructor
  · rintro ⟨hInfo, hAll, hBuffers⟩
    rw [hLoads] at hAll
    obtain ⟨hHeader, hPixels⟩ := List.forall_mem_append.mp hAll
    refine ⟨hInfo, printed_loads_lt_iff.mp (List.forall_mem_append.mp hHeader).1, ?_⟩
    refine or_iff_not_imp_left.mpr fun hSome => ?_
    obtain ⟨hThere, hArea⟩ := ((buffers_safe_iff rfl rfl).mp (hBuffers _ rfl)).resolve_left hSome
    exact ⟨hThere, hArea, ((loads_lt_iff hArea).mp hPixels).resolve_left hSome⟩
  · rintro ⟨hInfo, hHeader, hFits⟩
    refine ⟨hInfo, ?_, fun s hs => ?_⟩
    · rw [hLoads]
      refine List.forall_mem_append.mpr ⟨List.forall_mem_append.mpr
        ⟨printed_loads_lt_iff.mpr hHeader, hOffset hHeader⟩, ?_⟩
      rcases hFits with hNone | ⟨-, hArea, hRoom⟩
      · exact (loads_lt_iff (by rw [hNone]; decide)).mpr (Or.inl hNone)
      · exact (loads_lt_iff hArea).mpr (Or.inr hRoom)
    · cases hs
      exact (buffers_safe_iff rfl rfl).mpr (hFits.imp id fun h => ⟨h.1, h.2.1⟩)

/--
**Which runs are safe.** Of the header nothing but the signature is checked, so a run stays inside
the bytes it read and the blocks it allocated exactly when the fields that it looks at were read,
and with a picture to draw when the picture fits.
-/
theorem viewer_safe_iff (e : «显示环境») (video : Video) (L : Ledger) :
    (UefiMain e video L).1.Safe e ↔ ¬ e.Informed ∨ e.FileInfo = true ∧
      (EFI_ERROR e.Read = true ∨
        ¬ e.Signed ∧ (if e.mem 0 = 0x42 then 2 else 1) ≤ e.available ∨
        e.Signed ∧ 30 ≤ e.available ∧ (EFI_ERROR e.Gop = true ∨ e.Fits)) := by
  rcases fst_uefiMain e video L with ⟨hEarly, Status, hRun⟩ | ⟨hInformed, hRead, hRun⟩ |
    ⟨hInformed, hRead, hSig, hRun⟩ | ⟨hInformed, hRead, hSig, hGop, hRun⟩ |
    ⟨⟨hInformed, hRead, hSig, hGop⟩, hRun⟩
  · rw [hRun]
    exact iff_of_true ⟨rfl, fun o ho => absurd ho List.not_mem_nil, fun s hs => by cases hs⟩
      (Or.inl hEarly)
  · rw [hRun, or_iff_right (not_not.mpr hInformed)]
    constructor
    · intro hSafe
      exact ⟨hSafe.info, Or.inl hRead⟩
    · rintro ⟨hInfo, -⟩
      exact ⟨hInfo, fun o ho => absurd ho List.not_mem_nil, fun s hs => by cases hs⟩
  · rw [hRun, or_iff_right (not_not.mpr hInformed)]
    simp only [hRead, Bool.false_eq_true, false_or, hSig, not_false_eq_true, true_and, false_and,
      or_false]
    have hLoads : (∀ o ∈ (if e.mem 0 ≠ 0x42 then [0] else [0, 1]), o < e.available) ↔
        (if e.mem 0 = 0x42 then 2 else 1) ≤ e.available := by
      by_cases hB : e.mem 0 = 0x42
      · simp only [hB, ne_eq, not_true_eq_false, if_false, if_true, List.forall_mem_cons]
        simp
        omega
      · simp only [hB, ne_eq, not_false_eq_true, if_true, if_false, List.forall_mem_singleton]
        exact Iff.rfl
    constructor
    · intro hSafe
      exact ⟨hSafe.info, hLoads.mp hSafe.loads⟩
    · rintro ⟨hInfo, hRoom⟩
      exact ⟨hInfo, hLoads.mpr hRoom, fun s hs => by cases hs⟩
  · rw [hRun, or_iff_right (not_not.mpr hInformed)]
    simp only [hRead, Bool.false_eq_true, false_or, hSig, not_true_eq_false, true_and, false_and,
      hGop, true_or, and_true]
    constructor
    · intro hSafe
      exact ⟨hSafe.info, printed_loads_lt_iff.mp hSafe.loads⟩
    · rintro ⟨hInfo, hRoom⟩
      exact ⟨hInfo, printed_loads_lt_iff.mpr hRoom, fun s hs => by cases hs⟩
  · rw [hRun, draw_safe_iff, or_iff_right (not_not.mpr hInformed)]
    simp only [hRead, Bool.false_eq_true, false_or, hSig, not_true_eq_false, true_and, false_and, hGop]

-- ---------------------------------------------------------------------------
-- The screen
-- ---------------------------------------------------------------------------

/-- The pixel of the picture at column `i` and row `j`, as the file has it. -/
def pixel (e : «显示环境») (i j : Nat) : EFI_GRAPHICS_OUTPUT_BLT_PIXEL :=
  let o := pixelOffset e.header (j, i)
  ⟨e.mem o, e.mem (o + 1), e.mem (o + 2), e.mem (o + 3)⟩

/-- The converted picture has its pixels. -/
theorem converted_cells {h : BMP_IMAGE_HEADER} {m : ByteBuffer} {loads : List Nat} {cells : BltBuffer}
    (hArea : h.W * h.H < 2 ^ 32) {i j : Nat} (hi : i < h.W) (hj : j < h.H) :
    («转换» h m ⟨loads, Region.fresh cells⟩).GopBlt.cells (j * h.W + i) =
      ⟨m (pixelOffset h (j, i)), m (pixelOffset h (j, i) + 1), m (pixelOffset h (j, i) + 2),
        m (pixelOffset h (j, i) + 3)⟩ := by
  have hp : (j, i) ∈ points h.W h.H := mem_points.mpr ⟨hj, hi⟩
  have hStores : (points h.W h.H).map (storeAt h m) = (points h.W h.H).map fun p =>
      (index h.W (id p), loadPixel h m (srcIndex h (UInt64.ofNat p.1) (UInt64.ofNat p.2))) :=
    List.map_congr_left fun p hp => by rw [storeAt, toNat_dstIndex hp]; rfl
  rw [convert_eq]
  simp only [hStores]
  rw [← loadPixel_eq hArea hp]
  exact cells_storePoints (g := id) _ (fun p hp => hp) (fun p _ q _ hEq => hEq) hp

/-- Each pixel is mixed from the two at its place. -/
theorem mixed_cells {count : UINT32} {bg fg cells : BltBuffer} {k : Nat} (hk : k < count.toNat) :
    («混合» count bg fg (Region.fresh cells)).cells k = «混合像素» (bg k) (fg k) := by
  refine Region.cells_storeAll_of_mem ?_ (List.mem_map.mpr ⟨k, List.mem_range.mpr hk, rfl⟩)
  rw [List.map_map, show (Prod.fst ∘ fun i => (i, «混合像素» (bg i) (fg i))) = id from rfl, List.map_id]
  exact List.nodup_range

/-- The second `Blt` draws the blended picture. -/
theorem draw_video (hArea : e.header.W * e.header.H < 2 ^ 32) (video : Video) :
    («显示» e video).video = if e.OnScreen then
      overlay e.«框» (fun i j c => «混合像素» c (pixel e i j)) video else video := by
  have hW : e.header.PixelWidth.toUInt64.toNat = e.header.W := UInt32.toNat_toUInt64 _
  have hH : e.header.PixelHeight.toUInt64.toNat = e.header.H := UInt32.toNat_toUInt64 _
  have hStride : stride e.header.PixelWidth.toUInt64 0 = e.header.W := by
    rw [stride, if_pos rfl, hW]
  simp only [«显示», BltBufferToVideo, BltVideoToBltBuffer, hW, hH, hStride, UInt64.toNat_zero]
  by_cases hOn : e.OnScreen
  swap
  · have hOff : ¬ (Rect.mk e.header.W 0 e.header.W e.header.H).Inside
      e.screen.HorizontalResolution.toNat e.screen.VerticalResolution.toNat := hOn
    rw [if_neg hOff, if_neg hOn]
  have hIn : (Rect.mk e.header.W 0 e.header.W e.header.H).Inside
    e.screen.HorizontalResolution.toNat e.screen.VerticalResolution.toNat := hOn
  rw [if_pos hIn, if_pos hOn, overlay]
  refine paste_congr video fun i hi j hj => ?_
  have hPlace : j * e.header.W + i < (PixelCount e.header).toNat := by
    rw [toNat_PixelCount hArea]
    exact rowMajor_lt hi hj
  rw [mixed_cells hPlace, converted_cells hArea hi hj, if_pos hIn, rowMajor_mod hi, rowMajor_div hi,
    if_pos ⟨hi, hj⟩]
  rfl

/--
**What a run makes of the screen.** A safe run changes nothing, or blends every pixel of the
picture over the one on the screen, in the rectangle one picture's width right of the corner. A
picture that does not fit there is not drawn at all, and the run ends with success all the same.
-/
theorem viewer_screen (hSafe : (UefiMain e video L).1.Safe e) :
    (UefiMain e video L).1.video = (if e.Draws ∧ e.OnScreen then
      overlay e.«框» (fun i j c => «混合像素» c (pixel e i j)) video else video) ∧
    (e.Draws → (UefiMain e video L).1.Status = EFI_SUCCESS) := by
  have hStill (hVideo : (UefiMain e video L).1.video = video) (hNot : ¬ e.Draws) :
      (UefiMain e video L).1.video = (if e.Draws ∧ e.OnScreen then
        overlay e.«框» (fun i j c => «混合像素» c (pixel e i j)) video else video) ∧
      (e.Draws → (UefiMain e video L).1.Status = EFI_SUCCESS) := by
    rw [if_neg fun hBoth => hNot hBoth.1]
    exact ⟨hVideo, fun hDraws => absurd hDraws hNot⟩
  rcases fst_uefiMain e video L with ⟨hEarly, Status, hRun⟩ | ⟨hInformed, hRead, hRun⟩ |
    ⟨hInformed, hRead, hSig, hRun⟩ | ⟨hInformed, hRead, hSig, hGop, hRun⟩ | ⟨hDraws, hRun⟩
  · exact hStill (by rw [hRun]) fun hDraws => hEarly hDraws.1
  · exact hStill (by rw [hRun]) fun hDraws => by
      have hNone := hDraws.2.1
      rw [hRead] at hNone
      cases hNone
  · exact hStill (by rw [hRun]) fun hDraws => hSig hDraws.2.2.1
  · exact hStill (by rw [hRun]) fun hDraws => by
      have hNone := hDraws.2.2.2
      rw [hGop] at hNone
      cases hNone
  · rw [hRun] at hSafe ⊢
    have hArea : e.header.W * e.header.H < 2 ^ 32 := by
      rcases ((draw_safe_iff e video).mp hSafe).2.2 with hNone | ⟨-, hArea, -⟩
      · rw [hNone]
        decide
      · exact hArea
    refine ⟨?_, fun _ => rfl⟩
    rw [draw_video hArea]
    simp only [hDraws, true_and]

/-- A run on a picture of two by two pixels, with what it needs. -/
def squareRun : «显示环境» where
  Sfsp := EFI_SUCCESS
  OpenVolume := EFI_SUCCESS
  Open := EFI_SUCCESS
  FileInfo := true
  GetInfo := EFI_SUCCESS
  FileSize := 70
  BmpData := true
  Read := EFI_SUCCESS
  BytesRead := 70
  read_le := UInt64.le_refl _
  mem := fun i => squareFile.getD i 0
  Gop := EFI_SUCCESS
  HorizontalResolution := 1920
  VerticalResolution := 1080
  BltBuffer := some fun _ => default
  «背景» := some fun _ => default
  «混合结果» := some fun _ => default

/-- The run stays inside its blocks. -/
theorem safe_squareRun (video : Video) (L : Ledger) :
    (UefiMain squareRun video L).1.Safe squareRun := by
  have hRun : (UefiMain squareRun video L).1 = «显示» squareRun video := rfl
  rw [hRun, draw_safe_iff]
  refine ⟨rfl, by decide, Or.inr ⟨⟨rfl, rfl, rfl⟩, ?_, ?_⟩⟩
  · decide +kernel
  · decide +kernel

/-- A file of two rows and two columns. -/
theorem viewer_screen_squareFile :
    let base : Video := fun x y => ⟨x.toUInt8, y.toUInt8, 0, 0⟩
    let r := (UefiMain squareRun base .empty).1
    r.video = (if squareRun.Draws ∧ squareRun.OnScreen then
      overlay squareRun.«框» (fun i j c => «混合像素» c (pixel squareRun i j)) base else base) ∧
    (squareRun.Draws → r.Status = EFI_SUCCESS) :=
  viewer_screen (safe_squareRun _ .empty)

-- ---------------------------------------------------------------------------
-- Resources
-- ---------------------------------------------------------------------------

/-- Releasing a pointer that was assigned: what it is faulted for, if anything. -/
theorem since_released {fs : List Fault} {p : Ptr} {ps : List Ptr} {b : Bool}
    (h : Since L₀ L fs (p :: ps)) (hWild : p ≠ .wild) (hNull : p = .null ↔ b = false) :
    ∃ fs', Since L₀ (L.release p) fs' ps ∧ (fs' = [] ↔ fs = [] ∧ b = true) := by
  refine ⟨_, since_release h hWild, ?_⟩
  rw [List.append_eq_nil_iff, nullFault_eq_nil_iff, Ne, hNull, Bool.not_eq_false]

/-- What the three buffers leave in the pool. -/
theorem since_pixelBuffers {fs : List Fault} {ps : List Ptr} (h : Since L₀ L fs ps) :
    ∃ fs', Since L₀ («像素缓冲» e L) fs' ps ∧ (fs' = [] ↔ fs = [] ∧ e.Allocates) := by
  obtain ⟨p, L₁, hTry₁, hBlt, hWild₁, hNull₁⟩ := since_tryAcquire h e.BltBuffer.isSome
  obtain ⟨q, L₂, hTry₂, hBg, hWild₂, hNull₂⟩ := since_tryAcquire hBlt e.«背景».isSome
  obtain ⟨r, L₃, hTry₃, hOut, hWild₃, hNull₃⟩ := since_tryAcquire hBg e.«混合结果».isSome
  have hOrder : (r :: q :: p :: ps).Perm (p :: q :: r :: ps) :=
    (List.reverse_perm [p, q, r]).append_right ps
  obtain ⟨fs₁, hFreed₁, hFaults₁⟩ := since_released (hOut.perm hOrder) hWild₁ hNull₁
  obtain ⟨fs₂, hFreed₂, hFaults₂⟩ := since_released hFreed₁ hWild₂ hNull₂
  obtain ⟨fs₃, hFreed₃, hFaults₃⟩ := since_released hFreed₂ hWild₃ hNull₃
  refine ⟨fs₃, ?_, ?_⟩
  · simp only [«像素缓冲», hTry₁, hTry₂, hTry₃]
    exact hFreed₃
  · rw [hFaults₃, hFaults₂, hFaults₁, and_assoc, and_assoc]
    rfl

/-- The end that every run has once the file was read: three releases that succeed. -/
theorem settled_closed {fs : List Fault} {file volume : Nat} {p : Ptr} {b : Bool}
    (h : Since L₀ L fs [p, .ref file, .ref volume]) (hWild : p ≠ .wild)
    (hNull : p = .null ↔ b = false) :
    Settled L₀ (((L.release p).release (.ref file)).release (.ref volume)) ↔ fs = [] ∧ b = true := by
  obtain ⟨fs', hSince, hFaults⟩ := since_released h hWild hNull
  have hEnd := since_release_ref (since_release_ref hSince)
  rw [settled_iff_of_since hEnd, hFaults]
  simp

/--
**Which runs release everything once.** A run that stops before it opens the file does. One that
cannot ask for the file's size keeps the block for the answer, and every other run releases a null
pointer for each allocation that failed.
-/
theorem viewer_settled_iff (e : «显示环境») (video : Video) (L₀ : Ledger) :
    Settled L₀ (UefiMain e video L₀).2 ↔
      (EFI_ERROR e.Sfsp = true ∨ EFI_ERROR e.OpenVolume = true ∨ EFI_ERROR e.Open = true) ∨
      if EFI_ERROR e.GetInfo then e.FileInfo = false
      else e.FileInfo = true ∧ e.BmpData = true ∧ (e.Draws → e.Allocates) := by
  unfold UefiMain
  by_cases hSfsp : EFI_ERROR e.Sfsp = true
  · rw [if_pos hSfsp]
    exact iff_of_true ⟨rfl, List.Perm.refl _⟩ (Or.inl (Or.inl hSfsp))
  by_cases hVolume : EFI_ERROR e.OpenVolume = true
  · rw [if_neg hSfsp, if_pos hVolume]
    exact iff_of_true ⟨rfl, List.Perm.refl _⟩ (Or.inl (Or.inr (Or.inl hVolume)))
  rw [if_neg hSfsp, if_neg hVolume]
  obtain ⟨volume, L₁, hAcquire, hRoot⟩ := since_acquire (since_refl L₀)
  by_cases hOpen : EFI_ERROR e.Open = true
  · simp only [hAcquire, if_pos hOpen]
    refine iff_of_true ?_ (Or.inl (Or.inr (Or.inr hOpen)))
    exact (settled_iff_of_since (since_release_ref hRoot)).mpr ⟨rfl, fun p hp => by cases hp⟩
  obtain ⟨file, L₂, hAcquire', hFile⟩ := since_acquire hRoot
  obtain ⟨FileInfo, L₃, hTry, hInfo, hWild, hNull⟩ := since_tryAcquire hFile e.FileInfo
  have hLate : ¬ (EFI_ERROR e.Sfsp = true ∨ EFI_ERROR e.OpenVolume = true ∨
      EFI_ERROR e.Open = true) := by
    rintro (h | h | h)
    · exact hSfsp h
    · exact hVolume h
    · exact hOpen h
  refine Iff.trans ?_ (or_iff_right hLate).symm
  simp only [hAcquire, hAcquire', hTry, if_neg hOpen]
  by_cases hGet : EFI_ERROR e.GetInfo = true
  · simp only [if_pos hGet]
    have hHeld : Since L₀ ((L₃.release (.ref file)).release (.ref volume)) [] [FileInfo] :=
      since_release_ref (since_release_ref hInfo.swap).swap
    rw [settled_iff_of_since hHeld]
    simp [Ptr.ids_eq_nil_iff hWild, hNull]
  obtain ⟨fs, hFreed, hFaults⟩ := since_released hInfo hWild hNull
  obtain ⟨BmpData, L₄, hTry₄, hData, hWild₄, hNull₄⟩ := since_tryAcquire hFreed e.BmpData
  simp only [if_neg hGet, hTry₄]
  -- all of the ends without a picture release the same three
  have hShort (hNot : ¬ e.Draws) :
      Settled L₀ (((L₄.release BmpData).release (.ref file)).release (.ref volume)) ↔
        e.FileInfo = true ∧ e.BmpData = true ∧ (e.Draws → e.Allocates) := by
    rw [settled_closed hData hWild₄ hNull₄, hFaults]
    simp [hNot]
  by_cases hRead : EFI_ERROR e.Read = true
  · simp only [if_pos hRead]
    exact hShort fun hDraws => by simp [hDraws.2.1] at hRead
  by_cases hSig : e.mem 0 ≠ 0x42 ∨ e.mem 1 ≠ 0x4D
  · simp only [if_neg hRead, if_pos hSig]
    exact hShort fun hDraws => not_and_or.mpr hSig hDraws.2.2.1
  by_cases hGop : EFI_ERROR e.Gop = true
  · simp only [if_neg hRead, if_neg hSig, if_pos hGop]
    exact hShort fun hDraws => by simp [hDraws.2.2.2] at hGop
  have hDraws : e.Draws := by
    obtain ⟨hB, hM⟩ := not_or.mp hSig
    exact ⟨⟨Bool.eq_false_iff.mpr hSfsp, Bool.eq_false_iff.mpr hVolume, Bool.eq_false_iff.mpr hOpen,
      Bool.eq_false_iff.mpr hGet⟩, Bool.eq_false_iff.mpr hRead, ⟨not_not.mp hB, not_not.mp hM⟩,
      Bool.eq_false_iff.mpr hGop⟩
  obtain ⟨fs', hPixels, hFaults'⟩ := since_pixelBuffers (e := e) hData
  simp only [if_neg hRead, if_neg hSig, if_neg hGop]
  rw [settled_closed hPixels hWild₄ hNull₄, hFaults', hFaults, forall_prop_of_true hDraws, eq_self_iff_true,
    true_and, and_right_comm, and_assoc]

end TianJi.Model.BmpViewer

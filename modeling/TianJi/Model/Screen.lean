import TianJi.Lib.Canvas
import TianJi.Lib.Memory
import TianJi.Model.KeyLoop

/-!
# TianJi — the pointer on the screen

The pictures behind the key loop of `UefiMain` (天玑.c): the video memory, the buffer
`指针背景图` that saves what the pointer covers, and the blended image that is drawn. Each
arrow key restores the old rectangle, moves the column (`处理按键`), saves the new
rectangle, blends the pointer over it and draws the result.

`Blt` copies a rectangle that lies on the screen and does nothing otherwise. Buffers are
linear, row by row, as the code passes them.

* `blend_cells`        — `混合Blt` blends every pixel below the count and no other.
* `covers_step`        — a key that does not boot keeps the screen an overlay of the base.
* `no_ghost_pointer`   — so does every run of such keys.
-/

namespace TianJi.Model

open Canvas Memory

/-- A buffer of pixels. -/
abbrev BltBuffer := Nat → EFI_GRAPHICS_OUTPUT_BLT_PIXEL

/-- Video memory. -/
abbrev Video := Picture EFI_GRAPHICS_OUTPUT_BLT_PIXEL

-- ---------------------------------------------------------------------------
-- Blending
-- ---------------------------------------------------------------------------

/-- `(前景 * 透明度 + 背景 * (255 - 透明度)) / 255`, in `int` and stored to a byte. -/
def «混合分量» («前景» «透明度» «背景» : UINT8) : UINT8 :=
  UInt8.ofNat ((«前景».toNat * «透明度».toNat + «背景».toNat * (255 - «透明度».toNat)) / 255)

/-- The loop body of `混合Blt` for one pixel. -/
def «混合像素» («前景» «背景» : EFI_GRAPHICS_OUTPUT_BLT_PIXEL) : EFI_GRAPHICS_OUTPUT_BLT_PIXEL where
  Red := «混合分量» «前景».Red «前景».Reserved «背景».Red
  Green := «混合分量» «前景».Green «前景».Reserved «背景».Green
  Blue := «混合分量» «前景».Blue «前景».Reserved «背景».Blue
  Reserved := 0

/-- `混合Blt`: status and the result buffer. -/
def «混合Blt» («前景图» «背景图» «混合结果» : Option BltBuffer) («像素总数» : UINTN) :
    EFI_STATUS × Option BltBuffer :=
  match «前景图», «背景图», «混合结果» with
  | some «前景图», some «背景图», some «混合结果» =>
    (EFI_SUCCESS, some (((Region.fresh «混合结果»).storeAll
      ((List.range «像素总数».toNat).map fun «索引» =>
        («索引», «混合像素» («前景图» «索引») («背景图» «索引»)))).cells))
  | _, _, «混合结果» => (EFI_INVALID_PARAMETER, «混合结果»)

/-- The buffer that a successful `混合Blt` leaves. -/
def blended («前景图» «背景图» «混合结果» : BltBuffer) («像素总数» : UINTN) : BltBuffer := fun k =>
  if k < «像素总数».toNat then «混合像素» («前景图» k) («背景图» k) else «混合结果» k

theorem blend_cells (fg bg out : BltBuffer) (n : UINTN) :
    «混合Blt» (some fg) (some bg) (some out) n = (EFI_SUCCESS, some (blended fg bg out n)) := by
  have hKeys : ((List.range n.toNat).map fun k => (k, «混合像素» (fg k) (bg k))).map Prod.fst =
      List.range n.toNat := by
    simp [Function.comp_def]
  simp only [«混合Blt», Prod.mk.injEq, Option.some.injEq, true_and]
  funext k
  unfold blended
  split_ifs with hk
  · refine Region.cells_storeAll_of_mem ?_ (List.mem_map.mpr ⟨k, List.mem_range.mpr hk, rfl⟩)
    rw [hKeys]
    exact List.nodup_range
  · rw [Region.cells_storeAll_of_not_mem]
    · rfl
    · rw [hKeys, List.mem_range]
      exact hk

-- ---------------------------------------------------------------------------
-- Blt
-- ---------------------------------------------------------------------------

/-- Pixels a row of the buffer takes: `Delta` is in bytes, and 0 stands for a buffer
exactly as wide as the rectangle. -/
def stride (Width Delta : UINTN) : Nat := if Delta = 0 then Width.toNat else Delta.toNat / 4

/-- `Blt` with `EfiBltBufferToVideo` and a source at the buffer's origin. -/
def BltBufferToVideo (v : «版面») (Buffer : BltBuffer) (DestinationX DestinationY Width Height
    Delta : UINTN) (video : Video) : Video :=
  let r : Rect := ⟨DestinationX.toNat, DestinationY.toNat, Width.toNat, Height.toNat⟩
  if r.Inside v.HorizontalResolution.toNat v.VerticalResolution.toNat then
    paste r (fun i j => Buffer (j * stride Width Delta + i)) video
  else video

/-- `Blt` with `EfiBltVideoToBltBuffer` and a destination at the buffer's origin. -/
def BltVideoToBltBuffer (v : «版面») (video : Video) (SourceX SourceY Width Height Delta : UINTN)
    (Buffer : BltBuffer) : BltBuffer :=
  let r : Rect := ⟨SourceX.toNat, SourceY.toNat, Width.toNat, Height.toNat⟩
  let s := stride Width Delta
  if r.Inside v.HorizontalResolution.toNat v.VerticalResolution.toNat then fun k =>
    if k % s < Width.toNat ∧ k / s < Height.toNat then grab r video (k % s) (k / s) else Buffer k
  else Buffer

-- ---------------------------------------------------------------------------
-- The loop body on pictures
-- ---------------------------------------------------------------------------

/-- What the loop draws with: the placement, the pointer image and its height, and what a
boot attempt that comes back does to the screen. -/
structure «指针环境» where
  «版面» : «版面»
  «图像数据» : BltBuffer
  «高度» : UINTN
  «启动» : Video → Video

/-- The loop's pictures beside its numbers. -/
structure «画面» where
  video : Video
  «指针背景图» : BltBuffer
  «指针混合结果» : BltBuffer
  «键» : «键状态»

namespace «指针环境»

/-- `UINTN 指针像素总数` -/
def «指针像素总数» (g : «指针环境») : UINTN := g.«版面».«指针宽度» * g.«高度»

/-- Put `指针背景图` back at the pointer's place. -/
def restore (g : «指针环境») (s : «画面») : «画面» :=
  { s with
    video := BltBufferToVideo g.«版面» s.«指针背景图» s.«键».«指针X» g.«版面».«指针Y»
      g.«版面».«指针宽度» g.«高度» (g.«版面».«指针宽度» * 4) s.video }

/-- Save the rectangle under the pointer, blend the pointer over it and draw the result. Both buffers
of the pointer are there: the source does not look at what `AllocatePool` returned for them. -/
def draw (g : «指针环境») (s : «画面») : «画面» :=
  let «指针背景图» := BltVideoToBltBuffer g.«版面» s.video s.«键».«指针X» g.«版面».«指针Y»
    g.«版面».«指针宽度» g.«高度» 0 s.«指针背景图»
  let «指针混合结果» := ((«混合Blt» (some g.«图像数据») (some «指针背景图»)
    (some s.«指针混合结果») g.«指针像素总数»).2).getD s.«指针混合结果»
  { s with
    «指针背景图» := «指针背景图»
    «指针混合结果» := «指针混合结果»
    video := BltBufferToVideo g.«版面» «指针混合结果» s.«键».«指针X» g.«版面».«指针Y»
      g.«版面».«指针宽度» g.«高度» (g.«版面».«指针宽度» * 4) s.video }

/-- The first capture and draw, before the loop. -/
def «首绘» (g : «指针环境») (base : Video) («指针背景图» «指针混合结果» : BltBuffer) : «画面» :=
  g.draw ⟨base, «指针背景图», «指针混合结果», «初态» g.«版面»⟩

/-- One turn of the loop. -/
def «一轮» (g : «指针环境») (s : «画面») (Key : EFI_INPUT_KEY) : «画面» :=
  let s := if Key.ScanCode = SCAN_LEFT ∨ Key.ScanCode = SCAN_RIGHT then g.restore s else s
  let s := { s with «键» := «处理按键» g.«版面» s.«键» Key }
  let s := if s.«键».«绘制» then g.draw s else s
  if Key.UnicodeChar = CHAR_CARRIAGE_RETURN then { s with video := g.«启动» s.video } else s

/-- The pictures after a sequence of key strokes. -/
def runScreen (g : «指针环境») (base : Video) («指针背景图» «指针混合结果» : BltBuffer)
    (keys : List EFI_INPUT_KEY) : «画面» :=
  keys.foldl g.«一轮» (g.«首绘» base «指针背景图» «指针混合结果»)

-- ---------------------------------------------------------------------------
-- The overlay invariant
-- ---------------------------------------------------------------------------

variable {g : «指针环境»}

/-- The pointer's rectangle when it stands at column `X`. -/
def «框» (g : «指针环境») (X : UINTN) : Rect :=
  ⟨X.toNat, g.«版面».«指针Y».toNat, g.«版面».«指针宽度».toNat, g.«高度».toNat⟩

/-- The pixels a picture has in a rectangle, as a buffer of the rectangle's width. -/
def rectBuffer (r : Rect) (p : Video) : BltBuffer := fun k => grab r p (k % r.w) (k / r.w)

/-- What the screen is supposed to be: the pointer image blended over the base. -/
def withPointer (g : «指针环境») (base : Video) (X : UINTN) : Video :=
  overlay (g.«框» X) (fun i j c => «混合像素» (g.«图像数据» (j * g.«版面».«指针宽度».toNat + i)) c) base

/-- Sizes under which the pointer is drawn: the row fits, and the pointer's rows lie
between the line 70 above the bottom and the bottom. -/
structure Drawable (g : «指针环境») : Prop where
  fits : g.«版面».Fits
  height : g.«高度».toNat ≤ 70
  screen : 70 ≤ g.«版面».VerticalResolution.toNat

/-- The invariant of the loop: the column lies between the outer stops, the screen is the
base with the pointer over it, and the saved background is the base. -/
structure Covers (g : «指针环境») (base : Video) (s : «画面») : Prop where
  left : g.«版面».«最左边X» ≤ s.«键».«指针X»
  right : s.«键».«指针X» ≤ g.«版面».«最右边X»
  screen : s.video = g.withPointer base s.«键».«指针X»
  saved : ∀ i < g.«版面».«指针宽度».toNat, ∀ j < g.«高度».toNat,
    s.«指针背景图» (j * g.«版面».«指针宽度».toNat + i) = grab (g.«框» s.«键».«指针X») base i j

namespace Drawable

variable (h : g.Drawable)
include h

theorem toNat_pointerY : g.«版面».«指针Y».toNat = g.«版面».VerticalResolution.toNat - 70 := by
  have hLe : (70 : UINT32) ≤ g.«版面».VerticalResolution := UInt32.le_iff_toNat_le.mpr h.screen
  rw [«版面».«指针Y», UInt32.toNat_toUInt64, UInt32.toNat_sub_of_le _ _ hLe]
  rfl

/-- At any stop the pointer's rectangle is on the screen, so every `Blt` of it copies. -/
theorem inside {X : UINTN} (hX : X ≤ g.«版面».«最右边X») :
    (g.«框» X).Inside g.«版面».HorizontalResolution.toNat g.«版面».VerticalResolution.toNat := by
  have hStop := h.fits.stop_onScreen
  have hY := h.toNat_pointerY
  have hHeight := h.height
  have hScreen := h.screen
  have hLe := UInt64.le_iff_toNat_le.mp hX
  simp only [Rect.Inside, «框»]
  omega

theorem pointer_lt : g.«版面».«指针宽度».toNat < 2 ^ 32 := by
  have h1 := h.fits.pointer
  have h2 := h.fits.icon_le
  have h3 := h.fits.rowWidth_lt
  omega

/-- The `Delta` passed to the drawing calls is the pointer's own row. -/
theorem stride_delta : stride g.«版面».«指针宽度» (g.«版面».«指针宽度» * 4) = g.«版面».«指针宽度».toNat := by
  have hSmall := h.pointer_lt
  have hMul : (g.«版面».«指针宽度» * 4).toNat = g.«版面».«指针宽度».toNat * 4 := by
    rw [UInt64.toNat_mul]
    simp only [UInt64.reduceToNat]
    omega
  unfold stride
  split_ifs with hZero
  · rfl
  · rw [hMul, Nat.mul_div_cancel _ (by omega)]

theorem toNat_pixels : g.«指针像素总数».toNat = g.«版面».«指针宽度».toNat * g.«高度».toNat := by
  have hSmall := h.pointer_lt
  have hProduct : g.«版面».«指针宽度».toNat * g.«高度».toNat ≤ 2 ^ 32 * 70 :=
    Nat.mul_le_mul (Nat.le_of_lt hSmall) h.height
  rw [«指针像素总数», UInt64.toNat_mul, Nat.mod_eq_of_lt (by omega)]

/-- Drawing a buffer of the pointer's width pastes it. -/
theorem bufferToVideo {X : UINTN} (hX : X ≤ g.«版面».«最右边X») (buf : BltBuffer) (video : Video) :
    BltBufferToVideo g.«版面» buf X g.«版面».«指针Y» g.«版面».«指针宽度» g.«高度»
      (g.«版面».«指针宽度» * 4) video =
    paste (g.«框» X) (fun i j => buf (j * g.«版面».«指针宽度».toNat + i)) video := by
  unfold BltBufferToVideo
  simp only [h.stride_delta]
  exact if_pos (h.inside hX)

/-- Capturing copies the pointer's rectangle. -/
theorem videoToBuffer {X : UINTN} (hX : X ≤ g.«版面».«最右边X») (buf : BltBuffer) (video : Video)
    {i j : Nat} (hi : i < g.«版面».«指针宽度».toNat) (hj : j < g.«高度».toNat) :
    BltVideoToBltBuffer g.«版面» video X g.«版面».«指针Y» g.«版面».«指针宽度» g.«高度» 0 buf
      (j * g.«版面».«指针宽度».toNat + i) = grab (g.«框» X) video i j := by
  have hStride : stride g.«版面».«指针宽度» 0 = g.«版面».«指针宽度».toNat := if_pos rfl
  unfold BltVideoToBltBuffer
  simp only [hStride]
  have hIn : (Rect.mk X.toNat g.«版面».«指针Y».toNat g.«版面».«指针宽度».toNat g.«高度».toNat).Inside
      g.«版面».HorizontalResolution.toNat g.«版面».VerticalResolution.toNat := h.inside hX
  simp only [if_pos hIn, rowMajor_mod hi, rowMajor_div hi]
  exact if_pos ⟨hi, hj⟩

theorem leftStop_le_rightStop : g.«版面».«最左边X» ≤ g.«版面».«最右边X» := by
  rw [UInt64.le_iff_toNat_le, h.fits.toNat_leftStop, h.fits.toNat_rightStop]
  exact Nat.le_add_right _ _

/-- Whatever an update left in the column, a wrapped difference included, the range checks
end between the outer stops. -/
theorem clamp_mem (X : UINTN) :
    g.«版面».«最左边X» ≤ «夹回» g.«版面» X ∧ «夹回» g.«版面» X ≤ g.«版面».«最右边X» := by
  have hOrder := h.leftStop_le_rightStop
  rcases UInt64.lt_or_le X g.«版面».«最左边X» with hLow | hLow
  · rw [clamp_of_lt hLow]
    exact ⟨hOrder, UInt64.le_refl _⟩
  · rcases UInt64.lt_or_le g.«版面».«最右边X» X with hHigh | hHigh
    · rw [clamp_of_gt hLow hHigh]
      exact ⟨UInt64.le_refl _, hOrder⟩
    · rw [clamp_of_mem hLow hHigh]
      exact ⟨hLow, hHigh⟩

end Drawable

/-- Restoring takes the pointer off the screen. -/
theorem restore_video (h : g.Drawable) {base : Video} {s : «画面»} (hs : g.Covers base s) :
    (g.restore s).video = base := by
  have hBack : paste (g.«框» s.«键».«指针X»)
      (fun i j => s.«指针背景图» (j * g.«版面».«指针宽度».toNat + i)) s.video =
      paste (g.«框» s.«键».«指针X») (grab (g.«框» s.«键».«指针X») base) s.video :=
    paste_congr _ hs.saved
  show BltBufferToVideo _ _ _ _ _ _ _ _ = base
  rw [h.bufferToVideo hs.right, hBack, hs.screen, withPointer, paste_grab_overlay]

/-- Drawing over the bare base puts the pointer on it. -/
theorem draw_covers (h : g.Drawable) {base : Video} {s : «画面»} (hVideo : s.video = base)
    (hLeft : g.«版面».«最左边X» ≤ s.«键».«指针X») (hX : s.«键».«指针X» ≤ g.«版面».«最右边X») :
    g.Covers base (g.draw s) := by
  refine ⟨hLeft, hX, ?_, ?_⟩
  · simp only [draw, blend_cells, Option.getD_some]
    rw [h.bufferToVideo hX, hVideo, withPointer, overlay]
    refine paste_congr base fun i hi j hj => ?_
    rw [blended, if_pos (by rw [h.toNat_pixels]; exact rowMajor_lt hi hj),
      h.videoToBuffer hX _ _ hi hj]
  · intro i hi j hj
    rw [draw, ← hVideo]
    exact h.videoToBuffer hX _ _ hi hj

theorem first_covers (h : g.Drawable) (base : Video) (back mixed : BltBuffer) :
    g.Covers base (g.«首绘» base back mixed) :=
  draw_covers h rfl (UInt64.le_refl _) h.leftStop_le_rightStop

/-- Whether the loop redraws is decided by the key alone. -/
theorem redraws_iff (v : Model.«版面») (s : «键状态») (Key : EFI_INPUT_KEY) :
    («处理按键» v s Key).«绘制» = true ↔ Key.ScanCode = SCAN_LEFT ∨ Key.ScanCode = SCAN_RIGHT := by
  unfold «处理按键» «移动»
  split_ifs with hLeft hRight <;> simp [*]

/-- **One key.** A key that does not boot keeps the screen an overlay of the base: an arrow
takes the pointer off, moves it and draws it on the bare base, any other key draws
nothing and leaves the column where it was. -/
theorem covers_step (h : g.Drawable) {base : Video} {s : «画面»} (hs : g.Covers base s)
    {Key : EFI_INPUT_KEY} (hKey : Key.UnicodeChar ≠ CHAR_CARRIAGE_RETURN) :
    g.Covers base (g.«一轮» s Key) := by
  unfold «一轮»
  simp only [if_neg hKey]
  by_cases hArrow : Key.ScanCode = SCAN_LEFT ∨ Key.ScanCode = SCAN_RIGHT
  · simp only [if_pos hArrow, (redraws_iff _ _ _).mpr hArrow, if_true]
    -- the restore used the old column, the capture uses the clamped new one
    obtain ⟨hLow, hHigh⟩ := h.clamp_mem («移动» g.«版面» s.«键» Key).«指针X»
    exact draw_covers h (restore_video h hs) hLow hHigh
  · have hStill : («处理按键» g.«版面» s.«键» Key).«指针X» = s.«键».«指针X» := by
      obtain ⟨hl, hr⟩ := not_or.mp hArrow
      simp only [«处理按键», «移动», if_neg hl, if_neg hr]
      exact clamp_of_mem hs.left hs.right
    have hQuiet := mt (redraws_iff g.«版面» s.«键» Key).mp hArrow
    simp only [if_neg hArrow, if_neg hQuiet]
    obtain ⟨hLow, hHigh, hScreen, hSaved⟩ := hs
    refine ⟨?_, ?_, ?_, ?_⟩ <;> simp only [hStill] <;> assumption

/-- The run lemma. -/
theorem covers_run (h : g.Drawable) (base : Video) (back mixed : BltBuffer)
    {keys : List EFI_INPUT_KEY} (hKeys : ∀ Key ∈ keys, Key.UnicodeChar ≠ CHAR_CARRIAGE_RETURN) :
    g.Covers base (g.runScreen base back mixed keys) := by
  induction keys using List.reverseRecOn with
  | nil => exact first_covers h base back mixed
  | append_singleton keys Key ih =>
    have hPrefix := ih fun K hK => hKeys K (List.mem_append_left _ hK)
    have hLast := hKeys Key (List.mem_append_right _ (List.mem_singleton_self _))
    rw [runScreen, List.foldl_append]
    exact covers_step h hPrefix hLast

/-- What the screen and the saved background must show when the pointer stands at `X` over
`base`: the base outside the pointer's rectangle, the result of `混合Blt` for the pointer
image and the base's rectangle inside it, and the base's rectangle in the buffer. -/
structure ShowsPointer (g : «指针环境») (base : Video) (s : «画面») : Prop where
  outside : ∀ x y, ¬ (g.«框» s.«键».«指针X»).Contains x y → s.video x y = base x y
  inside : ∀ out, ∃ «混合结果»,
    «混合Blt» (some g.«图像数据») (some (rectBuffer (g.«框» s.«键».«指针X») base)) (some out)
      g.«指针像素总数» = (EFI_SUCCESS, some «混合结果») ∧
    ∀ i < g.«版面».«指针宽度».toNat, ∀ j < g.«高度».toNat,
      grab (g.«框» s.«键».«指针X») s.video i j = «混合结果» (j * g.«版面».«指针宽度».toNat + i)
  saved : ∀ i < g.«版面».«指针宽度».toNat, ∀ j < g.«高度».toNat,
    s.«指针背景图» (j * g.«版面».«指针宽度».toNat + i) = grab (g.«框» s.«键».«指针X») base i j

theorem Covers.showsPointer (h : g.Drawable) {base : Video} {s : «画面»}
    (hs : g.Covers base s) : g.ShowsPointer base s := by
  refine ⟨fun x y hOut => ?_, fun out => ⟨_, blend_cells _ _ _ _, fun i hi j hj => ?_⟩, hs.saved⟩
  · rw [hs.screen]
    exact overlay_of_not_contains hOut
  · have hIn : (g.«框» s.«键».«指针X»).Contains
        ((g.«框» s.«键».«指针X»).x + i) ((g.«框» s.«键».«指针X»).y + j) :=
      ⟨⟨Nat.le_add_right _ _, Nat.add_lt_add_left hi _⟩,
        Nat.le_add_right _ _, Nat.add_lt_add_left hj _⟩
    have hMod : (j * g.«版面».«指针宽度».toNat + i) % (g.«框» s.«键».«指针X»).w = i := rowMajor_mod hi j
    have hDiv : (j * g.«版面».«指针宽度».toNat + i) / (g.«框» s.«键».«指针X»).w = j := rowMajor_div hi j
    rw [hs.screen, withPointer, grab, overlay_of_contains hIn, Nat.add_sub_cancel_left,
      Nat.add_sub_cancel_left, blended, if_pos (by rw [h.toNat_pixels]; exact rowMajor_lt hi hj),
      rectBuffer, hMod, hDiv]
    rfl

end «指针环境»

/--
**No ghost pointer.** For every screen content, pointer image and sizes under which the
pointer is drawn, after the first draw and after every key that does not boot, the screen
is the base with the pointer blended over it at its present place and nowhere else, and
`指针背景图` is what it covers.
-/
theorem no_ghost_pointer (g : «指针环境»)
    (hPointer : g.«版面».«指针宽度».toNat ≤ g.«版面».«图标宽度».toNat)
    (hEntries : 1 ≤ g.«版面».«启动项数».toNat)
    (hRow : g.«版面».«启动项数».toNat * g.«版面».«图标宽度».toNat +
      50 * (g.«版面».«启动项数».toNat - 1) ≤ g.«版面».HorizontalResolution.toNat)
    (hHeight : g.«高度».toNat ≤ 70) (hScreen : 70 ≤ g.«版面».VerticalResolution.toNat)
    (base : Video) («指针背景图» «指针混合结果» : BltBuffer) (keys : List EFI_INPUT_KEY)
    (hKeys : ∀ Key ∈ keys, Key.UnicodeChar ≠ CHAR_CARRIAGE_RETURN) :
    g.ShowsPointer base (g.runScreen base «指针背景图» «指针混合结果» keys) := by
  have hDrawable : g.Drawable := ⟨⟨hPointer, hEntries, hRow⟩, hHeight, hScreen⟩
  exact («指针环境».covers_run hDrawable base _ _ hKeys).showsPointer hDrawable

/-- A 64 by 32 pointer under two icons, moved left around the end and back right. -/
theorem no_ghost_pointer_1920 :
    let g : «指针环境» := ⟨⟨1920, 1080, 128, 64, 2⟩, fun k => ⟨k.toUInt8, 0, 0, 128⟩, 32, id⟩
    g.ShowsPointer (fun x y => ⟨x.toUInt8, y.toUInt8, 0, 0⟩)
      (g.runScreen (fun x y => ⟨x.toUInt8, y.toUInt8, 0, 0⟩) (fun _ => default)
        (fun _ => default) [⟨SCAN_LEFT, 0⟩, ⟨SCAN_RIGHT, 0⟩]) :=
  no_ghost_pointer ⟨⟨1920, 1080, 128, 64, 2⟩, fun k => ⟨k.toUInt8, 0, 0, 128⟩, 32, id⟩
    (by decide) (by decide) (by decide) (by decide) (by decide) _ _ _ _ (by decide)

end TianJi.Model

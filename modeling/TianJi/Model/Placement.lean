import TianJi.Lib.Canvas
import TianJi.Lib.Unsigned
import TianJi.Model.IconRow

/-!
# TianJi — placement on any screen

Every column and row that `UefiMain` (天玑.c) computes for the background, the icon row and
the pointer, on a screen of any resolution with pictures of any size. None of the sizes is
checked; a difference that would be negative wraps and `Blt` is given a rectangle outside
the screen.

Each computation stands here twice: as the value that the code computes, and as an
expression whose exact value can be asked for. A run comes to the background, to the row
and to the pointer one after the other, and returns with an error before any of them
otherwise (`uefiMain_waits_iff`).

* `background_placed_iff`, `row_placed_iff`, `pointer_placed_iff` — one stage.
* `placed_iff` — nothing wraps and every rectangle lies on the screen exactly when the
  pictures of the stages that are reached fit the screen.
-/

namespace TianJi.Model

open Canvas Ownership Unsigned

variable {α : Type}

-- ---------------------------------------------------------------------------
-- How far a run comes
-- ---------------------------------------------------------------------------

/-- The background picture is there to be placed. -/
structure «运行环境».ReachesBackground (m : «运行环境» α) : Prop where
  watchdog : EFI_ERROR m.SetWatchdogTimer = false
  image : EFI_ERROR m.LoadedImage = false
  fs : EFI_ERROR m.FsProtocol = false
  volume : EFI_ERROR m.OpenVolume = false
  gop : EFI_ERROR m.LocateProtocol = false
  named : m.«随机背景文件名» = true
  background : m.«背景».fails = false

/-- The table and the icon template are there too. -/
structure «运行环境».ReachesRow (m : «运行环境» α) : Prop extends m.ReachesBackground where
  options : m.options ≠ []
  table : m.«启动项» = true
  template : m.«图标尺寸».fails = false

/-- And the pointer image. -/
structure «运行环境».ReachesPointer (m : «运行环境» α) : Prop extends m.ReachesRow where
  pointer : m.«指针».fails = false

variable {m : «运行环境» α} {s : «局部指针» } {L : Ledger}

theorem waits_pointer_iff {«图标宽度» : UINTN} :
    «自指针起» m «图标宽度» s L [] = none ↔ m.«指针».fails = false := by
  have hStatus := reader_error_iff m.«指针» L
  unfold «自指针起»
  cases hFail : m.«指针».fails with
  | true => simp [hStatus, hFail]
  | false => simp [hStatus, hFail, «键循环»]

theorem waits_row_iff :
    «自图标起» m s L [] = none ↔ m.«图标尺寸».fails = false ∧ m.«指针».fails = false := by
  have hStatus := reader_error_iff m.«图标尺寸» L
  unfold «自图标起»
  cases hFail : m.«图标尺寸».fails with
  | true => simp [hStatus, hFail]
  | false => simp [hStatus, hFail, waits_pointer_iff]

theorem waits_table_iff : «自启动项起» m s L [] = none ↔
    m.options ≠ [] ∧ m.«启动项» = true ∧ m.«图标尺寸».fails = false ∧ m.«指针».fails = false := by
  have hTable := Ledger.tryAcquire_eq_null_iff (L.tryAcquire m.BootOptions.isSome).2
    (decide (0 < m.options.length) && m.«启动项»)
  unfold «自启动项起»
  dsimp only
  split_ifs with hNull
  · rw [hTable, Bool.and_eq_false_iff, decide_eq_false_iff_not, List.length_pos_iff, not_not] at hNull
    rcases hNull with hOptions | hAllocated
    · simp [hOptions]
    · simp [hAllocated]
  · rw [hTable, Bool.not_eq_false, Bool.and_eq_true, decide_eq_true_eq, List.length_pos_iff] at hNull
    rw [waits_row_iff, and_iff_right hNull.1, and_iff_right hNull.2]

theorem waits_background_iff : «自背景起» m s L [] = none ↔
    m.«背景».fails = false ∧ m.options ≠ [] ∧ m.«启动项» = true ∧ m.«图标尺寸».fails = false ∧
      m.«指针».fails = false := by
  have hStatus := reader_error_iff m.«背景» L
  unfold «自背景起»
  cases hFail : m.«背景».fails with
  | true => simp [hStatus, hFail]
  | false => simp [hStatus, hFail, waits_table_iff]

/-- **A run waits for its first key exactly when it came to the pointer.** Otherwise it has
returned. -/
theorem uefiMain_waits_iff : UefiMain m [] = none ↔ m.ReachesPointer := by
  have hIff : m.ReachesPointer ↔ EFI_ERROR m.SetWatchdogTimer = false ∧
      (EFI_ERROR m.LoadedImage = false ∧ EFI_ERROR m.FsProtocol = false ∧
        EFI_ERROR m.OpenVolume = false) ∧ EFI_ERROR m.LocateProtocol = false ∧
      m.«随机背景文件名» = true ∧ m.«背景».fails = false ∧ m.options ≠ [] ∧ m.«启动项» = true ∧
      m.«图标尺寸».fails = false ∧ m.«指针».fails = false := by
    constructor
    · rintro ⟨⟨⟨hWatchdog, hImage, hFs, hVolume, hGop, hNamed, hBackground⟩, hOptions, hTable,
        hTemplate⟩, hPointer⟩
      exact ⟨hWatchdog, ⟨hImage, hFs, hVolume⟩, hGop, hNamed, hBackground, hOptions, hTable,
        hTemplate, hPointer⟩
    · rintro ⟨hWatchdog, ⟨hImage, hFs, hVolume⟩, hGop, hNamed, hBackground, hOptions, hTable,
        hTemplate, hPointer⟩
      exact ⟨⟨⟨hWatchdog, hImage, hFs, hVolume, hGop, hNamed, hBackground⟩, hOptions, hTable,
        hTemplate⟩, hPointer⟩
  rw [hIff]
  unfold UefiMain
  by_cases hWatchdog : EFI_ERROR m.SetWatchdogTimer = true
  · simp [hWatchdog]
  rw [if_neg hWatchdog]
  rcases root_cases m .empty with ⟨hRoot, hOpened⟩ | ⟨hRoot, Status, hFail, hOpened⟩
  swap
  · simp [hOpened, hFail, hRoot]
  have hName := Ledger.tryAcquire_eq_null_iff Ledger.empty.acquire.2 m.«随机背景文件名»
  rw [and_iff_right (by simpa using hWatchdog), and_iff_right hRoot]
  simp only [hOpened, hRoot.2.2, Bool.false_eq_true, if_false]
  split_ifs with hGop hNull
  · simp [hGop]
  · simp [hName.mp hNull]
  · have hFound : EFI_ERROR m.LocateProtocol = false := by simpa using hGop
    have hNamed : m.«随机背景文件名» = true := by simpa [hName] using hNull
    rw [waits_background_iff, and_iff_right hFound, and_iff_right hNamed]

-- ---------------------------------------------------------------------------
-- The computations
-- ---------------------------------------------------------------------------

/-- A value of the code as an expression. -/
def word (x : UINTN) : Expr 64 := .val x.toBitVec

@[simp] theorem exact_word (x : UINTN) : (word x).exact = x.toNat := rfl
@[simp] theorem exact_word_iff (x : UINTN) : (word x).Exact ↔ True := Iff.rfl

/-- `e / 2` -/
def halve (e : Expr 64) : Expr 64 := .div e 2

@[simp] theorem exact_halve (e : Expr 64) : (halve e).exact = e.exact / 2 := rfl
@[simp] theorem exact_halve_iff (e : Expr 64) : (halve e).Exact ↔ e.Exact := Iff.rfl

namespace «运行环境»

/-- `背景坐标.X` -/
def «背景X» (m : «运行环境» α) : UINTN :=
  (m.HorizontalResolution.toUInt64 - m.«背景».header.PixelWidth.toUInt64) / 2

/-- `背景坐标.Y` -/
def «背景Y» (m : «运行环境» α) : UINTN :=
  (m.VerticalResolution.toUInt64 - m.«背景».header.PixelHeight.toUInt64) / 2

def «背景X式» (m : «运行环境» α) : Expr 64 :=
  halve (word m.HorizontalResolution.toUInt64 - word m.«背景».header.PixelWidth.toUInt64)

def «背景Y式» (m : «运行环境» α) : Expr 64 :=
  halve (word m.VerticalResolution.toUInt64 - word m.«背景».header.PixelHeight.toUInt64)

def «图标Y式» (m : «运行环境» α) : Expr 64 :=
  word m.VerticalResolution.toUInt64 - word m.«图标尺寸».header.PixelHeight.toUInt64 - word 90

/-- The background's rectangle. -/
def «背景矩形» (m : «运行环境» α) : «矩形» :=
  ⟨m.«背景X», m.«背景Y», m.«背景».header.PixelWidth.toUInt64, m.«背景».header.PixelHeight.toUInt64⟩

/-- The pointer's rectangle at stop `k`. -/
def «指针矩形» (m : «运行环境» α) (k : Nat) : «矩形» :=
  ⟨m.placement.«最左边X» + UInt64.ofNat k * m.placement.«间距», m.placement.«指针Y»,
    m.«指针».header.PixelWidth.toUInt64, m.«指针».header.PixelHeight.toUInt64⟩

end «运行环境»

namespace «版面»

def «图片总宽度式» (v : «版面») : Expr 64 :=
  word v.«图标宽度» * word v.«启动项数» + word 50 * (word v.«启动项数» - word 1)

def «起始X式» (v : «版面») : Expr 64 :=
  halve (word v.HorizontalResolution.toUInt64 - v.«图片总宽度式»)

def «最左边X式» (v : «版面») : Expr 64 :=
  halve (word v.HorizontalResolution.toUInt64 - v.«图片总宽度式» + word v.«图标宽度» -
    word v.«指针宽度»)

def «最右边X式» (v : «版面») : Expr 64 :=
  v.«最左边X式» + (word v.«图标宽度» + word 50) * (word v.«启动项数» - word 1)

/-- A 32-bit subtraction. -/
def «指针Y式» (v : «版面») : Expr 32 := .val v.VerticalResolution.toBitVec - .val 70

end «版面»

/-- The expressions are what the code computes. -/
theorem eval_eq (m : «运行环境» α) (v : «版面») :
    m.«背景X式».eval = m.«背景X».toBitVec ∧ m.«背景Y式».eval = m.«背景Y».toBitVec ∧
      m.«图标Y式».eval = m.«图标Y».toBitVec ∧ v.«图片总宽度式».eval = v.«图片总宽度».toBitVec ∧
      v.«起始X式».eval = v.«起始X».toBitVec ∧ v.«最左边X式».eval = v.«最左边X».toBitVec ∧
      v.«最右边X式».eval = v.«最右边X».toBitVec ∧
      v.«指针Y式».eval = (v.VerticalResolution - 70).toBitVec :=
  ⟨rfl, rfl, rfl, rfl, rfl, rfl, rfl, rfl⟩

/-- A rectangle given to `Blt` that lies on the screen. -/
def «矩形».OnScreen (r : «矩形») (m : «运行环境» α) : Prop :=
  (Rect.mk r.X.toNat r.Y.toNat r.«宽度».toNat r.«高度».toNat).Inside
    m.HorizontalResolution.toNat m.VerticalResolution.toNat

theorem toNat_of_exact {e : Expr 64} {x : UINTN} (hEval : e.eval = x.toBitVec) (h : e.Exact) :
    (x.toNat : Int) = e.exact := by
  rw [← Expr.toNat_eval h, hEval, UInt64.toNat_toBitVec]

-- ---------------------------------------------------------------------------
-- The background
-- ---------------------------------------------------------------------------

/-- The background's place is computed without wrapping and lies on the screen. -/
structure BackgroundPlaced (m : «运行环境» α) : Prop where
  column : m.«背景X式».Exact
  row : m.«背景Y式».Exact
  inside : m.«背景矩形».OnScreen m

/-- The background is no larger than the screen. -/
structure BackgroundFits (m : «运行环境» α) : Prop where
  width : m.«背景».header.PixelWidth.toNat ≤ m.HorizontalResolution.toNat
  height : m.«背景».header.PixelHeight.toNat ≤ m.VerticalResolution.toNat

theorem background_placed_iff : BackgroundPlaced m ↔ BackgroundFits m := by
  have hColumn : m.«背景X式».Exact ↔
      m.«背景».header.PixelWidth.toNat ≤ m.HorizontalResolution.toNat := by
    simp [«运行环境».«背景X式»]
  have hRow : m.«背景Y式».Exact ↔
      m.«背景».header.PixelHeight.toNat ≤ m.VerticalResolution.toNat := by
    simp [«运行环境».«背景Y式»]
  constructor
  · rintro ⟨hX, hY, -⟩
    exact ⟨hColumn.mp hX, hRow.mp hY⟩
  · rintro ⟨hWidth, hHeight⟩
    have hX := toNat_of_exact rfl (x := m.«背景X») (hColumn.mpr hWidth)
    have hY := toNat_of_exact rfl (x := m.«背景Y») (hRow.mpr hHeight)
    simp only [«运行环境».«背景X式», «运行环境».«背景Y式», exact_halve, Expr.exact_sub, exact_word,
      UInt32.toNat_toUInt64] at hX hY
    refine ⟨hColumn.mpr hWidth, hRow.mpr hHeight, ?_, ?_⟩
    · simp only [«运行环境».«背景矩形», UInt32.toNat_toUInt64]
      omega
    · simp only [«运行环境».«背景矩形», UInt32.toNat_toUInt64]
      omega

-- ---------------------------------------------------------------------------
-- The icon row
-- ---------------------------------------------------------------------------

/-- The row's place is computed without wrapping, and every icon that loads is drawn on the
screen. -/
structure RowPlaced (m : «运行环境» α) : Prop where
  total : m.placement.«图片总宽度式».Exact
  left : m.placement.«起始X式».Exact
  top : m.«图标Y式».Exact
  inside : ∀ k r, (k, r) ∈ («图标循环» m).drawn → r.OnScreen m

/-- There is an entry, the row is no wider than the screen, and every icon that loads fits
where it is drawn. -/
structure RowFits (m : «运行环境» α) : Prop where
  entries : 1 ≤ m.placement.«启动项数».toNat
  row : m.placement.rowWidth ≤ m.HorizontalResolution.toNat
  height : m.«图标尺寸».header.PixelHeight.toNat + 90 ≤ m.VerticalResolution.toNat
  icons : ∀ k < m.placement.«启动项数».toNat, (m.«图标» k).fails = false →
    (m.HorizontalResolution.toNat - m.placement.rowWidth) / 2 +
        m.before k * (m.placement.«图标宽度».toNat + 50) + (m.«图标» k).header.PixelWidth.toNat ≤
      m.HorizontalResolution.toNat ∧
    (m.«图标» k).header.PixelHeight.toNat ≤ m.«图标尺寸».header.PixelHeight.toNat + 90

variable {v : «版面»}

theorem exact_total (hn : 1 ≤ v.«启动项数».toNat) :
    v.«图片总宽度式».exact = v.rowWidth := by
  simp only [«版面».«图片总宽度式», «版面».rowWidth, Expr.exact_add, Expr.exact_mul, Expr.exact_sub,
    exact_word, UInt64.reduceToNat, Int.natCast_add, Int.natCast_mul, Int.natCast_sub hn,
    Int.mul_comm]

/-- The row's width is exact when there is an entry and the width is a word. -/
theorem total_exact_iff : v.«图片总宽度式».Exact ↔ 1 ≤ v.«启动项数».toNat ∧ v.rowWidth < 2 ^ 64 := by
  constructor
  · intro h
    have hn : 1 ≤ v.«启动项数».toNat := by
      have hSub := h.2.1.2.1.2.2
      simp only [exact_word, UInt64.reduceToNat] at hSub
      omega
    have hSum : v.«图片总宽度式».exact < 2 ^ 64 := h.2.2
    rw [exact_total hn] at hSum
    exact ⟨hn, by exact_mod_cast hSum⟩
  · rintro ⟨hn, hWidth⟩
    have hExact := exact_total hn
    have hIcons : v.«图标宽度».toNat * v.«启动项数».toNat ≤ v.rowWidth := by
      rw [«版面».rowWidth, Nat.mul_comm]
      exact Nat.le_add_right _ _
    have hGaps : 50 * (v.«启动项数».toNat - 1) ≤ v.rowWidth := Nat.le_add_left _ _
    have hPred : (word v.«启动项数» - word 1).exact = ((v.«启动项数».toNat - 1 : Nat) : Int) := by
      simp only [Expr.exact_sub, exact_word, UInt64.reduceToNat, Int.natCast_sub hn]
    refine ⟨⟨trivial, trivial, ?_⟩, ⟨trivial, ⟨trivial, trivial, ?_⟩, ?_⟩, ?_⟩
    · show (v.«图标宽度».toNat : Int) * v.«启动项数».toNat < 2 ^ 64
      exact_mod_cast lt_of_le_of_lt hIcons hWidth
    · show 0 ≤ (word v.«启动项数» - word 1).exact
      rw [hPred]
      exact Int.natCast_nonneg _
    · show (50 : Int) * (word v.«启动项数» - word 1).exact < 2 ^ 64
      rw [hPred]
      exact_mod_cast lt_of_le_of_lt hGaps hWidth
    · show v.«图片总宽度式».exact < 2 ^ 64
      rw [hExact]
      exact_mod_cast hWidth

theorem left_exact_iff : v.«起始X式».Exact ↔
    1 ≤ v.«启动项数».toNat ∧ v.rowWidth ≤ v.HorizontalResolution.toNat := by
  have hScreen := v.HorizontalResolution.toNat_lt
  unfold «版面».«起始X式»
  rw [exact_halve_iff, Expr.exact_sub_iff, exact_word_iff, true_and, total_exact_iff, exact_word,
    UInt32.toNat_toUInt64]
  constructor
  · rintro ⟨⟨hn, -⟩, hLeft⟩
    rw [exact_total hn] at hLeft
    exact ⟨hn, by omega⟩
  · rintro ⟨hn, hRow⟩
    rw [exact_total hn]
    exact ⟨⟨hn, by omega⟩, by omega⟩

theorem toNat_left (hn : 1 ≤ v.«启动项数».toNat) (hRow : v.rowWidth ≤ v.HorizontalResolution.toNat) :
    v.«起始X».toNat = (v.HorizontalResolution.toNat - v.rowWidth) / 2 := by
  have hLeft := toNat_of_exact rfl (x := v.«起始X») (left_exact_iff.mpr ⟨hn, hRow⟩)
  simp only [«版面».«起始X式», exact_halve, Expr.exact_sub, exact_word, exact_total hn,
    UInt32.toNat_toUInt64] at hLeft
  omega

theorem top_exact_iff : m.«图标Y式».Exact ↔
    m.«图标尺寸».header.PixelHeight.toNat + 90 ≤ m.VerticalResolution.toNat := by
  unfold «运行环境».«图标Y式»
  simp only [Expr.exact_sub_iff, exact_word_iff, true_and, Expr.exact_sub, exact_word,
    UInt32.toNat_toUInt64, UInt64.reduceToNat]
  omega

/-- Where icon `k` is drawn, in a row that fits the screen. -/
theorem icon_onScreen_iff (hn : 1 ≤ m.placement.«启动项数».toNat)
    (hRow : m.placement.rowWidth ≤ m.HorizontalResolution.toNat)
    (hTop : m.«图标尺寸».header.PixelHeight.toNat + 90 ≤ m.VerticalResolution.toNat) {k : Nat}
    (hk : k < m.placement.«启动项数».toNat) : (m.«图标矩形» k).OnScreen m ↔
      (m.HorizontalResolution.toNat - m.placement.rowWidth) / 2 +
          m.before k * (m.placement.«图标宽度».toNat + 50) +
          (m.«图标» k).header.PixelWidth.toNat ≤ m.HorizontalResolution.toNat ∧
      (m.«图标» k).header.PixelHeight.toNat ≤ m.«图标尺寸».header.PixelHeight.toNat + 90 := by
  have hLeft := toNat_left (v := m.placement) hn hRow
  obtain ⟨hSteps, hInRow⟩ :=
    toNat_steps (v := m.placement) hn hRow (lt_of_le_of_lt (before_le m k) hk)
  have hScreen := m.HorizontalResolution.toNat_lt
  have hColumn : (m.«图标矩形» k).X.toNat =
      (m.HorizontalResolution.toNat - m.placement.rowWidth) / 2 +
        m.before k * (m.placement.«图标宽度».toNat + 50) := by
    show (m.placement.«起始X» + UInt64.ofNat (m.before k) * m.placement.«间距»).toNat = _
    rw [UInt64.toNat_add, hLeft, hSteps]
    refine Nat.mod_eq_of_lt ?_
    show (m.HorizontalResolution.toNat - m.placement.rowWidth) / 2 + _ < 2 ^ 64
    omega
  have hY := toNat_of_exact rfl (x := m.«图标Y») (top_exact_iff.mpr hTop)
  simp only [«运行环境».«图标Y式», Expr.exact_sub, exact_word, UInt32.toNat_toUInt64,
    UInt64.reduceToNat] at hY
  unfold «矩形».OnScreen Rect.Inside
  simp only [hColumn]
  simp only [«运行环境».«图标矩形», UInt32.toNat_toUInt64]
  omega

theorem row_placed_iff : RowPlaced m ↔ RowFits m := by
  constructor
  · rintro ⟨-, hLeft, hTop, hInside⟩
    obtain ⟨hn, hRow⟩ := left_exact_iff.mp hLeft
    have hHeight := top_exact_iff.mp hTop
    refine ⟨hn, hRow, hHeight, fun k hk hLoad => ?_⟩
    have hLoads : m.Loads k = true := by rw [«运行环境».Loads, hLoad]; rfl
    exact (icon_onScreen_iff hn hRow hHeight hk).mp
      (hInside k _ ((mem_drawn m).mpr ⟨⟨hk, hLoads⟩, rfl⟩))
  · rintro ⟨hn, hRow, hHeight, hIcons⟩
    have hScreen := m.HorizontalResolution.toNat_lt
    refine ⟨total_exact_iff.mpr ⟨hn, by omega⟩, left_exact_iff.mpr ⟨hn, hRow⟩,
      top_exact_iff.mpr hHeight, fun k r hDrawn => ?_⟩
    obtain ⟨⟨hk, hLoads⟩, rfl⟩ := (mem_drawn m).mp hDrawn
    rw [«运行环境».Loads, Bool.not_eq_true'] at hLoads
    exact (icon_onScreen_iff hn hRow hHeight hk).mpr (hIcons k hk hLoads)

-- ---------------------------------------------------------------------------
-- The pointer
-- ---------------------------------------------------------------------------

/-- The pointer's stops are computed without wrapping, and it lies on the screen at each. -/
structure PointerPlaced (m : «运行环境» α) : Prop where
  left : m.placement.«最左边X式».Exact
  right : m.placement.«最右边X式».Exact
  top : m.placement.«指针Y式».Exact
  inside : ∀ k < m.placement.«启动项数».toNat, (m.«指针矩形» k).OnScreen m

/-- The pointer is no wider than the screen less the row with one icon given back, and no
higher than the 70 rows below its top. -/
structure PointerFits (m : «运行环境» α) : Prop where
  width : m.placement.«指针宽度».toNat ≤
    m.HorizontalResolution.toNat - m.placement.rowWidth + m.placement.«图标宽度».toNat
  bottom : 70 ≤ m.VerticalResolution.toNat
  height : m.«指针».header.PixelHeight.toNat ≤ 70

/-- In a row that fits the screen only the pointer's width can make its first stop wrap. -/
theorem firstStop_exact_iff (hn : 1 ≤ v.«启动项数».toNat)
    (hRow : v.rowWidth ≤ v.HorizontalResolution.toNat) : v.«最左边X式».Exact ↔
      v.«指针宽度».toNat ≤ v.HorizontalResolution.toNat - v.rowWidth + v.«图标宽度».toNat := by
  obtain ⟨-, hInRow⟩ := toNat_steps hn hRow (show 0 < v.«启动项数».toNat by omega)
  have hScreen := v.HorizontalResolution.toNat_lt
  have hTotal : v.«图片总宽度式».Exact := total_exact_iff.mpr ⟨hn, by omega⟩
  unfold «版面».«最左边X式»
  simp only [exact_halve_iff, Expr.exact_sub_iff, Expr.exact_add_iff, exact_word_iff, hTotal,
    true_and, Expr.exact_sub, Expr.exact_add, exact_word, exact_total hn, UInt32.toNat_toUInt64]
  omega

theorem toNat_firstStop (hn : 1 ≤ v.«启动项数».toNat)
    (hRow : v.rowWidth ≤ v.HorizontalResolution.toNat)
    (hWidth : v.«指针宽度».toNat ≤
      v.HorizontalResolution.toNat - v.rowWidth + v.«图标宽度».toNat) :
    v.«最左边X».toNat = v.leftStop := by
  have hLeft := toNat_of_exact rfl (x := v.«最左边X») ((firstStop_exact_iff hn hRow).mpr hWidth)
  simp only [«版面».«最左边X式», exact_halve, Expr.exact_sub, Expr.exact_add, exact_word,
    exact_total hn, UInt32.toNat_toUInt64] at hLeft
  rw [«版面».leftStop]
  omega

/-- The last stop adds nothing that could wrap. -/
theorem lastStop_exact (hn : 1 ≤ v.«启动项数».toNat)
    (hRow : v.rowWidth ≤ v.HorizontalResolution.toNat) (hLeft : v.«最左边X式».Exact) :
    v.«最右边X式».Exact := by
  obtain ⟨-, hInRow⟩ := toNat_steps hn hRow (show v.«启动项数».toNat - 1 < _ by omega)
  have hScreen := v.HorizontalResolution.toNat_lt
  have hWidth := (firstStop_exact_iff hn hRow).mp hLeft
  have hFirst := toNat_of_exact rfl (x := v.«最左边X») hLeft
  rw [toNat_firstStop hn hRow hWidth, «版面».leftStop] at hFirst
  have hStops : ((v.«图标宽度».toNat : Int) + 50) * (v.«启动项数».toNat - 1) =
      ((v.«启动项数».toNat - 1) * (v.«图标宽度».toNat + 50) : Nat) := by
    rw [Int.natCast_mul, Int.natCast_sub hn, Int.natCast_add, Int.mul_comm]
    rfl
  unfold «版面».«最右边X式»
  simp only [Expr.exact_add_iff, Expr.exact_mul_iff, Expr.exact_sub_iff, exact_word_iff, hLeft,
    true_and, Expr.exact_add, Expr.exact_mul, Expr.exact_sub, exact_word, UInt64.reduceToNat,
    Int.cast_ofNat_Int, Nat.cast_ofNat, hStops, ← hFirst]
  generalize (v.«启动项数».toNat - 1) * (v.«图标宽度».toNat + 50) = span at *
  omega

/-- Where the pointer lies at stop `k`. -/
theorem pointer_onScreen_iff (hn : 1 ≤ m.placement.«启动项数».toNat)
    (hRow : m.placement.rowWidth ≤ m.HorizontalResolution.toNat)
    (hWidth : m.placement.«指针宽度».toNat ≤
      m.HorizontalResolution.toNat - m.placement.rowWidth + m.placement.«图标宽度».toNat)
    (hBottom : 70 ≤ m.VerticalResolution.toNat) {k : Nat}
    (hk : k < m.placement.«启动项数».toNat) :
    (m.«指针矩形» k).OnScreen m ↔ m.«指针».header.PixelHeight.toNat ≤ 70 := by
  have hFirst := toNat_firstStop (v := m.placement) hn hRow hWidth
  obtain ⟨hSteps, hInRow⟩ := toNat_steps (v := m.placement) hn hRow hk
  have hScreen := m.HorizontalResolution.toNat_lt
  have hStop : m.placement.leftStop = (m.HorizontalResolution.toNat - m.placement.rowWidth +
      m.placement.«图标宽度».toNat - m.placement.«指针宽度».toNat) / 2 := rfl
  have hColumn : (m.«指针矩形» k).X.toNat =
      m.placement.leftStop + k * (m.placement.«图标宽度».toNat + 50) := by
    show (m.placement.«最左边X» + UInt64.ofNat k * m.placement.«间距»).toNat = _
    rw [UInt64.toNat_add, hFirst, hSteps, Nat.mod_eq_of_lt (by omega)]
  have hY : (m.«指针矩形» k).Y.toNat = m.VerticalResolution.toNat - 70 := by
    have hLe : (70 : UINT32) ≤ m.VerticalResolution := UInt32.le_iff_toNat_le.mpr hBottom
    show (m.VerticalResolution - 70).toUInt64.toNat = _
    rw [UInt32.toNat_toUInt64, UInt32.toNat_sub_of_le _ _ hLe]
    rfl
  have hPointer : m.placement.«指针宽度».toNat = m.«指针».header.PixelWidth.toNat :=
    UInt32.toNat_toUInt64 _
  unfold «矩形».OnScreen Rect.Inside
  simp only [hColumn, hY]
  simp only [«运行环境».«指针矩形», UInt32.toNat_toUInt64, ← hPointer]
  omega

theorem pointer_placed_iff (hRow : RowFits m) : PointerPlaced m ↔ PointerFits m := by
  obtain ⟨hn, hRow, -, -⟩ := hRow
  have hTop : m.placement.«指针Y式».Exact ↔ 70 ≤ m.VerticalResolution.toNat := by
    show (True ∧ True ∧ 0 ≤ (m.VerticalResolution.toNat : Int) - 70) ↔ _
    rw [true_and, true_and]
    omega
  constructor
  · rintro ⟨hLeft, -, hY, hInside⟩
    have hWidth := (firstStop_exact_iff hn hRow).mp hLeft
    have hBottom := hTop.mp hY
    exact ⟨hWidth, hBottom, (pointer_onScreen_iff hn hRow hWidth hBottom hn).mp (hInside 0 hn)⟩
  · rintro ⟨hWidth, hBottom, hHeight⟩
    have hLeft := (firstStop_exact_iff (v := m.placement) hn hRow).mpr hWidth
    exact ⟨hLeft, lastStop_exact hn hRow hLeft, hTop.mpr hBottom, fun k hk =>
      (pointer_onScreen_iff hn hRow hWidth hBottom hk).mpr hHeight⟩

-- ---------------------------------------------------------------------------
-- The whole run
-- ---------------------------------------------------------------------------

/-- Whatever a run comes to is placed without wrapping and on the screen. -/
structure Placed (m : «运行环境» α) : Prop where
  background : m.ReachesBackground → BackgroundPlaced m
  row : m.ReachesRow → RowPlaced m
  pointer : m.ReachesPointer → PointerPlaced m

/--
**Placement is right exactly when the pictures fit.** Every difference in the placement of
the background, the row and the pointer is nonnegative, nothing wraps, and every rectangle
given to `Blt` lies on the screen, exactly when the pictures that a run comes to are of a
size that the screen has room for.
-/
theorem placed_iff (m : «运行环境» α) : Placed m ↔
    (m.ReachesBackground → BackgroundFits m) ∧ (m.ReachesRow → RowFits m) ∧
      (m.ReachesPointer → PointerFits m) := by
  constructor
  · rintro ⟨hBackground, hRow, hPointer⟩
    refine ⟨fun h => background_placed_iff.mp (hBackground h), fun h => row_placed_iff.mp (hRow h),
      fun h => ?_⟩
    exact (pointer_placed_iff (row_placed_iff.mp (hRow h.toReachesRow))).mp (hPointer h)
  · rintro ⟨hBackground, hRow, hPointer⟩
    refine ⟨fun h => background_placed_iff.mpr (hBackground h), fun h => row_placed_iff.mpr (hRow h),
      fun h => ?_⟩
    exact (pointer_placed_iff (hRow h.toReachesRow)).mpr (hPointer h)

/-- One boot option that no keyword matches: the run comes to a row of no icons. -/
theorem emptyRow_not_placed : ¬ Placed { «运行环境».smooth with
    BootOptions := some [⟨(), some (Model.L "VenHw(EFI Shell)")⟩] } := by
  intro hPlaced
  have hReaches : ({ «运行环境».smooth with
      BootOptions := some [⟨(), some (Model.L "VenHw(EFI Shell)")⟩] } : «运行环境» Unit).ReachesRow :=
    ⟨⟨by decide, by decide, by decide, by decide, by decide, rfl, by decide +kernel⟩,
      by decide +kernel, rfl, by decide +kernel⟩
  have hEntries := (row_placed_iff.mp (hPlaced.row hReaches)).entries
  exact absurd hEntries (by decide +kernel)

end TianJi.Model

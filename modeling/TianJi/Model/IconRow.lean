import TianJi.Model.UefiMain

/-!
# TianJi — the icon row

The icon loop of `UefiMain` (天玑.c) on the screen. The column to draw at is carried from
icon to icon, and an icon whose file cannot be read is passed over with `continue` before
the column moves on. The pointer's stops are computed in closed form elsewhere.

* `iconLoop_eq`       — icon `k` is drawn as many steps to the right as icons before it load.
* `icons_aligned_iff` — every icon that loads is drawn at the stop of its entry exactly when none
  of them follows an icon that does not.
-/

namespace TianJi.Model

variable {α : Type}

/-- The rectangle on the screen that a `Blt` is given. -/
structure «矩形» where
  X : UINTN
  Y : UINTN
  «宽度» : UINTN
  «高度» : UINTN
  deriving DecidableEq, Repr

/-- The placement of a run, read off the headers of the two pictures. -/
def «运行环境».placement (m : «运行环境» α) : «版面» :=
  ⟨m.HorizontalResolution, m.VerticalResolution, m.«图标尺寸».header.PixelWidth.toUInt64,
    m.«指针».header.PixelWidth.toUInt64, UInt64.ofNat («启动项数» m.options)⟩

/-- `UINTN 起始X` -/
def «版面».«起始X» (v : «版面») : UINTN := (v.HorizontalResolution.toUInt64 - v.«图片总宽度») / 2

/-- From one icon or pointer stop to the next. -/
def «版面».«间距» (v : «版面») : UINTN := v.«图标宽度» + 50

/-- `图标坐标.Y` -/
def «运行环境».«图标Y» (m : «运行环境» α) : UINTN :=
  m.VerticalResolution.toUInt64 - m.«图标尺寸».header.PixelHeight.toUInt64 - 90

/-- `图标坐标.X`, and the rectangles drawn so far by entry. -/
structure «图标状态» where
  X : UINTN
  drawn : List (Nat × «矩形»)

/-- One turn of the icon loop. -/
def «图标一轮» (m : «运行环境» α) (s : «图标状态») (i : Nat) : «图标状态» :=
  let r := («读取并转换Bmp» (m.«图标» i) .empty).1
  -- `continue`, past `图标坐标.X += 图标尺寸.宽度 + 50`
  if EFI_ERROR r.Status then s
  else
    { X := s.X + (m.placement.«图标宽度» + 50)
      drawn := s.drawn ++ [(i, ⟨s.X, m.«图标Y», r.PixelWidth, r.PixelHeight⟩)] }

/-- The loop over `启动项数` entries. -/
def «图标循环» (m : «运行环境» α) : «图标状态» :=
  (List.range m.placement.«启动项数».toNat).foldl («图标一轮» m) ⟨m.placement.«起始X», []⟩

-- ---------------------------------------------------------------------------
-- The loop in closed form
-- ---------------------------------------------------------------------------

/-- The file of icon `k` can be read. -/
def «运行环境».Loads (m : «运行环境» α) (k : Nat) : Bool := !(m.«图标» k).fails

/-- How many icons before `k` load. -/
def «运行环境».before (m : «运行环境» α) (k : Nat) : Nat := (List.range k).countP m.Loads

/-- The rectangle of icon `k`. -/
def «运行环境».«图标矩形» (m : «运行环境» α) (k : Nat) : «矩形» :=
  ⟨m.placement.«起始X» + UInt64.ofNat (m.before k) * m.placement.«间距», m.«图标Y»,
    (m.«图标» k).header.PixelWidth.toUInt64, (m.«图标» k).header.PixelHeight.toUInt64⟩

variable (m : «运行环境» α)

theorem before_succ (k : Nat) : m.before (k + 1) = m.before k + if m.Loads k then 1 else 0 := by
  simp [«运行环境».before, List.range_succ, List.countP_singleton]

/-- One turn either draws the icon and moves on or does nothing. -/
theorem iconTurn_eq (s : «图标状态») (i : Nat) :
    «图标一轮» m s i = if m.Loads i then
      ⟨s.X + m.placement.«间距», s.drawn ++ [(i, ⟨s.X, m.«图标Y»,
        (m.«图标» i).header.PixelWidth.toUInt64, (m.«图标» i).header.PixelHeight.toUInt64⟩)]⟩
      else s := by
  have hStatus := reader_error_iff (m.«图标» i) .empty
  unfold «图标一轮» «运行环境».Loads
  cases hFail : (m.«图标» i).fails with
  | true => simp [hStatus, hFail]
  | false =>
    rw [hFail] at hStatus
    obtain ⟨-, hHeight, hWidth, -⟩ := reader_of_no_error hStatus
    simp [hStatus, hHeight, hWidth, «版面».«间距»]

/-- **The loop in closed form.** -/
theorem iconLoop_eq (n : Nat) :
    (List.range n).foldl («图标一轮» m) ⟨m.placement.«起始X», []⟩ =
      ⟨m.placement.«起始X» + UInt64.ofNat (m.before n) * m.placement.«间距»,
        ((List.range n).filter m.Loads).map fun k => (k, m.«图标矩形» k)⟩ := by
  induction n with
  | zero => simp [«运行环境».before]
  | succ n ih =>
    rw [List.range_succ, List.foldl_append, ih, List.foldl_cons, List.foldl_nil, iconTurn_eq,
      before_succ, List.filter_append, List.map_append]
    cases hLoad : m.Loads n with
    | true =>
      have hNext : (UInt64.ofNat (m.before n) + 1) * m.placement.«间距» =
          UInt64.ofNat (m.before n) * m.placement.«间距» + m.placement.«间距» := by
        rw [UInt64.add_mul, UInt64.one_mul]
      simp [hLoad, hNext, UInt64.add_assoc, «运行环境».«图标矩形»]
    | false => simp [hLoad]

theorem mem_drawn {k : Nat} {r : «矩形»} : (k, r) ∈ («图标循环» m).drawn ↔
    (k < m.placement.«启动项数».toNat ∧ m.Loads k = true) ∧ r = m.«图标矩形» k := by
  unfold «图标循环»
  rw [iconLoop_eq]
  simp only [List.mem_map, List.mem_filter, List.mem_range, Prod.mk.injEq]
  constructor
  · rintro ⟨j, hj, rfl, rfl⟩
    exact ⟨hj, rfl⟩
  · rintro ⟨hk, rfl⟩
    exact ⟨k, hk, rfl, rfl⟩

theorem before_le (k : Nat) : m.before k ≤ k := by
  have hLe := List.countP_le_length (p := m.Loads) (l := List.range k)
  rwa [List.length_range] at hLe

/-- All icons before `k` count exactly when all of them load. -/
theorem before_eq_iff (k : Nat) : m.before k = k ↔ ∀ i < k, m.Loads i = true := by
  have hAll := List.countP_eq_length (p := m.Loads) (l := List.range k)
  rw [List.length_range] at hAll
  rw [«运行环境».before, hAll]
  simp only [List.mem_range]

-- ---------------------------------------------------------------------------
-- Icons and pointer stops
-- ---------------------------------------------------------------------------

/-- Every icon whose file can be read is drawn, and what is drawn stands at the column of its
entry: `k` steps from the row's left end, and so as far from the pointer's stop `k` as the first
icon is from the first stop. -/
structure IconsAligned (m : «运行环境» α) : Prop where
  drawn : ∀ k < m.placement.«启动项数».toNat, (m.«图标» k).fails = false →
    ∃ r, (k, r) ∈ («图标循环» m).drawn
  column : ∀ k r, (k, r) ∈ («图标循环» m).drawn →
    r.X = m.placement.«起始X» + UInt64.ofNat k * (m.placement.«图标宽度» + 50) ∧
      r.X + (m.placement.«最左边X» - m.placement.«起始X») =
        m.placement.«最左边X» + UInt64.ofNat k * (m.placement.«图标宽度» + 50)

variable {m}

/-- Steps inside a row that fits the screen do not wrap. -/
theorem toNat_steps {v : «版面»} (hn : 1 ≤ v.«启动项数».toNat)
    (hRow : v.rowWidth ≤ v.HorizontalResolution.toNat) {j : Nat} (hj : j < v.«启动项数».toNat) :
    (UInt64.ofNat j * v.«间距»).toNat = j * (v.«图标宽度».toNat + 50) ∧
      j * (v.«图标宽度».toNat + 50) + v.«图标宽度».toNat ≤ v.rowWidth := by
  have hSpan := «版面».stops_add_icon hn
  have hScreen := v.HorizontalResolution.toNat_lt
  have hSmall := v.«启动项数».toNat_lt
  have hStop : j * (v.«图标宽度».toNat + 50) ≤
      (v.«启动项数».toNat - 1) * (v.«图标宽度».toNat + 50) :=
    Nat.mul_le_mul_right _ (by omega)
  have hStep : v.«间距».toNat = v.«图标宽度».toNat + 50 := by
    rw [«版面».«间距», UInt64.toNat_add]
    simp only [UInt64.reduceToNat]
    omega
  refine ⟨?_, by omega⟩
  rw [UInt64.toNat_mul, UInt64.toNat_ofNat_of_lt' (show j < 2 ^ 64 by omega), hStep,
    Nat.mod_eq_of_lt (by omega)]

/-- In a row that fits the screen the columns of two entries differ. -/
theorem column_inj {v : «版面»} (hn : 1 ≤ v.«启动项数».toNat)
    (hRow : v.rowWidth ≤ v.HorizontalResolution.toNat) {j k : Nat}
    (hk : k < v.«启动项数».toNat) (hj : j ≤ k)
    (h : UInt64.ofNat j * v.«间距» = UInt64.ofNat k * v.«间距») : j = k := by
  have hEq := congrArg UInt64.toNat h
  rw [(toNat_steps hn hRow (lt_of_le_of_lt hj hk)).1, (toNat_steps hn hRow hk).1] at hEq
  exact Nat.eq_of_mul_eq_mul_right (by omega) hEq

/--
**Icons and entries agree exactly when failures come last.** In a row that fits the screen
every icon that loads is drawn at the stop of its entry, unless one of them follows an icon that
does not.
-/
theorem icons_aligned_iff (hn : 1 ≤ m.placement.«启动项数».toNat)
    (hRow : m.placement.rowWidth ≤ m.placement.HorizontalResolution.toNat) :
    IconsAligned m ↔ ∀ k < m.placement.«启动项数».toNat, (m.«图标» k).fails = false →
      ∀ i < k, (m.«图标» i).fails = false := by
  have hLoads : ∀ i, m.Loads i = true ↔ (m.«图标» i).fails = false := fun i => by
    rw [«运行环境».Loads, Bool.not_eq_true']
  constructor
  · intro hAligned k hk hLoad i hi
    obtain ⟨r, hDrawn⟩ := hAligned.drawn k hk hLoad
    obtain ⟨hColumn, -⟩ := hAligned.column k r hDrawn
    obtain ⟨-, rfl⟩ := (mem_drawn m).mp hDrawn
    have hBefore := column_inj hn hRow hk (before_le m k) (UInt64.add_right_inj _ |>.mp hColumn)
    exact (hLoads i).mp ((before_eq_iff m k).mp hBefore i hi)
  · intro hLast
    refine ⟨fun k hk hLoad => ⟨_, (mem_drawn m).mpr ⟨⟨hk, (hLoads k).mpr hLoad⟩, rfl⟩⟩, ?_⟩
    intro k r hDrawn
    obtain ⟨⟨hk, hLoad⟩, rfl⟩ := (mem_drawn m).mp hDrawn
    have hBefore : m.before k = k := (before_eq_iff m k).mpr fun i hi =>
      (hLoads i).mpr (hLast k hk ((hLoads k).mp hLoad) i hi)
    have hColumn : (m.«图标矩形» k).X =
        m.placement.«起始X» + UInt64.ofNat k * (m.placement.«图标宽度» + 50) := by
      rw [«运行环境».«图标矩形», hBefore]
      rfl
    refine ⟨hColumn, ?_⟩
    rw [hColumn, UInt64.add_comm m.placement.«起始X», UInt64.add_assoc,
      UInt64.add_comm m.placement.«起始X», UInt64.sub_add_cancel, UInt64.add_comm]

/-- Two entries, and both icons load. -/
def «运行环境».twoIcons : «运行环境» Unit :=
  { «运行环境».smooth with
    BootOptions := some [⟨(), some (L "Microsoft")⟩, ⟨(), some (L "ubuntu")⟩]
    «图标» := fun _ => «运行环境».smooth.«指针» }

theorem icons_aligned_twoIcons : IconsAligned «运行环境».twoIcons :=
  (icons_aligned_iff (by decide +kernel) (by decide +kernel)).mpr fun _ _ hLoad _ _ => hLoad

/-- Two entries, and no file for the icon of the first. -/
def «运行环境».firstIconMissing : «运行环境» Unit :=
  { «运行环境».twoIcons with
    «图标» := fun i =>
      if i = 0 then { «运行环境».smooth.«指针» with Open := EFI_NOT_FOUND }
      else «运行环境».smooth.«指针» }

/-- The second entry's icon is drawn where the pointer's first stop is. -/
theorem second_icon_first_column : ¬ IconsAligned «运行环境».firstIconMissing := by
  intro hAligned
  obtain ⟨hColumn, -⟩ := hAligned.column 1 _
    ((mem_drawn «运行环境».firstIconMissing).mpr ⟨by decide +kernel, rfl⟩)
  exact absurd hColumn (by decide +kernel)

end TianJi.Model

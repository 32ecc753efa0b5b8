import TianJi.Model.Uefi
import Mathlib.Tactic.Ring

/-!
# TianJi — placement arithmetic

The expressions by which `UefiMain` (天玑.c) places the icon row and the pointer, in
`UINTN` arithmetic as the code writes them. `Fits` is the assumption under which the
row was designed: at least one icon, a pointer no wider than an icon, and a row no wider
than the screen. Under it nothing wraps, and the pointer's stops are the exact numbers

  `leftStop + k * (图标宽度 + 50)`,  `k < 启动项数`,

all of them with the whole pointer on the screen (`stop_onScreen`).
-/

namespace TianJi.Model

/-- What the placement is computed from: the mode's resolution, the sizes of the icon
template and of the pointer image, and the number of table entries. -/
structure «版面» where
  HorizontalResolution : UINT32
  VerticalResolution : UINT32
  «图标宽度» : UINTN
  «指针宽度» : UINTN
  «启动项数» : UINTN
  deriving DecidableEq, Repr

namespace «版面»

/-- `UINTN 图片总宽度` -/
def «图片总宽度» (v : «版面») : UINTN :=
  (v.«图标宽度» * v.«启动项数») + (50 * (v.«启动项数» - 1))

/-- `UINTN 最左边X` -/
def «最左边X» (v : «版面») : UINTN :=
  (v.HorizontalResolution.toUInt64 - v.«图片总宽度» + v.«图标宽度» - v.«指针宽度») / 2

/-- `UINTN 最右边X` -/
def «最右边X» (v : «版面») : UINTN :=
  v.«最左边X» + (v.«图标宽度» + 50) * (v.«启动项数» - 1)

/-- `指针坐标.Y = VerticalResolution-70`: a 32-bit subtraction, widened afterwards. -/
def «指针Y» (v : «版面») : UINTN := (v.VerticalResolution - 70).toUInt64

/-! ## The exact layout -/

/-- Width of the icon row as an exact number. -/
def rowWidth (v : «版面») : Nat :=
  v.«启动项数».toNat * v.«图标宽度».toNat + 50 * (v.«启动项数».toNat - 1)

/-- Leftmost pointer stop as an exact number. -/
def leftStop (v : «版面») : Nat :=
  (v.HorizontalResolution.toNat - v.rowWidth + v.«图标宽度».toNat - v.«指针宽度».toNat) / 2

/-- The row fits the screen and the pointer is no wider than an icon. -/
structure Fits (v : «版面») : Prop where
  pointer : v.«指针宽度».toNat ≤ v.«图标宽度».toNat
  entries : 1 ≤ v.«启动项数».toNat
  row : v.rowWidth ≤ v.HorizontalResolution.toNat

variable {v : «版面»}

/-- The stops span the row less one icon. -/
theorem stops_add_icon (h : 1 ≤ v.«启动项数».toNat) :
    (v.«启动项数».toNat - 1) * (v.«图标宽度».toNat + 50) + v.«图标宽度».toNat = v.rowWidth := by
  obtain ⟨m, hm⟩ : ∃ m, v.«启动项数».toNat = m + 1 := ⟨_, (Nat.sub_add_cancel h).symm⟩
  rw [rowWidth, hm, Nat.add_sub_cancel]
  ring

namespace Fits

variable (h : v.Fits)
include h

theorem rowWidth_lt : v.rowWidth < 2 ^ 32 :=
  lt_of_le_of_lt h.row v.HorizontalResolution.toNat_lt

theorem icon_le : v.«图标宽度».toNat ≤ v.rowWidth := by
  have := stops_add_icon h.entries
  omega

theorem stops_le : (v.«启动项数».toNat - 1) * (v.«图标宽度».toNat + 50) ≤ v.rowWidth := by
  have := stops_add_icon h.entries
  omega

theorem toNat_step : (v.«图标宽度» + 50).toNat = v.«图标宽度».toNat + 50 := by
  have h1 := h.icon_le
  have h2 := h.rowWidth_lt
  rw [UInt64.toNat_add]
  simp only [UInt64.reduceToNat]
  omega

theorem toNat_pred : (v.«启动项数» - 1).toNat = v.«启动项数».toNat - 1 := by
  have hLe : (1 : UINTN) ≤ v.«启动项数» := UInt64.le_iff_toNat_le.mpr h.entries
  rw [UInt64.toNat_sub_of_le _ _ hLe]
  rfl

theorem toNat_totalWidth : v.«图片总宽度».toNat = v.rowWidth := by
  have hRow := h.rowWidth_lt
  have hEq : v.rowWidth =
      v.«图标宽度».toNat * v.«启动项数».toNat + 50 * (v.«启动项数».toNat - 1) := by
    rw [rowWidth, Nat.mul_comm]
  rw [«图片总宽度», UInt64.toNat_add, UInt64.toNat_mul, UInt64.toNat_mul, h.toNat_pred]
  simp only [UInt64.reduceToNat]
  rw [hEq] at hRow ⊢
  rw [Nat.mod_eq_of_lt (a := v.«图标宽度».toNat * _) (by omega),
    Nat.mod_eq_of_lt (a := 50 * _) (by omega), Nat.mod_eq_of_lt (by omega)]

theorem toNat_leftStop : v.«最左边X».toNat = v.leftStop := by
  have hRow := h.row
  have hPointer := h.pointer
  have hIcon := h.icon_le
  have hWidth := h.rowWidth_lt
  have hScreen := v.HorizontalResolution.toNat_lt
  have hSub : (v.HorizontalResolution.toUInt64 - v.«图片总宽度»).toNat =
      v.HorizontalResolution.toNat - v.rowWidth := by
    rw [UInt64.toNat_sub_of_le _ _ ?_, h.toNat_totalWidth, UInt32.toNat_toUInt64]
    rw [UInt64.le_iff_toNat_le, h.toNat_totalWidth, UInt32.toNat_toUInt64]
    exact hRow
  have hAdd : (v.HorizontalResolution.toUInt64 - v.«图片总宽度» + v.«图标宽度»).toNat =
      v.HorizontalResolution.toNat - v.rowWidth + v.«图标宽度».toNat := by
    rw [UInt64.toNat_add, hSub, Nat.mod_eq_of_lt (by omega)]
  have hDiff : (v.HorizontalResolution.toUInt64 - v.«图片总宽度» + v.«图标宽度» -
      v.«指针宽度»).toNat =
      v.HorizontalResolution.toNat - v.rowWidth + v.«图标宽度».toNat - v.«指针宽度».toNat := by
    rw [UInt64.toNat_sub_of_le _ _ ?_, hAdd]
    rw [UInt64.le_iff_toNat_le, hAdd]
    omega
  rw [«最左边X», UInt64.toNat_div, hDiff]
  rfl

theorem leftStop_le : v.leftStop ≤ v.HorizontalResolution.toNat := by
  have h1 := h.row
  have h2 := h.icon_le
  rw [leftStop]
  omega

theorem toNat_rightStop : v.«最右边X».toNat =
    v.leftStop + (v.«启动项数».toNat - 1) * (v.«图标宽度».toNat + 50) := by
  have hStops := h.stops_le
  have hRow := h.rowWidth_lt
  have hLeft := h.leftStop_le
  have hScreen := v.HorizontalResolution.toNat_lt
  rw [«最右边X», UInt64.toNat_add, UInt64.toNat_mul, h.toNat_step, h.toNat_pred,
    h.toNat_leftStop, Nat.mul_comm (_ + 50)]
  rw [Nat.mod_eq_of_lt (a := (_ - 1) * _) (by omega), Nat.mod_eq_of_lt (by omega)]

/-- The pointer stands on the screen at its rightmost stop, hence at every stop. -/
theorem stop_onScreen : v.«最右边X».toNat + v.«指针宽度».toNat ≤ v.HorizontalResolution.toNat := by
  have hStops := stops_add_icon h.entries
  have hRow := h.row
  have hPointer := h.pointer
  rw [h.toNat_rightStop, leftStop]
  omega

end Fits

end «版面»

end TianJi.Model

import TianJi.Lib.Carousel
import TianJi.Model.BootTable
import TianJi.Model.Layout

/-!
# TianJi — the key loop's selection and pointer

The state that `UefiMain` (天玑.c) carries from key stroke to key stroke: the selected
entry and the pointer's column. A key updates both side by side. The index wraps by
explicit tests; the column by an unsigned subtraction or addition followed by two range
checks.

The index refines the cyclic selection of `Carousel` (`selection_refines`). The column
follows it at every stop but one: stepping left from the first entry subtracts a step
from the leftmost stop, and when that stop is nearer to the screen's edge than one step
the difference wraps around `2 ^ 64`, passes the first check and is sent back to the
leftmost stop by the second one (`pointer_step`).

* `pointer_under_selection_iff` — in every run the pointer stands under the selected
  entry after every key exactly when no key takes that step.
* `selected_slot_filled_iff`    — Enter finds a filled table slot exactly when the table
  has one.
-/

namespace TianJi.Model

open Carousel

/-- `指针坐标.X`, `选择启动项` and `绘制`. -/
structure «键状态» where
  «指针X» : UINTN
  «选择启动项» : UINTN
  «绘制» : Bool
  deriving DecidableEq, Repr

/-- The values when the loop is entered. -/
def «初态» (v : «版面») : «键状态» := ⟨v.«最左边X», 0, false⟩

/-- `switch (Key.ScanCode)` -/
def «移动» (v : «版面») (s : «键状态») (Key : EFI_INPUT_KEY) : «键状态» :=
  if Key.ScanCode = SCAN_LEFT then
    { «指针X» := s.«指针X» - (v.«图标宽度» + 50)
      «选择启动项» := if s.«选择启动项» = 0 then v.«启动项数» - 1 else s.«选择启动项» - 1
      «绘制» := true }
  else if Key.ScanCode = SCAN_RIGHT then
    { «指针X» := s.«指针X» + (v.«图标宽度» + 50)
      «选择启动项» := if s.«选择启动项» = v.«启动项数» - 1 then 0 else s.«选择启动项» + 1
      «绘制» := true }
  else { s with «绘制» := false }

/-- The two range checks on the column, one after the other. -/
def «夹回» (v : «版面») (X : UINTN) : UINTN :=
  let X := if X < v.«最左边X» then v.«最右边X» else X
  if X > v.«最右边X» then v.«最左边X» else X

/-- What one key stroke does to the state. -/
def «处理按键» (v : «版面») (s : «键状态») (Key : EFI_INPUT_KEY) : «键状态» :=
  let s := «移动» v s Key
  { s with «指针X» := «夹回» v s.«指针X» }

/-- The state after a sequence of key strokes. -/
def runKeys (v : «版面») (keys : List EFI_INPUT_KEY) : «键状态» :=
  keys.foldl («处理按键» v) («初态» v)

@[simp] theorem runKeys_nil (v : «版面») : runKeys v [] = «初态» v := rfl

@[simp] theorem runKeys_append_singleton (v : «版面») (keys : List EFI_INPUT_KEY)
    (Key : EFI_INPUT_KEY) :
    runKeys v (keys ++ [Key]) = «处理按键» v (runKeys v keys) Key := by
  simp [runKeys]

/-! ## The index as a cyclic selection -/

/-- The move a key asks for. -/
def moveOf (Key : EFI_INPUT_KEY) : Move :=
  if Key.ScanCode = SCAN_LEFT then .prev
  else if Key.ScanCode = SCAN_RIGHT then .next
  else .stay

theorem moveOf_eq_prev {Key : EFI_INPUT_KEY} :
    moveOf Key = .prev ↔ Key.ScanCode = SCAN_LEFT := by
  unfold moveOf
  split_ifs with h h' <;> simp [h]

/-- A key's effect on the state, read off the move it asks for. -/
theorem move_eq (v : «版面») (s : «键状态») (Key : EFI_INPUT_KEY) :
    «移动» v s Key = match moveOf Key with
      | .prev => ⟨s.«指针X» - (v.«图标宽度» + 50),
          if s.«选择启动项» = 0 then v.«启动项数» - 1 else s.«选择启动项» - 1, true⟩
      | .next => ⟨s.«指针X» + (v.«图标宽度» + 50),
          if s.«选择启动项» = v.«启动项数» - 1 then 0 else s.«选择启动项» + 1, true⟩
      | .stay => { s with «绘制» := false } := by
  unfold «移动» moveOf
  split_ifs <;> rfl

/-- The places the index goes round: the entries, and over an empty table every `UINTN`,
since `启动项数-1` wraps. -/
def places («启动项数» : UINTN) : Nat := if «启动项数» = 0 then 2 ^ 64 else «启动项数».toNat

theorem places_of_pos {n : UINTN} (hn : 1 ≤ n.toNat) : places n = n.toNat := by
  refine if_neg fun hZero => ?_
  rw [hZero] at hn
  exact absurd hn (by decide)

theorem toNat_sub_one (n : UINTN) : (n - 1).toNat = places n - 1 := by
  by_cases hZero : n = 0
  · rw [hZero]
    rfl
  · have hPos : 1 ≤ n.toNat := by
      rw [Nat.one_le_iff_ne_zero, ne_eq, ← UInt64.toNat_zero, UInt64.toNat_inj]
      exact hZero
    have hLe : (1 : UINTN) ≤ n := UInt64.le_iff_toNat_le.mpr hPos
    rw [UInt64.toNat_sub_of_le _ _ hLe, places_of_pos hPos]
    rfl

theorem places_pos (n : UINTN) : 0 < places n := by
  unfold places
  split_ifs with hZero
  · decide
  · rw [Nat.pos_iff_ne_zero, ne_eq, ← UInt64.toNat_zero, UInt64.toNat_inj]
    exact hZero

theorem places_le (n : UINTN) : places n ≤ 2 ^ 64 := by
  unfold places
  split_ifs with hZero
  · exact le_refl _
  · exact n.toNat_lt.le

/-- One key moves the index as the cyclic selection moves. -/
theorem selection_step {v : «版面»} {s : «键状态»} {i : Nat} (hi : i < places v.«启动项数»)
    (hs : s.«选择启动项».toNat = i) (Key : EFI_INPUT_KEY) :
    («处理按键» v s Key).«选择启动项».toNat = step (places v.«启动项数») i (moveOf Key) := by
  have hLast := toNat_sub_one v.«启动项数»
  have hBound := places_le v.«启动项数»
  simp only [«处理按键», move_eq]
  cases moveOf Key with
  | stay => exact hs
  | prev =>
    have hZero : s.«选择启动项» = 0 ↔ i = 0 := by
      rw [← UInt64.toNat_inj, hs]
      rfl
    simp only [step, hZero]
    split_ifs with h
    · exact hLast
    · have hLe : (1 : UINTN) ≤ s.«选择启动项» := by
        rw [UInt64.le_iff_toNat_le, hs]
        exact Nat.one_le_iff_ne_zero.mpr h
      rw [UInt64.toNat_sub_of_le _ _ hLe, hs]
      rfl
  | next =>
    have hEnd : s.«选择启动项» = v.«启动项数» - 1 ↔ i = places v.«启动项数» - 1 := by
      rw [← UInt64.toNat_inj, hs, hLast]
    simp only [step, hEnd]
    split_ifs with h
    · rfl
    · rw [UInt64.toNat_add, hs, UInt64.toNat_one]
      omega

/-- **The index refines the cyclic selection** among its places. -/
theorem selection_refines (v : «版面») (keys : List EFI_INPUT_KEY) :
    (runKeys v keys).«选择启动项».toNat = run (places v.«启动项数») (keys.map moveOf) := by
  induction keys using List.reverseRecOn with
  | nil => rfl
  | append_singleton keys Key ih =>
    rw [runKeys_append_singleton, List.map_append, List.map_singleton, run_append_singleton]
    exact selection_step (run_lt (places_pos _) _) ih Key

/-! ## The pointer's column -/

namespace «版面»

/-- The column of pointer stop `k`. -/
def stop (v : «版面») (k : Nat) : Nat := v.leftStop + k * (v.«图标宽度».toNat + 50)

theorem stop_zero (v : «版面») : v.stop 0 = v.leftStop := by simp [stop]

theorem stop_succ (v : «版面») (k : Nat) :
    v.stop (k + 1) = v.stop k + (v.«图标宽度».toNat + 50) := by
  rw [stop, stop, Nat.succ_mul, Nat.add_assoc]

theorem stop_mono (v : «版面») {j k : Nat} (h : j ≤ k) : v.stop j ≤ v.stop k :=
  Nat.add_le_add_left (Nat.mul_le_mul_right _ h) _

theorem stop_lt_stop (v : «版面») {j k : Nat} (h : j < k) : v.stop j < v.stop k := by
  have := v.stop_mono (Nat.succ_le_of_lt h)
  rw [stop_succ] at this
  omega

end «版面»

open «版面»

variable {v : «版面»}

theorem toNat_rightStop_eq (h : v.Fits) :
    v.«最右边X».toNat = v.stop (v.«启动项数».toNat - 1) :=
  h.toNat_rightStop

/-- Every stop is far below the word size, even with two more steps added. -/
theorem stop_small (h : v.Fits) {k : Nat} (hk : k < v.«启动项数».toNat) :
    v.stop k ≤ v.stop (v.«启动项数».toNat - 1) ∧
      v.stop (v.«启动项数».toNat - 1) < 2 ^ 32 ∧ v.«图标宽度».toNat < 2 ^ 32 := by
  have h1 := h.stop_onScreen
  have h2 := v.HorizontalResolution.toNat_lt
  have h3 := h.icon_le
  have h4 := h.rowWidth_lt
  rw [toNat_rightStop_eq h] at h1
  exact ⟨v.stop_mono (by omega), by omega, by omega⟩

/-- The range checks leave a column between the outer stops alone. -/
theorem clamp_of_mem {X : UINTN} (hl : v.«最左边X» ≤ X) (hr : X ≤ v.«最右边X») :
    «夹回» v X = X := by
  unfold «夹回»
  rw [if_neg (UInt64.not_lt.mpr hl)]
  exact if_neg (UInt64.not_lt.mpr hr)

/-- Below the leftmost stop the first check sends the column to the right end. -/
theorem clamp_of_lt {X : UINTN} (hl : X < v.«最左边X») : «夹回» v X = v.«最右边X» := by
  unfold «夹回»
  rw [if_pos hl]
  exact if_neg (UInt64.lt_irrefl _)

/-- Beyond the rightmost stop the second check sends the column to the left end. -/
theorem clamp_of_gt {X : UINTN} (hl : v.«最左边X» ≤ X) (hr : v.«最右边X» < X) :
    «夹回» v X = v.«最左边X» := by
  unfold «夹回»
  rw [if_neg (UInt64.not_lt.mpr hl)]
  exact if_pos hr

/-- The range checks over the stops: below them the column goes to the last one, beyond
them to the first one. -/
theorem toNat_clamp (h : v.Fits) (X : UINTN) : («夹回» v X).toNat =
    if X.toNat < v.stop 0 then v.stop (v.«启动项数».toNat - 1)
    else if v.stop (v.«启动项数».toNat - 1) < X.toNat then v.stop 0 else X.toNat := by
  have hL : v.«最左边X».toNat = v.stop 0 := by rw [h.toNat_leftStop, stop_zero]
  have hR := toNat_rightStop_eq h
  split_ifs with hLow hHigh
  · rw [clamp_of_lt, hR]
    rw [UInt64.lt_iff_toNat_lt, hL]
    exact hLow
  · rw [clamp_of_gt, hL]
    · rw [UInt64.le_iff_toNat_le, hL]
      exact not_lt.mp hLow
    · rw [UInt64.lt_iff_toNat_lt, hR]
      exact hHigh
  · rw [clamp_of_mem]
    · rw [UInt64.le_iff_toNat_le, hL]
      exact not_lt.mp hLow
    · rw [UInt64.le_iff_toNat_le, hR]
      exact not_lt.mp hHigh

/-- The column of a stop of the row stays where it is. -/
theorem toNat_clamp_stop (h : v.Fits) {X : UINTN} {k : Nat} (hk : k < v.«启动项数».toNat)
    (hX : X.toNat = v.stop k) : («夹回» v X).toNat = v.stop k := by
  have hFirst := v.stop_mono (Nat.zero_le k)
  obtain ⟨hLast, -, -⟩ := stop_small h hk
  rw [toNat_clamp h, if_neg (by omega), if_neg (by omega), hX]

/-- One step to the right, before the checks. -/
theorem toNat_stepRight (h : v.Fits) {X : UINTN} {i : Nat} (hi : i < v.«启动项数».toNat)
    (hX : X.toNat = v.stop i) : (X + (v.«图标宽度» + 50)).toNat = v.stop (i + 1) := by
  obtain ⟨hLe, hSmall, hIcon⟩ := stop_small h hi
  rw [UInt64.toNat_add, h.toNat_step, hX, stop_succ]
  omega

/-- One step to the left, before the checks, where there is room for it. -/
theorem toNat_stepLeft (h : v.Fits) {X : UINTN} (hX : v.«图标宽度».toNat + 50 ≤ X.toNat) :
    (X - (v.«图标宽度» + 50)).toNat = X.toNat - (v.«图标宽度».toNat + 50) := by
  rw [UInt64.toNat_sub_of_le, h.toNat_step]
  rw [UInt64.le_iff_toNat_le, h.toNat_step]
  exact hX

/-- Where there is no room the subtraction wraps, beyond every stop. -/
theorem toNat_stepLeft_wrap (h : v.Fits) {X : UINTN}
    (hX : X.toNat < v.«图标宽度».toNat + 50) :
    (X - (v.«图标宽度» + 50)).toNat = 2 ^ 64 + X.toNat - (v.«图标宽度».toNat + 50) := by
  have hIcon := h.icon_le
  have hRow := h.rowWidth_lt
  rw [UInt64.toNat_sub, h.toNat_step]
  omega

/-- A step to the left from the first entry that underflows: there is another entry to
wrap to, and the leftmost stop is nearer to the edge than one step. -/
def Underflows (v : «版面») (i : Nat) (m : Move) : Prop :=
  m = .prev ∧ i = 0 ∧ v.leftStop < v.«图标宽度».toNat + 50 ∧ v.«启动项数».toNat ≠ 1

/-- A step to the left from the first entry: the wrapped difference is beyond every stop,
and the second check sends it back to the left end. -/
theorem prev_of_first (h : v.Fits) {X : UINTN} (hX : X.toNat = v.stop 0) :
    («夹回» v (X - (v.«图标宽度» + 50))).toNat =
      if v.leftStop < v.«图标宽度».toNat + 50 then v.stop 0
      else v.stop (v.«启动项数».toNat - 1) := by
  obtain ⟨hLe, hSmall, hIcon⟩ := stop_small h h.entries
  have hZero := v.stop_zero
  rw [toNat_clamp h]
  by_cases hRoom : v.leftStop < v.«图标宽度».toNat + 50
  · have hWrap := toNat_stepLeft_wrap h (X := X) (by omega)
    rw [if_pos hRoom, hWrap, if_neg (by omega), if_pos (by omega)]
  · have hSub := toNat_stepLeft h (X := X) (by omega)
    rw [if_neg hRoom, hSub, if_pos (by omega)]

/-- **The pointer step.** From the stop of entry `i` a key takes the column to the stop of
the entry it selects, except that the underflowing step leaves it at the left end. -/
theorem pointer_step (h : v.Fits) {s : «键状态»} {i : Nat} (hi : i < v.«启动项数».toNat)
    (hX : s.«指针X».toNat = v.stop i) (Key : EFI_INPUT_KEY) :
    (¬ Underflows v i (moveOf Key) → («处理按键» v s Key).«指针X».toNat =
        v.stop (step v.«启动项数».toNat i (moveOf Key))) ∧
    (Underflows v i (moveOf Key) → («处理按键» v s Key).«指针X».toNat = v.stop 0) := by
  simp only [«处理按键», move_eq]
  cases moveOf Key with
  | stay => exact ⟨fun _ => toNat_clamp_stop h hi hX, fun hU => absurd hU.1 (by simp)⟩
  | next =>
    refine ⟨fun _ => ?_, fun hU => absurd hU.1 (by simp)⟩
    have hAdd := toNat_stepRight h hi hX
    dsimp only [step]
    split_ifs with hEnd
    · -- one step past the rightmost stop
      have hPast := v.stop_lt_stop (show v.«启动项数».toNat - 1 < i + 1 by omega)
      have hFirst := v.stop_mono (Nat.zero_le (i + 1))
      rw [toNat_clamp h, if_neg (by omega), if_pos (by omega)]
    · exact toNat_clamp_stop h (by omega) hAdd
  | prev =>
    dsimp only [step]
    split_ifs with hFirst
    · subst hFirst
      have hPrev := prev_of_first h hX
      split_ifs at hPrev with hRoom
      · refine ⟨fun hU => ?_, fun _ => hPrev⟩
        have hOne : v.«启动项数».toNat = 1 := by
          by_contra hne
          exact hU ⟨rfl, rfl, hRoom, hne⟩
        rw [hPrev, hOne]
      · exact ⟨fun _ => hPrev, fun hU => absurd hU.2.2.1 hRoom⟩
    · refine ⟨fun _ => toNat_clamp_stop h (by omega) ?_, fun hU => absurd hU.2.1 hFirst⟩
      have hPred := v.stop_succ (i - 1)
      rw [Nat.sub_add_cancel (Nat.one_le_iff_ne_zero.mpr hFirst)] at hPred
      rw [toNat_stepLeft h (by omega), hX, hPred, Nat.add_sub_cancel]

/-! ## The pointer over whole runs -/

/-- The pointer stands under the entry that Enter would boot, in `UINTN` arithmetic. -/
def PointerUnderSelection (v : «版面») (s : «键状态») : Prop :=
  s.«指针X» = v.«最左边X» + s.«选择启动项» * (v.«图标宽度» + 50)

/-- On a filled entry the wrapping product and sum are exact. -/
theorem pointerUnderSelection_iff (h : v.Fits) {s : «键状态»}
    (hs : s.«选择启动项».toNat < v.«启动项数».toNat) :
    PointerUnderSelection v s ↔ s.«指针X».toNat = v.stop s.«选择启动项».toNat := by
  obtain ⟨hLe, hSmall, -⟩ := stop_small h hs
  have hStop : v.stop s.«选择启动项».toNat =
      v.leftStop + s.«选择启动项».toNat * (v.«图标宽度».toNat + 50) := rfl
  have hMul : (s.«选择启动项» * (v.«图标宽度» + 50)).toNat =
      s.«选择启动项».toNat * (v.«图标宽度».toNat + 50) := by
    rw [UInt64.toNat_mul, h.toNat_step, Nat.mod_eq_of_lt (by omega)]
  rw [PointerUnderSelection, ← UInt64.toNat_inj, UInt64.toNat_add, hMul, h.toNat_leftStop,
    ← hStop, Nat.mod_eq_of_lt (by omega)]

/-- The run lemma: as long as no key underflows, the column is the stop of the selection. -/
theorem pointer_run (h : v.Fits) {keys : List EFI_INPUT_KEY}
    (hKeys : ∀ ks Key, ks ++ [Key] <+: keys →
      ¬ Underflows v (run v.«启动项数».toNat (ks.map moveOf)) (moveOf Key)) :
    (runKeys v keys).«指针X».toNat = v.stop (run v.«启动项数».toNat (keys.map moveOf)) := by
  induction keys using List.reverseRecOn with
  | nil => rw [runKeys_nil, List.map_nil, run_nil, v.stop_zero]; exact h.toNat_leftStop
  | append_singleton keys Key ih =>
    have hPrefix := ih fun ks K hk => hKeys ks K (hk.trans (List.prefix_append keys [Key]))
    have hLast := hKeys keys Key List.prefix_rfl
    rw [runKeys_append_singleton, List.map_append, List.map_singleton, run_append_singleton]
    exact (pointer_step h (run_lt h.entries _) hPrefix Key).1 hLast

/-- How far to the right of the first entry a key sequence moves, not counting wraps. -/
def netRight (keys : List EFI_INPUT_KEY) : Int :=
  (keys.countP fun Key => Key.ScanCode = SCAN_RIGHT) -
    (keys.countP fun Key => Key.ScanCode = SCAN_LEFT)

theorem net_map_moveOf (keys : List EFI_INPUT_KEY) : net (keys.map moveOf) = netRight keys := by
  induction keys using List.reverseRecOn with
  | nil => rfl
  | append_singleton keys Key ih =>
    have hApart : SCAN_RIGHT ≠ SCAN_LEFT := by decide
    rw [List.map_append, List.map_singleton, net_append_singleton, ih, netRight, netRight,
      List.countP_append, List.countP_append, List.countP_singleton, List.countP_singleton]
    unfold moveOf
    by_cases hLeft : Key.ScanCode = SCAN_LEFT
    · simp [hLeft, hApart.symm, Move.delta]
      ring
    · by_cases hRight : Key.ScanCode = SCAN_RIGHT
      · simp [hRight, hApart, Move.delta]
        ring
      · simp [hLeft, hRight, Move.delta]

/--
**Pointer and selection agree exactly when no key underflows.** In a row that fits the
screen the pointer stands under the selected entry after every key of a run, unless there
are two entries or more, the leftmost stop is nearer to the screen's edge than one step,
and the run presses left while it is back at the first entry.
-/
theorem pointer_under_selection_iff (hFits : v.Fits) (keys : List EFI_INPUT_KEY) :
    (∀ ks, ks <+: keys → PointerUnderSelection v (runKeys v ks)) ↔
      v.«启动项数».toNat = 1 ∨
      v.«图标宽度».toNat + 50 ≤ (v.HorizontalResolution.toNat - (v.«启动项数».toNat *
        v.«图标宽度».toNat + 50 * (v.«启动项数».toNat - 1)) + v.«图标宽度».toNat -
        v.«指针宽度».toNat) / 2 ∨
      ∀ ks Key, ks ++ [Key] <+: keys → Key.ScanCode = SCAN_LEFT →
        ¬ (v.«启动项数».toNat : Int) ∣ netRight ks := by
  rw [show (v.HorizontalResolution.toNat - (v.«启动项数».toNat * v.«图标宽度».toNat +
    50 * (v.«启动项数».toNat - 1)) + v.«图标宽度».toNat - v.«指针宽度».toNat) / 2 = v.leftStop from rfl]
  have hSel := selection_refines v
  rw [places_of_pos hFits.entries] at hSel
  have hLt := run_lt (n := v.«启动项数».toNat) hFits.entries
  have hAt : ∀ ks, PointerUnderSelection v (runKeys v ks) ↔ (runKeys v ks).«指针X».toNat =
      v.stop (run v.«启动项数».toNat (ks.map moveOf)) := fun ks => by
    rw [pointerUnderSelection_iff hFits (by rw [hSel]; exact hLt _), hSel]
  constructor
  · intro hRun
    by_contra hNot
    push Not at hNot
    obtain ⟨hMany, hRoom, ks, Key, hPrefix, hLeft, hBack⟩ := hNot
    have hZero : run v.«启动项数».toNat (ks.map moveOf) = 0 := by
      rw [run_eq_zero_iff hFits.entries, net_map_moveOf]
      exact hBack
    have hMove := moveOf_eq_prev.mpr hLeft
    have hBefore := (hAt ks).mp (hRun ks ((List.prefix_append ks [Key]).trans hPrefix))
    have hAfter := (hAt _).mp (hRun _ hPrefix)
    rw [hZero] at hBefore
    -- the index has gone to the last entry, the column has stayed at the first stop
    rw [runKeys_append_singleton, List.map_append, List.map_singleton, run_append_singleton,
      hZero, hMove, (pointer_step hFits hFits.entries hBefore Key).2
        ⟨hMove, rfl, by omega, hMany⟩] at hAfter
    have hEntries := hFits.entries
    have hWrapped : 0 < step v.«启动项数».toNat 0 .prev := by
      rw [step, if_pos rfl]
      omega
    have hDiff := v.stop_lt_stop hWrapped
    omega
  · intro hCond ks hks
    rw [hAt]
    refine pointer_run hFits fun ks' Key hk hU => ?_
    obtain ⟨hMove, hZero, hRoom, hMany⟩ := hU
    rw [run_eq_zero_iff hFits.entries, net_map_moveOf] at hZero
    rcases hCond with hOne | hWide | hNever
    · exact hMany hOne
    · omega
    · exact hNever ks' Key (hk.trans hks) (moveOf_eq_prev.mp hMove) hZero

/-- Two 128-pixel icons on a 1920-pixel screen leave room for a step at the left end, so a
left and a right key bring the pointer round and back. -/
theorem pointer_under_selection_1920 :
    PointerUnderSelection ⟨1920, 1080, 128, 64, 2⟩
      (runKeys ⟨1920, 1080, 128, 64, 2⟩ [⟨SCAN_LEFT, 0⟩, ⟨SCAN_RIGHT, 0⟩]) :=
  (pointer_under_selection_iff ⟨by decide, by decide, by decide⟩ _).mpr
    (Or.inr (Or.inl (by decide))) _ (List.prefix_refl _)

/-- Three 256-pixel icons on a 1000-pixel screen: one left key selects the last entry and
leaves the pointer under the first. -/
theorem pointer_left_behind :
    («版面».mk 1000 768 256 64 3).Fits ∧
      ¬ PointerUnderSelection ⟨1000, 768, 256, 64, 3⟩
        (runKeys ⟨1000, 768, 256, 64, 3⟩ [⟨SCAN_LEFT, 0⟩]) := by
  refine ⟨⟨by decide, by decide, by decide⟩, ?_⟩
  unfold PointerUnderSelection
  decide +kernel

/-! ## The slot that Enter reads -/

/-- `sizeof (EFI_BOOT_MANAGER_LOAD_OPTION)` on X64. -/
def sizeofLoadOption : Nat := 88

/-- The array `EfiBootManagerGetLoadOptions` returns: its elements lie in memory, so they
are fewer than the addresses. -/
structure LoadOptionArray (α : Type) where
  list : List (BootOption α)
  fits : list.length * sizeofLoadOption ≤ 2 ^ 64

variable {α : Type}

theorem length_entriesOf_le (o : BootOption α) : (entriesOf o).length ≤ 4 := by
  obtain ⟨option, text⟩ := o
  cases text with
  | none => simp [entriesOf]
  | some t =>
    simp only [entriesOf, Option.map_some, Option.getD_some, List.length_map, namesOf]
    exact List.length_filter_le _ _

/-- The count of entries is a `UINTN` without wrapping. -/
theorem bootCount_lt (b : LoadOptionArray α) : «启动项数» b.list < 2 ^ 64 := by
  have hSum := length_flatMap_entriesOf_le fun o (_ : o ∈ b.list) => length_entriesOf_le o
  have hFits := b.fits
  rw [sizeofLoadOption] at hFits
  rw [bootCount_eq]
  omega

/-- The placement for the table that these boot options produce. -/
def LoadOptionArray.«版面» (b : LoadOptionArray α) (H V : UINT32) (w p : UINTN) : «版面» :=
  ⟨H, V, w, p, UInt64.ofNat («启动项数» b.list)⟩

theorem toNat_bootCount (b : LoadOptionArray α) :
    (UInt64.ofNat («启动项数» b.list)).toNat = «启动项数» b.list :=
  UInt64.toNat_ofNat_of_lt' (bootCount_lt b)

/-- The selected index names an element that the table loop stored. -/
def SlotFilled (b : LoadOptionArray α) (s : «键状态») : Prop :=
  s.«选择启动项».toNat < «启动项数» b.list ∧
    ∃ e, («建表» b.list).«启动项».cells s.«选择启动项».toNat = some e

theorem slotFilled_iff {b : LoadOptionArray α} {s : «键状态»} :
    SlotFilled b s ↔ s.«选择启动项».toNat < «启动项数» b.list := by
  refine ⟨fun h => h.1, fun h => ⟨h, ?_⟩⟩
  rw [cells_bootTable]
  rw [bootCount_eq] at h
  exact ⟨_, List.getElem?_eq_getElem h⟩

/-- The table has an entry when some boot option matches. -/
theorem bootCount_pos_iff {os : List (BootOption α)} :
    1 ≤ «启动项数» os ↔ ∃ o ∈ os, o.matches = true := by
  rw [bootCount_eq, Nat.one_le_iff_ne_zero, ne_eq, List.length_eq_zero_iff,
    List.flatMap_eq_nil_iff]
  push Not
  simp only [matches_iff]

/--
**Enter reads a filled slot exactly when there is one.** Once the table has an entry the
selection never leaves the table, whatever keys are pressed; over an empty table every
Enter reads an element that was allocated and never stored.
-/
theorem selected_slot_filled_iff (b : LoadOptionArray α) (H V : UINT32) (w p : UINTN)
    (keys : List EFI_INPUT_KEY) :
    (∀ ks Key, ks ++ [Key] <+: keys → Key.UnicodeChar = CHAR_CARRIAGE_RETURN →
        SlotFilled b (runKeys (b.«版面» H V w p) (ks ++ [Key]))) ↔
      (∃ o ∈ b.list, o.matches = true) ∨
        ∀ Key ∈ keys, Key.UnicodeChar ≠ CHAR_CARRIAGE_RETURN := by
  rw [← bootCount_pos_iff]
  constructor
  · intro hRun
    by_contra hNot
    push Not at hNot
    obtain ⟨hEmpty, Key, hMem, hEnter⟩ := hNot
    obtain ⟨ks, rest, rfl⟩ := List.append_of_mem hMem
    have := (hRun ks Key ⟨rest, by simp⟩ hEnter).1
    omega
  · rintro (hSome | hNever) ks Key hPrefix hEnter
    · have hn : 1 ≤ (b.«版面» H V w p).«启动项数».toNat := by
        rw [LoadOptionArray.«版面», toNat_bootCount]
        exact hSome
      rw [slotFilled_iff, selection_refines, places_of_pos hn]
      have hLt := run_lt hn ((ks ++ [Key]).map moveOf)
      rwa [show (b.«版面» H V w p).«启动项数».toNat = «启动项数» b.list from toNat_bootCount b] at hLt ⊢
    · exact absurd hEnter (hNever Key (hPrefix.subset (by simp)))

/-- One boot option that no keyword matches, and Enter as the first key. -/
theorem empty_table_slot :
    ¬ SlotFilled (⟨[⟨0, some (L "VenHw(EFI Shell)")⟩], by decide⟩ : LoadOptionArray Nat)
      (runKeys (LoadOptionArray.«版面» ⟨[⟨0, some (L "VenHw(EFI Shell)")⟩], by decide⟩
        1920 1080 128 64) [⟨0, CHAR_CARRIAGE_RETURN⟩]) := by
  rw [slotFilled_iff]
  decide +kernel

end TianJi.Model

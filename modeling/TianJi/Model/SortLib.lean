import TianJi.Lib.Rearrange
import TianJi.Model.Uefi

/-!
# TianJi — sorting

`QuickSort` (BaseLib/QuickSort.c), which `PerformQuickSort` (UefiSortLib.c) calls. It sorts in
place: elements up to the pivot are exchanged to the front of the block, the pivot is put behind
them, and both sides are sorted in turn.

* `partition_spec`  — what the loop leaves on the two sides of the pivot.
* `QuickSort_sorts` — the block is rearranged whatever the comparison answers, and in order when
  the comparison is one.
-/

namespace TianJi.Model

open Memory

variable {α : Type}

-- ---------------------------------------------------------------------------
-- The code
-- ---------------------------------------------------------------------------

/-- A turn of the loop of `QuickSort`: the buffer and `NextSwapLocation`. -/
def partitionStep (CompareFunction : α → α → Int) (BufferToSort Pivot : Nat) (s : Region α × Nat)
    (LoopCount : Nat) : Region α × Nat :=
  if CompareFunction (s.1.cells (BufferToSort + LoopCount)) (s.1.cells Pivot) ≤ 0 then
    (s.1.swap (BufferToSort + s.2) (BufferToSort + LoopCount), s.2 + 1)
  else s

/-- The loop of `QuickSort`, with the exchange of the pivot behind it. -/
def partition (CompareFunction : α → α → Int) (m : Region α) (BufferToSort Count : Nat) :
    Region α × Nat :=
  let Pivot := BufferToSort + (Count - 1)
  let (m, NextSwapLocation) :=
    (List.range (Count - 1)).foldl (partitionStep CompareFunction BufferToSort Pivot) (m, 0)
  (m.swap Pivot (BufferToSort + NextSwapLocation), NextSwapLocation)

theorem foldl_partitionStep_le (CompareFunction : α → α → Int) (BufferToSort Pivot k : Nat)
    (m : Region α) :
    ((List.range k).foldl (partitionStep CompareFunction BufferToSort Pivot) (m, 0)).2 ≤ k := by
  induction k with
  | zero => exact Nat.le_refl 0
  | succ k ih =>
    rw [List.range_succ, List.foldl_append, List.foldl_cons, List.foldl_nil, partitionStep]
    split_ifs
    · exact Nat.succ_le_succ ih
    · exact Nat.le_succ_of_le ih

theorem partition_le (CompareFunction : α → α → Int) (m : Region α) (BufferToSort Count : Nat) :
    (partition CompareFunction m BufferToSort Count).2 ≤ Count - 1 :=
  foldl_partitionStep_le CompareFunction BufferToSort _ (Count - 1) m

/-- `QuickSort`. Elements are counted, not their bytes; `BufferToSort` is the place of the first. -/
def QuickSort (CompareFunction : α → α → Int) (m : Region α) (BufferToSort Count : Nat) : Region α :=
  if Count < 2 then m
  else
    let NextSwapLocation := (partition CompareFunction m BufferToSort Count).2
    have hNext := partition_le CompareFunction m BufferToSort Count
    let m := (partition CompareFunction m BufferToSort Count).1
    let m :=
      if NextSwapLocation ≥ 2 then QuickSort CompareFunction m BufferToSort NextSwapLocation else m
    if Count - NextSwapLocation - 1 ≥ 2 then
      QuickSort CompareFunction m (BufferToSort + (NextSwapLocation + 1))
        (Count - NextSwapLocation - 1)
    else m
termination_by Count

/-- `PerformQuickSort`, the buffer of one element aside. -/
def PerformQuickSort (m : Region α) (BufferToSort Count : Nat) (CompareFunction : α → α → Int) :
    Region α :=
  QuickSort CompareFunction m BufferToSort Count

-- ---------------------------------------------------------------------------
-- The loop
-- ---------------------------------------------------------------------------

section

variable {c : α → α → Int} {m : Region α} {b Count : Nat}

/-- After `k` turns: the elements seen so far, those up to the pivot first. -/
structure Seen (c : α → α → Int) (m : Region α) (b Pivot k : Nat) (s : Region α × Nat) : Prop where
  next_le : s.2 ≤ k
  rearranges : Rearranges b (b + k) m s.1
  front : ∀ i, b ≤ i → i < b + s.2 → c (s.1.cells i) (m.cells Pivot) ≤ 0
  back : ∀ i, b + s.2 ≤ i → i < b + k → ¬ c (s.1.cells i) (m.cells Pivot) ≤ 0

/-- One turn: an element up to the pivot changes places with the first of the others. -/
theorem seen_step {Pivot k : Nat} {s : Region α × Nat} (h : Seen c m b Pivot k s)
    (hk : b + k < Pivot) : Seen c m b Pivot (k + 1) (partitionStep c b Pivot s k) := by
  obtain ⟨m', next⟩ := s
  obtain ⟨hLe, hMoved, hFront, hBack⟩ := h
  simp only at hLe hMoved hFront hBack
  have hPivot : m'.cells Pivot = m.cells Pivot := hMoved.cells_outside (by omega)
  have hWider := hMoved.mono (Nat.le_refl b) (show b + k ≤ b + (k + 1) by omega)
  rw [partitionStep]
  simp only [hPivot]
  split_ifs with hUp
  · have hSwap : Rearranges b (b + (k + 1)) m' (m'.swap (b + next) (b + k)) :=
      rearranges_swap (by omega) (by omega) m'
    refine ⟨Nat.succ_le_succ hLe, hWider.trans hSwap, fun i hLo hHi => ?_, fun i hLo hHi => ?_⟩
    all_goals
      simp only at hLo hHi ⊢
      rw [Region.cells_swap, Function.comp_apply]
    · rcases Nat.lt_or_ge i (b + next) with hOld | hNew
      · rw [Equiv.swap_apply_of_ne_of_ne (by omega) (by omega)]
        exact hFront i hLo hOld
      · obtain rfl : i = b + next := by omega
        rw [Equiv.swap_apply_left]
        exact hUp
    · rcases Nat.lt_or_ge i (b + k) with hOld | hNew
      · rw [Equiv.swap_apply_of_ne_of_ne (by omega) (by omega)]
        exact hBack i (by omega) hOld
      · obtain rfl : i = b + k := by omega
        rw [Equiv.swap_apply_right]
        exact hBack (b + next) (Nat.le_refl _) (by omega)
  · refine ⟨Nat.le_succ_of_le hLe, hWider, hFront, fun i hLo hHi => ?_⟩
    rcases Nat.lt_or_ge i (b + k) with hOld | hNew
    · exact hBack i hLo hOld
    · obtain rfl : i = b + k := by omega
      exact hUp

/-- The loop, by induction on its turns. -/
theorem seen_foldl (Pivot k : Nat) (hk : b + k ≤ Pivot) :
    Seen c m b Pivot k ((List.range k).foldl (partitionStep c b Pivot) (m, 0)) := by
  induction k with
  | zero =>
    show Seen c m b Pivot 0 (m, 0)
    refine ⟨Nat.le_refl 0, .refl _ _ _, fun i hLo hHi => ?_, fun i hLo hHi => ?_⟩
    all_goals
      simp only at hLo hHi
      omega
  | succ k ih =>
    rw [List.range_succ, List.foldl_append, List.foldl_cons, List.foldl_nil]
    exact seen_step (ih (by omega)) (by omega)

/-- **The pivot in its place.** What is left of it is up to it, what is right of it is not. -/
theorem partition_spec (hCount : 2 ≤ Count) :
    let r := partition c m b Count
    r.2 < Count ∧ Rearranges b (b + Count) m r.1 ∧
      (∀ i, b ≤ i → i < b + r.2 → c (r.1.cells i) (r.1.cells (b + r.2)) ≤ 0) ∧
      ∀ i, b + r.2 + 1 ≤ i → i < b + Count → ¬ c (r.1.cells i) (r.1.cells (b + r.2)) ≤ 0 := by
  have hSeen := seen_foldl (c := c) (m := m) (b + (Count - 1)) (Count - 1) (Nat.le_refl _)
  simp only [partition]
  generalize (List.range (Count - 1)).foldl (partitionStep c b (b + (Count - 1))) (m, 0) = s at hSeen ⊢
  obtain ⟨m', next⟩ := s
  obtain ⟨hLe, hMoved, hFront, hBack⟩ := hSeen
  simp only at hLe hMoved hFront hBack ⊢
  have hPivot : m'.cells (b + (Count - 1)) = m.cells (b + (Count - 1)) :=
    hMoved.cells_outside (by omega)
  have hWider := hMoved.mono (Nat.le_refl b) (show b + (Count - 1) ≤ b + Count by omega)
  have hSwap : Rearranges b (b + Count) m' (m'.swap (b + (Count - 1)) (b + next)) :=
    rearranges_swap (by omega) (by omega) m'
  have hPlace : (m'.swap (b + (Count - 1)) (b + next)).cells (b + next) =
      m.cells (b + (Count - 1)) := by
    rw [Region.cells_swap, Function.comp_apply, Equiv.swap_apply_right, hPivot]
  refine ⟨by omega, hWider.trans hSwap, fun i hLo hHi => ?_, fun i hLo hHi => ?_⟩
  all_goals
    rw [hPlace, Region.cells_swap, Function.comp_apply]
  · rw [Equiv.swap_apply_of_ne_of_ne (by omega) (by omega)]
    exact hFront i hLo hHi
  · by_cases hLast : i = b + (Count - 1)
    · rw [hLast, Equiv.swap_apply_left]
      exact hBack (b + next) (Nat.le_refl _) (by omega)
    · rw [Equiv.swap_apply_of_ne_of_ne hLast (by omega)]
      exact hBack i (by omega) (by omega)

-- ---------------------------------------------------------------------------
-- Sorting
-- ---------------------------------------------------------------------------

/-- The comparison is that of a total preorder. -/
structure Compares (c : α → α → Int) : Prop where
  total : ∀ x y, c x y ≤ 0 ∨ c y x ≤ 0
  trans : ∀ x y z, c x y ≤ 0 → c y z ≤ 0 → c x z ≤ 0

/-- The block is rearranged, and in order when the comparison makes one. -/
structure Sorts (c : α → α → Int) (lo hi : Nat) (m m' : Region α) : Prop where
  rearranges : Rearranges lo hi m m'
  ordered : Compares c → Ordered (fun x y => c x y ≤ 0) lo hi m'.cells

/-- Both sides of a pivot sorted one after the other. -/
theorem sorts_of_sides {m' m'' m₃ : Region α} {hi p : Nat} (hp : b ≤ p ∧ p < hi)
    (hMoved : Rearranges b hi m m') (hFront : ∀ i, b ≤ i → i < p → c (m'.cells i) (m'.cells p) ≤ 0)
    (hBack : ∀ i, p + 1 ≤ i → i < hi → ¬ c (m'.cells i) (m'.cells p) ≤ 0)
    (hLeft : Sorts c b p m' m'') (hRight : Sorts c (p + 1) hi m'' m₃) : Sorts c b hi m m₃ := by
  have hLeftWide := hLeft.rearranges.mono (Nat.le_refl b) hp.2.le
  have hRightWide := hRight.rearranges.mono (show b ≤ p + 1 by omega) (Nat.le_refl hi)
  refine ⟨(hMoved.trans hLeftWide).trans hRightWide, fun hCompares => ?_⟩
  -- neither side touches the other, nor the pivot
  have hKeptLeft : ∀ i, i ≤ p → m₃.cells i = m''.cells i := fun i hi =>
    hRight.rearranges.cells_outside (by omega)
  have hKeptRight : ∀ i, p ≤ i → m''.cells i = m'.cells i := fun i hi =>
    hLeft.rearranges.cells_outside (by omega)
  have hPivot : m₃.cells p = m'.cells p := by
    rw [hKeptLeft p (Nat.le_refl p), hKeptRight p (Nat.le_refl p)]
  refine Ordered.around hCompares.trans ?_ (hRight.ordered hCompares) ?_ ?_
  · exact (hLeft.ordered hCompares).congr fun i _ hHi => hKeptLeft i hHi.le
  · intro i hLo hHi
    rw [hPivot, hKeptLeft i hHi.le]
    exact hLeft.rearranges.forall (p := fun x => c x (m'.cells p) ≤ 0) hFront i hLo hHi
  · rw [hPivot]
    refine hRight.rearranges.forall (p := fun x => c (m'.cells p) x ≤ 0) fun i hLo hHi => ?_
    rw [hKeptRight i (by omega)]
    exact (hCompares.total _ _).resolve_left (hBack i hLo hHi)

theorem sorts_of_short {hi : Nat} (h : hi ≤ b + 1) : Sorts c b hi m m :=
  ⟨.refl _ _ _, fun _ => ordered_of_le_one h⟩

/-- **The recursion**, by strong induction on the length of the block. -/
theorem sorts_quickSort (c : α → α → Int) (Count : Nat) :
    ∀ (m : Region α) (b : Nat), Sorts c b (b + Count) m (QuickSort c m b Count) := by
  induction Count using Nat.strong_induction_on with
  | _ Count ih =>
    intro m b
    rw [QuickSort]
    split_ifs with hShort
    · exact sorts_of_short (by omega)
    · obtain ⟨hNext, hMoved, hFront, hBack⟩ := partition_spec (c := c) (m := m) (b := b)
        (show 2 ≤ Count by omega)
      set next := (partition c m b Count).2 with hNextEq
      have hLeft : Sorts c b (b + next) (partition c m b Count).1
          (if next ≥ 2 then QuickSort c (partition c m b Count).1 b next
            else (partition c m b Count).1) := by
        split_ifs with hMore
        · exact ih next hNext _ b
        · exact sorts_of_short (by omega)
      have hRight : ∀ m', Sorts c (b + next + 1) (b + Count) m'
          (if Count - next - 1 ≥ 2 then QuickSort c m' (b + (next + 1)) (Count - next - 1)
            else m') := by
        intro m'
        split_ifs with hMore
        · have hEnd : b + Count = b + (next + 1) + (Count - next - 1) := by omega
          rw [hEnd]
          exact ih (Count - next - 1) (by omega) m' (b + (next + 1))
        · exact sorts_of_short (by omega)
      exact sorts_of_sides (by omega) hMoved hFront hBack hLeft (hRight _)

/--
**Sorting.** Whatever the comparison answers, the elements of the block are only rearranged and
nothing outside of it is stored to; a comparison that is a total preorder leaves no element
before one that it should follow.
-/
theorem QuickSort_sorts (CompareFunction : α → α → Int) (m : Region α) (BufferToSort Count : Nat) :
    Rearranges BufferToSort (BufferToSort + Count) m
        (PerformQuickSort m BufferToSort Count CompareFunction) ∧
      (Compares CompareFunction → Ordered (fun x y => CompareFunction x y ≤ 0) BufferToSort
        (BufferToSort + Count) (PerformQuickSort m BufferToSort Count CompareFunction).cells) :=
  ⟨(sorts_quickSort CompareFunction Count m BufferToSort).rearranges,
    (sorts_quickSort CompareFunction Count m BufferToSort).ordered⟩

end

end TianJi.Model

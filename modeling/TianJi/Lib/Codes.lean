import Mathlib.Data.List.Basic

/-!
# Self-delimiting codes

A code is self-delimiting when a word tells where it ends: what is read in front of anything is
read in one way only.

* `SelfDelimiting.flatMap_initial_iff` — beginnings of encoded lists are encoded beginnings.
* `SelfDelimiting.terminated` — lists of words with an end mark make such a code again.
-/

namespace Codes

variable {α β : Type*} {enc : α → List β}

/-- What follows a word is told apart from it. -/
def SelfDelimiting (enc : α → List β) : Prop :=
  ∀ ⦃a b : α⦄ ⦃r r' : List β⦄, enc a ++ r = enc b ++ r' → a = b ∧ r = r'

/-- No word begins as the end mark does. -/
def Apart (enc : α → List β) (stop : List β) : Prop :=
  ∀ (a : α) (r r' : List β), enc a ++ r ≠ stop ++ r'

namespace SelfDelimiting

theorem injective (h : SelfDelimiting enc) : Function.Injective enc := fun _ _ hSame =>
  (h (congrArg (· ++ []) hSame)).1

/-- A word that begins with another one is that one. -/
theorem initial_iff (h : SelfDelimiting enc) {a b : α} : enc a <+: enc b ↔ a = b := by
  constructor
  · rintro ⟨r, hr⟩
    exact (h (hr.trans (List.append_nil _).symm)).1
  · rintro rfl
    exact List.prefix_refl _

/-- **Beginnings of encoded lists.** -/
theorem flatMap_initial_iff (h : SelfDelimiting enc) (hNe : ∀ a, enc a ≠ []) {xs ys : List α} :
    xs.flatMap enc <+: ys.flatMap enc ↔ xs <+: ys := by
  induction xs generalizing ys with
  | nil => simp
  | cons x xs ih =>
    cases ys with
    | nil => simp [hNe x]
    | cons y ys =>
      rw [List.flatMap_cons, List.flatMap_cons, List.cons_prefix_cons, ← ih]
      constructor
      · rintro ⟨r, hr⟩
        rw [List.append_assoc] at hr
        obtain ⟨rfl, hRest⟩ := h hr
        exact ⟨rfl, r, hRest⟩
      · rintro ⟨rfl, hRest⟩
        exact (List.prefix_append_right_inj _).mpr hRest

/-- **Lists with an end mark** are self-delimiting. -/
theorem terminated (h : SelfDelimiting enc) {stop : List β} (hStop : Apart enc stop) :
    SelfDelimiting fun xs : List α => xs.flatMap enc ++ stop := by
  intro xs
  induction xs with
  | nil =>
    intro ys r r' hEq
    cases ys with
    | nil => exact ⟨rfl, List.append_cancel_left hEq⟩
    | cons y ys =>
      simp only [List.flatMap_nil, List.flatMap_cons, List.nil_append, List.append_assoc] at hEq
      exact absurd hEq.symm (hStop y _ _)
  | cons x xs ih =>
    intro ys r r' hEq
    cases ys with
    | nil =>
      simp only [List.flatMap_nil, List.flatMap_cons, List.nil_append, List.append_assoc] at hEq
      exact absurd hEq (hStop x _ _)
    | cons y ys =>
      simp only [List.flatMap_cons, List.append_assoc] at hEq
      obtain ⟨rfl, hRest⟩ := h hEq
      simp only [← List.append_assoc] at hRest
      obtain ⟨rfl, hEnd⟩ := ih hRest
      exact ⟨rfl, hEnd⟩

end SelfDelimiting

end Codes

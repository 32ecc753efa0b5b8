import Mathlib.Algebra.GroupWithZero.Nat
import Mathlib.Data.List.DropRight

/-!
# Padded strings and strings joined

A field of fixed length pads its string with terminators (`strip` takes them away), and a
path joins its names by a separator and ends in a terminator (`joined`).

* `length_joined`      — every name takes one element more than its own: separator or
  terminator.
* `strip_dropLast`     — a last element that is a terminator can be left out before stripping.
* `strip_dropLast_lt`  — any other last element is lost with it.
-/

namespace Joined

variable {α : Type*}

/-- Without the terminators at its end. -/
def strip [BEq α] (z : α) (l : List α) : List α := l.rdropWhile (· == z)

/-- The names with separators between them and a terminator behind the last one. -/
def joined (sep z : α) (names : List (List α)) : List α := [sep].intercalate names ++ [z]

variable {sep z : α} {l name : List α} {names : List (List α)}

theorem joined_singleton : joined sep z [name] = name ++ [z] := by
  rw [joined, List.intercalate_singleton]

theorem joined_cons (h : names ≠ []) :
    joined sep z (name :: names) = name ++ sep :: joined sep z names := by
  rw [joined, List.intercalate_cons_of_ne_nil h, List.append_assoc, List.append_assoc]
  rfl

theorem length_joined (h : names ≠ []) :
    (joined sep z names).length = (names.map fun name => name.length + 1).sum := by
  induction names with
  | nil => exact absurd rfl h
  | cons name names ih =>
    by_cases hLast : names = []
    · rw [hLast, joined_singleton]
      simp
    · rw [joined_cons hLast, List.length_append, List.length_cons, ih hLast, List.map_cons,
        List.sum_cons]
      omega

variable [BEq α]

theorem length_strip_le (z : α) (l : List α) : (strip z l).length ≤ l.length :=
  (List.rdropWhile_prefix (· == z) l).length_le

variable [LawfulBEq α]

theorem strip_dropLast (h : l.getLast? = some z) : strip z l.dropLast = strip z l := by
  obtain ⟨front, rfl⟩ := List.getLast?_eq_some_iff.mp h
  have hLast : (z == z) = true := beq_self_eq_true z
  rw [List.dropLast_concat, strip, strip]
  exact (List.rdropWhile_concat_pos (· == z) front z hLast).symm

theorem strip_dropLast_lt (hNe : l ≠ []) (h : l.getLast? ≠ some z) :
    (strip z l.dropLast).length < (strip z l).length := by
  obtain ⟨front, a, rfl⟩ := (List.eq_nil_or_concat' l).resolve_left hNe
  have hLast : ¬ (a == z) = true := by simpa using h
  have hWhole : strip z (front ++ [a]) = front ++ [a] := List.rdropWhile_concat_neg (· == z) front a hLast
  have hFront := length_strip_le z front
  rw [hWhole, List.dropLast_concat, List.length_append, List.length_singleton]
  omega

theorem length_strip_dropLast_le (z : α) (l : List α) :
    (strip z l.dropLast).length ≤ (strip z l).length := by
  by_cases hNe : l = []
  · rw [hNe]
    rfl
  · by_cases h : l.getLast? = some z
    · rw [strip_dropLast h]
    · exact (strip_dropLast_lt hNe h).le

end Joined

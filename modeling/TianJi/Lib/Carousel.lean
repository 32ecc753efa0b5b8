import Mathlib.Data.Int.ModEq
import Mathlib.Data.List.Induction
import Mathlib.Tactic.Ring

/-!
# Cyclic selection

A selection among `n` items that steps to the previous or the next one and wraps around
at both ends by explicit tests. Its position after any moves is the net number of steps,
read modulo `n` (`run_eq_net_emod`).
-/

namespace Carousel

/-- One move of the selection. -/
inductive Move where
  | prev
  | next
  | stay
  deriving DecidableEq, Repr

/-- The position after one move among `n` items. -/
def step (n i : Nat) : Move → Nat
  | .prev => if i = 0 then n - 1 else i - 1
  | .next => if i = n - 1 then 0 else i + 1
  | .stay => i

/-- The position after a list of moves, from the first item. -/
def run (n : Nat) (ms : List Move) : Nat := ms.foldl (step n) 0

/-- The displacement of one move. -/
def Move.delta : Move → Int
  | .prev => -1
  | .next => 1
  | .stay => 0

/-- The net displacement of a list of moves. -/
def net (ms : List Move) : Int := (ms.map Move.delta).sum

@[simp] theorem run_nil (n : Nat) : run n [] = 0 := rfl

@[simp] theorem run_append_singleton (n : Nat) (ms : List Move) (m : Move) :
    run n (ms ++ [m]) = step n (run n ms) m := by
  simp [run]

@[simp] theorem net_append_singleton (ms : List Move) (m : Move) :
    net (ms ++ [m]) = net ms + m.delta := by
  simp [net]

theorem step_lt {n i : Nat} (hi : i < n) (m : Move) : step n i m < n := by
  cases m with
  | stay => exact hi
  | prev =>
    simp only [step]
    split_ifs <;> omega
  | next =>
    simp only [step]
    split_ifs <;> omega

/-- The selection always stays on an item. -/
theorem run_lt {n : Nat} (hn : 0 < n) (ms : List Move) : run n ms < n := by
  induction ms using List.reverseRecOn with
  | nil => exact hn
  | append_singleton ms m ih =>
    rw [run_append_singleton]
    exact step_lt ih m

/-- A step moves by its displacement modulo `n`. -/
theorem step_modEq {n i : Nat} (hi : i < n) (m : Move) :
    (step n i m : Int) ≡ i + m.delta [ZMOD n] := by
  cases m with
  | stay => simp [step, Move.delta]
  | prev =>
    simp only [step, Move.delta]
    split_ifs with h
    · subst h
      rw [Int.modEq_iff_dvd]
      exact ⟨-1, by push_cast [Nat.cast_sub (show 1 ≤ n by omega)]; ring⟩
    · rw [Nat.cast_sub (Nat.one_le_iff_ne_zero.mpr h)]
      exact Int.ModEq.refl _
  | next =>
    simp only [step, Move.delta]
    split_ifs with h
    · rw [h, Int.modEq_iff_dvd]
      exact ⟨1, by push_cast [Nat.cast_sub (show 1 ≤ n by omega)]; ring⟩
    · exact Int.ModEq.refl _

/-- **Position as net displacement.** The explicit wrap tests compute the net number of
steps modulo the number of items. -/
theorem run_eq_net_emod {n : Nat} (hn : 0 < n) (ms : List Move) :
    (run n ms : Int) = net ms % n := by
  have hMod : (run n ms : Int) ≡ net ms [ZMOD n] := by
    induction ms using List.reverseRecOn with
    | nil => exact Int.ModEq.refl _
    | append_singleton ms m ih =>
      rw [run_append_singleton, net_append_singleton]
      exact (step_modEq (run_lt hn ms) m).trans (ih.add_right _)
  have hLt := run_lt hn ms
  rw [← hMod]
  exact (Int.emod_eq_of_lt (by omega) (by omega)).symm

/-- The selection is on the first item when the net displacement is a multiple of `n`. -/
theorem run_eq_zero_iff {n : Nat} (hn : 0 < n) (ms : List Move) :
    run n ms = 0 ↔ (n : Int) ∣ net ms := by
  rw [Int.dvd_iff_emod_eq_zero, ← run_eq_net_emod hn]
  omega

end Carousel

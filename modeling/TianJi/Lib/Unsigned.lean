import Mathlib.Algebra.Ring.Int.Defs

/-!
# Unsigned expressions and their exact values

Chains of machine arithmetic on words of `w` bits. Every expression has two values: the one
the machine computes, where each operation wraps, and the exact integer. An expression is
`Exact` when no operation in it leaves the range of a word; a subtraction leaves it exactly
when its exact value is negative.

* `toNat_eval` — an exact expression is computed as written.
-/

namespace Unsigned

/-- Arithmetic on words of `w` bits. -/
inductive Expr (w : Nat) where
  | val (x : BitVec w)
  | add (a b : Expr w)
  | sub (a b : Expr w)
  | mul (a b : Expr w)
  | div (a : Expr w) (x : BitVec w)

namespace Expr

variable {w : Nat}

instance : Add (Expr w) := ⟨add⟩
instance : Sub (Expr w) := ⟨sub⟩
instance : Mul (Expr w) := ⟨mul⟩

/-- What the machine computes. -/
def eval : Expr w → BitVec w
  | val x => x
  | add a b => a.eval + b.eval
  | sub a b => a.eval - b.eval
  | mul a b => a.eval * b.eval
  | div a x => a.eval / x

/-- The value as written. -/
def exact : Expr w → Int
  | val x => x.toNat
  | add a b => a.exact + b.exact
  | sub a b => a.exact - b.exact
  | mul a b => a.exact * b.exact
  | div a x => a.exact / x.toNat

/-- No operation leaves the range of a word. -/
def Exact : Expr w → Prop
  | val _ => True
  | add a b => a.Exact ∧ b.Exact ∧ a.exact + b.exact < 2 ^ w
  | sub a b => a.Exact ∧ b.Exact ∧ 0 ≤ a.exact - b.exact
  | mul a b => a.Exact ∧ b.Exact ∧ a.exact * b.exact < 2 ^ w
  | div a _ => a.Exact

@[simp] theorem exact_val (x : BitVec w) : (val x).exact = x.toNat := rfl
@[simp] theorem exact_add (a b : Expr w) : (a + b).exact = a.exact + b.exact := rfl
@[simp] theorem exact_sub (a b : Expr w) : (a - b).exact = a.exact - b.exact := rfl
@[simp] theorem exact_mul (a b : Expr w) : (a * b).exact = a.exact * b.exact := rfl
@[simp] theorem exact_div (a : Expr w) (x : BitVec w) : (div a x).exact = a.exact / x.toNat := rfl

@[simp] theorem exact_val_iff (x : BitVec w) : (val x).Exact ↔ True := Iff.rfl

@[simp] theorem exact_add_iff (a b : Expr w) :
    (a + b).Exact ↔ a.Exact ∧ b.Exact ∧ a.exact + b.exact < 2 ^ w := Iff.rfl

@[simp] theorem exact_sub_iff (a b : Expr w) :
    (a - b).Exact ↔ a.Exact ∧ b.Exact ∧ 0 ≤ a.exact - b.exact := Iff.rfl

@[simp] theorem exact_mul_iff (a b : Expr w) :
    (a * b).Exact ↔ a.Exact ∧ b.Exact ∧ a.exact * b.exact < 2 ^ w := Iff.rfl

@[simp] theorem exact_div_iff (a : Expr w) (x : BitVec w) : (div a x).Exact ↔ a.Exact := Iff.rfl

/-- **An exact expression is computed as written.** -/
theorem toNat_eval {e : Expr w} (h : e.Exact) : (e.eval.toNat : Int) = e.exact := by
  induction e with
  | val x => rfl
  | add a b iha ihb =>
    obtain ⟨ha, hb, hRange⟩ := h
    rw [← iha ha, ← ihb hb] at hRange
    rw [eval, exact, ← iha ha, ← ihb hb, BitVec.toNat_add, Nat.mod_eq_of_lt (by exact_mod_cast hRange)]
    exact Int.natCast_add _ _
  | sub a b iha ihb =>
    obtain ⟨ha, hb, hRange⟩ := h
    rw [← iha ha, ← ihb hb] at hRange
    have hLe : b.eval.toNat ≤ a.eval.toNat := by omega
    rw [eval, exact, ← iha ha, ← ihb hb, BitVec.toNat_sub_of_le (BitVec.le_def.mpr hLe)]
    omega
  | mul a b iha ihb =>
    obtain ⟨ha, hb, hRange⟩ := h
    rw [← iha ha, ← ihb hb] at hRange
    rw [eval, exact, ← iha ha, ← ihb hb, BitVec.toNat_mul, Nat.mod_eq_of_lt (by exact_mod_cast hRange)]
    exact Int.natCast_mul _ _
  | div a x iha =>
    rw [eval, exact, ← iha h, BitVec.toNat_udiv]
    exact Int.natCast_div _ _

end Expr

end Unsigned

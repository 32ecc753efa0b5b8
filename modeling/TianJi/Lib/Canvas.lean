import Mathlib.Data.Nat.Basic
import Mathlib.Tactic.Ring

/-!
# Pictures and rectangles

A `Picture` gives every point its colour. `paste` draws an image over a rectangle and
`grab` copies a rectangle out. An `overlay` is a picture with an image drawn over one
rectangle, the image computed from what was there.

Drawing a sprite, saving what it covers and putting that back is the algebra of these
three: `paste_grab` says that putting back what was covered removes any overlay.

Images kept in a linear buffer row by row are related to rectangles by `rowMajor_div`
and `rowMajor_mod`.
-/

namespace Canvas

variable {α : Type*}

/-- The colour of every point, by column and row. -/
abbrev Picture (α : Type*) := Nat → Nat → α

/-- A rectangle by its upper left corner and its extent. -/
structure Rect where
  x : Nat
  y : Nat
  w : Nat
  h : Nat
  deriving DecidableEq, Repr

namespace Rect

/-- The point lies in the rectangle. -/
def Contains (r : Rect) (x y : Nat) : Prop :=
  (r.x ≤ x ∧ x < r.x + r.w) ∧ (r.y ≤ y ∧ y < r.y + r.h)

instance (r : Rect) (x y : Nat) : Decidable (r.Contains x y) :=
  inferInstanceAs (Decidable (_ ∧ _))

/-- The rectangle lies on a screen of `W × H` points. -/
def Inside (r : Rect) (W H : Nat) : Prop := r.x + r.w ≤ W ∧ r.y + r.h ≤ H

instance (r : Rect) (W H : Nat) : Decidable (r.Inside W H) :=
  inferInstanceAs (Decidable (_ ∧ _))

end Rect

/-- Draw `img` over the rectangle. -/
def paste (r : Rect) (img : Nat → Nat → α) (p : Picture α) : Picture α := fun x y =>
  if r.Contains x y then img (x - r.x) (y - r.y) else p x y

/-- Copy the rectangle out. -/
def grab (r : Rect) (p : Picture α) : Nat → Nat → α := fun i j => p (r.x + i) (r.y + j)

/-- The picture with `f i j c` drawn at point `(i, j)` of the rectangle over colour `c`. -/
def overlay (r : Rect) (f : Nat → Nat → α → α) (p : Picture α) : Picture α :=
  paste r (fun i j => f i j (grab r p i j)) p

theorem paste_of_contains {r : Rect} {img : Nat → Nat → α} {p : Picture α} {x y : Nat}
    (h : r.Contains x y) : paste r img p x y = img (x - r.x) (y - r.y) :=
  if_pos h

theorem paste_of_not_contains {r : Rect} {img : Nat → Nat → α} {p : Picture α} {x y : Nat}
    (h : ¬ r.Contains x y) : paste r img p x y = p x y :=
  if_neg h

/-- Only the part of an image that falls inside the rectangle is drawn. -/
theorem paste_congr {r : Rect} {img img' : Nat → Nat → α} (p : Picture α)
    (h : ∀ i < r.w, ∀ j < r.h, img i j = img' i j) : paste r img p = paste r img' p := by
  funext x y
  by_cases hIn : r.Contains x y
  · rw [paste_of_contains hIn, paste_of_contains hIn]
    obtain ⟨⟨hx, hx'⟩, hy, hy'⟩ := hIn
    exact h _ (by omega) _ (by omega)
  · rw [paste_of_not_contains hIn, paste_of_not_contains hIn]

/-- **Putting back what was there.** Over any picture that agrees with `p` outside the
rectangle, drawing the rectangle of `p` gives `p`. -/
theorem paste_grab {r : Rect} {p q : Picture α}
    (h : ∀ x y, ¬ r.Contains x y → q x y = p x y) : paste r (grab r p) q = p := by
  funext x y
  by_cases hIn : r.Contains x y
  · rw [paste_of_contains hIn, grab]
    obtain ⟨⟨hx, -⟩, hy, -⟩ := hIn
    rw [Nat.add_sub_cancel' hx, Nat.add_sub_cancel' hy]
  · rw [paste_of_not_contains hIn, h x y hIn]

theorem overlay_of_not_contains {r : Rect} {f : Nat → Nat → α → α} {p : Picture α}
    {x y : Nat} (h : ¬ r.Contains x y) : overlay r f p x y = p x y :=
  paste_of_not_contains h

theorem overlay_of_contains {r : Rect} {f : Nat → Nat → α → α} {p : Picture α}
    {x y : Nat} (h : r.Contains x y) :
    overlay r f p x y = f (x - r.x) (y - r.y) (p x y) := by
  obtain ⟨⟨hx, -⟩, hy, -⟩ := id h
  rw [overlay, paste_of_contains h, grab, Nat.add_sub_cancel' hx, Nat.add_sub_cancel' hy]

/-- Putting back what an overlay covers removes the overlay. -/
theorem paste_grab_overlay (r : Rect) (f : Nat → Nat → α → α) (p : Picture α) :
    paste r (grab r p) (overlay r f p) = p :=
  paste_grab fun _ _ h => overlay_of_not_contains h

/-! ## Row-major buffers -/

theorem rowMajor_div {w i : Nat} (hi : i < w) (j : Nat) : (j * w + i) / w = j := by
  rw [Nat.add_comm, Nat.add_mul_div_right _ _ (by omega), Nat.div_eq_of_lt hi, Nat.zero_add]

theorem rowMajor_mod {w i : Nat} (hi : i < w) (j : Nat) : (j * w + i) % w = i := by
  rw [Nat.add_comm, Nat.add_mul_mod_self_right, Nat.mod_eq_of_lt hi]

/-- A point of an image lies inside its buffer. -/
theorem rowMajor_lt {w h i j : Nat} (hi : i < w) (hj : j < h) : j * w + i < w * h := by
  calc j * w + i < j * w + w := by omega
    _ = (j + 1) * w := by ring
    _ ≤ h * w := Nat.mul_le_mul_right _ hj
    _ = w * h := Nat.mul_comm _ _

end Canvas

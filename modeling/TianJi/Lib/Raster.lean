import Mathlib.Data.List.ProdSigma
import Mathlib.Data.List.Perm.Subperm
import TianJi.Lib.Canvas
import TianJi.Lib.Memory

/-!
# Raster loops

A picture of `w × h` points is copied by a loop over rows with a loop over columns inside.
`points` lists the pairs of row and column such loops visit, in their order, and
`foldl_points` turns the two loops into one. Stores at distinct points of a row-major
buffer do not disturb each other (`cells_storePoints`), whichever way up the rows are
written.
-/

namespace Canvas

open Memory

/-- Rows and columns of a `w × h` picture in the order of the loops. -/
def points (w h : Nat) : List (Nat × Nat) := List.range h ×ˢ List.range w

/-- Place of a point in a row-major buffer. -/
def index (w : Nat) (p : Nat × Nat) : Nat := p.1 * w + p.2

/-- The same point of the picture turned upside down. -/
def flipRow (h : Nat) (p : Nat × Nat) : Nat × Nat := (h - 1 - p.1, p.2)

variable {w h : Nat}

theorem mem_points {p : Nat × Nat} : p ∈ points w h ↔ p.1 < h ∧ p.2 < w := by
  obtain ⟨y, x⟩ := p
  rw [points, List.mem_product, List.mem_range, List.mem_range]

theorem nodup_points (w h : Nat) : (points w h).Nodup :=
  List.nodup_range.product List.nodup_range

/-- One more row. -/
theorem points_succ (w h : Nat) :
    points w (h + 1) = points w h ++ (List.range w).map fun x => (h, x) := by
  show (List.range (h + 1)).flatMap _ = (List.range h).flatMap _ ++ _
  rw [List.range_succ, List.flatMap_append, List.flatMap_singleton]

/-- Two nested loops as one. -/
theorem foldl_points {σ : Type*} (f : σ → Nat → Nat → σ) (s : σ) :
    (List.range h).foldl (fun s y => (List.range w).foldl (fun s x => f s y x) s) s =
      (points w h).foldl (fun s p => f s p.1 p.2) s := by
  show _ = ((List.range h).flatMap fun y => (List.range w).map fun x => (y, x)).foldl _ s
  rw [List.foldl_flatMap]
  simp only [List.foldl_map]

theorem index_inj {p q : Nat × Nat} (hp : p.2 < w) (hq : q.2 < w)
    (hEq : index w p = index w q) : p = q := by
  have hRow := congrArg (· / w) hEq
  have hCol := congrArg (· % w) hEq
  simp only [index, rowMajor_div hp, rowMajor_div hq, rowMajor_mod hp, rowMajor_mod hq] at hRow hCol
  exact Prod.ext hRow hCol

theorem index_lt {p : Nat × Nat} (hp : p ∈ points w h) : index w p < w * h := by
  obtain ⟨hy, hx⟩ := mem_points.mp hp
  exact rowMajor_lt hx hy

theorem flipRow_mem {p : Nat × Nat} (hp : p ∈ points w h) : flipRow h p ∈ points w h := by
  obtain ⟨hy, hx⟩ := mem_points.mp hp
  exact mem_points.mpr ⟨by simp only [flipRow]; omega, hx⟩

theorem flipRow_inj {p q : Nat × Nat} (hp : p ∈ points w h) (hq : q ∈ points w h)
    (hEq : flipRow h p = flipRow h q) : p = q := by
  obtain ⟨hy, -⟩ := mem_points.mp hp
  obtain ⟨hy', -⟩ := mem_points.mp hq
  obtain ⟨hRow, hCol⟩ := Prod.mk.inj hEq
  exact Prod.ext (by omega) hCol

theorem flipRow_flipRow {p : Nat × Nat} (hp : p ∈ points w h) : flipRow h (flipRow h p) = p := by
  obtain ⟨hy, -⟩ := mem_points.mp hp
  obtain ⟨y, x⟩ := p
  simp only [flipRow, Prod.mk.injEq, and_true] at hy ⊢
  omega

variable {α : Type*}

/-- The places that raster stores name, one for each point. -/
theorem nodup_places {β : Type*} {g : Nat × Nat → Nat × Nat} (f : Nat × Nat → β)
    (hMem : ∀ p ∈ points w h, g p ∈ points w h)
    (hInj : ∀ p ∈ points w h, ∀ q ∈ points w h, g p = g q → p = q) :
    (((points w h).map fun p => (index w (g p), f p)).map Prod.fst).Nodup := by
  rw [List.map_map]
  refine (nodup_points w h).map_on fun a ha b hb hEq => hInj a ha b hb ?_
  exact index_inj (mem_points.mp (hMem a ha)).2 (mem_points.mp (hMem b hb)).2 hEq

/-- The places of the points are the whole buffer, once each. -/
theorem perm_places {g : Nat × Nat → Nat × Nat} (hMem : ∀ p ∈ points w h, g p ∈ points w h)
    (hInj : ∀ p ∈ points w h, ∀ q ∈ points w h, g p = g q → p = q) :
    ((points w h).map fun p => index w (g p)).Perm (List.range (w * h)) := by
  have hNodup : ((points w h).map fun p => index w (g p)).Nodup := by
    have hPlaces := nodup_places (fun _ => ()) hMem hInj
    rwa [List.map_map] at hPlaces
  refine (List.subperm_of_subset hNodup fun i hi => ?_).perm_of_length_le ?_
  · obtain ⟨p, hp, rfl⟩ := List.mem_map.mp hi
    exact List.mem_range.mpr (index_lt (hMem p hp))
  · rw [List.length_range, List.length_map, points, List.length_product, List.length_range,
      List.length_range, Nat.mul_comm]

/-- **Raster stores stand.** When every point goes to a point of its own, the buffer ends
up with every value that was stored. -/
theorem cells_storePoints {r : Region α} {g : Nat × Nat → Nat × Nat} (f : Nat × Nat → α)
    (hMem : ∀ p ∈ points w h, g p ∈ points w h)
    (hInj : ∀ p ∈ points w h, ∀ q ∈ points w h, g p = g q → p = q)
    {p : Nat × Nat} (hp : p ∈ points w h) :
    (r.storeAll ((points w h).map fun p => (index w (g p), f p))).cells (index w (g p)) = f p :=
  Region.cells_storeAll_of_mem (nodup_places f hMem hInj) (List.mem_map.mpr ⟨p, hp, rfl⟩)

/-- The same for partial writes. -/
theorem cells_updatePoints {r : Region α} {g : Nat × Nat → Nat × Nat} (f : Nat × Nat → α → α)
    (hMem : ∀ p ∈ points w h, g p ∈ points w h)
    (hInj : ∀ p ∈ points w h, ∀ q ∈ points w h, g p = g q → p = q)
    {p : Nat × Nat} (hp : p ∈ points w h) :
    (r.updateAll ((points w h).map fun p => (index w (g p), f p))).cells (index w (g p)) =
      f p (r.cells (index w (g p))) :=
  Region.cells_updateAll_of_mem (nodup_places f hMem hInj) (List.mem_map.mpr ⟨p, hp, rfl⟩)

/-- Raster writes stay inside the picture's buffer. -/
theorem inBounds_updatePoints {r : Region α} {g : Nat × Nat → Nat × Nat} (f : Nat × Nat → α → α)
    (hMem : ∀ p ∈ points w h, g p ∈ points w h) (hr : r.InBounds (w * h)) :
    (r.updateAll ((points w h).map fun p => (index w (g p), f p))).InBounds (w * h) := by
  refine Region.inBounds_updateAll.mpr ⟨hr, fun q hq => ?_⟩
  obtain ⟨p, hp, rfl⟩ := List.mem_map.mp hq
  exact index_lt (hMem p hp)

theorem inBounds_storePoints {r : Region α} {g : Nat × Nat → Nat × Nat} (f : Nat × Nat → α)
    (hMem : ∀ p ∈ points w h, g p ∈ points w h) (hr : r.InBounds (w * h)) :
    (r.storeAll ((points w h).map fun p => (index w (g p), f p))).InBounds (w * h) := by
  rw [Region.storeAll_eq_updateAll, List.map_map]
  exact inBounds_updatePoints (fun p _ => f p) hMem hr

end Canvas

import TianJi.Lib.Memory
import Mathlib.Algebra.Group.Nat.Defs

/-!
# Little-endian fields in memory

Numbers of a fixed count of bytes, least significant byte first, and memory that holds a
given run of bytes.

* `leNat_of_holds` — reading back what was written gives the number, modulo its width.
* `holds_append`   — a run of bytes is held piece by piece.
* `leNat_congr`    — a field depends on its own bytes only.
* `holds_write`    — bytes written through a cursor are held, and what lies before or after
  them is held as it was (`Holds.frame_before`, `cells_write_after`).
* `Filled.write`, `Filled.append` — a block that is filled through a cursor from its start on.
-/

namespace Bytes

/-- The number in the `k` bytes from `off` on. -/
def leNat (m : Nat → UInt8) (off : Nat) : Nat → Nat
  | 0 => 0
  | k + 1 => (m off).toNat + 256 * leNat m (off + 1) k

/-- The `k` low bytes of a number. -/
def leBytes : Nat → Nat → List UInt8
  | 0, _ => []
  | k + 1, n => UInt8.ofNat n :: leBytes k (n / 256)

/-- The memory holds the bytes `l` from `off` on. -/
def Holds (m : Nat → UInt8) (off : Nat) (l : List UInt8) : Prop :=
  ∀ i b, l[i]? = some b → m (off + i) = b

variable {m m' : Nat → UInt8} {off : Nat}

@[simp] theorem length_leBytes (k n : Nat) : (leBytes k n).length = k := by
  induction k generalizing n with
  | zero => rfl
  | succ k ih => simp [leBytes, ih]

theorem leNat_congr {k : Nat} (h : ∀ i, off ≤ i → i < off + k → m i = m' i) :
    leNat m off k = leNat m' off k := by
  induction k generalizing off with
  | zero => rfl
  | succ k ih =>
    rw [leNat, leNat, h off (Nat.le_refl _) (by omega),
      ih fun i hLow hHigh => h i (by omega) (by omega)]

theorem holds_nil : Holds m off [] := by
  intro i b h
  simp at h

theorem holds_cons {b : UInt8} {l : List UInt8} :
    Holds m off (b :: l) ↔ m off = b ∧ Holds m (off + 1) l := by
  constructor
  · intro h
    refine ⟨h 0 b rfl, fun i c hc => ?_⟩
    have := h (i + 1) c (by simpa using hc)
    rwa [Nat.add_assoc, Nat.add_comm 1 i]
  · rintro ⟨hHead, hTail⟩ i c hc
    cases i with
    | zero =>
      rw [List.getElem?_cons_zero, Option.some.injEq] at hc
      rw [← hc]
      exact hHead
    | succ i =>
      rw [List.getElem?_cons_succ] at hc
      have := hTail i c hc
      rwa [Nat.add_assoc, Nat.add_comm 1 i] at this

theorem holds_append {l l' : List UInt8} :
    Holds m off (l ++ l') ↔ Holds m off l ∧ Holds m (off + l.length) l' := by
  induction l generalizing off with
  | nil => simp [holds_nil]
  | cons b l ih =>
    rw [List.cons_append, holds_cons, holds_cons, ih, List.length_cons, and_assoc,
      Nat.add_assoc, Nat.add_comm 1]

/-- Of pieces of one length that are held one after the other, each is held in its place. -/
theorem holds_flatMap_range {g : Nat → List UInt8} {n k : Nat} (hLength : ∀ i, (g i).length = k)
    (h : Holds m off ((List.range n).flatMap g)) {i : Nat} (hi : i < n) :
    Holds m (off + i * k) (g i) := by
  induction n with
  | zero => omega
  | succ n ih =>
    rw [List.range_succ, List.flatMap_append, List.flatMap_singleton, holds_append] at h
    obtain ⟨hInit, hLast⟩ := h
    rcases Nat.lt_succ_iff_lt_or_eq.mp hi with hLt | rfl
    · exact ih hInit hLt
    · simpa [hLength] using hLast

/-- **Reading back.** A field that was written with the bytes of `n` reads as `n`, modulo
its width. -/
theorem leNat_of_holds {k n : Nat} (h : Holds m off (leBytes k n)) :
    leNat m off k = n % 256 ^ k := by
  induction k generalizing off n with
  | zero => simp [leNat, Nat.mod_one]
  | succ k ih =>
    obtain ⟨hByte, hRest⟩ := holds_cons.mp h
    rw [leNat, hByte, ih hRest, Nat.pow_succ, Nat.mul_comm (256 ^ k), Nat.mod_mul]
    simp

-- ---------------------------------------------------------------------------
-- Writing a run of bytes
-- ---------------------------------------------------------------------------

open Memory Memory.Region

variable {r : Region UInt8} {l l' : List UInt8}

/-- A run of bytes written through a cursor is held where it was written. -/
theorem holds_write (r : Region UInt8) (off : Nat) (l : List UInt8) :
    Holds (r.storeAll (cursor off l)).cells off l := by
  intro i b hGet
  refine cells_storeAll_cursor (Nat.le_add_right off i) ?_
  rwa [Nat.add_sub_cancel_left]

theorem cells_write_before {k : Nat} (hk : k < off) :
    (r.storeAll (cursor off l)).cells k = r.cells k := by
  refine cells_storeAll_of_not_mem fun hMem => ?_
  rw [map_fst_cursor, List.mem_range'_1] at hMem
  omega

theorem cells_write_after {k : Nat} (hk : off + l.length ≤ k) :
    (r.storeAll (cursor off l)).cells k = r.cells k := by
  refine cells_storeAll_of_not_mem fun hMem => ?_
  rw [map_fst_cursor, List.mem_range'_1] at hMem
  omega

theorem Holds.frame_before {off' : Nat} (h : Holds r.cells off' l')
    (hBefore : off' + l'.length ≤ off) : Holds (r.storeAll (cursor off l)).cells off' l' := by
  intro i b hGet
  have hi : i < l'.length := by
    by_contra hNot
    rw [List.getElem?_eq_none (Nat.not_lt.mp hNot)] at hGet
    cases hGet
  rw [cells_write_before (by omega)]
  exact h i b hGet

/-- A block that holds `l` from its start is `l` when read out whole. -/
theorem map_range_of_holds (h : Holds m 0 l) : (List.range l.length).map m = l := by
  refine List.ext_getElem? fun i => ?_
  by_cases hi : i < l.length
  · have hByte := h i l[i] (List.getElem?_eq_getElem hi)
    rw [Nat.zero_add] at hByte
    rw [List.getElem?_map, List.getElem?_range hi, List.getElem?_eq_getElem hi, Option.map_some,
      hByte]
  · rw [List.getElem?_eq_none (by simpa using hi), List.getElem?_eq_none (by omega)]

-- ---------------------------------------------------------------------------
-- A block filled from its start
-- ---------------------------------------------------------------------------

/-- The block was stored to where `l` is longer than the index, nowhere else, and holds `l`. -/
structure Filled (r : Region UInt8) (l : List UInt8) : Prop where
  holds : Holds r.cells 0 l
  stores : ∀ i, i ∈ r.stores ↔ i < l.length

theorem filled_fresh (cells : Nat → UInt8) : Filled (fresh cells) [] :=
  ⟨holds_nil, by simp⟩

/-- Writing behind `l` or over what lies behind it. -/
theorem Filled.write (h : Filled r (l ++ l')) {l'' : List UInt8} (hLength : l'.length ≤ l''.length) :
    Filled (r.storeAll (cursor l.length l'')) (l ++ l'') := by
  refine ⟨holds_append.mpr ⟨?_, ?_⟩, fun i => ?_⟩
  · exact (holds_append.mp h.holds).1.frame_before (by omega)
  · rw [Nat.zero_add]
    exact holds_write r l.length l''
  · rw [stores_storeAll, map_fst_cursor, List.mem_append, h.stores, List.mem_range'_1,
      List.length_append, List.length_append]
    omega

theorem Filled.append (h : Filled r l) (l' : List UInt8) :
    Filled (r.storeAll (cursor l.length l')) (l ++ l') := by
  rw [← List.append_nil l] at h
  exact h.write (Nat.zero_le _)

theorem Filled.length_eq (h : Filled r l) (h' : Filled r l') : l.length = l'.length := by
  have hLess : l.length ≤ l'.length := Nat.not_lt.mp fun hLt =>
    (Nat.lt_irrefl _) ((h'.stores _).mp ((h.stores _).mpr hLt))
  have hMore : l'.length ≤ l.length := Nat.not_lt.mp fun hLt =>
    (Nat.lt_irrefl _) ((h.stores _).mp ((h'.stores _).mpr hLt))
  exact Nat.le_antisymm hLess hMore

end Bytes

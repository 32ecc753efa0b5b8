import Mathlib.Data.List.Basic

/-!
# Terminated strings in fixed buffers

A C string lives in a block of fixed length and ends at its first terminator. Every access
is checked: an operation is `none` as soon as it would touch an index outside the block.

`IsString b s` says that the block `b` holds the string `s`, and `Closed b` that the block
ends with a terminator, so that any string in it ends inside it. In terms of these the
operations are the expected ones on lists, and none of them is `none`:

* `strLen_eq`      — the length is found.
* `isString_write` — writing the terminator cuts the string.
* `isString_shift` — moving the characters down by one drops the first.
* `isString_copy`  — copying a terminated string behind a prefix.
-/

namespace CString

variable {α : Type*}

section

variable [Zero α] [DecidableEq α]

/-- Index of the first terminator; `none` when the search would leave the block. -/
def strLen : List α → Option Nat
  | [] => none
  | c :: b => if c = 0 then some 0 else (strLen b).map (· + 1)

/-- The string in a block, `none` when it has no terminator. -/
def string (b : List α) : Option (List α) := (strLen b).map b.take

end

/-- `b[i] = v` -/
def write (b : List α) (i : Nat) (v : α) : Option (List α) :=
  if i < b.length then some (b.set i v) else none

/-- Copy `n` elements from `src` on to `dst` on, as if through a temporary. -/
def moveWithin (b : List α) (dst src n : Nat) : Option (List α) :=
  if src + n ≤ b.length ∧ dst + n ≤ b.length then
    some (b.take dst ++ (b.drop src).take n ++ b.drop (dst + n))
  else none

/-- Copy the whole of `l` to `dst` on. -/
def copyInto (b : List α) (dst : Nat) (l : List α) : Option (List α) :=
  if dst + l.length ≤ b.length then some (b.take dst ++ l ++ b.drop (dst + l.length)) else none

variable [Zero α]

/-- The block holds the string `s`. -/
def IsString (b s : List α) : Prop := (∃ rest, b = s ++ 0 :: rest) ∧ 0 ∉ s

/-- The block's last element is a terminator. -/
def Closed (b : List α) : Prop := b.getLast? = some 0

variable {b s : List α}

theorem IsString.length_lt (h : IsString b s) : s.length < b.length := by
  obtain ⟨⟨rest, rfl⟩, -⟩ := h
  simp

theorem IsString.getElem? (h : IsString b s) {i : Nat} (hi : i < s.length) :
    b[i]? = some s[i] := by
  obtain ⟨⟨rest, rfl⟩, -⟩ := h
  rw [List.getElem?_append_left hi, List.getElem?_eq_getElem hi]

theorem IsString.getElem?_length (h : IsString b s) : b[s.length]? = some 0 := by
  obtain ⟨⟨rest, rfl⟩, -⟩ := h
  simp

theorem strLen_eq [DecidableEq α] (h : IsString b s) : strLen b = some s.length := by
  obtain ⟨⟨rest, rfl⟩, hZero⟩ := h
  induction s with
  | nil => simp [strLen]
  | cons c s ih =>
    obtain ⟨hc, hs⟩ := not_or.mp (mt List.mem_cons.mpr hZero)
    rw [List.cons_append, strLen, if_neg (Ne.symm hc), ih hs]
    rfl

theorem string_eq [DecidableEq α] (h : IsString b s) : string b = some s := by
  rw [string, strLen_eq h]
  obtain ⟨⟨rest, rfl⟩, -⟩ := h
  simp

/-- The string alone in a block of its own size. -/
theorem isString_exact (h : 0 ∉ s) : IsString (s ++ [0]) s ∧ Closed (s ++ [0]) :=
  ⟨⟨⟨[], rfl⟩, h⟩, by simp [Closed]⟩

/-- A block behind a changed part keeps its last element. -/
theorem closed_append_drop {l : List α} {k : Nat} (h : Closed b) (hk : k < b.length) :
    Closed (l ++ b.drop k) := by
  rw [Closed, List.getLast?_append, List.getLast?_drop, if_neg (by omega)]
  rw [Closed] at h
  simp [h]

/-- Writing the terminator at or before the end cuts the string there. -/
theorem isString_write {k : Nat} (h : IsString b s) (hk : k ≤ s.length) :
    ∃ b', write b k 0 = some b' ∧ b'.length = b.length ∧ IsString b' (s.take k) := by
  have hLength := h.length_lt
  refine ⟨b.set k 0, if_pos (by omega), List.length_set, ?_, ?_⟩
  · obtain ⟨⟨rest, rfl⟩, -⟩ := h
    refine ⟨(s ++ 0 :: rest).drop (k + 1), ?_⟩
    rw [List.set_eq_take_append_cons_drop, if_pos (by simp; omega), List.take_append_of_le_length hk]
  · intro hMem
    exact h.2 (List.mem_of_mem_take hMem)

/-- A write keeps the block closed unless it puts something else at its very end. -/
theorem closed_write {k : Nat} {v : α} (h : Closed b) (hk : k + 1 < b.length ∨ v = 0) :
    Closed (b.set k v) := by
  by_cases hIn : k < b.length
  · rw [List.set_eq_take_append_cons_drop, if_pos hIn]
    by_cases hLast : k + 1 < b.length
    · rw [← List.singleton_append, ← List.append_assoc]
      exact closed_append_drop h hLast
    · rcases hk with hk | rfl
      · exact absurd hk hLast
      · rw [List.drop_of_length_le (by omega), Closed]
        simp
  · rw [List.set_eq_of_length_le (by omega)]
    exact h

/-- Writing over the terminator adds a character to the prefix. -/
theorem take_set_end {v : α} (h : IsString b s) :
    (b.set s.length v).take (s.length + 1) = s ++ [v] := by
  obtain ⟨⟨rest, rfl⟩, -⟩ := h
  rw [List.set_append_right _ _ (Nat.le_refl _), Nat.sub_self, List.set_cons_zero,
    ← List.singleton_append, ← List.append_assoc]
  exact List.take_left' (by simp)

/-- Moving what follows the first character down by one, the terminator with it, drops that
character. -/
theorem isString_shift {c : α} (h : IsString b (c :: s)) (hClosed : Closed b) :
    ∃ b', moveWithin b 0 1 (s.length + 1) = some b' ∧ b'.length = b.length ∧
      IsString b' s ∧ Closed b' := by
  have hLength := h.length_lt
  rw [List.length_cons] at hLength
  obtain ⟨⟨rest, hb⟩, hZero⟩ := h
  have hMoved : moveWithin b 0 1 (s.length + 1) = some ((s ++ [0]) ++ b.drop (s.length + 1)) := by
    rw [moveWithin, if_pos (by omega), hb]
    simp [List.take_append, List.take_of_length_le]
  refine ⟨_, hMoved, ?_, ⟨⟨b.drop (s.length + 1), by simp⟩, ?_⟩, ?_⟩
  · simp only [List.length_append, List.length_drop, List.length_singleton]
    omega
  · exact fun hMem => hZero (List.mem_cons_of_mem _ hMem)
  · exact closed_append_drop hClosed (by omega)

/-- Copying a terminated string behind the first `k` characters, with room for it. -/
theorem isString_copy {k : Nat} {l : List α} (hPrefix : 0 ∉ b.take k) (hl : 0 ∉ l)
    (hRoom : k + (l.length + 1) ≤ b.length) (hClosed : Closed b) :
    ∃ b', copyInto b k (l ++ [0]) = some b' ∧ b'.length = b.length ∧
      IsString b' (b.take k ++ l) ∧ Closed b' := by
  have hCopied : copyInto b k (l ++ [0]) =
      some (b.take k ++ (l ++ [0]) ++ b.drop (k + (l.length + 1))) := by
    rw [copyInto, if_pos (by simpa using hRoom)]
    simp
  refine ⟨_, hCopied, ?_, ⟨⟨b.drop (k + (l.length + 1)), by simp⟩, ?_⟩, ?_⟩
  · simp only [List.length_append, List.length_take, List.length_drop, List.length_singleton]
    omega
  · intro hMem
    exact (List.mem_append.mp hMem).elim hPrefix hl
  · by_cases hLast : k + (l.length + 1) < b.length
    · exact closed_append_drop hClosed hLast
    · rw [List.drop_of_length_le (by omega), Closed]
      simp

end CString

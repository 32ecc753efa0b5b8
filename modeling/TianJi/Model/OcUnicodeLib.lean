import TianJi.Lib.CString
import TianJi.Model.Uefi

/-!
# TianJi — the parent directory of a path

`UnicodeGetParentDirectory` (OcUnicodeLib.c) cuts a path down to its directory in place.
The buffer is a block of fixed length and every access to it is checked, so a result other
than `none` means that no read or write left the block.

* `parentDirectory_total` — on any string the function stays inside its block, leaves a
  string in it that is no longer, and keeps the block terminated.
* `parentDirectory_cut`   — a path `d slash x` becomes `d`.
-/

namespace TianJi.Model

open CString

/-- `c == '\\' || c == '/'` -/
def isSlash (c : CHAR16) : Bool := c = 0x5C || c = 0x2F

/-- Drop the starting slash. Returns the block and the string's length. -/
def dropStartingSlash (String : List CHAR16) (Length : Nat) : Option (List CHAR16 × Nat) := do
  let c ← String[0]?
  if isSlash c then
    let String ← moveWithin String 0 1 Length
    some (String, Length - 1)
  else some (String, Length)

/-- `while (String[Length - 1] != slash) { --Length; if (Length == 0) .. }`. The result is the
length at which a slash was found, `some none` when the length came down to 0. -/
def findSlash (String : List CHAR16) : Nat → Option (Option Nat)
  | 0 => none
  | n + 1 => do
    let c ← String[n]?
    if isSlash c then some (some (n + 1))
    else if n = 0 then some none
    else findSlash String n

/-- `UnicodeGetParentDirectory` -/
def UnicodeGetParentDirectory (String : List CHAR16) : Option (Bool × List CHAR16) := do
  let Length ← strLen String
  let (String, Length) ← dropStartingSlash String Length
  if Length = 0 then some (false, String)
  else
    let c ← String[Length - 1]?
    let Length := if isSlash c then Length - 1 else Length
    if Length = 0 then some (false, String)
    else
      match ← findSlash String Length with
      | none =>
        let String ← write String 0 0
        some (true, String)
      | some Length =>
        let String ← write String (Length - 1) 0
        some (true, String)

/-! ## The pieces -/

variable {b s : List CHAR16}

/-- The path without a starting slash. -/
def stripSlash : List CHAR16 → List CHAR16
  | [] => []
  | c :: s => if isSlash c then s else c :: s

theorem length_stripSlash_le (s : List CHAR16) : (stripSlash s).length ≤ s.length := by
  cases s with
  | nil => exact Nat.le_refl _
  | cons c s =>
    rw [stripSlash]
    split_ifs
    · exact Nat.le_succ _
    · exact Nat.le_refl _

theorem dropStartingSlash_eq (h : IsString b s) (hClosed : Closed b) :
    ∃ b', dropStartingSlash b s.length = some (b', (stripSlash s).length) ∧
      b'.length = b.length ∧ IsString b' (stripSlash s) ∧ Closed b' := by
  have hZero : isSlash 0 = false := by decide
  cases s with
  | nil =>
    have hFirst : b[0]? = some 0 := h.getElem?_length
    exact ⟨b, by simp [dropStartingSlash, hFirst, hZero, stripSlash], rfl, h, hClosed⟩
  | cons c s =>
    have hFirst : b[0]? = some c := h.getElem? (i := 0) (by simp)
    by_cases hSlash : isSlash c = true
    · obtain ⟨b', hMove, hLength, hString, hClosed'⟩ := isString_shift h hClosed
      refine ⟨b', ?_, hLength, ?_, hClosed'⟩
      · simp [dropStartingSlash, hFirst, hSlash, hMove, stripSlash]
      · rwa [stripSlash, if_pos hSlash]
    · refine ⟨b, ?_, rfl, ?_, hClosed⟩
      · simp [dropStartingSlash, hFirst, hSlash, stripSlash]
      · rwa [stripSlash, if_neg hSlash]

/-- Inside the string the search always ends, at a slash or at the string's start. -/
theorem findSlash_total (h : IsString b s) {n : Nat} (hPos : 1 ≤ n) (hn : n ≤ s.length) :
    findSlash b n = some none ∨ ∃ k < n, findSlash b n = some (some (k + 1)) := by
  induction n with
  | zero => omega
  | succ n ih =>
    rw [findSlash, h.getElem? (show n < s.length by omega)]
    simp only [Option.bind_eq_bind, Option.bind_some]
    split_ifs with hSlash hZero
    · exact Or.inr ⟨n, Nat.lt_succ_self n, rfl⟩
    · exact Or.inl rfl
    · rcases ih (by omega) (by omega) with hNone | ⟨k, hk, hSome⟩
      · exact Or.inl hNone
      · exact Or.inr ⟨k, by omega, hSome⟩

/-- The search stops at the last slash. -/
theorem findSlash_last {u v : List CHAR16} {c : CHAR16} (h : IsString b (u ++ c :: v))
    (hSlash : isSlash c = true) (hNone : ∀ x ∈ v, isSlash x = false) :
    findSlash b (u ++ c :: v).length = some (some (u.length + 1)) := by
  have hStop : ∀ n, n ≤ v.length →
      findSlash b (u.length + 1 + n) = some (some (u.length + 1)) := by
    intro n hn
    induction n with
    | zero =>
      have hAt : b[u.length]? = some c := by
        rw [h.getElem? (by simp)]
        simp
      rw [Nat.add_zero, findSlash, hAt]
      simp [hSlash]
    | succ n ih =>
      have hIn : n < v.length := by omega
      have hAt : b[u.length + 1 + n]? = some v[n] := by
        rw [h.getElem? (by simp; omega), Option.some.injEq,
          List.getElem_append_right (by omega)]
        simp only [show u.length + 1 + n - u.length = n + 1 by omega, List.getElem_cons_succ]
      rw [← Nat.add_assoc, findSlash, hAt]
      simp only [Option.bind_eq_bind, Option.bind_some, hNone _ (List.getElem_mem hIn)]
      rw [if_neg (by simp), if_neg (by omega), ih (by omega)]
  rw [List.length_append, List.length_cons, show u.length + (v.length + 1) =
    u.length + 1 + v.length by omega]
  exact hStop v.length (Nat.le_refl _)

/-! ## The function -/

/-- **No string takes the function out of its block.** -/
theorem parentDirectory_total (h : IsString b s) (hClosed : Closed b) :
    ∃ r b' s', UnicodeGetParentDirectory b = some (r, b') ∧ b'.length = b.length ∧
      IsString b' s' ∧ Closed b' ∧ s'.length ≤ s.length := by
  obtain ⟨b₁, hDrop, hLength₁, hString₁, hClosed₁⟩ := dropStartingSlash_eq h hClosed
  have hShort := length_stripSlash_le s
  unfold UnicodeGetParentDirectory
  rw [strLen_eq h]
  simp only [Option.bind_eq_bind, Option.bind_some, hDrop]
  split_ifs with hEmpty
  · exact ⟨_, _, _, rfl, hLength₁, hString₁, hClosed₁, hShort⟩
  rw [hString₁.getElem? (show (stripSlash s).length - 1 < (stripSlash s).length by omega)]
  simp only [Option.bind_some]
  -- the length without a trailing slash
  generalize hn : (if isSlash (stripSlash s)[(stripSlash s).length - 1] then
    (stripSlash s).length - 1 else (stripSlash s).length) = n
  have hLe : n ≤ (stripSlash s).length := by
    rw [← hn]
    split_ifs <;> omega
  split_ifs with hSlashOnly
  · exact ⟨_, _, _, rfl, hLength₁, hString₁, hClosed₁, hShort⟩
  -- cutting the string at any place keeps the block closed
  have hCut : ∀ k ≤ (stripSlash s).length, ∃ b', write b₁ k 0 = some b' ∧
      b'.length = b.length ∧ IsString b' ((stripSlash s).take k) ∧ Closed b' ∧
      ((stripSlash s).take k).length ≤ s.length := by
    intro k hk
    obtain ⟨b', hWrite, hLength, hString⟩ := isString_write hString₁ hk
    refine ⟨b', hWrite, hLength.trans hLength₁, hString, ?_, by rw [List.length_take]; omega⟩
    unfold write at hWrite
    split_ifs at hWrite
    rw [← Option.some.inj hWrite]
    exact closed_write hClosed₁ (Or.inr rfl)
  rcases findSlash_total hString₁ (Nat.one_le_iff_ne_zero.mpr hSlashOnly) hLe with hFind | ⟨k, hk, hFind⟩
  · obtain ⟨b', hWrite, hRest⟩ := hCut 0 (Nat.zero_le _)
    exact ⟨true, b', _, by simp [hFind, hWrite], hRest⟩
  · obtain ⟨b', hWrite, hRest⟩ := hCut k (by omega)
    exact ⟨true, b', _, by simp [hFind, hWrite], hRest⟩

/-- **A directory and a name.** With or without a starting slash, `d slash x` becomes `d`. -/
theorem parentDirectory_cut {d x : List CHAR16} {c : CHAR16} (h : IsString b s)
    (hClosed : Closed b) (hPath : stripSlash s = d ++ c :: x) (hSlash : isSlash c = true)
    (hx : x ≠ []) (hNone : ∀ a ∈ x, isSlash a = false) :
    ∃ b', UnicodeGetParentDirectory b = some (true, b') ∧ b'.length = b.length ∧
      IsString b' d ∧ Closed b' := by
  obtain ⟨b₁, hDrop, hLength₁, hString₁, hClosed₁⟩ := dropStartingSlash_eq h hClosed
  rw [hPath] at hDrop hString₁
  have hPos : 0 < x.length := List.length_pos_iff.mpr hx
  have hLong : (d ++ c :: x).length = d.length + 1 + x.length := by
    rw [List.length_append, List.length_cons]
    omega
  -- the last character is one of `x`, so there is no trailing slash
  have hLast : ∃ a, b₁[(d ++ c :: x).length - 1]? = some a ∧ isSlash a = false := by
    refine ⟨_, hString₁.getElem? (by omega), hNone _ ?_⟩
    rw [List.getElem_append_right (by omega)]
    simp only [show (d ++ c :: x).length - 1 - d.length = (x.length - 1) + 1 by omega,
      List.getElem_cons_succ]
    exact List.getElem_mem _
  obtain ⟨a, hAt, hNot⟩ := hLast
  obtain ⟨b', hWrite, hLength, hString⟩ :=
    isString_write hString₁ (k := d.length) (by omega)
  rw [List.take_left'  rfl] at hString
  refine ⟨b', ?_, hLength.trans hLength₁, hString, ?_⟩
  · unfold UnicodeGetParentDirectory
    rw [strLen_eq h]
    have hNe : (d ++ c :: x).length ≠ 0 := by omega
    simp only [Option.bind_eq_bind, Option.bind_some, hDrop, if_neg hNe, hAt, hNot,
      Bool.false_eq_true, if_false, findSlash_last hString₁ hSlash hNone, Nat.add_sub_cancel,
      hWrite]
  · unfold write at hWrite
    split_ifs at hWrite
    rw [← Option.some.inj hWrite]
    exact closed_write hClosed₁ (Or.inr rfl)

end TianJi.Model

import TianJi.Model.Uefi
import Mathlib.Data.List.Infix

/-!
# TianJi — string functions of BaseLib

`StrStr` as `库/BaseLib/String.c` walks it. A string is the list of its characters up to
the terminator; a position inside it is the rest of the list from there.
-/

namespace TianJi.Model

/-- The inner loop of `StrStr`: both pointers advance while the characters agree. Returns
where they stop. -/
def matchRun : List CHAR16 → List CHAR16 → List CHAR16 × List CHAR16
  | c :: String, d :: SearchStringTmp =>
    if c = d then matchRun String SearchStringTmp else (c :: String, d :: SearchStringTmp)
  | String, SearchStringTmp => (String, SearchStringTmp)

/-- `StrStr`: the first occurrence of `SearchString`, as the rest of `String` from there. -/
def StrStr (String SearchString : List CHAR16) : Option (List CHAR16) :=
  if SearchString = [] then some String
  else match String with
    | [] => none
    | c :: rest =>
      let stop := matchRun (c :: rest) SearchString
      if stop.2 = [] then some (c :: rest)
      -- the text ran out inside a match, so no later start can fit either
      else if stop.1 = [] then none
      else StrStr rest SearchString

/-- The inner loop uses up the search string exactly at an occurrence. -/
theorem matchRun_snd_eq_nil {s p : List CHAR16} : (matchRun s p).2 = [] ↔ p <+: s := by
  induction s generalizing p with
  | nil => cases p <;> simp [matchRun]
  | cons c s ih =>
    cases p with
    | nil => simp [matchRun]
    | cons d p =>
      by_cases h : c = d
      · subst h
        simp [matchRun, ih, List.cons_prefix_cons]
      · simp [matchRun, h, List.cons_prefix_cons, Ne.symm h]

/-- The inner loop uses up the text only when the text is a prefix of the search string. -/
theorem prefix_of_matchRun_fst_eq_nil {s p : List CHAR16} (h : (matchRun s p).1 = []) :
    s <+: p := by
  induction s generalizing p with
  | nil => exact List.nil_prefix
  | cons c s ih =>
    cases p with
    | nil => simp [matchRun] at h
    | cons d p =>
      by_cases hc : c = d
      · subst hc
        rw [matchRun, if_pos rfl] at h
        exact List.cons_prefix_cons.mpr ⟨rfl, ih h⟩
      · simp [matchRun, hc] at h

/-- **`StrStr` finds exactly the substrings.** -/
theorem isSome_StrStr {s p : List CHAR16} : (StrStr s p).isSome = true ↔ p <:+: s := by
  induction s with
  | nil =>
    by_cases hp : p = []
    · simp [StrStr, hp]
    · simp [StrStr, hp, List.infix_nil]
  | cons c s ih =>
    by_cases hp : p = []
    · simp [StrStr, hp]
    rw [StrStr, if_neg hp]
    dsimp only
    by_cases hHere : (matchRun (c :: s) p).2 = []
    · rw [if_pos hHere]
      exact iff_of_true rfl (matchRun_snd_eq_nil.mp hHere).isInfix
    rw [if_neg hHere]
    have hNotHere : ¬ p <+: c :: s := fun h => hHere (matchRun_snd_eq_nil.mpr h)
    by_cases hEnd : (matchRun (c :: s) p).1 = []
    · -- the rest of the text is shorter than the search string
      rw [if_pos hEnd]
      have hPrefix := prefix_of_matchRun_fst_eq_nil hEnd
      refine iff_of_false (by simp) fun hInfix => ?_
      have hEq : c :: s = p := hPrefix.eq_of_length_le hInfix.length_le
      exact hNotHere (hEq ▸ List.prefix_rfl)
    · rw [if_neg hEnd, ih, List.infix_cons_iff]
      simp [hNotHere]

end TianJi.Model

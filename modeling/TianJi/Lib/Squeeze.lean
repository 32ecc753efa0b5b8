import Mathlib.Data.List.Chain

/-!
# Squeezed separators

A list without the separators in front, where of several separators in a row one is left. The words
between the separators stay as they are.

* `words_squeeze`   — the words are kept.
* `tidy_squeeze`    — no separator is in front or behind another one.
* `squeeze_of_tidy` — what is tidy already stays as it is.
-/

namespace Squeeze

variable {α : Type*} [DecidableEq α]

/-- The list squeezed, where a separator is left out when it comes after another one or at first. -/
def squeeze (sep : α) : Bool → List α → List α
  | _, [] => []
  | after, c :: rest =>
    if c ≠ sep then c :: squeeze sep false rest
    else if after then squeeze sep true rest else sep :: squeeze sep true rest

/-- The words between the separators. -/
noncomputable def words (sep : α) (l : List α) : List (List α) :=
  (l.splitOnP (· == sep)).filter (· ≠ [])

/-- Separators stand alone, and in front of a list only where they may. -/
def Tidy (sep : α) (after : Bool) (l : List α) : Prop :=
  (after = true → l.head? ≠ some sep) ∧ l.IsChain fun a b => a = sep → b ≠ sep

variable {sep : α} {after : Bool} {l rest : List α} {c : α}

theorem squeeze_sublist (sep : α) (after : Bool) (l : List α) : (squeeze sep after l).Sublist l := by
  induction l generalizing after with
  | nil => exact List.Sublist.refl _
  | cons c rest ih =>
    rw [squeeze]
    split_ifs with hSep hAfter
    · exact (ih false).cons_cons c
    · exact (ih true).cons c
    · rw [not_not.mp hSep]
      exact (ih true).cons_cons sep

theorem splitOnP_sep (rest : List α) :
    (sep :: rest).splitOnP (· == sep) = [] :: rest.splitOnP (· == sep) := by
  rw [List.splitOnP_cons_eq_if_modifyHead, if_pos (beq_self_eq_true sep)]

theorem splitOnP_other (h : c ≠ sep) (rest : List α) :
    (c :: rest).splitOnP (· == sep) = (rest.splitOnP (· == sep)).modifyHead (c :: ·) := by
  rw [List.splitOnP_cons_eq_if_modifyHead, if_neg (by simpa using h)]

/-- Behind a word the rest of this word is kept, too. -/
theorem splitOnP_squeeze (l : List α) :
    (∃ w ws ws', (squeeze sep false l).splitOnP (· == sep) = w :: ws ∧
      l.splitOnP (· == sep) = w :: ws' ∧ ws.filter (· ≠ []) = ws'.filter (· ≠ [])) ∧
    words sep (squeeze sep true l) = words sep l := by
  induction l with
  | nil => exact ⟨⟨[], [], [], rfl, rfl, rfl⟩, rfl⟩
  | cons c rest ih =>
    obtain ⟨⟨w, ws, ws', hLeft, hRight, hSame⟩, hWords⟩ := ih
    by_cases hSep : c = sep
    · subst hSep
      have hFirst : squeeze c false (c :: rest) = c :: squeeze c true rest := by simp [squeeze]
      have hLater : squeeze c true (c :: rest) = squeeze c true rest := by simp [squeeze]
      refine ⟨⟨[], _, _, by rw [hFirst, splitOnP_sep], splitOnP_sep rest, hWords⟩, ?_⟩
      rw [hLater, hWords, words, words, splitOnP_sep]
      simp
    · have hKeep (after : Bool) : squeeze sep after (c :: rest) = c :: squeeze sep false rest := by
        simp [squeeze, hSep]
      have hMore : (c :: squeeze sep false rest).splitOnP (· == sep) = (c :: w) :: ws := by
        rw [splitOnP_other hSep, hLeft]
        rfl
      have hMore' : (c :: rest).splitOnP (· == sep) = (c :: w) :: ws' := by
        rw [splitOnP_other hSep, hRight]
        rfl
      refine ⟨⟨c :: w, ws, ws', by rw [hKeep, hMore], hMore', hSame⟩, ?_⟩
      rw [hKeep, words, words, hMore, hMore', List.filter_cons_of_pos (by simp),
        List.filter_cons_of_pos (by simp), hSame]

/-- **The words are kept.** -/
theorem words_squeeze (sep : α) (l : List α) : words sep (squeeze sep true l) = words sep l :=
  (splitOnP_squeeze l).2

/-- **Separators stand alone.** -/
theorem tidy_squeeze (sep : α) (after : Bool) (l : List α) : Tidy sep after (squeeze sep after l) := by
  induction l generalizing after with
  | nil => exact ⟨fun _ => by simp [squeeze], by simp [squeeze]⟩
  | cons c rest ih =>
    rw [squeeze]
    split_ifs with hSep hAfter
    · exact ⟨fun _ => by simpa using hSep,
        List.isChain_cons.mpr ⟨fun b _ hEq => absurd hEq hSep, (ih false).2⟩⟩
    · rw [hAfter]
      exact ih true
    · refine ⟨fun hTrue => absurd hTrue hAfter, List.isChain_cons.mpr ⟨fun b hb _ hEq => ?_, (ih true).2⟩⟩
      exact (ih true).1 rfl ((Option.mem_def.mp hb).trans (congrArg some hEq))

/-- What is tidy is not changed. -/
theorem squeeze_of_tidy (h : Tidy sep after l) : squeeze sep after l = l := by
  induction l generalizing after with
  | nil => rfl
  | cons c rest ih =>
    obtain ⟨hFirst, hChain⟩ := h
    obtain ⟨hNext, hRest⟩ := List.isChain_cons.mp hChain
    rw [squeeze]
    split_ifs with hSep hAfter
    · rw [ih ⟨fun hFalse => absurd hFalse (by decide), hRest⟩]
    · exact absurd (congrArg some (not_not.mp hSep)) (hFirst hAfter)
    · rw [not_not] at hSep
      rw [ih ⟨fun _ hHead => hNext sep hHead hSep rfl, hRest⟩, hSep]

end Squeeze

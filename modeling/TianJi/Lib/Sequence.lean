import Mathlib.Data.List.Forall2
import Mathlib.Data.List.Induction

/-!
# Sequences that are waited for

A watcher waits for the elements of a sequence one after the other. What it does not wait for sends it
back to the first one, and is not compared with the first one.

* `ends_of_reacts`  — it reacts to nothing but its sequence.
* `reacts_iff`      — it does so when it waited for the first element before the sequence.
* `reacts_all_iff`  — it reacts to every appearance of its sequence exactly when this has one element.
-/

namespace Sequence

variable {S K : Type*} (fits : S → K → Bool) (code : List K)

/-- The index of the element to wait for next, and whether the sequence is complete. -/
def advance (waiting : Nat) (s : S) : Nat × Bool :=
  if (code[waiting]?).any (fits s) then
    if waiting + 1 = code.length then (0, true) else (waiting + 1, false)
  else (0, false)

/-- The index behind some elements. -/
def progress (heard : List S) : Nat := heard.foldl (fun waiting s => (advance fits code waiting s).1) 0

/-- One more element completes the sequence. -/
def reacts (heard : List S) (s : S) : Bool := (advance fits code (progress fits code heard) s).2

/-- The last elements are those of the sequence. -/
def Ends (heard : List S) (code : List K) : Prop :=
  ∃ front last, heard = front ++ last ∧ List.Forall₂ (fun s k => fits s k = true) last code

variable {fits code} {heard front last : List S} {s : S} {k : K} {waiting : Nat}

theorem progress_concat (heard : List S) (s : S) :
    progress fits code (heard ++ [s]) = (advance fits code (progress fits code heard) s).1 := by
  rw [progress, List.foldl_append]
  rfl

/-- What a step does. -/
theorem advance_cases (fits : S → K → Bool) (code : List K) (waiting : Nat) (s : S) :
    (∃ k, code[waiting]? = some k ∧ fits s k = true ∧
      (waiting + 1 = code.length ∧ advance fits code waiting s = (0, true) ∨
        waiting + 1 ≠ code.length ∧ advance fits code waiting s = (waiting + 1, false))) ∨
    advance fits code waiting s = (0, false) := by
  rw [advance]
  cases hAt : code[waiting]? with
  | none => exact Or.inr rfl
  | some k =>
    rw [Option.any_some]
    by_cases hFits : fits s k = true
    · rw [if_pos hFits]
      split_ifs with hLast
      · exact Or.inl ⟨k, rfl, hFits, Or.inl ⟨hLast, rfl⟩⟩
      · exact Or.inl ⟨k, rfl, hFits, Or.inr ⟨hLast, rfl⟩⟩
    · rw [if_neg hFits]
      exact Or.inr rfl

/-- The index stays inside of the sequence. -/
theorem advance_lt (hNe : code ≠ []) (waiting : Nat) (s : S) :
    (advance fits code waiting s).1 < code.length := by
  have hPos := List.length_pos_of_ne_nil hNe
  rcases advance_cases fits code waiting s with ⟨k, hAt, -, ⟨-, hEq⟩ | ⟨hMore, hEq⟩⟩ | hEq
  · rw [hEq]
    exact hPos
  · have hLess := (List.getElem?_eq_some_iff.mp hAt).1
    rw [hEq]
    dsimp only
    omega
  · rw [hEq]
    exact hPos

theorem progress_lt (hNe : code ≠ []) (heard : List S) : progress fits code heard < code.length := by
  induction heard using List.reverseRecOn with
  | nil => exact List.length_pos_of_ne_nil hNe
  | append_singleton heard s =>
    rw [progress_concat]
    exact advance_lt hNe _ s

/-- One element more of a sequence that was begun. -/
theorem ends_concat (h : Ends fits heard (code.take waiting)) (hAt : code[waiting]? = some k)
    (hFits : fits s k = true) : Ends fits (heard ++ [s]) (code.take (waiting + 1)) := by
  obtain ⟨front, last, rfl, hAll⟩ := h
  refine ⟨front, last ++ [s], List.append_assoc _ _ _, ?_⟩
  rw [List.take_add_one, hAt]
  exact List.rel_append hAll (.cons hFits .nil)

/-- **The invariant.** As many elements as it is ahead are those of the sequence. -/
theorem ends_progress (heard : List S) : Ends fits heard (code.take (progress fits code heard)) := by
  induction heard using List.reverseRecOn with
  | nil => exact ⟨[], [], rfl, .nil⟩
  | append_singleton heard s ih =>
    have hStart : Ends fits (heard ++ [s]) (code.take 0) := ⟨_, [], (List.append_nil _).symm, .nil⟩
    rw [progress_concat]
    rcases advance_cases fits code (progress fits code heard) s with
      ⟨k, hAt, hFits, ⟨-, hEq⟩ | ⟨-, hEq⟩⟩ | hEq
    · rw [hEq]
      exact hStart
    · rw [hEq]
      exact ends_concat ih hAt hFits
    · rw [hEq]
      exact hStart

theorem reacts_spec (h : reacts fits code heard s = true) :
    ∃ k, code[progress fits code heard]? = some k ∧ fits s k = true ∧
      progress fits code heard + 1 = code.length := by
  rw [reacts] at h
  rcases advance_cases fits code (progress fits code heard) s with
    ⟨k, hAt, hFits, ⟨hLast, -⟩ | ⟨-, hEq⟩⟩ | hEq
  · exact ⟨k, hAt, hFits, hLast⟩
  · rw [hEq] at h
    cases h
  · rw [hEq] at h
    cases h

/-- **It reacts to nothing else.** -/
theorem ends_of_reacts (h : reacts fits code heard s = true) : Ends fits (heard ++ [s]) code := by
  obtain ⟨k, hAt, hFits, hLast⟩ := reacts_spec h
  have hEnds := ends_concat (ends_progress heard) hAt hFits
  rwa [hLast, List.take_length] at hEnds

/-- An index that is not 0 was one less before. -/
theorem progress_of_concat (h : progress fits code (heard ++ [s]) = waiting + 1) :
    progress fits code heard = waiting := by
  rw [progress_concat] at h
  rcases advance_cases fits code (progress fits code heard) s with ⟨k, -, -, ⟨-, hEq⟩ | ⟨-, hEq⟩⟩ | hEq
  · rw [hEq] at h
    cases h
  · rw [hEq] at h
    exact Nat.succ.inj h
  · rw [hEq] at h
    cases h

theorem progress_of_append (h : progress fits code (front ++ last) = waiting + last.length) :
    progress fits code front = waiting := by
  induction last using List.reverseRecOn with
  | nil => rwa [List.append_nil] at h
  | append_singleton last s ih =>
    rw [← List.append_assoc, List.length_append, List.length_singleton, ← Nat.add_assoc] at h
    exact ih (progress_of_concat h)

/-- From the first element on the sequence is followed. -/
theorem progress_append (hStart : progress fits code front = 0)
    (hAll : List.Forall₂ (fun s k => fits s k = true) last (code.take last.length))
    (hLess : last.length < code.length) : progress fits code (front ++ last) = last.length := by
  induction last using List.reverseRecOn with
  | nil => rwa [List.append_nil]
  | append_singleton last s ih =>
    rw [List.length_append, List.length_singleton] at hAll hLess ⊢
    have hBefore := List.forall₂_take last.length hAll
    rw [List.take_left, List.take_take, Nat.min_eq_left (Nat.le_succ _)] at hBefore
    have hProgress := ih hBefore (by omega)
    have hFits : fits s code[last.length] = true := by
      have hLast := hAll.get (i := last.length) (by simp) (by rw [List.length_take]; omega)
      simpa using hLast
    have hAny : (code[last.length]?).any (fits s) = true := by
      rw [List.getElem?_eq_getElem (by omega), Option.any_some, hFits]
    rw [← List.append_assoc, progress_concat, hProgress, advance, if_pos hAny, if_neg (by omega)]

/-- A watcher that waits for the last element reacts to it. -/
theorem reacts_last (hProgress : progress fits code heard + 1 = code.length)
    (hAt : code[progress fits code heard]? = some k) (hFits : fits s k = true) :
    reacts fits code heard s = true := by
  have hAny : (code[progress fits code heard]?).any (fits s) = true := by
    rw [hAt, Option.any_some, hFits]
  rw [reacts, advance, if_pos hAny, if_pos hProgress]

/-- **When it reacts.** -/
theorem reacts_iff : reacts fits code heard s = true ↔ ∃ front last, heard = front ++ last ∧
    progress fits code front = 0 ∧ List.Forall₂ (fun s k => fits s k = true) (last ++ [s]) code := by
  constructor
  · intro h
    obtain ⟨k, hAt, hFits, hLast⟩ := reacts_spec h
    have hEnds : Ends fits heard (code.take (progress fits code heard)) := ends_progress heard
    obtain ⟨front, last, hSplit, hAll⟩ := hEnds
    have hLength : progress fits code (front ++ last) = 0 + last.length := by
      rw [hAll.length_eq, List.length_take, ← hSplit]
      omega
    refine ⟨front, last, hSplit, progress_of_append hLength, ?_⟩
    have hMore : List.Forall₂ (fun s k => fits s k = true) (last ++ [s])
        (code.take (progress fits code heard) ++ [k]) := List.rel_append hAll (.cons hFits .nil)
    have hCode : code.take (progress fits code heard) ++ [k] = code := by
      have hTake := List.take_add_one (l := code) (i := progress fits code heard)
      rw [hAt, hLast, List.take_length] at hTake
      exact hTake.symm
    rwa [hCode] at hMore
  · rintro ⟨front, last, rfl, hStart, hAll⟩
    have hLength : last.length + 1 = code.length := by
      rw [← hAll.length_eq, List.length_append, List.length_singleton]
    have hBefore := List.forall₂_take last.length hAll
    rw [List.take_left] at hBefore
    have hProgress := progress_append hStart hBefore (by omega)
    have hLess : last.length < code.length := by omega
    have hFits : fits s code[last.length] = true := by
      have hLast := hAll.get (i := last.length) (by simp) hLess
      simpa using hLast
    refine reacts_last (by rw [hProgress, hLength]) ?_ hFits
    rw [hProgress, List.getElem?_eq_getElem hLess]

theorem exists_typed {code : List K} (hTypes : ∀ k ∈ code, ∃ s, fits s k = true) :
    ∃ typed : List S, List.Forall₂ (fun s k => fits s k = true) typed code := by
  induction code with
  | nil => exact ⟨[], .nil⟩
  | cons k code ih =>
    obtain ⟨hFirst, hRest⟩ := List.forall_mem_cons.mp hTypes
    obtain ⟨s, hFits⟩ := hFirst
    obtain ⟨typed, hAll⟩ := ih hRest
    exact ⟨s :: typed, .cons hFits hAll⟩

/-- **Every appearance is noticed** of sequences with one element only: with more of them, the first
element twice in a row is the beginning of one that is not. -/
theorem reacts_all_iff (hNe : code ≠ []) (hTypes : ∀ k ∈ code, ∃ s, fits s k = true) :
    (∀ heard s, Ends fits (heard ++ [s]) code → reacts fits code heard s = true) ↔ code.length = 1 := by
  constructor
  · intro hAll
    obtain ⟨typed, hTyped⟩ := exists_typed hTypes
    obtain ⟨k, code', rfl⟩ := List.exists_cons_of_ne_nil hNe
    obtain ⟨s, typed', hFits, -, rfl⟩ := List.forall₂_cons_right_iff.mp hTyped
    obtain ⟨front, last, hSplit⟩ : ∃ front last, s :: typed' = front ++ [last] :=
      ⟨_, _, (List.dropLast_append_getLast (List.cons_ne_nil s typed')).symm⟩
    have hReacts := hAll ([s] ++ front) last ⟨[s], s :: typed', by rw [hSplit]; rfl, hTyped⟩
    obtain ⟨-, -, -, hLast⟩ := reacts_spec hReacts
    have hLength : front.length + 1 = (k :: code').length := by
      rw [← hTyped.length_eq, hSplit, List.length_append, List.length_singleton]
    have hBefore : progress fits (k :: code') ([s] ++ front) = 0 + front.length := by omega
    have hFirst : progress fits (k :: code') [s] = 0 := progress_of_append hBefore
    by_contra hMore
    -- the first element was noticed, and the second time it was not the one that was waited for
    have hAny : ((k :: code')[0]?).any (fits s) = true := by simpa using hFits
    have hOne : progress fits (k :: code') ([] ++ [s]) = 1 := by
      rw [progress_concat, progress, List.foldl_nil, advance, if_pos hAny,
        if_neg fun hEq => hMore hEq.symm]
    rw [List.nil_append, hFirst] at hOne
    cases hOne
  · rintro hOne heard s ⟨front, last, hSplit, hAll⟩
    obtain ⟨k, rfl⟩ := List.length_eq_one_iff.mp hOne
    obtain ⟨s', rest, hFits, hNil, rfl⟩ := List.forall₂_cons_right_iff.mp hAll
    obtain rfl := List.forall₂_nil_right_iff.mp hNil
    obtain ⟨-, hSame⟩ := List.append_inj' hSplit rfl
    cases hSame
    have hZero : progress fits [k] heard = 0 := Nat.lt_one_iff.mp (progress_lt hNe heard)
    exact reacts_last (by rw [hZero]; rfl) (by rw [hZero]; rfl) hFits

end Sequence

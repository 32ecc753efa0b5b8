import Mathlib.Data.List.Perm.Basic

/-!
# An ownership ledger

What a program with manual release owes at each moment. A `Ptr` is null, was never
assigned, or names an acquisition by number; numbers are never reused. The ledger keeps
the acquisitions that were not released yet and the releases that should not have been.

`Owes L ps` says that the pointers `ps` are exactly what is still to be released, and that
no release so far was a misuse. A program's locals are such a list: acquiring adds to it,
releasing takes away from it, a pointer that goes out of scope stays in it for ever.

* `acquire_spec`, `tryAcquire_spec`, `owes_release` — one operation.
* `clean_iff_of_owes`            — a run ends clean exactly when it owes nothing.
* `owes_releaseEach`             — a cleanup that releases a list of pointers.
* `not_sound_releaseEach`        — releasing what was never assigned is final.

A function that is called in the middle of a run is judged by what it adds: `Since L₀ L fs
ps` keeps the exact account of its faults and of what it acquired and still holds.

* `since_acquire`, `since_tryAcquire`, `since_release`, `since_release_stale`
* `settled_iff_of_since`         — a call settles its account exactly when neither is left.
-/

namespace Ownership

/-- A pointer to a resource, as far as releasing it is concerned. -/
inductive Ptr where
  | null
  /-- Never assigned: it holds whatever was in its place before. -/
  | wild
  | ref (id : Nat)
  deriving DecidableEq, Repr

/-- What is wrong with a release. -/
inductive Fault where
  | null
  | unassigned
  | stale
  deriving DecidableEq, Repr

structure Ledger where
  next : Nat
  live : List Nat
  faults : List Fault
  deriving DecidableEq, Repr

namespace Ptr

/-- The acquisition a pointer stands for. -/
def ids : Ptr → List Nat
  | .ref id => [id]
  | _ => []

@[simp] theorem ids_null : Ptr.null.ids = [] := rfl
@[simp] theorem ids_wild : Ptr.wild.ids = [] := rfl
@[simp] theorem ids_ref (id : Nat) : (Ptr.ref id).ids = [id] := rfl

theorem ids_eq_nil_iff {p : Ptr} (hp : p ≠ .wild) : p.ids = [] ↔ p = .null := by
  cases p with
  | null => simp
  | wild => exact absurd rfl hp
  | ref id => simp

end Ptr

namespace Ledger

/-- Nothing acquired yet. -/
def empty : Ledger := ⟨0, [], []⟩

def acquire (L : Ledger) : Ptr × Ledger := (.ref L.next, ⟨L.next + 1, L.next :: L.live, L.faults⟩)

/-- An acquisition that may fail with a null pointer. -/
def tryAcquire (L : Ledger) (succeeds : Bool) : Ptr × Ledger :=
  if succeeds then L.acquire else (.null, L)

def release (L : Ledger) (p : Ptr) : Ledger :=
  match p with
  | .null => { L with faults := L.faults ++ [.null] }
  | .wild => { L with faults := L.faults ++ [.unassigned] }
  | .ref id =>
    if id ∈ L.live then { L with live := L.live.erase id }
    else { L with faults := L.faults ++ [.stale] }

/-- A release behind a test against null. -/
def releaseIf (L : Ledger) (p : Ptr) : Ledger := if p = .null then L else L.release p

/-- Release what is not null, one after the other. -/
def releaseEach (ps : List Ptr) (L : Ledger) : Ledger := ps.foldl releaseIf L

/-- No release so far was of a pointer never assigned or already released. -/
def Sound (L : Ledger) : Prop := ∀ f ∈ L.faults, f = .null

instance (L : Ledger) : Decidable L.Sound := inferInstanceAs (Decidable (∀ f ∈ L.faults, _))

/-- A finished run that released everything once and nothing else. -/
def Clean (L : Ledger) : Prop := L.Sound ∧ L.live = []

instance (L : Ledger) : Decidable L.Clean := inferInstanceAs (Decidable (_ ∧ _))

/-- The pointers `ps` are exactly what is still to be released. -/
def Owes (L : Ledger) (ps : List Ptr) : Prop := L.Sound ∧ L.live.Perm (ps.flatMap Ptr.ids)

variable {L : Ledger} {p : Ptr} {ps qs : List Ptr}

theorem owes_empty : empty.Owes [] := ⟨by simp [Sound, empty], List.Perm.refl _⟩

theorem Owes.perm (h : L.Owes ps) (hPerm : ps.Perm qs) : L.Owes qs :=
  ⟨h.1, h.2.trans (hPerm.flatMap_right _)⟩

theorem owes_null_cons : L.Owes (.null :: ps) ↔ L.Owes ps := by simp [Owes]

/-- A pointer moves into a slot that owed nothing. -/
theorem owes_fill {d : Ptr} (hd : d.ids = []) {l₁ l₂ : List Ptr}
    (h : L.Owes (p :: (l₁ ++ d :: l₂))) : L.Owes (l₁ ++ p :: l₂) := by
  refine ⟨h.1, h.2.trans ?_⟩
  simp only [List.flatMap_cons, List.flatMap_append, hd, List.nil_append]
  exact List.perm_append_comm_assoc _ _ _

-- ---------------------------------------------------------------------------
-- Operations
-- ---------------------------------------------------------------------------

theorem owes_acquire (h : L.Owes ps) : L.acquire.2.Owes (L.acquire.1 :: ps) := by
  obtain ⟨hSound, hLive⟩ := h
  exact ⟨hSound, hLive.cons L.next⟩

/-- Releasing what is owed settles it. Only a null pointer may be released for nothing. -/
theorem owes_release (h : L.Owes (p :: ps)) (hp : p ≠ .wild) : (L.release p).Owes ps := by
  obtain ⟨hSound, hLive⟩ := h
  cases p with
  | null =>
    refine ⟨fun f hf => ?_, hLive⟩
    rcases List.mem_append.mp hf with hOld | hNew
    · exact hSound f hOld
    · exact List.mem_singleton.mp hNew
  | wild => exact absurd rfl hp
  | ref id =>
    rw [List.flatMap_cons, Ptr.ids_ref, List.singleton_append] at hLive
    have hMem : id ∈ L.live := hLive.mem_iff.mpr List.mem_cons_self
    have hErase := hLive.erase id
    rw [List.erase_cons_head] at hErase
    simp only [release, if_pos hMem]
    exact ⟨hSound, hErase⟩

theorem owes_releaseIf (h : L.Owes (p :: ps)) (hp : p ≠ .wild) : (L.releaseIf p).Owes ps := by
  unfold releaseIf
  split_ifs with hNull
  · subst hNull
    exact owes_null_cons.mp h
  · exact owes_release h hp

theorem acquire_ne_wild : L.acquire.1 ≠ .wild := by simp [acquire]

theorem tryAcquire_eq_null_iff (L : Ledger) (succeeds : Bool) :
    (L.tryAcquire succeeds).1 = .null ↔ succeeds = false := by
  cases succeeds <;> simp [tryAcquire, acquire]

/-- All that a program learns from an acquisition. -/
theorem acquire_spec (h : L.Owes ps) :
    ∃ p L', L.acquire = (p, L') ∧ L'.Owes (p :: ps) ∧ p ≠ .wild :=
  ⟨_, _, rfl, owes_acquire h, acquire_ne_wild⟩

/-- The same where the acquisition may fail. -/
theorem tryAcquire_spec (h : L.Owes ps) (succeeds : Bool) :
    ∃ p L', L.tryAcquire succeeds = (p, L') ∧ L'.Owes (p :: ps) ∧ p ≠ .wild ∧
      (p = .null ↔ succeeds = false) := by
  cases succeeds with
  | true => exact ⟨_, _, rfl, owes_acquire h, acquire_ne_wild, tryAcquire_eq_null_iff L true⟩
  | false =>
    refine ⟨.null, L, rfl, owes_null_cons.mpr h, ?_, tryAcquire_eq_null_iff L false⟩
    intro hWild
    cases hWild

-- ---------------------------------------------------------------------------
-- The end of a run
-- ---------------------------------------------------------------------------

/-- **A run ends clean exactly when it owes nothing.** -/
theorem clean_iff_of_owes (h : L.Owes ps) : L.Clean ↔ ∀ p ∈ ps, p.ids = [] := by
  obtain ⟨hSound, hLive⟩ := h
  rw [← List.flatMap_eq_nil_iff]
  constructor
  · intro hClean
    rw [hClean.2] at hLive
    exact List.nil_perm.mp hLive
  · intro hNil
    rw [hNil] at hLive
    exact ⟨hSound, List.perm_nil.mp hLive⟩

/-- What was misused stays misused. -/
theorem sound_of_release (h : (L.release p).Sound) : L.Sound := by
  intro f hf
  refine h f ?_
  unfold release
  split
  · exact List.mem_append_left _ hf
  · exact List.mem_append_left _ hf
  · split_ifs
    · exact hf
    · exact List.mem_append_left _ hf

theorem sound_of_releaseIf (h : (L.releaseIf p).Sound) : L.Sound := by
  unfold releaseIf at h
  split_ifs at h
  · exact h
  · exact sound_of_release h

theorem not_sound_release_wild : ¬ (L.release .wild).Sound := by
  intro h
  have hFault := h .unassigned (List.mem_append_right _ List.mem_cons_self)
  cases hFault

theorem sound_of_releaseEach (ps : List Ptr) (h : (releaseEach ps L).Sound) : L.Sound := by
  induction ps generalizing L with
  | nil => exact h
  | cons p ps ih => exact sound_of_releaseIf (ih h)

theorem owes_releaseEach (h : L.Owes (ps ++ qs)) (hps : ∀ p ∈ ps, p ≠ .wild) :
    (releaseEach ps L).Owes qs := by
  induction ps generalizing L with
  | nil => exact h
  | cons p ps ih =>
    have hOne := owes_releaseIf h (hps p List.mem_cons_self)
    exact ih hOne fun q hq => hps q (List.mem_cons_of_mem _ hq)

theorem not_sound_releaseEach (h : .wild ∈ ps) : ¬ (releaseEach ps L).Sound := by
  induction ps generalizing L with
  | nil => cases h
  | cons p ps ih =>
    rcases List.mem_cons.mp h with rfl | hRest
    · intro hSound
      exact not_sound_release_wild (sound_of_releaseEach ps hSound)
    · exact ih hRest

-- ---------------------------------------------------------------------------
-- The account of one call
-- ---------------------------------------------------------------------------

/-- Since `L₀` the faults `fs` came up, and beside what `L₀` held exactly `ps` is held. -/
structure Since (L₀ L : Ledger) (fs : List Fault) (ps : List Ptr) : Prop where
  faults : L.faults = L₀.faults ++ fs
  live : L.live.Perm (ps.flatMap Ptr.ids ++ L₀.live)

/-- Everything acquired since `L₀` was released once and nothing else was. -/
def Settled (L₀ L : Ledger) : Prop := L.faults = L₀.faults ∧ L.live.Perm L₀.live

instance (L₀ L : Ledger) : Decidable (Settled L₀ L) := inferInstanceAs (Decidable (_ ∧ _))

variable {L₀ : Ledger} {fs : List Fault} {id : Nat}

theorem since_refl (L : Ledger) : Since L L [] [] := ⟨(List.append_nil _).symm, List.Perm.refl _⟩

theorem Since.perm (h : Since L₀ L fs ps) (hPerm : ps.Perm qs) : Since L₀ L fs qs :=
  ⟨h.faults, h.live.trans ((hPerm.flatMap_right _).append_right _)⟩

theorem Since.swap {q : Ptr} (h : Since L₀ L fs (p :: q :: ps)) : Since L₀ L fs (q :: p :: ps) :=
  h.perm (List.Perm.swap _ _ _)

theorem Since.null_cons (h : Since L₀ L fs ps) : Since L₀ L fs (.null :: ps) := ⟨h.faults, h.live⟩

theorem since_acquire (h : Since L₀ L fs ps) :
    ∃ id L', L.acquire = (.ref id, L') ∧ Since L₀ L' fs (.ref id :: ps) :=
  ⟨_, _, rfl, h.faults, h.live.cons L.next⟩

theorem since_tryAcquire (h : Since L₀ L fs ps) (succeeds : Bool) :
    ∃ p L', L.tryAcquire succeeds = (p, L') ∧ Since L₀ L' fs (p :: ps) ∧ p ≠ .wild ∧
      (p = .null ↔ succeeds = false) := by
  cases succeeds with
  | true =>
    obtain ⟨id, L', hAcquire, hSince⟩ := since_acquire h
    exact ⟨.ref id, L', hAcquire, hSince, by simp, by simp⟩
  | false => exact ⟨.null, L, rfl, ⟨h.faults, h.live⟩, by simp, by simp⟩

/-- What releasing an assigned pointer is faulted for. -/
def nullFault (p : Ptr) : List Fault := if p = .null then [.null] else []

theorem nullFault_eq_nil_iff : nullFault p = [] ↔ p ≠ .null := by
  unfold nullFault
  split_ifs with hNull
  · simp [hNull]
  · simp [hNull]

theorem since_release_ref (h : Since L₀ L fs (.ref id :: ps)) : Since L₀ (L.release (.ref id)) fs ps := by
  have hLive := h.live
  rw [List.flatMap_cons, Ptr.ids_ref, List.singleton_append, List.cons_append] at hLive
  have hMem : id ∈ L.live := hLive.mem_iff.mpr List.mem_cons_self
  have hErase := hLive.erase id
  rw [List.erase_cons_head] at hErase
  simp only [release, if_pos hMem]
  exact ⟨h.faults, hErase⟩

/-- Releasing a pointer that was assigned. -/
theorem since_release (h : Since L₀ L fs (p :: ps)) (hp : p ≠ .wild) :
    Since L₀ (L.release p) (fs ++ nullFault p) ps := by
  cases p with
  | null =>
    refine ⟨?_, h.live⟩
    rw [nullFault, if_pos rfl, ← List.append_assoc, ← h.faults]
    rfl
  | wild => exact absurd rfl hp
  | ref id =>
    rw [nullFault, if_neg (by simp), List.append_nil]
    exact since_release_ref h

/-- Releasing what is no longer held. -/
theorem since_release_stale (h : Since L₀ L fs ps) (hStale : id ∉ L.live) :
    Since L₀ (L.release (.ref id)) (fs ++ [.stale]) ps := by
  simp only [release, if_neg hStale]
  exact ⟨by rw [h.faults, List.append_assoc], h.live⟩

/-- **A call settles its account exactly when it met no fault and holds nothing.** -/
theorem settled_iff_of_since (h : Since L₀ L fs ps) :
    Settled L₀ L ↔ fs = [] ∧ ∀ p ∈ ps, p.ids = [] := by
  rw [Settled, h.faults, List.append_right_eq_self, ← List.flatMap_eq_nil_iff]
  refine and_congr_right fun _ => ⟨fun hPerm => ?_, fun hNil => ?_⟩
  · have hLength := (h.live.symm.trans hPerm).length_eq
    rw [List.length_append] at hLength
    exact List.eq_nil_of_length_eq_zero (by omega)
  · rw [← List.nil_append L₀.live, ← hNil]
    exact h.live

end Ledger

end Ownership

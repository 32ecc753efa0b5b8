/-!
# Services

A service answers requests one after the other from a state that it keeps; it may have no answer.
A specification says what answer is right, and what a request makes of an abstract state.

* `run_keeps`  — what every answer keeps, every run keeps.
* `exists_run_related`, `exists_run` — a service that answers as the specification says does so in
  every run.
-/

namespace Service

variable {σ τ Q A : Type} {serve : σ → Q → Option (A × σ)} {spec : τ → Q → A → τ → Prop}

/-- The answers to some requests, and the state behind them. -/
def run {σ : Type} (serve : σ → Q → Option (A × σ)) : σ → List Q → Option (List A × σ)
  | s, [] => some ([], s)
  | s, q :: qs => do
    let (a, s) ← serve s q
    let (as, s) ← run serve s qs
    return (a :: as, s)

/-- The answers are right one after the other. -/
inductive Explains (spec : τ → Q → A → τ → Prop) : τ → List Q → List A → τ → Prop
  | nil (x : τ) : Explains spec x [] [] x
  | cons {x y z : τ} {q : Q} {qs : List Q} {a : A} {as : List A} :
      spec x q a y → Explains spec y qs as z → Explains spec x (q :: qs) (a :: as) z

theorem run_cons_of_some {s s' : σ} {q : Q} {qs : List Q} {a : A} (h : serve s q = some (a, s')) :
    run serve s (q :: qs) = (run serve s' qs).map fun r => (a :: r.1, r.2) := by
  rw [run, h]
  cases hRun : run serve s' qs with
  | none => simp [hRun]
  | some r => simp [hRun]

theorem run_keeps {Inv : σ → Prop} (hStep : ∀ s q a s', Inv s → serve s q = some (a, s') → Inv s')
    {s s' : σ} {qs : List Q} {as : List A} (hInv : Inv s) (h : run serve s qs = some (as, s')) :
    Inv s' := by
  induction qs generalizing s as with
  | nil =>
    cases h
    exact hInv
  | cons q qs ih =>
    cases hServe : serve s q with
    | none =>
      rw [run, hServe] at h
      cases h
    | some r =>
      obtain ⟨a, between⟩ := r
      rw [run_cons_of_some hServe] at h
      obtain ⟨⟨as', s''⟩, hRest, hEnd⟩ := Option.map_eq_some_iff.mp h
      cases hEnd
      exact ih (hStep s q a between hInv hServe) hRest

/-- **Simulation.** An abstract state goes along with the one that is kept; requests are proper
ones. -/
theorem exists_run_related {R : σ → τ → Prop} {Proper : Q → Prop}
    (hStep : ∀ s x q, R s x → Proper q → ∃ a s' y, serve s q = some (a, s') ∧ R s' y ∧ spec x q a y)
    {s : σ} {x : τ} {qs : List Q} (h : R s x) (hProper : ∀ q ∈ qs, Proper q) :
    ∃ as s' y, run serve s qs = some (as, s') ∧ R s' y ∧ Explains spec x qs as y := by
  induction qs generalizing s x with
  | nil => exact ⟨[], s, x, rfl, h, .nil _⟩
  | cons q qs ih =>
    obtain ⟨hFirst, hRest⟩ := List.forall_mem_cons.mp hProper
    obtain ⟨a, between, y, hServe, hBetween, hSpec⟩ := hStep s x q h hFirst
    obtain ⟨as, s', z, hRun, hEnd, hExplains⟩ := ih hBetween hRest
    exact ⟨a :: as, s', z, by rw [run_cons_of_some hServe, hRun]; rfl, hEnd, .cons hSpec hExplains⟩

/-- **Refinement.** The state is looked at through `view`. -/
theorem exists_run {Inv : σ → Prop} {view : σ → τ} {Proper : Q → Prop}
    (hStep : ∀ s q, Inv s → Proper q → ∃ a s', serve s q = some (a, s') ∧ Inv s' ∧
      spec (view s) q a (view s'))
    {s : σ} {qs : List Q} (hInv : Inv s) (hProper : ∀ q ∈ qs, Proper q) :
    ∃ as s', run serve s qs = some (as, s') ∧ Inv s' ∧
      Explains spec (view s) qs as (view s') := by
  have hRelated : ∀ s x q, (Inv s ∧ view s = x) → Proper q → ∃ a s' y, serve s q = some (a, s') ∧
      (Inv s' ∧ view s' = y) ∧ spec x q a y := by
    rintro s x q ⟨hInv, rfl⟩ hProper
    obtain ⟨a, s', hServe, hEnd, hSpec⟩ := hStep s q hInv hProper
    exact ⟨a, s', view s', hServe, ⟨hEnd, rfl⟩, hSpec⟩
  obtain ⟨as, s', y, hRun, ⟨hEnd, rfl⟩, hExplains⟩ := exists_run_related hRelated ⟨hInv, rfl⟩ hProper
  exact ⟨as, s', hRun, hEnd, hExplains⟩

end Service

/-!
# Runs of a step function

A system is given by a partial step function on states, with a label for every
choice that the outside world makes.  `Reachable step ok s₀` is the set of states
that steps from `s₀` reach when each of them satisfies `ok`.  A statement about
every reachable state is proved by `Reachable.invariant`, and a concrete run is
evaluated by `run`.
-/

namespace Kar.Lib

/-- The inversion of a step that is taken under a condition. -/
theorem of_guard [Decidable c] (h : (if c then some a else none) = some b) : c ∧ a = b := by
  simpa using h

/-- The states reached from `s₀` by steps that satisfy `ok`. -/
inductive Reachable (step : σ → ι → Option σ) (ok : σ → ι → Prop) (s₀ : σ) : σ → Prop
  | init : Reachable step ok s₀ s₀
  | step {s s' : σ} {l : ι} (h : Reachable step ok s₀ s) (hok : ok s l)
      (hstep : step s l = some s') : Reachable step ok s₀ s'

variable {step : σ → ι → Option σ}

/-- What holds at the start and is kept by every step from a reachable state
holds in every reachable state. -/
theorem Reachable.invariant {inv : σ → Prop} (hinit : inv s₀)
    (hstep : ∀ s l s', Reachable step ok s₀ s → inv s → ok s l → step s l = some s' → inv s')
    {s : σ} (h : Reachable step ok s₀ s) : inv s := by
  induction h with
  | init => exact hinit
  | step h hok hs ih => exact hstep _ _ _ h ih hok hs

/-- A weaker condition on the steps reaches more states. -/
theorem Reachable.mono (hle : ∀ s l, ok s l → ok' s l) (h : Reachable step ok s₀ s) :
    Reachable step ok' s₀ s := by
  induction h with
  | init => exact .init
  | step h hok hs ih => exact .step ih (hle _ _ hok) hs

/-- The state after a list of steps, if all of them are possible. -/
def run (step : σ → ι → Option σ) : σ → List ι → Option σ
  | s, [] => some s
  | s, l :: ls => (step s l).bind (fun s' => run step s' ls)

theorem run_append (s : σ) (ls ls' : List ι) :
    run step s (ls ++ ls') = (run step s ls).bind (fun s' => run step s' ls') := by
  induction ls generalizing s with
  | nil => rfl
  | cons _ _ ih =>
    rw [List.cons_append, run, run, Option.bind_assoc]
    exact congrArg _ (funext ih)

/-- Whether every step of a run satisfies a decidable condition. -/
def runOk (step : σ → ι → Option σ) (ok : σ → ι → Prop) [∀ s l, Decidable (ok s l)] :
    σ → List ι → Bool
  | _, [] => true
  | s, l :: ls =>
    decide (ok s l) && match step s l with
      | none => false
      | some s' => runOk step ok s' ls

/-- A run whose steps satisfy the condition reaches its last state. -/
theorem reachable_of_run [∀ s l, Decidable (ok s l)]
    (h : Reachable step ok s₀ s) (hok : runOk step ok s ls = true) :
    ∃ s', run step s ls = some s' ∧ Reachable step ok s₀ s' := by
  induction ls generalizing s with
  | nil => exact ⟨s, rfl, h⟩
  | cons l _ ih =>
    rw [runOk, Bool.and_eq_true, decide_eq_true_eq] at hok
    rw [run]
    cases hs : step s l with
    | none => simp [hs] at hok
    | some =>
      simp only [hs] at hok
      exact ih (h.step hok.1 hs) hok.2

/-- What is computed along with a run is true of its last state. -/
theorem eq_of_run (f : σ → α)
    (h : run step s ls = some s') (hf : (run step s ls).map f = some a) : f s' = a := by
  rw [h] at hf
  exact Option.some.inj hf

end Kar.Lib

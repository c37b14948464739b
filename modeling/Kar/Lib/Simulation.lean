/-!
# Machines with outputs

A machine takes an input, changes its state and answers.  Two machines that are related at the
start, and whose related states answer alike and stay related, give the same answers to every
sequence of inputs.
-/

namespace Kar.Lib

/-- The answers to a sequence of inputs. -/
def outputs (step : σ → ι → σ × ρ) : σ → List ι → List ρ
  | _, [] => []
  | s, i :: is => (step s i).2 :: outputs step (step s i).1 is

/-- The state after a sequence of inputs. -/
def after (step : σ → ι → σ × ρ) : σ → List ι → σ
  | s, [] => s
  | s, i :: is => after step (step s i).1 is

variable {step' : τ → ι → τ × ρ} {R : σ → τ → Prop} {ok : ι → Prop}

/-- The two machines answer alike and stay related. -/
theorem simulation
    (hstep : ∀ s t i, R s t → ok i → (step s i).2 = (step' t i).2 ∧ R (step s i).1 (step' t i).1)
    (hR : R s t) (hok : ∀ i ∈ is, ok i) :
    outputs step s is = outputs step' t is ∧ R (after step s is) (after step' t is) := by
  induction is generalizing s t with
  | nil => exact ⟨rfl, hR⟩
  | cons i _ ih =>
    obtain ⟨hout, hR'⟩ := hstep s t i hR (hok i List.mem_cons_self)
    obtain ⟨houts, hafter⟩ := ih hR' fun j hj => hok j (List.mem_cons_of_mem i hj)
    exact ⟨by rw [outputs, outputs, hout, houts], hafter⟩

end Kar.Lib

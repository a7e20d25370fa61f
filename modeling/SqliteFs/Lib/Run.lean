import Mathlib.Data.List.Basic

/-!
# Runs of a machine

A machine starts in an initial state and takes one step for each input. `Run init step Ok` holds
of the states it can reach by steps that all satisfy `Ok`, a condition on the state before the
step and on the input.
-/

/-- The states reached from `init` by steps that satisfy `Ok`. -/
inductive Run {σ ι : Type*} (init : σ → Prop) (step : ι → σ → σ)
    (Ok : σ → ι → Prop) : σ → Prop
  | start {s : σ} : init s → Run init step Ok s
  | next {s : σ} {i : ι} : Run init step Ok s → Ok s i → Run init step Ok (step i s)

namespace Run

variable {σ ι : Type*} {init : σ → Prop} {step : ι → σ → σ} {Ok Ok' : σ → ι → Prop}
  {s : σ}

/-- What holds at the start and is kept by every step of a run holds along the run. -/
theorem invariant {P : σ → Prop} (hinit : ∀ s, init s → P s)
    (hstep : ∀ s i, Run init step Ok s → Ok s i → P s → P (step i s)) (h : Run init step Ok s) :
    P s := by
  induction h with
  | start h => exact hinit _ h
  | next hrun hok ih => exact hstep _ _ hrun hok ih

/-- The state after the inputs, taken one by one. -/
def after (step : ι → σ → σ) (inputs : List ι) (s : σ) : σ := inputs.foldl (fun s i => step i s) s

/-- Where every step is allowed, a run goes on along any inputs. -/
lemma after_of_forall (hOk : ∀ s i, Ok s i) (inputs : List ι) :
    ∀ {s : σ}, Run init step Ok s → Run init step Ok (after step inputs s) := by
  induction inputs with
  | nil => exact fun h => h
  | cons i inputs ih => exact fun h => ih (next h (hOk _ i))

end Run

import SqliteFs.Lib.Run
import Mathlib.Data.List.Basic

/-!
# Broadcasts

A machine has mailboxes. Each step sends some messages, the same to all mailboxes, and every mailbox takes
those that it accepts behind what it has taken before. So there is one log of all that was sent, and what
a mailbox has taken between two points of a run is the part of the log between them, but for the messages
that it does not accept: no message is lost, sent twice or out of order, and no mailbox is in the way of
another.
-/

namespace Broadcast

variable {σ ι κ μ : Type*} {step : ι → σ → σ} {sent : ι → σ → List μ} {Ok : σ → ι → Prop}
  {box : σ → κ → Option (List μ)} {accepts : σ → κ → μ → Bool} {spares : ι → κ → Prop} {s : σ} {i j : ℕ}
  {k : κ} {q : List μ}

/-- What `i` sends from `s` on goes to each mailbox that it spares. -/
def Sends (step : ι → σ → σ) (sent : ι → σ → List μ) (box : σ → κ → Option (List μ))
    (accepts : σ → κ → μ → Bool) (spares : ι → κ → Prop) (s : σ) (i : ι) : Prop :=
  ∀ k q, box s k = some q → spares i k →
    box (step i s) k = some (q ++ (sent i s).filter (accepts s k)) ∧ accepts (step i s) k = accepts s k

/-- What the inputs send, one after the other. -/
def log (step : ι → σ → σ) (sent : ι → σ → List μ) : σ → List ι → List (List μ)
  | _, [] => []
  | s, i :: inputs => sent i s :: log step sent (step i s) inputs

/-- Every mailbox takes the part of the log that it accepts. -/
theorem box_after (hsends : ∀ s i, Ok s i → Sends step sent box accepts spares s i) (inputs : List ι)
    (hok : ∀ i (hi : i < inputs.length), Ok (Run.after step (inputs.take i) s) (inputs.get ⟨i, hi⟩))
    (hij : i ≤ j) (hj : j ≤ inputs.length) (hq : box (Run.after step (inputs.take i) s) k = some q)
    (hspares : ∀ x ∈ (inputs.take j).drop i, spares x k) :
    box (Run.after step (inputs.take j) s) k
      = some (q ++ (((log step sent s inputs).take j).drop i).flatten.filter
          (accepts (Run.after step (inputs.take i) s) k)) := by
  induction inputs generalizing s i j q with
  | nil =>
    obtain rfl := Nat.le_zero.mp hj
    obtain rfl := Nat.le_zero.mp hij
    rw [hq]
    exact congrArg some (List.append_nil q).symm
  | cons x xs ih =>
    have hrest := fun i hi => hok (i + 1) (Nat.succ_lt_succ hi)
    cases i with
    | zero =>
      cases j with
      | zero =>
        rw [hq]
        exact congrArg some (List.append_nil q).symm
      | succ j =>
        obtain ⟨hx, hxs⟩ := List.forall_mem_cons.mp hspares
        obtain ⟨hbox, haccepts⟩ := hsends s x (hok 0 (Nat.zero_lt_succ _)) k q hq hx
        have htaken := ih hrest (Nat.zero_le j) (Nat.le_of_succ_le_succ hj) hbox hxs
        refine htaken.trans (congrArg some ?_)
        change _ ++ List.filter (accepts (step x s) k) _
          = q ++ (sent x s ++ (((log step sent (step x s) xs).take j).drop 0).flatten).filter
            (accepts s k)
        rw [List.filter_append, List.append_assoc, haccepts]
    | succ i =>
      cases j with
      | zero => cases hij
      | succ j => exact ih hrest (Nat.le_of_succ_le_succ hij) (Nat.le_of_succ_le_succ hj) hq hspares

end Broadcast

import SqliteFs.Lib.Run

/-!
# Identifiers that are handed out once

A machine hands out identifiers for what it makes, and takes them out of use again: `live s k` says that
`k` is in use, and `seen s k` that it has been handed out. If no step brings back an identifier that has
been handed out, then what is in use at two points of a run has been in use all the time in between, and
whatever the steps keep as long as it is in use is the same at both.
-/

namespace Run

variable {σ ι κ : Type*} {step : ι → σ → σ} {Ok : σ → ι → Prop} {live seen : σ → κ → Prop}

lemma trans {init : σ → Prop} {s t : σ} (h : Run init step Ok s) (ht : Run (· = s) step Ok t) :
    Run init step Ok t := by
  induction ht with
  | start heq => exact heq ▸ h
  | next _ hok ih => exact ih.next hok

/-- Identifiers are handed out once. -/
structure HandsOut (step : ι → σ → σ) (Ok : σ → ι → Prop) (live seen : σ → κ → Prop) : Prop where
  keeps : ∀ {s i k}, Ok s i → seen s k → seen (step i s) k
  fresh : ∀ {s i k}, Ok s i → seen s k → live (step i s) k → live s k

namespace HandsOut

variable {s t : σ} {k : κ}

lemma seen_of_run (h : HandsOut step Ok live seen) (hrun : Run (· = s) step Ok t) (hseen : seen s k) :
    seen t k := by
  refine Run.invariant (P := fun t => seen t k) ?_ ?_ hrun
  · rintro _ rfl
    exact hseen
  · exact fun _ _ _ hok => h.keeps hok

/-- What is in use has been in use since it was handed out. -/
theorem live_of_run (h : HandsOut step Ok live seen) (hrun : Run (· = s) step Ok t) (hseen : seen s k)
    (hlive : live t k) : live s k := by
  induction hrun with
  | start heq =>
    rw [← heq]
    exact hlive
  | next hrun hok ih => exact ih (h.fresh hok (h.seen_of_run hrun hseen) hlive)

/-- What the steps keep as long as an identifier is in use holds whenever it is in use. -/
theorem holds_of_run {P : σ → Prop} (h : HandsOut step Ok live seen)
    (hP : ∀ u i, Ok u i → seen u k → live u k → live (step i u) k → P u → P (step i u))
    (hrun : Run (· = s) step Ok t) (hseen : seen s k) (hs : P s) (hlive : live t k) : P t := by
  induction hrun with
  | start heq =>
    rw [heq]
    exact hs
  | next hrun hok ih =>
    have hseen' := h.seen_of_run hrun hseen
    have hlive' := h.fresh hok hseen' hlive
    exact hP _ _ hok hseen' hlive' hlive (ih hlive')

end HandsOut

end Run

import Mathlib.Data.List.Nodup
import Mathlib.Data.List.Perm.Subperm
import Mathlib.Logic.Relation

/-!
# Parent links that lead to a root

The links `up x y` lead from a point `x` to its parents `y`. A point is rooted if climbing from it
in any way ends at the root. This file says how rootedness survives a change of the links of one
point, that climbing never comes back to where it was, and how long a climb can be that follows
one parent of each point.
-/

namespace ParentForest

open Relation

variable {α : Type*} {up up' : α → α → Prop} {root x y z : α}

/-- Climbing from `x` in any way ends at `root`. -/
inductive Rooted (up : α → α → Prop) (root : α) : α → Prop
  | base : Rooted up root root
  | climb {x : α} : (∃ y, up x y) → (∀ y, up x y → Rooted up root y) → Rooted up root x

namespace Rooted

lemma exists_up (h : Rooted up root x) (hx : x ≠ root) : ∃ y, up x y := by
  cases h with
  | base => exact absurd rfl hx
  | climb h _ => exact h

lemma parent (h : Rooted up root x) (hroot : ∀ y, ¬ up root y) (hxy : up x y) :
    Rooted up root y := by
  cases h with
  | base => exact absurd hxy (hroot y)
  | climb _ h => exact h y hxy

/-- Links that agree on a set from which no link leads out give the same rooted points there. -/
lemma congr_on {S : α → Prop} (hS : ∀ x y, S x → up x y → S y)
    (hup : ∀ x y, S x → (up' x y ↔ up x y)) (h : Rooted up root x) :
    S x → Rooted up' root x := by
  induction h with
  | base => exact fun _ => .base
  | climb hex _ ih =>
    intro hx
    refine .climb ?_ fun y hy => ?_
    · obtain ⟨y, hy⟩ := hex
      exact ⟨y, (hup _ y hx).mpr hy⟩
    · have hy' := (hup _ y hx).mp hy
      exact ih y hy' (hS _ y hx hy')

/-- Changing the links of `x` keeps every point rooted if `x` itself stays rooted. -/
lemma rewire (hup : ∀ z y, z ≠ x → (up' z y ↔ up z y)) (hx : Rooted up' root x)
    (h : Rooted up root z) : Rooted up' root z := by
  induction h with
  | base => exact .base
  | @climb z hex _ ih =>
    by_cases hz : z = x
    · rw [hz]
      exact hx
    · obtain ⟨y, hy⟩ := hex
      exact .climb ⟨y, (hup z y hz).mpr hy⟩ fun y hy => ih y ((hup z y hz).mp hy)

/-- Climbing never comes back. -/
theorem acyclic (hroot : ∀ y, ¬ up root y) (h : Rooted up root x) : ¬ TransGen up x x := by
  induction h with
  | base =>
    intro hc
    obtain ⟨y, hy, -⟩ := TransGen.head'_iff.mp hc
    exact hroot y hy
  | climb _ _ ih =>
    intro hc
    obtain ⟨y, hy, hyx⟩ := TransGen.head'_iff.mp hc
    exact ih y hy (TransGen.tail' hyx hy)

end Rooted

/-! ### Climbing along one parent of each point -/

/-- Following `f` from `x` visits the points of the list, and then ends. -/
inductive Chain (f : α → Option α) : α → List α → Prop
  | stop {x : α} : f x = none → Chain f x []
  | step {x y : α} {l : List α} : f x = some y → Chain f y l → Chain f x (y :: l)

namespace Chain

variable {f : α → Option α} {l : List α}

lemma of_rooted (hf : ∀ x y, f x = some y → up x y) (hroot : f root = none)
    (h : Rooted up root x) : ∃ l, Chain f x l := by
  induction h with
  | base => exact ⟨[], .stop hroot⟩
  | @climb x _ _ ih =>
    cases hx : f x with
    | none => exact ⟨[], .stop hx⟩
    | some y =>
      obtain ⟨l, hl⟩ := ih y (hf x y hx)
      exact ⟨y :: l, .step hx hl⟩

/-- The points of a chain lie above its start. -/
lemma above (hf : ∀ x y, f x = some y → up x y) (h : Chain f x l) :
    ∀ z ∈ l, TransGen up x z := by
  induction h with
  | stop => exact fun z hz => absurd hz List.not_mem_nil
  | step hxy _ ih =>
    intro z hz
    rcases List.mem_cons.mp hz with rfl | hz
    · exact .single (hf _ _ hxy)
    · exact .head (hf _ _ hxy) (ih z hz)

lemma nodup (hf : ∀ x y, f x = some y → up x y) (hroot : ∀ y, ¬ up root y) (h : Chain f x l) :
    Rooted up root x → (x :: l).Nodup := by
  induction h with
  | stop => exact fun _ => List.nodup_singleton _
  | @step x y l hxy hl ih =>
    intro hx
    refine List.nodup_cons.mpr ⟨fun hmem => ?_, ih (hx.parent hroot (hf x y hxy))⟩
    exact hx.acyclic hroot (above hf (.step hxy hl) x hmem)

/-- Every point of a chain but the last has a parent. -/
lemma isSome_of_mem_dropLast (h : Chain f x l) : ∀ z ∈ (x :: l).dropLast, (f z).isSome := by
  induction h with
  | stop => exact fun z hz => absurd hz List.not_mem_nil
  | @step x y l hxy hl ih =>
    intro z hz
    rw [List.dropLast_cons_of_ne_nil (List.cons_ne_nil y l)] at hz
    rcases List.mem_cons.mp hz with rfl | hz
    · rw [hxy]; rfl
    · exact ih z hz

/-- A chain is not longer than any list of the points that have a parent. -/
theorem length_le (hf : ∀ x y, f x = some y → up x y) (hroot : ∀ y, ¬ up root y)
    {dom : List α} (hdom : ∀ x, (f x).isSome → x ∈ dom) (hx : Rooted up root x)
    (h : Chain f x l) : l.length ≤ dom.length := by
  have hnodup : ((x :: l).dropLast).Nodup :=
    (List.dropLast_sublist _).nodup (h.nodup hf hroot hx)
  have hsub : (x :: l).dropLast ⊆ dom := fun z hz => hdom z (h.isSome_of_mem_dropLast z hz)
  have hlen := (List.subperm_of_subset hnodup hsub).length_le
  rwa [List.length_dropLast, List.length_cons, Nat.add_sub_cancel] at hlen

/-- A chain meets everything above its start, where each point on the way has one parent. -/
lemma mem_of_above {S : α → Prop} (hS : ∀ x y, up x y → S y)
    (hone : ∀ x y, S x → up x y → f x = some y) (h : Chain f x l) :
    S x → ∀ z, TransGen up x z → z ∈ l := by
  induction h with
  | stop hx =>
    intro hSx z hz
    obtain ⟨y, hy, -⟩ := TransGen.head'_iff.mp hz
    rw [hone _ y hSx hy] at hx
    cases hx
  | @step x y l hxy _ ih =>
    intro hSx z hz
    obtain ⟨y', hy', hyz⟩ := TransGen.head'_iff.mp hz
    obtain rfl : y = y' := by
      rw [hone x y' hSx hy'] at hxy
      exact (Option.some.inj hxy).symm
    rcases ReflTransGen.cases_head hyz with rfl | ⟨w, hw, hwz⟩
    · exact List.mem_cons_self
    · exact List.mem_cons_of_mem _ (ih (hS x y hy') z (TransGen.head' hw hwz))

end Chain

end ParentForest

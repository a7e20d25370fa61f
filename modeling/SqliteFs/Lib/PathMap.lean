import Mathlib.Data.List.Basic
import Mathlib.Data.Option.Basic

/-!
# What is at a path

A graph with names on its edges, in which a node and a name determine an edge, says for every path
from a root what is there. Where an edge is added, taken away, or moved to another place together
with all that hangs from it, the map from paths to nodes changes by one operation on maps.
-/

namespace PathMap

variable {α β ν : Type*}

/-! ### Walks -/

section Walks
variable {E E' : α → ν → α → Prop} {a b c i p : α} {l l' r : List ν} {n : ν}

/-- The names lead from `a` to `b`. -/
def Walk (E : α → ν → α → Prop) : α → List ν → α → Prop
  | a, [], b => a = b
  | a, n :: l, b => ∃ c, E a n c ∧ Walk E c l b

/-- A node and a name determine an edge. -/
def Det (E : α → ν → α → Prop) : Prop := ∀ a n b c, E a n b → E a n c → b = c

lemma walk_append : Walk E a (l ++ l') c ↔ ∃ b, Walk E a l b ∧ Walk E b l' c := by
  induction l generalizing a with
  | nil =>
    constructor
    · exact fun h => ⟨a, rfl, h⟩
    · rintro ⟨_, rfl, h⟩
      exact h
  | cons n l ih =>
    constructor
    · rintro ⟨x, hx, h⟩
      obtain ⟨b, hb, hc⟩ := ih.mp h
      exact ⟨b, ⟨x, hx, hb⟩, hc⟩
    · rintro ⟨b, ⟨x, hx, hb⟩, hc⟩
      exact ⟨x, hx, ih.mpr ⟨b, hb, hc⟩⟩

lemma Walk.unique (hdet : Det E) (h : Walk E a l b) (h' : Walk E a l c) : b = c := by
  induction l generalizing a with
  | nil => exact h.symm.trans h'
  | cons n l ih =>
    obtain ⟨x, hx, h⟩ := h
    obtain ⟨y, hy, h'⟩ := h'
    obtain rfl := hdet _ _ _ _ hx hy
    exact ih h h'

lemma Walk.mono (hE : ∀ a n b, E a n b → E' a n b) (h : Walk E a l b) : Walk E' a l b := by
  induction l generalizing a with
  | nil => exact h
  | cons n l ih =>
    obtain ⟨c, hc, h⟩ := h
    exact ⟨c, hE _ _ _ hc, ih h⟩

/-- From a node without edges nothing leads anywhere else. -/
lemma walk_leaf (hleaf : ∀ n b, ¬ E a n b) : Walk E a l b ↔ l = [] ∧ a = b := by
  cases l with
  | nil => exact ⟨fun h => ⟨rfl, h⟩, And.right⟩
  | cons n l =>
    refine iff_of_false ?_ fun h => nomatch h.1
    rintro ⟨c, hc, -⟩
    exact hleaf n c hc

/-- `E'` is `E` with one more edge, from `p` to `i`, under a name that was free; nothing leads back
from `i`, and from the root one path leads to `p`. -/
structure Adds (E E' : α → ν → α → Prop) (root : α) (path : List ν) (p : α) (n : ν) (i : α) :
    Prop where
  edges : ∀ a m b, E' a m b ↔ E a m b ∨ (a = p ∧ m = n ∧ b = i)
  free : ∀ b, ¬ E p n b
  acyclic : ∀ l, ¬ Walk E i l p
  leads : Walk E root path p
  unique : ∀ l, Walk E root l p → l = path

namespace Adds

variable {root : α} {path : List ν}

/-- Where `E'` has one path to `p` and one edge for each name, the edge has the place it needs. -/
lemma of_walk (hedges : ∀ a m b, E' a m b ↔ E a m b ∨ (a = p ∧ m = n ∧ b = i)) (hdet : Det E')
    (hnew : ¬ E p n i) (hleads : Walk E' root path p)
    (hunique : ∀ l, Walk E' root l p → l = path) : Adds E E' root path p n i := by
  have hE : ∀ a m b, E a m b → E' a m b := fun a m b hab => (hedges a m b).mpr (Or.inl hab)
  have hedge : E' p n i := (hedges p n i).mpr (Or.inr ⟨rfl, rfl, rfl⟩)
  -- a walk in `E'` stays in `E` up to the new edge
  have hfirst : ∀ {l : List ν} {a b}, Walk E' a l b →
      Walk E a l b ∨ ∃ l₁ l₂, l = l₁ ++ n :: l₂ ∧ Walk E a l₁ p := by
    intro l
    induction l with
    | nil => exact fun hw => Or.inl hw
    | cons m l ih =>
      rintro a b ⟨c, hc, hw⟩
      rcases (hedges _ _ _).mp hc with hc | ⟨rfl, rfl, rfl⟩
      · rcases ih hw with hw | ⟨l₁, l₂, rfl, h₁⟩
        · exact Or.inl ⟨c, hc, hw⟩
        · exact Or.inr ⟨m :: l₁, l₂, rfl, c, hc, h₁⟩
      · exact Or.inr ⟨[], l, rfl, rfl⟩
  have hlonger : ∀ l, path ≠ path ++ n :: l := by
    intro l heq
    have hlen := congrArg List.length heq
    rw [List.length_append, List.length_cons] at hlen
    omega
  refine ⟨hedges, fun b hb => ?_, fun l hl => ?_, ?_, fun l hl => hunique l (hl.mono hE)⟩
  · obtain rfl := hdet _ _ _ _ (hE _ _ _ hb) hedge
    exact hnew hb
  · have hround : Walk E' root (path ++ n :: l) p :=
      walk_append.mpr ⟨p, hleads, i, hedge, hl.mono hE⟩
    exact hlonger l (hunique _ hround).symm
  · rcases hfirst hleads with hw | ⟨l₁, l₂, heq, h₁⟩
    · exact hw
    · rw [hunique l₁ (h₁.mono hE)] at heq
      exact absurd heq (hlonger l₂)

/-- A walk takes the new edge once or not at all. -/
lemma walk_iff (h : Adds E E' root path p n i) : Walk E' a l b ↔
    Walk E a l b ∨ ∃ l₁ l₂, l = l₁ ++ n :: l₂ ∧ Walk E a l₁ p ∧ Walk E i l₂ b := by
  constructor
  · intro hw
    induction l generalizing a with
    | nil => exact Or.inl hw
    | cons m l ih =>
      obtain ⟨c, hc, hw⟩ := hw
      rcases (h.edges _ _ _).mp hc with hc | ⟨rfl, rfl, rfl⟩
      · rcases ih hw with hw | ⟨l₁, l₂, rfl, h₁, h₂⟩
        · exact Or.inl ⟨c, hc, hw⟩
        · exact Or.inr ⟨m :: l₁, l₂, rfl, ⟨c, hc, h₁⟩, h₂⟩
      · rcases ih hw with hw | ⟨l₁, l₂, rfl, h₁, h₂⟩
        · exact Or.inr ⟨[], l, rfl, rfl, hw⟩
        · exact absurd h₁ (h.acyclic l₁)
  · have hE : ∀ a m b, E a m b → E' a m b := fun a m b hab => (h.edges a m b).mpr (Or.inl hab)
    rintro (hw | ⟨l₁, l₂, rfl, h₁, h₂⟩)
    · exact hw.mono hE
    · exact walk_append.mpr ⟨p, h₁.mono hE, i, (h.edges _ _ _).mpr (Or.inr ⟨rfl, rfl, rfl⟩),
        h₂.mono hE⟩

lemma walk_root_iff (h : Adds E E' root path p n i) : Walk E' root l b ↔
    Walk E root l b ∨ ∃ r, l = path ++ n :: r ∧ Walk E i r b := by
  rw [h.walk_iff]
  refine or_congr_right ?_
  constructor
  · rintro ⟨l₁, l₂, rfl, h₁, h₂⟩
    rw [h.unique l₁ h₁]
    exact ⟨l₂, rfl, h₂⟩
  · rintro ⟨r, rfl, hr⟩
    exact ⟨path, r, rfl, h.leads, hr⟩

/-- The place of the new edge was free. -/
lemma not_walk (h : Adds E E' root path p n i) (hdet : Det E) : ¬ Walk E root (path ++ n :: r) b := by
  intro hw
  obtain ⟨x, hx, y, hy, -⟩ := walk_append.mp hw
  obtain rfl := hx.unique hdet h.leads
  exact h.free y hy

end Adds

end Walks

/-! ### Maps from paths -/

section Maps
variable [DecidableEq ν]

/-- Put `x` at the path. -/
def put (m : List ν → Option β) (path : List ν) (x : β) : List ν → Option β :=
  fun l => if l = path then some x else m l

lemma put_self (m : List ν → Option β) (path : List ν) (x : β) : put m path x path = some x := if_pos rfl

/-- Take away what is at the path. -/
def erase (m : List ν → Option β) (path : List ν) : List ν → Option β :=
  fun l => if l = path then none else m l

/-- Put what is at `src` and below it at `dst`, in the place of what is at `dst` and below it. -/
def move (m : List ν → Option β) (src dst : List ν) : List ν → Option β :=
  fun l => if dst <+: l then m (src ++ l.drop dst.length) else if src <+: l then none else m l

lemma move_dst (m : List ν → Option β) (src dst r : List ν) : move m src dst (dst ++ r) = m (src ++ r) := by
  unfold move
  rw [if_pos (List.prefix_append dst r), List.drop_left]

lemma move_src {m : List ν → Option β} {src dst r : List ν} (h : ¬ dst <+: src ++ r) :
    move m src dst (src ++ r) = none := by
  unfold move
  rw [if_neg h, if_pos (List.prefix_append src r)]

lemma move_of_not {m : List ν → Option β} {src dst l : List ν} (hdst : ¬ dst <+: l)
    (hsrc : ¬ src <+: l) : move m src dst l = m l := by
  unfold move
  rw [if_neg hdst, if_neg hsrc]

/-- What is moved away from below `src` does not depend on what is at `dst`, if that lies elsewhere. -/
lemma move_erase {m : List ν → Option β} {src dst : List ν} (h : ¬ src <+: dst) :
    move (erase m dst) src dst = move m src dst := by
  funext l
  by_cases hdst : dst <+: l
  · obtain ⟨r, rfl⟩ := hdst
    rw [move_dst, move_dst]
    unfold erase
    rw [if_neg]
    rintro rfl
    exact h (List.prefix_append src r)
  · by_cases hsrc : src <+: l
    · obtain ⟨r, rfl⟩ := hsrc
      rw [move_src hdst, move_src hdst]
    · rw [move_of_not hdst hsrc, move_of_not hdst hsrc]
      unfold erase
      rw [if_neg]
      rintro rfl
      exact hdst List.prefix_rfl

end Maps

/-- The map shows the node at every path from the root. -/
def Shows (E : α → ν → α → Prop) (root : α) (m : List ν → Option α) : Prop :=
  ∀ l b, m l = some b ↔ Walk E root l b

section Shows
variable {E E' E₀ : α → ν → α → Prop} {root i p q : α} {path path' : List ν} {n k : ν}
  {m m' : List ν → Option α}

lemma Shows.eq (h : Shows E root m) (h' : Shows E root m') : m = m' := by
  funext l
  exact Option.ext fun b => (h l b).trans (h' l b).symm

lemma append_singleton_append (l r : List ν) (n : ν) : l ++ [n] ++ r = l ++ n :: r := by
  rw [List.append_assoc, List.singleton_append]

variable [DecidableEq ν]

/-- A new edge to a leaf puts the leaf at its path. -/
theorem Adds.put (h : Adds E E' root path p n i) (hdet : Det E) (hleaf : ∀ n b, ¬ E i n b)
    (hm : Shows E root m) : Shows E' root (PathMap.put m (path ++ [n]) i) := by
  intro l b
  rw [h.walk_root_iff, PathMap.put]
  simp only [walk_leaf hleaf]
  split_ifs with hl
  · rw [hl, or_iff_right (h.not_walk hdet), Option.some.injEq]
    constructor
    · exact fun hb => ⟨[], rfl, rfl, hb⟩
    · rintro ⟨r, -, -, hb⟩
      exact hb
  · rw [hm, or_iff_left]
    rintro ⟨r, rfl, rfl, -⟩
    exact hl rfl

/-- Without its edge the leaf is gone from the path. -/
theorem Adds.erase (h : Adds E E' root path p n i) (hdet : Det E) (hleaf : ∀ n b, ¬ E i n b)
    (hm : Shows E' root m) : Shows E root (PathMap.erase m (path ++ [n])) := by
  intro l b
  rw [PathMap.erase]
  split_ifs with hl
  · rw [hl]
    exact iff_of_false (fun hb => nomatch hb) (h.not_walk hdet)
  · rw [hm, h.walk_root_iff, or_iff_left]
    rintro ⟨r, rfl, hr⟩
    obtain ⟨rfl, -⟩ := (walk_leaf hleaf).mp hr
    exact hl rfl

/-- An edge that is taken away here and added there moves all that hangs from it. -/
theorem Adds.move (h : Adds E₀ E root path p n i) (h' : Adds E₀ E' root path' q k i) (hdet : Det E₀)
    (hm : Shows E root m) : Shows E' root (PathMap.move m (path ++ [n]) (path' ++ [k])) := by
  intro l b
  rw [h'.walk_root_iff]
  by_cases hdst : path' ++ [k] <+: l
  · obtain ⟨r, rfl⟩ := hdst
    rw [move_dst, hm, h.walk_root_iff, append_singleton_append, append_singleton_append,
      or_iff_right (h.not_walk hdet), or_iff_right (h'.not_walk hdet)]
    simp only [List.append_cancel_left_eq, List.cons.injEq, true_and]
  · have hnot : ¬ ∃ r, l = path' ++ k :: r ∧ Walk E₀ i r b := by
      rintro ⟨r, rfl, -⟩
      exact hdst ⟨r, append_singleton_append path' r k⟩
    rw [or_iff_left hnot]
    by_cases hsrc : path ++ [n] <+: l
    · obtain ⟨r, rfl⟩ := hsrc
      rw [move_src hdst, append_singleton_append]
      exact iff_of_false (fun hb => nomatch hb) (h.not_walk hdet)
    · rw [move_of_not hdst hsrc, hm, h.walk_root_iff, or_iff_left]
      rintro ⟨r, rfl, -⟩
      exact hsrc ⟨r, append_singleton_append path r n⟩

end Shows

end PathMap

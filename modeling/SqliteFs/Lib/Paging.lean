import Mathlib.Data.List.Basic
import Mathlib.Data.List.Nodup
import Mathlib.Order.Lattice

/-!
# Reading a changing list page by page

A reader takes a list in pages, each from the position where the last one ended, while the list may
change between the pages. For one element that stays in the list, a page knows the element's
position; the element is returned once and only once if the changes have carried it forwards over
the reader's position as often as backwards.
-/

namespace Paging

/-- A page, as seen by one element: it stands at `pos`, and the page covers the positions from
`first` to `stop`. -/
structure Page where
  pos : ℕ
  first : ℕ
  stop : ℕ

namespace Page

def Returns (p : Page) : Prop := p.first ≤ p.pos ∧ p.pos < p.stop

instance (p : Page) : Decidable p.Returns := inferInstanceAs (Decidable (_ ∧ _))

/-- Between the pages the element has got behind the reader, who has not seen it. -/
def Skips (p p' : Page) : Prop := p'.first ≤ p.pos ∧ p'.pos < p'.first

/-- Between the pages the element has got before the reader, who has passed it already. -/
def Repeats (p p' : Page) : Prop := p.pos < p'.first ∧ p'.first ≤ p'.pos

instance (p p' : Page) : Decidable (p.Skips p') := inferInstanceAs (Decidable (_ ∧ _))
instance (p p' : Page) : Decidable (p.Repeats p') := inferInstanceAs (Decidable (_ ∧ _))

end Page

/-- Pages from the start of the list on, the last one first. -/
inductive Pages : List Page → Prop
  | first {p : Page} : p.first = 0 → p.first ≤ p.stop → Pages [p]
  | next {p p' : Page} {ps : List Page} : Pages (p :: ps) → p'.first = p.stop →
      p'.first ≤ p'.stop → Pages (p' :: p :: ps)

/-- How often the element is returned. -/
def returns : List Page → ℕ
  | [] => 0
  | p :: ps => returns ps + if p.Returns then 1 else 0

/-- How often a relation holds between a page and the next one. -/
def turns (R : Page → Page → Prop) [DecidableRel R] : List Page → ℕ
  | p' :: p :: ps => turns R (p :: ps) + if R p p' then 1 else 0
  | _ => 0

/-- Where the reader has passed the element, it was returned or skipped once more than it was
repeated. -/
lemma Pages.balance {ps : List Page} (h : Pages ps) : ∀ p ∈ ps.head?,
    returns ps + turns Page.Skips ps = turns Page.Repeats ps + if p.pos < p.stop then 1 else 0 := by
  induction h with
  | @first p hfirst _ =>
    intro x hx
    obtain rfl : p = x := Option.some.inj hx
    simp [returns, turns, Page.Returns, hfirst]
  | @next p p' ps _ hfirst hstop ih =>
    intro x hx
    obtain rfl : p' = x := Option.some.inj hx
    replace ih := ih p rfl
    have hskips : p.Skips p' ↔ ¬ p.pos < p.stop ∧ ¬ p'.first ≤ p'.pos := by
      rw [not_lt, not_le, ← hfirst]
      exact Iff.rfl
    have hrepeats : p.Repeats p' ↔ p.pos < p.stop ∧ p'.first ≤ p'.pos := by
      rw [← hfirst]
      exact Iff.rfl
    have hstep : (if p'.Returns then 1 else 0) + (if p.Skips p' then 1 else 0)
          + (if p.pos < p.stop then 1 else 0)
        = (if p.Repeats p' then 1 else 0) + if p'.pos < p'.stop then 1 else 0 := by
      simp only [hskips, hrepeats, Page.Returns]
      by_cases hpast : p.pos < p.stop
      · by_cases hahead : p'.first ≤ p'.pos <;> by_cases hdone : p'.pos < p'.stop <;>
          simp [hpast, hahead, hdone]
        omega
      · by_cases hahead : p'.first ≤ p'.pos <;> by_cases hdone : p'.pos < p'.stop <;>
          simp [hpast, hahead, hdone]
        omega
    rw [returns, turns, turns]
    omega

theorem Pages.returns_eq_one_iff {p : Page} {ps : List Page} (h : Pages (p :: ps))
    (hpassed : p.pos < p.stop) : returns (p :: ps) = 1 ↔
      turns Page.Skips (p :: ps) = turns Page.Repeats (p :: ps) := by
  have hbalance := h.balance p rfl
  rw [if_pos hpassed] at hbalance
  omega

/-! ### Pages of lists -/

section Lists
variable {α : Type*} [BEq α] [LawfulBEq α] {l : List α} {x : α}

/-- An element of a list without repetitions is in the page that covers its position. -/
lemma count_page (hl : l.Nodup) (hx : x ∈ l) (first n : ℕ) :
    ((l.drop first).take n).count x =
      if first ≤ l.idxOf x ∧ l.idxOf x < first + n then 1 else 0 := by
  have hnodup : ((l.drop first).take n).Nodup :=
    (hl.sublist (List.drop_sublist _ _)).sublist (List.take_sublist _ _)
  have hmem : x ∈ (l.drop first).take n ↔ first ≤ l.idxOf x ∧ l.idxOf x < first + n := by
    have hlt : l.idxOf x < l.length := List.idxOf_lt_length_of_mem hx
    rw [List.mem_iff_getElem?]
    constructor
    · rintro ⟨i, hi⟩
      rw [List.getElem?_take] at hi
      split_ifs at hi with hin
      rw [List.getElem?_drop] at hi
      obtain ⟨hlen, hget⟩ := List.getElem?_eq_some_iff.mp hi
      rw [← hget, hl.idxOf_getElem]
      omega
    · rintro ⟨hfirst, hstop⟩
      refine ⟨l.idxOf x - first, ?_⟩
      rw [List.getElem?_take_of_lt (by omega), List.getElem?_drop, Nat.add_sub_cancel' hfirst,
        List.getElem?_eq_getElem hlt, List.getElem_idxOf hlt]
  split_ifs with h
  · exact List.count_eq_one_of_mem hnodup (hmem.mpr h)
  · exact List.count_eq_zero_of_not_mem fun hin => h (hmem.mp hin)

omit [BEq α] [LawfulBEq α] in
/-- The number behind the last element of a page tells where the next page begins. -/
lemma getLast?_page (l : List α) (first n : ℕ) :
    ((((l.zipIdx.drop first).take n).getLast?.map fun x => x.2 + 1).getD first) =
      first + ((l.drop first).take n).length := by
  have hlen : ((l.zipIdx.drop first).take n).length = ((l.drop first).take n).length := by
    simp
  rw [List.getLast?_eq_getElem?, hlen]
  cases hsize : ((l.drop first).take n).length with
  | zero =>
    rw [hsize, List.length_eq_zero_iff] at hlen
    rw [hlen]
    rfl
  | succ k =>
    have hk : k < n ∧ first + k < l.length := by
      rw [List.length_take, List.length_drop] at hsize
      omega
    rw [Nat.add_sub_cancel, List.getElem?_take_of_lt hk.1, List.getElem?_drop, List.getElem?_zipIdx,
      List.getElem?_eq_getElem hk.2]
    simp [Nat.add_assoc]

/-- In a sorted list, an element has as many before it as there are smaller ones. -/
lemma idxOf_of_sorted [LT α] [DecidableLT α] [Std.Asymm (α := α) (· < ·)] (hl : l.Pairwise (· < ·))
    (hx : x ∈ l) : l.idxOf x = l.countP (· < x) := by
  induction l with
  | nil => cases hx
  | cons a l ih =>
    obtain ⟨ha, hl⟩ := List.pairwise_cons.mp hl
    have hself : ∀ b : α, ¬ b < b := fun b hb => Std.Asymm.asymm b b hb hb
    rcases List.mem_cons.mp hx with rfl | hx
    · rw [List.idxOf_cons_self, eq_comm, List.countP_eq_zero]
      intro y hy
      rw [decide_eq_true_eq]
      rcases List.mem_cons.mp hy with rfl | hy
      · exact hself y
      · exact Std.Asymm.asymm x y (ha y hy)
    · have hax := ha x hx
      have hne : a ≠ x := by
        rintro rfl
        exact hself a hax
      rw [List.idxOf_cons_ne _ hne, ih hl hx, List.countP_cons, if_pos (decide_eq_true hax)]

end Lists

end Paging

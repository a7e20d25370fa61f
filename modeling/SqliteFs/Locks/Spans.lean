import SqliteFs.Locks.Basic
import SqliteFs.Lib.Span

/-!
# The bytes that a record covers

A record with `start + length` in the range of a `u64` covers the bytes of a span. In these terms
the overlap test says whether spans meet, and unlocking a range takes its bytes, and no others,
out of the owner's records.
-/

namespace SqliteFs

/-- The bytes of a range; a range of length zero has no end. -/
def rangeSpan (start length : ℕ) : Span :=
  ⟨start, if length = 0 then none else some (start + length)⟩

def Record.span (r : Record) : Span := rangeSpan r.start r.length

/-- The record's end is a `u64`. -/
def Record.InRange (r : Record) : Prop := r.start + r.length < 2 ^ 64

variable {r p : Record} {start length : ℕ}

lemma rangeSpan_proper : (rangeSpan start length).Proper := by
  intro e he
  unfold rangeSpan at he ⊢
  split_ifs at he with h
  · cases he
  · cases he
    exact Nat.lt_add_of_pos_right (Nat.pos_of_ne_zero h)

lemma rangeEnd_eq (h : start + length < 2 ^ 64) :
    rangeEnd start length = (rangeSpan start length).stop := by
  unfold rangeEnd rangeSpan
  rw [U64.add_of_lt h]

lemma rangeSpan_stop_lt (h : start + length < 2 ^ 64) :
    ∀ e ∈ (rangeSpan start length).stop, e < 2 ^ 64 := by
  intro e he
  unfold rangeSpan at he
  split_ifs at he
  · cases he
  · cases he
    exact h

lemma Record.end_eq (hr : r.InRange) : r.end_ = r.span.stop := rangeEnd_eq hr

lemma overlaps_iff {aStart bStart : ℕ} {aEnd bEnd : Option ℕ} :
    overlaps aStart aEnd bStart bEnd = true ↔ (∀ e ∈ aEnd, bStart < e) ∧ ∀ e ∈ bEnd, aStart < e := by
  unfold overlaps
  simp only [Bool.not_or, Bool.and_eq_true, Bool.not_eq_true', Option.any_eq_false,
    decide_eq_false_iff_not, not_le]
  rfl

/-- The overlap test is exact. -/
theorem recOverlaps_iff (hr : r.InRange) (h : start + length < 2 ^ 64) :
    recOverlaps r start length = true ↔ r.span.Meets (rangeSpan start length) := by
  have hmeets : r.span.Meets (rangeSpan start length) ↔ _ :=
    Span.meets_iff rangeSpan_proper rangeSpan_proper
  rw [hmeets, recOverlaps, overlaps_iff, rangeEnd_eq h, Record.end_eq hr]
  rfl

/-! ### Unlocking -/

namespace LockManager

lemma end_of_length_eq_zero (h : r.length = 0) : r.end_ = none := by
  rw [Record.end_, rangeEnd, if_pos h]

lemma end_of_length_ne_zero (hr : r.InRange) (h : r.length ≠ 0) :
    r.end_ = some (r.start + r.length) := by
  rw [Record.end_, rangeEnd, if_neg h, U64.add_of_lt hr]

/-- The left fragment is the part of the record before the range. -/
lemma leftFrag_span (hr : r.InRange) (hlt : r.start < start) (hs : start < 2 ^ 64) :
    (leftFrag r start).span = r.span.before start ∧ (leftFrag r start).InRange := by
  have hfrag : ∀ e, r.end_.elim start (fun e => min e start) = e → r.start < e → e < 2 ^ 64 →
      (leftFrag r start).span = ⟨r.start, some e⟩ ∧ (leftFrag r start).InRange := by
    intro e he hlte he64
    have hlen : (leftFrag r start).length = e - r.start := by
      rw [leftFrag, he, U64.sub_of_le hlte.le he64]
    unfold Record.span rangeSpan Record.InRange
    rw [hlen, leftFrag_start, if_neg (Nat.sub_ne_zero_of_lt hlte), Nat.add_sub_cancel' hlte.le]
    exact ⟨rfl, he64⟩
  by_cases h0 : r.length = 0
  · obtain ⟨hspan, hrange⟩ := hfrag start (by rw [end_of_length_eq_zero h0]; rfl) hlt hs
    refine ⟨?_, hrange⟩
    rw [hspan, Record.span, rangeSpan, if_pos h0]
    rfl
  · obtain ⟨hspan, hrange⟩ := hfrag (min (r.start + r.length) start)
      (by rw [end_of_length_ne_zero hr h0]; rfl)
      (lt_min (Nat.lt_add_of_pos_right (Nat.pos_of_ne_zero h0)) hlt)
      (lt_of_le_of_lt (min_le_right _ _) hs)
    refine ⟨?_, hrange⟩
    rw [hspan, Record.span, rangeSpan, if_neg h0]
    rfl

/-- The right fragment is the part of the record behind the range. -/
lemma rightFrag_span {ue : ℕ} (hr : r.InRange) (hue : ue < 2 ^ 64)
    (hbehind : r.end_.all (ue < ·)) :
    (rightFrag r ue).span = r.span.behind ue ∧ (rightFrag r ue).InRange := by
  by_cases h0 : r.length = 0
  · have hlen : (rightFrag r ue).length = 0 := by
      rw [rightFrag, end_of_length_eq_zero h0, Option.elim_none]
    unfold Record.span rangeSpan Record.InRange
    rw [hlen, rightFrag_start, if_pos rfl, if_pos h0, Nat.add_zero]
    exact ⟨rfl, hue⟩
  · rw [end_of_length_ne_zero hr h0] at hbehind
    have hlt : ue < r.start + r.length := by simpa using hbehind
    have hlen : (rightFrag r ue).length = r.start + r.length - ue := by
      rw [rightFrag, end_of_length_ne_zero hr h0, Option.elim_some, U64.sub_of_le hlt.le hr]
    unfold Record.span rangeSpan Record.InRange
    rw [hlen, rightFrag_start, if_neg (Nat.sub_ne_zero_of_lt hlt), if_neg h0, Nat.add_sub_cancel' hlt.le]
    exact ⟨rfl, hr⟩

lemma mem_splitRecord (h : start + length < 2 ^ 64) : p ∈ splitRecord r start length ↔
    (r.start < start ∧ p = leftFrag r start) ∨
      ∃ ue ∈ (rangeSpan start length).stop, r.end_.all (ue < ·) ∧ p = rightFrag r ue := by
  unfold splitRecord
  rw [List.mem_append, rangeEnd_eq h]
  refine or_congr ?_ ?_
  · split_ifs with hlt <;> simp [hlt]
  · cases (rangeSpan start length).stop with
    | none => simp
    | some ue =>
      simp only [Option.mem_some_iff, exists_eq_left']
      split_ifs with hall <;> simp [hall]

/-- The bytes of the fragments are those of the record without the range. -/
lemma exists_mem_splitRecord (hr : r.InRange) (h : start + length < 2 ^ 64)
    (hmeets : r.span.Meets (rangeSpan start length)) (b : ℕ) :
    (∃ p ∈ splitRecord r start length, b ∈ p.span) ↔
      b ∈ r.span ∧ ¬ b ∈ rangeSpan start length := by
  have hbegins : ∀ e ∈ (rangeSpan start length).stop, r.span.start < e :=
    ((Span.meets_iff rangeSpan_proper rangeSpan_proper).mp hmeets).2
  have hs : start < 2 ^ 64 := by omega
  constructor
  · rintro ⟨p, hp, hb⟩
    rw [Span.mem_and_not_mem]
    rcases (mem_splitRecord h).mp hp with ⟨hlt, rfl⟩ | ⟨ue, hue, hall, rfl⟩
    · rw [(leftFrag_span hr hlt hs).1, Span.mem_before] at hb
      exact Or.inl hb
    · rw [(rightFrag_span hr (rangeSpan_stop_lt h ue hue) hall).1,
        Span.mem_behind (hbegins ue hue).le] at hb
      exact Or.inr ⟨ue, hue, hb⟩
  · intro hb
    rcases Span.mem_and_not_mem.mp hb with ⟨hbr, hlt⟩ | ⟨ue, hue, hbr, hle⟩
    · have hstart : r.start < start := lt_of_le_of_lt hbr.1 hlt
      refine ⟨leftFrag r start, (mem_splitRecord h).mpr (Or.inl ⟨hstart, rfl⟩), ?_⟩
      rw [(leftFrag_span hr hstart hs).1, Span.mem_before]
      exact ⟨hbr, hlt⟩
    · have hall : r.end_.all (ue < ·) := by
        rw [Record.end_eq hr, Option.all_eq_true]
        intro e he
        exact decide_eq_true (lt_of_le_of_lt hle (hbr.2 e he))
      refine ⟨rightFrag r ue, (mem_splitRecord h).mpr (Or.inr ⟨ue, hue, hall, rfl⟩), ?_⟩
      rw [(rightFrag_span hr (rangeSpan_stop_lt h ue hue) hall).1,
        Span.mem_behind (hbegins ue hue).le]
      exact ⟨hbr, hle⟩

/-- The records that unlocking keeps of `r` are records of the same lock. -/
lemma unlockRecord_same {ns : Namespace} {owner : ℤ} (hr : r.InRange)
    (h : start + length < 2 ^ 64) (hp : p ∈ unlockRecord ns owner start length r) :
    p.InRange ∧ p.namespace_ = r.namespace_ ∧ p.owner = r.owner ∧ p.type = r.type := by
  unfold unlockRecord at hp
  split_ifs at hp
  · obtain rfl := List.mem_singleton.mp hp
    exact ⟨hr, rfl, rfl, rfl⟩
  · rcases (mem_splitRecord h).mp hp with ⟨hlt, rfl⟩ | ⟨ue, hue, hall, rfl⟩
    · exact ⟨(leftFrag_span hr hlt (by omega)).2, by simp⟩
    · exact ⟨(rightFrag_span hr (rangeSpan_stop_lt h ue hue) hall).2, by simp⟩
  · obtain rfl := List.mem_singleton.mp hp
    exact ⟨hr, rfl, rfl, rfl⟩

/-- Unlocking takes just the bytes of the range out of the owner's record. -/
theorem exists_mem_unlockRecord {ns : Namespace} {owner : ℤ} (hr : r.InRange)
    (h : start + length < 2 ^ 64) (b : ℕ) :
    (∃ p ∈ unlockRecord ns owner start length r, b ∈ p.span) ↔
      b ∈ r.span ∧ ¬ (r.namespace_ = ns ∧ r.owner = owner ∧ b ∈ rangeSpan start length) := by
  unfold unlockRecord
  split_ifs with hother hmeets
  · simp only [List.mem_singleton, exists_eq_left]
    exact ⟨fun hb => ⟨hb, fun hc => hother.elim (· hc.1) (· hc.2.1)⟩, And.left⟩
  · obtain ⟨hns, howner⟩ : r.namespace_ = ns ∧ r.owner = owner := by
      simpa only [not_or, not_not] using hother
    rw [exists_mem_splitRecord hr h ((recOverlaps_iff hr h).mp hmeets)]
    simp only [hns, howner, true_and]
  · simp only [List.mem_singleton, exists_eq_left]
    refine ⟨fun hb => ⟨hb, fun hc => hmeets ?_⟩, And.left⟩
    exact (recOverlaps_iff hr h).mpr ⟨b, hb, hc.2.2⟩

end LockManager

end SqliteFs

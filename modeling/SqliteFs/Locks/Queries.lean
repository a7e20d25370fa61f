import SqliteFs.Locks.Exclusion

/-!
# What a query says about a request

`posix_getlk` and `ofd_getlk` look for a record that stands against an exclusive lock. A request
looks for the same records before it changes anything, and it makes sure that the inode has an
entry before it looks; where it is refused there was one.
-/

namespace SqliteFs

namespace LockManager

variable {m : LockManager} {ns : Namespace} {inode : ℕ} {owner : ℤ} {start length : ℕ}

/-- The answer of a query for the range, and what requests of the same owner for it do. -/
structure Predicts (m : LockManager) (ns : Namespace) (inode : ℕ) (owner : ℤ) (start length : ℕ)
    (query : Option LockQuery) (lock : LockOp → Res Unit × LockManager) : Prop where
  free : query = none ↔ (lock .exclusive).1 = .ok ()
  found : ∀ q, query = some q → ∃ r ∈ m.records inode, r.namespace_ = ns ∧ r.owner ≠ owner ∧
    r.type = q.type ∧ r.owner = q.pid ∧ r.span.Meets (rangeSpan start length)
  refused : ∀ op, op ≠ .unlock → (lock op).1 ≠ .ok () → (lock op).2 = m

lemma stop_of_rangeEnd {e : ℕ} (he : e ∈ (rangeSpan start length).stop) :
    ∃ e' ∈ rangeEnd start length, e' ≤ e := by
  unfold rangeSpan at he
  unfold rangeEnd
  dsimp only at he
  split_ifs at he ⊢
  · cases he
  · cases he
    exact ⟨_, rfl, Nat.mod_le _ _⟩

/-- An end that wraps around comes too early, so what overlaps by the test does overlap. -/
lemma meets_of_recOverlaps {r : Record} (h : recOverlaps r start length = true) :
    r.span.Meets (rangeSpan start length) := by
  obtain ⟨hstart, hend⟩ := overlaps_iff.mp h
  refine (Span.meets_iff rangeSpan_proper rangeSpan_proper).mpr ⟨fun e he => ?_, fun e he => ?_⟩
  · obtain ⟨e', he', hle⟩ := stop_of_rangeEnd he
    exact (hstart e' he').trans_le hle
  · obtain ⟨e', he', hle⟩ := stop_of_rangeEnd he
    exact (hend e' he').trans_le hle

lemma getlk_eq_none {p : Record → Bool} : m.getlk ns inode start length p = none ↔
    ∀ r ∈ m.records inode, ¬ (r.namespace_ = ns ∧ p r = true ∧ recOverlaps r start length = true) := by
  unfold getlk
  rw [Option.map_eq_none_iff, List.find?_eq_none]
  simp only [Bool.and_eq_true, decide_eq_true_eq, and_assoc]

/-- An exclusive lock is granted just if no other owner's record overlaps its range. -/
lemma exclusive_granted_iff : (m.namespaceLock ns inode owner .exclusive start length).1 = .ok () ↔
    ∀ r ∈ m.records inode,
      ¬ (r.namespace_ = ns ∧ r.owner ≠ owner ∧ recOverlaps r start length = true) := by
  have hconf : ∀ r, conflicts ns owner (lockTypeOf .exclusive) start length r = true ↔
      r.namespace_ = ns ∧ r.owner ≠ owner ∧ recOverlaps r start length = true := by
    intro r
    simp [conflicts, lockTypeOf, and_assoc]
  have hop : LockOp.exclusive ≠ .unlock := by decide
  rcases namespaceLock_acquire m ns inode owner start length hop with ⟨r, hr, hrun⟩ | ⟨hfree, hrun⟩
  · rw [hrun]
    refine iff_of_false (fun h => by cases h) fun hall => ?_
    exact hall r (List.mem_of_find?_eq_some hr) ((hconf r).mp (List.find?_some hr))
  · rw [hrun]
    refine iff_of_true rfl fun r hr hoverlaps => ?_
    exact absurd ((hconf r).mpr hoverlaps) (by rw [hfree r hr]; exact Bool.false_ne_true)

lemma namespaceLock_refused {op : LockOp} (hop : op ≠ .unlock)
    (h : (m.namespaceLock ns inode owner op start length).1 ≠ .ok ()) :
    (m.namespaceLock ns inode owner op start length).2 = m := by
  rcases namespaceLock_acquire m ns inode owner start length hop with ⟨r, -, hrun⟩ | ⟨-, hrun⟩
  · rw [hrun]
  · rw [hrun] at h
    exact absurd rfl h

lemma predicts_namespaceLock : Predicts m ns inode owner start length
    (m.getlk ns inode start length fun r => r.owner ≠ owner)
    (fun op => m.namespaceLock ns inode owner op start length) := by
  refine ⟨?_, fun q hq => ?_, fun op hop => namespaceLock_refused hop⟩
  · rw [getlk_eq_none, exclusive_granted_iff]
    simp only [decide_eq_true_eq]
  · unfold getlk at hq
    obtain ⟨r, hr, rfl⟩ := Option.map_eq_some_iff.mp hq
    have hfound := List.find?_some hr
    simp only [Bool.and_eq_true, decide_eq_true_eq] at hfound
    obtain ⟨⟨hns, howner⟩, hover⟩ := hfound
    exact ⟨r, List.mem_of_find?_eq_some hr, hns, howner, rfl, rfl, meets_of_recOverlaps hover⟩

/-- In every table, a query finds nothing just if an exclusive lock would be granted. -/
theorem getlk_predicts (m : LockManager) (inode : ℕ) (fdId pid : ℤ) (start length : ℕ)
    (wait : Bool) :
    Predicts m .posix inode pid start length (m.posixGetlk inode fdId pid start length)
      (fun op => m.posixLock inode fdId pid op start length wait) ∧
    Predicts m .ofd inode fdId start length (m.ofdGetlk inode fdId start length)
      (fun op => m.ofdLock inode fdId op start length wait) :=
  ⟨predicts_namespaceLock, predicts_namespaceLock⟩

end LockManager

end SqliteFs

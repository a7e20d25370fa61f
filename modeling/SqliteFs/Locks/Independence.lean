import SqliteFs.Locks.Exclusion
import SqliteFs.Lib.Purge

/-!
# The namespaces are independent

What a request does in its namespace depends on the records of that namespace only, and it does
nothing in the others. So the requests of the other namespaces can be left out of a sequence of
calls, and nothing is different for those of one namespace.
-/

namespace SqliteFs

open Purge

namespace LockManager

/-- A call on the lock manager, or a query. -/
inductive Request
  | call (c : LockCall)
  | posixGetlk (inode : ℕ) (fdId pid : ℤ) (start length : ℕ)
  | ofdGetlk (inode : ℕ) (fdId : ℤ) (start length : ℕ)

/-- What a request returns. -/
inductive Answer
  | outcome (r : Res Unit)
  | query (q : Option LockQuery)

namespace Request

def step (m : LockManager) : Request → Answer × LockManager
  | .call c => (.outcome (c.run m).1, (c.run m).2)
  | .posixGetlk inode fdId pid start length =>
    (.query (m.posixGetlk inode fdId pid start length), m)
  | .ofdGetlk inode fdId start length => (.query (m.ofdGetlk inode fdId start length), m)

/-- The namespace of the request; `on_fd_close` is in none. -/
def namespaceOf : Request → Option Namespace
  | .call (.posixLock ..) | .posixGetlk .. => some .posix
  | .call (.ofdLock ..) | .ofdGetlk .. => some .ofd
  | .call (.flock ..) => some .flock
  | .call (.onFdClose ..) => none

/-- The request is one in the namespace `ns`. -/
def isIn (ns : Namespace) (r : Request) : Bool := r.namespaceOf = some ns

/-- The request is one in the namespace `ns`, or `on_fd_close`. -/
def concerns (ns : Namespace) (r : Request) : Bool := r.isIn ns || r.namespaceOf.isNone

end Request

/-- The records in the namespace `ns`. -/
def recordsIn (ns : Namespace) (m : LockManager) (inode : ℕ) : List Record :=
  (m.records inode).filter fun r => r.namespace_ = ns

/-! ### One namespace in the records of an inode -/

section Records
variable {ns ns' : Namespace} {owner : ℤ} {start length : ℕ}

lemma mem_splitRecord_namespace {r x : Record} (hx : x ∈ splitRecord r start length) :
    x.namespace_ = r.namespace_ := by
  unfold splitRecord at hx
  rcases List.mem_append.mp hx with hx | hx
  · split_ifs at hx
    · rw [List.mem_singleton.mp hx, leftFrag_namespace]
    · cases hx
  · cases hend : rangeEnd start length with
    | none =>
      rw [hend] at hx
      cases hx
    | some ue =>
      rw [hend] at hx
      dsimp only at hx
      split_ifs at hx
      · rw [List.mem_singleton.mp hx, rightFrag_namespace]
      · cases hx

lemma mem_unlockRecord_namespace {r x : Record} (hx : x ∈ unlockRecord ns owner start length r) :
    x.namespace_ = r.namespace_ := by
  unfold unlockRecord at hx
  split_ifs at hx
  · rw [List.mem_singleton.mp hx]
  · exact mem_splitRecord_namespace hx
  · rw [List.mem_singleton.mp hx]

/-- Unlocking in a namespace sees the records of that namespace. -/
lemma filter_unlock (rs : List Record) :
    (rs.flatMap (unlockRecord ns owner start length)).filter (fun r => r.namespace_ = ns)
      = (rs.filter fun r => r.namespace_ = ns).flatMap (unlockRecord ns owner start length) := by
  induction rs with
  | nil => rfl
  | cons r rs ih =>
    rw [List.flatMap_cons, List.filter_append, ih, List.filter_cons]
    split_ifs with hr
    · have hr : r.namespace_ = ns := of_decide_eq_true hr
      rw [List.flatMap_cons, List.filter_eq_self.mpr]
      intro x hx
      rw [mem_unlockRecord_namespace hx]
      exact decide_eq_true hr
    · rw [List.filter_eq_nil_iff.mpr, List.nil_append]
      intro x hx
      rw [mem_unlockRecord_namespace hx]
      exact hr

/-- Unlocking in a namespace leaves the records of the others alone. -/
lemma filter_unlock_other (hne : ns' ≠ ns) (rs : List Record) :
    (rs.flatMap (unlockRecord ns owner start length)).filter (fun r => r.namespace_ = ns')
      = rs.filter fun r => r.namespace_ = ns' := by
  induction rs with
  | nil => rfl
  | cons r rs ih =>
    rw [List.flatMap_cons, List.filter_append, ih, List.filter_cons]
    split_ifs with hr
    · have hr' : r.namespace_ ≠ ns := fun h => hne ((of_decide_eq_true hr).symm.trans h)
      rw [unlockRecord, if_pos (Or.inl hr'), List.filter_cons, if_pos hr]
      rfl
    · rw [List.filter_eq_nil_iff.mpr, List.nil_append]
      intro x hx
      rw [mem_unlockRecord_namespace hx]
      exact hr

/-- Granting a lock sees the records of its namespace. -/
lemma filter_retypeOrPush {r : Record} (hr : r.namespace_ = ns) (rs : List Record) :
    (retypeOrPush (sameRange ns owner start length) r rs).filter (fun x => x.namespace_ = ns)
      = retypeOrPush (sameRange ns owner start length) r (rs.filter fun x => x.namespace_ = ns) := by
  induction rs with
  | nil => simp [retypeOrPush, hr]
  | cons x rs ih =>
    by_cases hsame : sameRange ns owner start length x = true
    · have hx : x.namespace_ = ns := (sameRange_eq_true.mp hsame).1
      simp [retypeOrPush, hsame, hx]
    · by_cases hx : x.namespace_ = ns
      · simp [retypeOrPush, hsame, hx, ih]
      · simp [retypeOrPush, hsame, hx, ih]

/-- Granting a lock leaves the records of the other namespaces alone. -/
lemma filter_retypeOrPush_other (hne : ns' ≠ ns) {r : Record} (hr : r.namespace_ = ns)
    (rs : List Record) :
    (retypeOrPush (sameRange ns owner start length) r rs).filter (fun x => x.namespace_ = ns')
      = rs.filter fun x => x.namespace_ = ns' := by
  induction rs with
  | nil => simp [retypeOrPush, hr, hne.symm]
  | cons x rs ih =>
    by_cases hsame : sameRange ns owner start length x = true
    · have hx : x.namespace_ = ns := (sameRange_eq_true.mp hsame).1
      simp [retypeOrPush, hsame, hx, hne.symm]
    · by_cases hx : x.namespace_ = ns'
      · simp [retypeOrPush, hsame, hx, ih]
      · simp [retypeOrPush, hsame, hx, ih]

/-- A conflict is one with a record of the namespace. -/
lemma find?_conflicts {newType : LockType} (rs : List Record) :
    (rs.filter fun r => r.namespace_ = ns).find? (conflicts ns owner newType start length)
      = rs.find? (conflicts ns owner newType start length) := by
  rw [List.find?_filter]
  congr 1
  funext r
  unfold conflicts
  by_cases hr : r.namespace_ = ns
  · simp [hr]
  · simp [hr]

end Records

/-! ### One namespace in a lock manager -/

section Requests
variable {m m' : LockManager} {ns ns' : Namespace} {inode : ℕ} {owner : ℤ} {op : LockOp}
  {start length : ℕ}

lemma namespaceLock_other (hne : ns' ≠ ns) (i : ℕ) :
    recordsIn ns' (m.namespaceLock ns inode owner op start length).2 i = recordsIn ns' m i := by
  unfold recordsIn
  by_cases hop : op = .unlock
  · subst hop
    rw [namespaceLock_unlock, records_storeRecords, records_entry]
    split_ifs with hi
    · rw [hi, filter_unlock_other hne]
    · rfl
  · rcases namespaceLock_acquire m ns inode owner start length hop with ⟨x, -, hrun⟩ | ⟨-, hrun⟩
    · rw [hrun]
    · rw [hrun, records_setRecords, records_entry]
      split_ifs with hi
      · rw [hi, filter_retypeOrPush_other hne rfl]
      · rfl

/-- What a request does in its namespace depends on the records there. -/
lemma namespaceLock_congr (h : recordsIn ns m = recordsIn ns m') :
    (m.namespaceLock ns inode owner op start length).1
        = (m'.namespaceLock ns inode owner op start length).1 ∧
      recordsIn ns (m.namespaceLock ns inode owner op start length).2
        = recordsIn ns (m'.namespaceLock ns inode owner op start length).2 := by
  have hinode : (m.records inode).filter (fun r => r.namespace_ = ns)
      = (m'.records inode).filter fun r => r.namespace_ = ns := congrFun h inode
  by_cases hop : op = .unlock
  · subst hop
    rw [namespaceLock_unlock, namespaceLock_unlock]
    refine ⟨rfl, funext fun i => ?_⟩
    unfold recordsIn
    rw [records_storeRecords, records_entry, records_storeRecords, records_entry]
    split_ifs with hi
    · rw [filter_unlock, filter_unlock, hinode]
    · exact congrFun h i
  · have hfind : (m.records inode).find? (conflicts ns owner (lockTypeOf op) start length)
        = (m'.records inode).find? (conflicts ns owner (lockTypeOf op) start length) := by
      rw [← find?_conflicts, hinode, find?_conflicts]
    rcases namespaceLock_acquire m ns inode owner start length hop
      with ⟨x, hx, hrun⟩ | ⟨hnone, hrun⟩
    · rcases namespaceLock_acquire m' ns inode owner start length hop
        with ⟨x', hx', hrun'⟩ | ⟨hnone', -⟩
      · rw [hrun, hrun']
        rw [hx, hx'] at hfind
        rw [Option.some.inj hfind]
        exact ⟨rfl, h⟩
      · rw [hx, List.find?_eq_none.mpr fun r hr => by simp [hnone' r hr]] at hfind
        cases hfind
    · rcases namespaceLock_acquire m' ns inode owner start length hop
        with ⟨x', hx', -⟩ | ⟨-, hrun'⟩
      · rw [hx', List.find?_eq_none.mpr fun r hr => by simp [hnone r hr]] at hfind
        cases hfind
      · rw [hrun, hrun']
        refine ⟨rfl, funext fun i => ?_⟩
        unfold recordsIn
        rw [records_setRecords, records_entry, records_setRecords, records_entry]
        split_ifs with hi
        · have hgranted : (granted ns op owner start length).namespace_ = ns := rfl
          rw [filter_retypeOrPush hgranted, filter_retypeOrPush hgranted, hinode]
        · exact congrFun h i

lemma onFdClose_congr (h : recordsIn ns m = recordsIn ns m') (fdId pid : ℤ) :
    recordsIn ns (m.onFdClose inode fdId pid) = recordsIn ns (m'.onFdClose inode fdId pid) := by
  have hcomm : ∀ rs : List Record,
      (rs.filter fun r => !releasedBy fdId pid r).filter (fun r => r.namespace_ = ns)
        = (rs.filter fun r => r.namespace_ = ns).filter fun r => !releasedBy fdId pid r := by
    intro rs
    rw [List.filter_filter, List.filter_filter]
    exact List.filter_congr fun _ _ => Bool.and_comm _ _
  funext i
  have hi : (m.records i).filter (fun r => r.namespace_ = ns)
      = (m'.records i).filter fun r => r.namespace_ = ns := congrFun h i
  unfold recordsIn
  rw [records_onFdClose, records_onFdClose]
  split_ifs
  · rw [hcomm, hcomm, hi]
  · exact hi

lemma getlk_congr (h : recordsIn ns m = recordsIn ns m') (p : Record → Bool) :
    m.getlk ns inode start length p = m'.getlk ns inode start length p := by
  have hfind : ∀ rs : List Record,
      (rs.filter fun r => r.namespace_ = ns).find?
          (fun r => r.namespace_ = ns && p r && recOverlaps r start length)
        = rs.find? fun r => r.namespace_ = ns && p r && recOverlaps r start length := by
    intro rs
    rw [List.find?_filter]
    congr 1
    funext r
    by_cases hr : r.namespace_ = ns
    · simp [hr]
    · simp [hr]
  have hinode : (m.records inode).filter (fun r => r.namespace_ = ns)
      = (m'.records inode).filter fun r => r.namespace_ = ns := congrFun h inode
  unfold getlk
  rw [← hfind, hinode, hfind]

end Requests

namespace Request

lemma step_hidden {ns : Namespace} (m : LockManager) (r : Request) (hr : r.concerns ns = false) :
    recordsIn ns (r.step m).2 = recordsIn ns m := by
  cases r with
  | call c =>
    cases c with
    | posixLock inode fdId pid op start length wait =>
      refine funext fun i => namespaceLock_other ?_ i
      rintro rfl
      cases hr
    | ofdLock inode fdId op start length wait =>
      refine funext fun i => namespaceLock_other ?_ i
      rintro rfl
      cases hr
    | flock inode fdId op wait =>
      refine funext fun i => namespaceLock_other ?_ i
      rintro rfl
      cases hr
    | onFdClose inode fdId pid => simp [concerns, namespaceOf] at hr
  | posixGetlk inode fdId pid start length => rfl
  | ofdGetlk inode fdId start length => rfl

lemma step_congr {ns : Namespace} {m m' : LockManager} {r : Request} (hr : r.isIn ns = true)
    (h : recordsIn ns m = recordsIn ns m') :
    (r.step m).1 = (r.step m').1 ∧ recordsIn ns (r.step m).2 = recordsIn ns (r.step m').2 := by
  have hns : r.namespaceOf = some ns := of_decide_eq_true hr
  cases r with
  | call c =>
    cases c with
    | posixLock inode fdId pid op start length wait =>
      obtain rfl := Option.some.inj hns
      obtain ⟨hanswer, hrecords⟩ := namespaceLock_congr h
      exact ⟨congrArg Answer.outcome hanswer, hrecords⟩
    | ofdLock inode fdId op start length wait =>
      obtain rfl := Option.some.inj hns
      obtain ⟨hanswer, hrecords⟩ := namespaceLock_congr h
      exact ⟨congrArg Answer.outcome hanswer, hrecords⟩
    | flock inode fdId op wait =>
      obtain rfl := Option.some.inj hns
      obtain ⟨hanswer, hrecords⟩ := namespaceLock_congr h
      exact ⟨congrArg Answer.outcome hanswer, hrecords⟩
    | onFdClose inode fdId pid => cases hns
  | posixGetlk inode fdId pid start length =>
    obtain rfl := Option.some.inj hns
    exact ⟨congrArg Answer.query (getlk_congr h _), h⟩
  | ofdGetlk inode fdId start length =>
    obtain rfl := Option.some.inj hns
    exact ⟨congrArg Answer.query (getlk_congr h _), h⟩

lemma step_kept {ns : Namespace} {m m' : LockManager} (r : Request)
    (h : recordsIn ns m = recordsIn ns m') :
    recordsIn ns (r.step m).2 = recordsIn ns (r.step m').2 := by
  cases hr : r.concerns ns with
  | false => rw [step_hidden m r hr, step_hidden m' r hr, h]
  | true =>
    rcases Bool.or_eq_true _ _ ▸ hr with hr | hr
    · exact (step_congr hr h).2
    · cases r with
      | call c =>
        cases c with
        | onFdClose inode fdId pid => exact onFdClose_congr h fdId pid
        | _ => cases hr
      | _ => cases hr

end Request

/-- In every sequence of requests, any of those that are in other namespaces can be left out: the
requests in the namespace `ns` get the same answers, and the records there are the same at the
end. -/
theorem namespaces_independent {ns : Namespace} {keep : Request → Bool}
    (hkeep : ∀ r : Request, r.concerns ns = true → keep r = true) (requests : List Request) :
    (answers (fun r m => Request.step m r) new requests).filter (fun a => a.1.isIn ns)
        = (answers (fun r m => Request.step m r) new (requests.filter keep)).filter
            (fun a => a.1.isIn ns) ∧
      recordsIn ns (final (fun r m => Request.step m r) new requests)
        = recordsIn ns (final (fun r m => Request.step m r) new (requests.filter keep)) := by
  have hunwinds : Unwinds (fun r m => Request.step m r) (recordsIn ns) keep (Request.isIn ns) := by
    refine ⟨fun m r hr => ?_, fun _ _ r _ h => r.step_kept h,
      fun _ _ r hr h => (r.step_congr hr h).1, fun r hr => hkeep r ?_⟩
    · refine Request.step_hidden m r (Bool.eq_false_iff.mpr fun hc => ?_)
      rw [hkeep r hc] at hr
      cases hr
    · rw [Request.concerns, hr, Bool.true_or]
  exact ⟨hunwinds.answers_filter requests rfl, hunwinds.final_filter requests rfl⟩

/-- Requests of all three namespaces on one inode, one of them refused. -/
def mixedRequests : List Request :=
  [.call (.posixLock 1 10 100 .exclusive 0 0 false), .call (.ofdLock 1 10 .shared 0 50 false),
    .call (.flock 1 10 .exclusive false), .call (.ofdLock 1 11 .exclusive 20 10 false),
    .posixGetlk 1 11 200 0 0, .ofdGetlk 1 11 0 0, .call (.onFdClose 1 10 100),
    .call (.ofdLock 1 11 .exclusive 20 10 false)]

theorem namespaces_independent_mixedRequests :
    (answers (fun r m => Request.step m r) new mixedRequests).filter (fun a => a.1.isIn .ofd)
        = (answers (fun r m => Request.step m r) new
            (mixedRequests.filter (Request.concerns .ofd))).filter (fun a => a.1.isIn .ofd) ∧
      recordsIn .ofd (final (fun r m => Request.step m r) new mixedRequests)
        = recordsIn .ofd (final (fun r m => Request.step m r) new
            (mixedRequests.filter (Request.concerns .ofd))) :=
  namespaces_independent (fun _ h => h) mixedRequests

end LockManager

end SqliteFs

import SqliteFs.Filesystem.Kinds
import SqliteFs.Filesystem.Leaks
import SqliteFs.Locks.Exclusion

/-!
# How long locks live

A lock should not outlive the descriptor it was taken through: closing releases the locks of the
descriptor itself, and those that the process behind it holds on the file. `close_fd` does the
first. For the second it names process 0, whoever closes; so the locks of another process stay,
unless it has released them itself.
-/

namespace SqliteFs

open Txn

namespace Filesystem

/-- A filesystem, and the processes that an observer has seen to lock through the descriptors. -/
structure Observed where
  fs : Filesystem
  lockers : List (ℕ × ℤ)

/-- The process that locks through a descriptor by this call, if one does. -/
def Call.lockers (s : Filesystem) (call : Call) : List (ℕ × ℤ) :=
  match call, (call.outcome s).result with
  | .op _ _ (.posixLock fd pid lockOp _ _ _), .ok _ =>
    if lockOp = .unlock then [] else [(fd, pid)]
  | _, _ => []

/-- The observer notes who locks, and starts afresh with a new table of descriptors. -/
def Observed.exec (call : Call) (o : Observed) : Observed :=
  match call with
  | .op .. => ⟨call.exec o.fs, call.lockers o.fs ++ o.lockers⟩
  | .reopen .. => ⟨call.exec o.fs, []⟩

/-- If the call closes a descriptor, then no process but 0 that has locked through it holds a lock on
the file. -/
def Observed.Unlocked (o : Observed) : Call → Prop
  | .op _ _ (.closeFd fd) => ∀ f, o.fs.fdtable.entries.find? fd = some f → ∀ pid, pid ≠ 0 →
      (fd, pid) ∈ o.lockers → ∀ r ∈ o.fs.locks.records f.inode, r.namespace_ = .posix → r.owner ≠ pid
  | _ => True

/-- The observed states that calls lead to, if each satisfies `Observed.Unlocked`. -/
abbrev ObservedRun : Observed → Prop :=
  Run (fun o => Fresh o.fs ∧ o.lockers = []) Observed.exec Observed.Unlocked

/-- After the descriptor `fd` was closed, `s` has none of its locks left, and none on `inode` of the
processes that locked through it; after the last descriptor, none at all. -/
structure Observed.Releases (o : Observed) (fd inode : ℕ) (s : Filesystem) : Prop where
  byFd : ∀ i, ∀ r ∈ s.locks.records i, r.namespace_ ≠ .posix → r.owner ≠ fd
  byPid : ∀ pid, (fd, pid) ∈ o.lockers → ∀ r ∈ s.locks.records inode,
    r.namespace_ = .posix → r.owner ≠ pid
  last : s.fdtable.openCount inode = 0 → s.locks.records inode = [] ∧
    ∀ ns owner op start length, (s.locks.namespaceLock ns inode owner op start length).1 = .ok ()

/-- Every lock belongs to an open descriptor, or to a process that has locked through one. -/
structure Observed.Held (o : Observed) : Prop where
  below : ∀ f ∈ o.fs.fdtable.entries, f.fd < o.fs.fdtable.nextFd
  byFd : ∀ i, ∀ r ∈ o.fs.locks.records i, r.namespace_ ≠ .posix →
    ∃ f ∈ o.fs.fdtable.entries, f.inode = i ∧ r.owner = f.fd
  byPid : ∀ i, ∀ r ∈ o.fs.locks.records i, r.namespace_ = .posix →
    ∃ f ∈ o.fs.fdtable.entries, f.inode = i ∧ (f.fd, r.owner) ∈ o.lockers

/-! ### What the calls do to locks and descriptors -/

variable {s : Filesystem} {user : Option (UInt32 × UInt32)} {clock : Clock} {operation : Op}

lemma Call.locks_eq (h : ¬ operation.TouchesLocks) :
    ((Call.op user clock operation).exec s).locks = s.locks :=
  Call.frames aside_locks user clock operation (fun _ _ _ => rfl) (fun ht => absurd ht h) s

/-- A descriptor stays open but for a close. -/
lemma Call.stays_open (hbelow : ∀ f ∈ s.fdtable.entries, f.fd < s.fdtable.nextFd) {f : FdEntry}
    (hf : f ∈ s.fdtable.entries) (hclose : ∀ fd, operation ≠ .closeFd fd) :
    f ∈ ((Call.op user clock operation).exec s).fdtable.entries := by
  obtain ⟨l, hl, he⟩ := (Call.op user clock operation).effect s
  refine he.mem_entries hbelow hf ?_ ?_
  · rintro rfl
    cases operation with
    | closeFd fd => exact hclose fd rfl
    | _ => exact hl
  · rintro rfl
    cases operation <;> exact hl

/-- A request for locks adds at most the one that it asks for. -/
lemma mem_lockRequest {ns : Namespace} {owner : ℤ} {op : LockOp} {fd start length i : ℕ} {r : Record}
    (hr : r ∈ (lockRequest fd (fun locks inode => locks.namespaceLock ns inode owner op start length)
      s).state.locks.records i) :
    (∃ r₀ ∈ s.locks.records i, r₀.namespace_ = r.namespace_ ∧ r₀.owner = r.owner) ∨
      ∃ f, s.fdtable.entries.find? fd = some f ∧ f.inode = i ∧ r.namespace_ = ns ∧ r.owner = owner ∧
        op ≠ .unlock ∧ (lockRequest fd (fun locks inode =>
          locks.namespaceLock ns inode owner op start length) s).result = .ok ⟨⟩ := by
  unfold lockRequest at hr ⊢
  cases hf : s.fdtable.entries.find? fd with
  | none =>
    have hget : s.fdtable.get fd = err (FdTable.unknownFd fd) := by
      rw [FdTable.get, hf]
      rfl
    rw [ask_bind_error hget] at hr
    exact Or.inl ⟨r, hr, rfl, rfl⟩
  | some f =>
    rw [ask_bind (FdTable.get_eq_ok.mpr hf)] at hr ⊢
    rcases LockManager.mem_namespaceLock hr with hold | ⟨rfl, hns, howner, hop, hok⟩
    · exact Or.inl hold
    · refine Or.inr ⟨f, rfl, rfl, hns, howner, hop, ?_⟩
      change ((s.locks.namespaceLock ns f.inode owner op start length).1.map fun _ => PUnit.unit)
        = .ok ⟨⟩
      rw [hok]
      rfl

/-- The same, for a call that is such a request. -/
lemma Call.mem_locks {ns : Namespace} {owner : ℤ} {op : LockOp} {fd start length i : ℕ} {r : Record}
    (hrun : operation.run clock = answer (fun _ => .unit) (lockRequest fd fun locks inode =>
      locks.namespaceLock ns inode owner op start length))
    (hr : r ∈ ((Call.op user clock operation).exec s).locks.records i) :
    (∃ r₀ ∈ s.locks.records i, r₀.namespace_ = r.namespace_ ∧ r₀.owner = r.owner) ∨
      ∃ f, s.fdtable.entries.find? fd = some f ∧ f.inode = i ∧ r.namespace_ = ns ∧ r.owner = owner ∧
        op ≠ .unlock ∧ ((Call.op user clock operation).outcome s).result = .ok .unit := by
  rw [exec_op, asUser_locks, hrun, answer_apply] at hr
  rcases mem_lockRequest hr with hold | ⟨f, hf, hfi, hns, howner, hop, hok⟩
  · rw [actAs_locks] at hold
    exact Or.inl hold
  · rw [actAs_fdtable] at hf
    refine Or.inr ⟨f, hf, hfi, hns, howner, hop, ?_⟩
    rw [outcome_op, asUser_result, hrun, answer_apply, hok]
    rfl

/-! ### Every step -/

namespace Observed

variable {o : Observed}

/-- What an operation does to the locks that leaves the descriptors alone. -/
lemma Held.of_records (h : o.Held) {operation : Op} (hclose : ∀ fd, operation ≠ .closeFd fd)
    (hrecords : ∀ i, ∀ r ∈ ((Call.op user clock operation).exec o.fs).locks.records i,
      (∃ r₀ ∈ o.fs.locks.records i, r₀.namespace_ = r.namespace_ ∧ r₀.owner = r.owner) ∨
      ∃ f ∈ o.fs.fdtable.entries, f.inode = i ∧ (r.namespace_ ≠ .posix → r.owner = f.fd) ∧
        (r.namespace_ = .posix →
          (f.fd, r.owner) ∈ (Call.op user clock operation).lockers o.fs)) :
    (o.exec (.op user clock operation)).Held := by
  have hstays : ∀ f ∈ o.fs.fdtable.entries,
      f ∈ ((Call.op user clock operation).exec o.fs).fdtable.entries :=
    fun f hf => Call.stays_open h.below hf hclose
  refine ⟨?_, fun i r hr hns => ?_, fun i r hr hns => ?_⟩
  · obtain ⟨l, -, he⟩ := (Call.op user clock operation).effect o.fs
    exact he.below h.below
  · rcases hrecords i r hr with ⟨r₀, hr₀, hns₀, howner⟩ | ⟨f, hf, hfi, howner, -⟩
    · obtain ⟨f, hf, hfi, hfowner⟩ := h.byFd i r₀ hr₀ (hns₀ ▸ hns)
      exact ⟨f, hstays f hf, hfi, howner ▸ hfowner⟩
    · exact ⟨f, hstays f hf, hfi, howner hns⟩
  · rcases hrecords i r hr with ⟨r₀, hr₀, hns₀, howner⟩ | ⟨f, hf, hfi, -, hlocker⟩
    · obtain ⟨f, hf, hfi, hlocker⟩ := h.byPid i r₀ hr₀ (hns₀.trans hns)
      exact ⟨f, hstays f hf, hfi, List.mem_append_right _ (howner ▸ hlocker)⟩
    · exact ⟨f, hstays f hf, hfi, List.mem_append_left _ (hlocker hns)⟩

/-- The locks after a close. -/
lemma records_closeFd {fd : ℕ} {f : FdEntry} (hf : s.fdtable.entries.find? fd = some f) (i : ℕ) :
    ((Call.op user clock (.closeFd fd)).exec s).locks.records i
      = if i = f.inode then (s.locks.records i).filter fun r => !LockManager.releasedBy fd 0 r
        else s.locks.records i := by
  have hclosed : ((Call.op user clock (.closeFd fd)).exec s).locks
      = s.locks.onFdClose f.inode fd 0 := by
    obtain rfl : f.fd = fd := (KeyTable.find?_eq_some.mp hf).2
    rw [← actAs_fdtable s user] at hf
    rw [exec_op, asUser_locks, Op.run, answer_apply, closeFd_frames_closed aside_locks hf, closed,
      actAs_locks]
  rw [hclosed, LockManager.records_onFdClose]

lemma fdtable_closeFd (fd : ℕ) :
    ((Call.op user clock (.closeFd fd)).exec s).fdtable = (s.fdtable.close fd).2 := by
  have hfds : ((Call.op user clock (.closeFd fd)).exec s).fdtable
      = ((Op.closeFd fd).run clock (s.actAs user)).state.fdtable := by
    cases user <;> rfl
  rw [hfds, Op.run, answer_apply, closeFd_fdtable, actAs_fdtable]

lemma releasedBy_eq_false {fd : ℕ} {r : Record} : LockManager.releasedBy fd 0 r = false ↔
    (r.namespace_ = .posix → r.owner ≠ 0) ∧ (r.namespace_ ≠ .posix → r.owner ≠ fd) := by
  unfold LockManager.releasedBy
  cases r.namespace_ <;> simp

/-- A close takes the locks of its descriptor away, and those of no process but 0. -/
lemma mem_records_closeFd {fd i : ℕ} {f : FdEntry} (hf : s.fdtable.entries.find? fd = some f)
    {r : Record} : r ∈ ((Call.op user clock (.closeFd fd)).exec s).locks.records i ↔
      r ∈ s.locks.records i ∧ (i = f.inode →
        (r.namespace_ = .posix → r.owner ≠ 0) ∧ (r.namespace_ ≠ .posix → r.owner ≠ fd)) := by
  rw [records_closeFd hf]
  split_ifs with hi
  · rw [List.mem_filter, Bool.not_eq_true', releasedBy_eq_false]
    simp only [hi, true_implies]
  · simp only [hi, false_implies, and_true]

lemma Held.closeFd (h : o.Held) {fd : ℕ} {f : FdEntry}
    (hf : o.fs.fdtable.entries.find? fd = some f)
    (hok : o.Unlocked (.op user clock (.closeFd fd))) :
    (o.exec (.op user clock (.closeFd fd))).Held := by
  obtain ⟨hfmem, hffd⟩ := KeyTable.find?_eq_some.mp hf
  -- what belongs to another descriptor stays
  have hothers : ∀ g ∈ o.fs.fdtable.entries, g.fd ≠ fd →
      g ∈ ((Call.op user clock (.closeFd fd)).exec o.fs).fdtable.entries := by
    intro g hg hne
    rw [fdtable_closeFd]
    exact FdTable.mem_close.mpr ⟨hg, hne⟩
  refine ⟨?_, fun i r hr hns => ?_, fun i r hr hns => ?_⟩
  · obtain ⟨l, -, he⟩ := (Call.op user clock (.closeFd fd)).effect o.fs
    exact he.below h.below
  · obtain ⟨hr₀, hkept⟩ := (mem_records_closeFd hf).mp hr
    obtain ⟨g, hg, hgi, howner⟩ := h.byFd i r hr₀ hns
    refine ⟨g, hothers g hg fun hgfd => ?_, hgi, howner⟩
    obtain rfl : g = f := KeyTable.eq_of_key hg hfmem (hgfd.trans hffd.symm)
    refine (hkept hgi.symm).2 hns ?_
    rw [howner, hgfd]
  · obtain ⟨hr₀, hkept⟩ := (mem_records_closeFd hf).mp hr
    obtain ⟨g, hg, hgi, hlocker⟩ := h.byPid i r hr₀ hns
    refine ⟨g, hothers g hg fun hgfd => ?_, hgi, List.mem_append_right _ hlocker⟩
    obtain rfl : g = f := KeyTable.eq_of_key hg hfmem (hgfd.trans hffd.symm)
    have hzero := (hkept hgi.symm).1 hns
    exact hok g hf r.owner hzero (hgfd ▸ hlocker) r (hgi ▸ hr₀) hns rfl

lemma Held.congr {o' : Observed} (h : o.Held) (hfds : o'.fs.fdtable = o.fs.fdtable)
    (hlocks : o'.fs.locks = o.fs.locks) (hlockers : ∀ p ∈ o.lockers, p ∈ o'.lockers) : o'.Held := by
  refine ⟨?_, ?_, ?_⟩
  · rw [hfds]
    exact h.below
  · rw [hlocks, hfds]
    exact h.byFd
  · rw [hlocks, hfds]
    intro i r hr hns
    obtain ⟨f, hf, hfi, hlocker⟩ := h.byPid i r hr hns
    exact ⟨f, hf, hfi, hlockers _ hlocker⟩

lemma Held.closeFd_unknown (h : o.Held) {fd : ℕ} (hf : o.fs.fdtable.entries.find? fd = none) :
    (o.exec (.op user clock (.closeFd fd))).Held := by
  have hlocks : ((Call.op user clock (.closeFd fd)).exec o.fs).locks = o.fs.locks := by
    rw [← actAs_fdtable o.fs user] at hf
    rw [exec_op, asUser_locks, Op.run, answer_apply, Filesystem.closeFd_unknown hf, actAs_locks]
  have hfds : ((Call.op user clock (.closeFd fd)).exec o.fs).fdtable = o.fs.fdtable := by
    rw [fdtable_closeFd, FdTable.close, hf]
  exact h.congr hfds hlocks fun _ hp => List.mem_append_right _ hp

lemma Held.exec (h : o.Held) {call : Call} (hok : o.Unlocked call) : (o.exec call).Held := by
  cases call with
  | reopen readonly uid gid =>
    exact ⟨fun f hf => absurd hf (KeyTable.not_mem_empty f), fun i r hr => absurd hr List.not_mem_nil,
      fun i r hr => absurd hr List.not_mem_nil⟩
  | op user clock operation =>
    by_cases htouches : operation.TouchesLocks
    · cases operation with
      | closeFd fd =>
        cases hf : o.fs.fdtable.entries.find? fd with
        | some f => exact h.closeFd hf hok
        | none => exact h.closeFd_unknown hf
      | posixLock fd pid op start length wait =>
        refine h.of_records (fun _ hc => nomatch hc) fun i r hr => ?_
        refine (Call.mem_locks rfl hr).imp_right ?_
        rintro ⟨f, hf, hfi, hns, howner, hop, hok⟩
        obtain ⟨hfmem, hffd⟩ := KeyTable.find?_eq_some.mp hf
        refine ⟨f, hfmem, hfi, fun hne => absurd hns hne, fun _ => ?_⟩
        unfold Call.lockers
        rw [hok]
        dsimp only
        rw [if_neg hop, List.mem_singleton, howner, ← hffd]
        rfl
      | ofdLock fd op start length wait =>
        refine h.of_records (fun _ hc => nomatch hc) fun i r hr => ?_
        refine (Call.mem_locks rfl hr).imp_right ?_
        rintro ⟨f, hf, hfi, hns, howner, -, -⟩
        obtain ⟨hfmem, rfl⟩ := KeyTable.find?_eq_some.mp hf
        exact ⟨f, hfmem, hfi, fun _ => howner, fun hposix => nomatch hns.symm.trans hposix⟩
      | flock fd op wait =>
        refine h.of_records (fun _ hc => nomatch hc) fun i r hr => ?_
        refine (Call.mem_locks rfl hr).imp_right ?_
        rintro ⟨f, hf, hfi, hns, howner, -, -⟩
        obtain ⟨hfmem, rfl⟩ := KeyTable.find?_eq_some.mp hf
        exact ⟨f, hfmem, hfi, fun _ => howner, fun hposix => nomatch hns.symm.trans hposix⟩
      | _ => exact htouches.elim
    · refine h.of_records ?_ fun i r hr => ?_
      · rintro fd rfl
        exact htouches trivial
      · rw [Call.locks_eq htouches] at hr
        exact Or.inl ⟨r, hr, rfl, rfl⟩

lemma held_of_run (h : ObservedRun o) : o.Held := by
  refine Run.invariant ?_ (fun o call _ hok ho => ho.exec hok) h
  rintro o ⟨⟨chunkSize, ownerUid, ownerGid, now, readonly, uid, gid, hfs⟩, -⟩
  refine ⟨fun f hf => ?_, fun i r hr => ?_, fun i r hr => ?_⟩
  · rw [hfs] at hf
    exact absurd hf (KeyTable.not_mem_empty f)
  · rw [hfs] at hr
    exact absurd hr List.not_mem_nil
  · rw [hfs] at hr
    exact absurd hr List.not_mem_nil

/-- Where nothing is open, nothing is locked. -/
lemma Held.records_eq_nil (h : o.Held) {i : ℕ} (hopen : o.fs.fdtable.openCount i = 0) :
    o.fs.locks.records i = [] := by
  refine List.eq_nil_iff_forall_not_mem.mpr fun r hr => ?_
  by_cases hns : r.namespace_ = .posix
  · obtain ⟨f, hf, hfi, -⟩ := h.byPid i r hr hns
    exact FdTable.openCount_eq_zero.mp hopen f hf hfi
  · obtain ⟨f, hf, hfi, -⟩ := h.byFd i r hr hns
    exact FdTable.openCount_eq_zero.mp hopen f hf hfi

lemma Held.releases (h : o.Held) {fd : ℕ} {f : FdEntry}
    (hf : o.fs.fdtable.entries.find? fd = some f)
    (hok : o.Unlocked (.op user clock (.closeFd fd))) :
    o.Releases fd f.inode ((Call.op user clock (.closeFd fd)).exec o.fs) := by
  refine ⟨fun i r hr hns howner => ?_, fun pid hlocker r hr hns howner => ?_, fun hlast => ?_⟩
  · obtain ⟨hr₀, hkept⟩ := (mem_records_closeFd hf).mp hr
    obtain ⟨g, hg, hgi, hgowner⟩ := h.byFd i r hr₀ hns
    have hgfd : g.fd = fd := Int.ofNat_inj.mp (hgowner.symm.trans howner)
    obtain ⟨hfmem, hffd⟩ := KeyTable.find?_eq_some.mp hf
    obtain rfl : g = f := KeyTable.eq_of_key hg hfmem (hgfd.trans hffd.symm)
    exact (hkept hgi.symm).2 hns howner
  · obtain ⟨hr₀, hkept⟩ := (mem_records_closeFd hf).mp hr
    have hzero : pid ≠ 0 := howner ▸ (hkept rfl).1 hns
    exact hok f hf pid hzero hlocker r hr₀ hns howner
  · have hclosed : (o.exec (.op user clock (.closeFd fd))).Held := h.closeFd hf hok
    have hnil : ((Call.op user clock (.closeFd fd)).exec o.fs).locks.records f.inode = [] :=
      hclosed.records_eq_nil hlast
    exact ⟨hnil, fun _ _ _ _ _ => LockManager.namespaceLock_of_nil hnil _⟩

lemma unlocked_of_releases {fd : ℕ} {f : FdEntry} (hf : o.fs.fdtable.entries.find? fd = some f)
    (h : o.Releases fd f.inode ((Call.op user clock (.closeFd fd)).exec o.fs)) :
    o.Unlocked (.op user clock (.closeFd fd)) := by
  intro g hg pid hzero hlocker r hr hns howner
  obtain rfl : g = f := Option.some.inj (hg.symm.trans hf)
  refine h.byPid pid hlocker r ((mem_records_closeFd hf).mpr ⟨hr, fun _ => ⟨fun _ => ?_, ?_⟩⟩) hns
    howner
  · rw [howner]
    exact hzero
  · exact fun hne => absurd hns hne

end Observed

/-- Along every run in which processes have released their locks when a descriptor is closed that
they locked through, locks live no longer than descriptors; and a close releases what it should if
and only if that is so. -/
theorem locks_released {o : Observed} (h : ObservedRun o) :
    (∀ i, o.fs.fdtable.openCount i = 0 → o.fs.locks.records i = []) ∧
      ∀ user clock fd f, o.fs.fdtable.entries.find? fd = some f →
        (o.Releases fd f.inode ((Call.op user clock (.closeFd fd)).exec o.fs) ↔
          o.Unlocked (.op user clock (.closeFd fd))) := by
  have hheld := Observed.held_of_run h
  exact ⟨fun _ => hheld.records_eq_nil, fun _ _ _ _ hf =>
    ⟨Observed.unlocked_of_releases hf, hheld.releases hf⟩⟩

/-- The state that an observer sees after some operations of root's. -/
def observedAfter (operations : List Op) : Observed :=
  Run.after Observed.exec (operations.map Call.byRoot) ⟨newFs, []⟩

/-- A file that process 100 has locked. -/
def lockedFile : Observed :=
  observedAfter [.create ['/', 'a'] Libc.O_RDWR 0o644, .posixLock 1 100 .exclusive 0 0 false]

lemma observedRun_lockedFile : ObservedRun lockedFile := by
  have hnew : ObservedRun ⟨newFs, []⟩ := .start ⟨fresh_newFs, rfl⟩
  have hcreate : ObservedRun (observedAfter [.create ['/', 'a'] Libc.O_RDWR 0o644]) :=
    hnew.next (i := Call.byRoot (.create ['/', 'a'] Libc.O_RDWR 0o644)) trivial
  exact .next (i := Call.byRoot (.posixLock 1 100 .exclusive 0 0 false)) hcreate trivial

theorem locks_released_lockedFile :
    (∀ i, lockedFile.fs.fdtable.openCount i = 0 → lockedFile.fs.locks.records i = []) ∧
      ∀ user clock fd f, lockedFile.fs.fdtable.entries.find? fd = some f →
        (lockedFile.Releases fd f.inode ((Call.op user clock (.closeFd fd)).exec lockedFile.fs) ↔
          lockedFile.Unlocked (.op user clock (.closeFd fd))) :=
  locks_released observedRun_lockedFile

/-- The lock of process 100 stays when the only descriptor is closed. -/
theorem not_released_lockedFile : ObservedRun lockedFile ∧
    ¬ lockedFile.Releases 1 2 ((Call.byRoot (.closeFd 1)).exec lockedFile.fs) := by
  refine ⟨observedRun_lockedFile, fun h => ?_⟩
  have hclosed : ((Call.byRoot (.closeFd 1)).exec lockedFile.fs).fdtable.openCount 2 = 0 := by
    decide +kernel
  have hrecords : ((Call.byRoot (.closeFd 1)).exec lockedFile.fs).locks.records 2
      = [⟨.posix, .exclusive, 100, 0, 0⟩] := by decide +kernel
  rw [(h.last hclosed).1] at hrecords
  cases hrecords

end Filesystem

end SqliteFs

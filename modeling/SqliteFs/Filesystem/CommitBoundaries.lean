import SqliteFs.Filesystem.Unlink

/-!
# Commit boundaries

A crash inside a call shows the database before the call or after it, with two exceptions:
`unlink` deletes the node of a last name by a second commit, and the two operations that change
extended attributes commit the ctime separately.
-/

namespace SqliteFs

open Txn

namespace Filesystem

variable {s : Filesystem} {user : Option (UInt32 × UInt32)} {clock : Clock}

/-- Every database that a crash inside the call can leave is the one before the call or the one
after it. -/
def Call.Atomic (s : Filesystem) (call : Call) : Prop :=
  ∀ d ∈ (call.outcome s).commits, d = s.conn ∨ d = (call.exec s).conn

/-- The operation makes its change in two steps: an `unlink` of the last name of a file that nothing
has open, and a change of an extended attribute that is followed by a change of the ctime. -/
def Splits (s : Filesystem) (clock : Clock) : Op → Prop
  | .unlink path => ∃ e row, MayUnlink s path e row ∧ s.fdtable.openCount e.inode = 0 ∧
      s.conn.names e.inode = 1
  | .setxattr path name value flags => ∃ ino row, MaySetxattr s path name value flags ino row ∧
      Xattrs.get s.conn ino name ≠ .ok value ∧ row.ctimeNs ≠ clock.now
  | .removexattr path name => ∃ ino row, MayRemovexattr s path name ino row ∧
      row.ctimeNs ≠ clock.now
  | _ => False

section Atomic
variable {path name : Str} {value data : Bytes} {flags : Xattrs.XattrFlags} {fd offset : ℕ}

/-- What a crash inside `p` can show. -/
def ActionAtomic {α : Type} (s : Filesystem) (p : Action α) : Prop :=
  ∀ d ∈ (p s).commits, d = s.conn ∨ d = (p s).state.conn

lemma atomic_op_iff {α : Type} {operation : Op} {f : α → Reply} {p : Action α}
    (hp : operation.run clock = answer f p) :
    (Call.op user clock operation).Atomic s ↔ ActionAtomic (s.actAs user) p := by
  unfold Call.Atomic ActionAtomic
  rw [outcome_op, exec_op, asUser_commits, asUser_conn, hp, answer_apply, actAs_conn]

lemma atomic_of_oneStep {operation : Op} (hone : operation.OneStep) :
    (Call.op user clock operation).Atomic s := by
  unfold Call.Atomic
  rw [outcome_op, exec_op, asUser_commits, asUser_conn]
  rcases operation.settles (s.actAs user) clock hone with ⟨x, hx⟩ | h
  · rw [hx]
    exact fun d hd => absurd hd List.not_mem_nil
  · exact fun d hd => Or.inr (h.commits d hd)

lemma atomic_of_refuses {α : Type} {p : Action α} (h : ∃ x, p s = ⟨.error x, s, []⟩) :
    ActionAtomic s p := by
  obtain ⟨x, hx⟩ := h
  intro d hd
  rw [hx] at hd
  exact absurd hd List.not_mem_nil

lemma atomic_of_commits {α : Type} {p : Action α} {d : Db} (hc : (p s).commits = [d])
    (hs : (p s).state.conn = d) : ActionAtomic s p := by
  intro d' hd'
  rw [hc, List.mem_singleton] at hd'
  rw [hd', hs]
  exact Or.inr rfl

lemma writeFd_atomic : ActionAtomic s (writeFd clock fd offset data) := by
  rcases writeFd_outcome with hrefuses | ⟨f, d, -, -, hcommits, hcore, -⟩
  · exact atomic_of_refuses hrefuses
  · exact atomic_of_commits hcommits (congrArg Core.conn hcore)

lemma collect_atomic {n i : ℕ} : ActionAtomic s (collect n i) := by
  by_cases hz : n = 0 ∧ s.fdtable.openCount i = 0
  · obtain ⟨hn, ho⟩ := hz
    have hfailed : s.connReadonly = true ∨ (∃ e, s.conn.deleteNode i = .error e) →
        ActionAtomic s (collect n i) := by
      intro h
      obtain ⟨e, he⟩ := collect_failed hn ho h
      exact atomic_of_refuses ⟨_, he⟩
    cases hc : s.connReadonly with
    | true => exact hfailed (Or.inl hc)
    | false =>
      cases hd : s.conn.deleteNode i with
      | error e => exact hfailed (Or.inr ⟨e, hd⟩)
      | ok d =>
        have hrun := collect_removed hc hn ho hd
        exact atomic_of_commits (d := d) (by rw [hrun]) (by rw [hrun])
  · intro d hd
    rw [collect_kept hz] at hd
    exact absurd hd List.not_mem_nil

lemma closeFd_atomic : ActionAtomic s (closeFd fd) := by
  cases hf : s.fdtable.entries.find? fd with
  | none => exact atomic_of_refuses ⟨_, closeFd_unknown hf⟩
  | some e =>
    unfold ActionAtomic
    rw [closeFd_open hf]
    cases hrow : Nodes.get s.conn e.inode with
    | error x =>
      have hrun : (getNode e.inode >>= fun row => collect row.nlink e.inode) (closed s e)
          = ⟨.error x, closed s e, []⟩ := Prog.query_bind_error hrow
      rw [hrun]
      exact fun d hd => absurd hd List.not_mem_nil
    | ok row =>
      have hrun : (getNode e.inode >>= fun row => collect row.nlink e.inode) (closed s e)
          = collect row.nlink e.inode (closed s e) := getNode_bind hrow
      rw [hrun]
      exact collect_atomic (s := closed s e)

lemma unlink_atomic_iff (h : s.core.Counted (· ≠ .dir)) :
    ActionAtomic s (unlink clock path) ↔ ¬ Splits s clock (.unlink path) := by
  by_cases hmay : ∃ e row, MayUnlink s path e row
  · obtain ⟨e, row, hmay⟩ := hmay
    have hrun := unlink_unlinks clock h hmay
    unfold ActionAtomic
    cases ho : unlink clock path s with
    | mk r s' l =>
    rw [ho] at hrun
    cases hrun with
    | keeps hdrops hkeeps =>
      refine iff_of_true (fun d hd => Or.inr (List.mem_singleton.mp hd)) ?_
      rintro ⟨e', row', hmay', hopen, hnames⟩
      obtain rfl := hmay.unique hmay'
      exact hkeeps ⟨by omega, hopen⟩
    | @deletes d d' n hdrops hrem hone hopen =>
      refine iff_of_false (fun hatomic => ?_) (not_not.mpr ⟨e, row, hmay, hopen, hone⟩)
      rcases hatomic d List.mem_cons_self with hbefore | hafter
      · exact drops_ne hdrops hbefore
      · have hinfo := hrem.info e.inode
        rw [if_pos rfl] at hinfo
        obtain ⟨m, hm⟩ := Db.hasNode_iff.mp hdrops.hasNode
        have heq : d = d' := hafter
        rw [heq, hinfo] at hm
        cases hm
    | fails hdrops hnames hnot hopen =>
      refine iff_of_true (fun d hd => Or.inr (List.mem_singleton.mp hd)) ?_
      rintro ⟨e', row', hmay', -, hone⟩
      obtain rfl := hmay.unique hmay'
      exact hnot hone
  · refine iff_of_true (atomic_of_refuses (unlink_may.resolve_right hmay)) ?_
    rintro ⟨e, row, h, -⟩
    exact hmay ⟨e, row, h⟩

/-- A change and then the ctime: atomic if one of the two changes nothing. -/
lemma stamped_atomic_iff {d : Db} {ino : ℕ} {row : NodeRow} (hnodes : d.nodes = s.conn.nodes)
    (hrow : Nodes.get s.conn ino = .ok row) :
    (∀ x ∈ [d, stamp clock ino d], x = s.conn ∨ x = stamp clock ino d) ↔
      d = s.conn ∨ row.ctimeNs = clock.now := by
  obtain ⟨r, hr, rfl⟩ := Nodes.get_eq_ok.mp hrow
  have hstamp : stamp clock ino d = d ↔ r.ctimeNs = clock.now :=
    stamp_eq_self_iff (by rw [hnodes, hr])
  constructor
  · intro h
    rcases h d List.mem_cons_self with hsame | hsame
    · exact Or.inl hsame
    · exact Or.inr (hstamp.mp hsame.symm)
  · intro h x hx
    rcases List.mem_cons.mp hx with rfl | hx
    · exact h.imp_right fun htime => (hstamp.mpr htime).symm
    · exact Or.inr (List.mem_singleton.mp hx)

lemma MaySetxattr.unique {ino ino' : ℕ} {row row' : NodeRow}
    (h : MaySetxattr s path name value flags ino row)
    (h' : MaySetxattr s path name value flags ino' row') : ino' = ino ∧ row' = row := by
  obtain rfl := Except.ok.inj (h.resolved.symm.trans h'.resolved)
  exact ⟨rfl, Except.ok.inj (h'.node.symm.trans h.node)⟩

lemma MayRemovexattr.unique {ino ino' : ℕ} {row row' : NodeRow}
    (h : MayRemovexattr s path name ino row) (h' : MayRemovexattr s path name ino' row') :
    ino' = ino ∧ row' = row := by
  obtain rfl := Except.ok.inj (h.resolved.symm.trans h'.resolved)
  exact ⟨rfl, Except.ok.inj (h'.node.symm.trans h.node)⟩

lemma setxattr_atomic_iff : ActionAtomic s (setxattr clock path name value flags) ↔
    ¬ Splits s clock (.setxattr path name value flags) := by
  by_cases hmay : ∃ ino row, MaySetxattr s path name value flags ino row
  · obtain ⟨ino, row, hmay⟩ := hmay
    obtain ⟨d, hset, hrun⟩ := setxattr_run clock hmay
    obtain ⟨hnodes, hvalue⟩ := Xattrs.set_spec hset
    have hsame : d = s.conn ↔ Xattrs.get s.conn ino name = .ok value := by
      refine ⟨fun hd => hd ▸ hvalue, fun hget => Xattrs.set_same hget hset⟩
    have hsplits : Splits s clock (.setxattr path name value flags) ↔
        Xattrs.get s.conn ino name ≠ .ok value ∧ row.ctimeNs ≠ clock.now := by
      refine ⟨?_, fun h => ⟨ino, row, hmay, h⟩⟩
      rintro ⟨ino', row', hmay', h⟩
      obtain ⟨rfl, rfl⟩ := hmay.unique hmay'
      exact h
    unfold ActionAtomic
    rw [hrun, hsplits, not_and_or, not_not, not_not, ← hsame]
    exact stamped_atomic_iff hnodes hmay.node
  · refine iff_of_true (atomic_of_refuses (setxattr_may.resolve_right hmay)) ?_
    rintro ⟨ino, row, h, -⟩
    exact hmay ⟨ino, row, h⟩

lemma removexattr_atomic_iff : ActionAtomic s (removexattr clock path name) ↔
    ¬ Splits s clock (.removexattr path name) := by
  by_cases hmay : ∃ ino row, MayRemovexattr s path name ino row
  · obtain ⟨ino, row, hmay⟩ := hmay
    have hchanged : s.conn.deleteXattr ino name ≠ s.conn := by
      intro heq
      have hset := hmay.isSet
      rw [← heq, Db.deleteXattr] at hset
      obtain ⟨r, hr, hkey⟩ := KeyTable.find?_isSome.mp hset
      have hgone := (KeyTable.mem_deleteWhere.mp hr).2
      rw [decide_eq_false_iff_not] at hgone
      rw [key_xattrsRow, Prod.mk.injEq] at hkey
      exact hgone hkey
    have hsplits : Splits s clock (.removexattr path name) ↔ row.ctimeNs ≠ clock.now := by
      refine ⟨?_, fun h => ⟨ino, row, hmay, h⟩⟩
      rintro ⟨ino', row', hmay', h⟩
      obtain ⟨rfl, rfl⟩ := hmay.unique hmay'
      exact h
    unfold ActionAtomic
    rw [removexattr_run hmay, hsplits, not_not]
    refine (stamped_atomic_iff (d := s.conn.deleteXattr ino name) rfl hmay.node).trans ?_
    exact or_iff_right hchanged
  · refine iff_of_true (atomic_of_refuses (removexattr_may.resolve_right hmay)) ?_
    rintro ⟨ino, row, h, -⟩
    exact hmay ⟨ino, row, h⟩

end Atomic

/-- In every reachable state, a crash inside a call shows the database before or after the call,
unless the call makes its change in two steps. -/
theorem call_atomic_iff (h : Reachable s) (operation : Op) :
    (Call.op user clock operation).Atomic s ↔ ¬ Splits (s.actAs user) clock operation := by
  have hcounted : (s.actAs user).core.Counted (· ≠ .dir) := by
    rw [actAs_core]
    exact files_counted h
  cases operation with
  | writeFd fd offset data => exact iff_of_true ((atomic_op_iff rfl).mpr writeFd_atomic) id
  | closeFd fd => exact iff_of_true ((atomic_op_iff rfl).mpr closeFd_atomic) id
  | unlink path => exact (atomic_op_iff rfl).trans (unlink_atomic_iff hcounted)
  | setxattr path name value flags => exact (atomic_op_iff rfl).trans setxattr_atomic_iff
  | removexattr path name => exact (atomic_op_iff rfl).trans removexattr_atomic_iff
  | _ => exact iff_of_true (atomic_of_oneStep trivial) id

/-- A closed file with one name. -/
def closedFile : Filesystem := newFsAfter [.create ['/', 'f'] Libc.O_RDWR 0o644, .closeFd 1]

theorem call_atomic_iff_closedFile :
    (Call.op none ⟨1, 1⟩ (.unlink ['/', 'f'])).Atomic closedFile ↔
      ¬ Splits (closedFile.actAs none) ⟨1, 1⟩ (.unlink ['/', 'f']) :=
  call_atomic_iff (reachable_newFsAfter _) _

/-- Between its two commits, `unlink` shows a database that has neither the name nor is done. -/
theorem not_atomic_closedFile :
    Reachable closedFile ∧ ¬ (Call.op none ⟨1, 1⟩ (.unlink ['/', 'f'])).Atomic closedFile := by
  refine ⟨reachable_newFsAfter _, fun h => ?_⟩
  have hmid : ∃ d ∈ ((Call.op none ⟨1, 1⟩ (.unlink ['/', 'f'])).outcome closedFile).commits,
      d ≠ closedFile.conn ∧
        d ≠ ((Call.op none ⟨1, 1⟩ (.unlink ['/', 'f'])).exec closedFile).conn := by
    decide +kernel
  obtain ⟨d, hd, hbefore, hafter⟩ := hmid
  exact (h d hd).elim hbefore hafter

end Filesystem

end SqliteFs

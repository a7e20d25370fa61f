import SqliteFs.Filesystem.ManyLinks

/-!
# Failing calls

A call that fails leaves no trace, with one exception: `unlink` fails after its first commit if the
link count that it reads has wrapped around to zero while other names are left.
-/

namespace SqliteFs

open Txn

namespace Filesystem

variable {s : Filesystem} {user : Option (UInt32 × UInt32)} {clock : Clock}

/-- `unlink` gets past its checks, nothing has the file open, and it has more names than one, but
as many less one as the 32 bits of the count that is read cannot tell from none. -/
def WrapsAround (s : Filesystem) : Op → Prop
  | .unlink path => ∃ e row, MayUnlink s path e row ∧ s.fdtable.openCount e.inode = 0 ∧
      s.conn.names e.inode % 2 ^ 32 = 1 ∧ s.conn.names e.inode ≠ 1
  | _ => False

/-- The call fails without a trace if it fails. -/
def Call.Clean (s : Filesystem) (call : Call) : Prop :=
  ∀ e, (call.outcome s).result = .error (.error e) → call.exec s = s

/-- The outcome is not `Err`. -/
def NotErr {α : Type} (o : Outcome Filesystem Db Halt α) : Prop := ∀ e, o.result ≠ .error (.error e)

lemma notErr_of_ok {α : Type} {o : Outcome Filesystem Db Halt α} (h : ∃ a, o.result = .ok a) :
    NotErr o := by
  obtain ⟨a, ha⟩ := h
  intro e he
  rw [ha] at he
  cases he

lemma notErr_answer {α : Type} {f : α → Reply} {p : Action α} (h : Prog.RefusesOr p s NotErr) :
    Prog.RefusesOr (answer f p) s NotErr := by
  unfold Prog.RefusesOr
  rw [answer_apply]
  rcases h with ⟨x, hx⟩ | h
  · rw [hx]
    exact Or.inl ⟨x, rfl⟩
  · refine Or.inr fun e he => ?_
    cases hr : (p s).result with
    | ok a =>
      rw [hr] at he
      cases he
    | error x =>
      rw [hr] at he
      cases he
      exact h e hr

lemma clean_of_refusesOr {operation : Op}
    (h : Prog.RefusesOr (operation.run clock) (s.actAs user) NotErr) :
    (Call.op user clock operation).Clean s := by
  intro e he
  rcases h with ⟨x, hx⟩ | h
  · rw [exec_op, asUser_refuses hx]
  · rw [outcome_op, asUser_result] at he
    exact absurd he (h e)

section NotErr
variable {path name : Str} {value data : Bytes} {flags : Xattrs.XattrFlags} {fd offset : ℕ}

lemma writeFd_notErr : Prog.RefusesOr (writeFd clock fd offset data) s NotErr := by
  refine writeFd_outcome.mono ?_
  rintro o ⟨f, d, -, -, -, -, hok | ⟨hdiverge, -⟩⟩
  · exact notErr_of_ok hok
  · intro e he
    rw [hdiverge] at he
    cases he

lemma setxattr_notErr : Prog.RefusesOr (setxattr clock path name value flags) s NotErr := by
  rcases setxattr_may with hrefuses | ⟨ino, row, hmay⟩
  · exact Or.inl hrefuses
  · obtain ⟨d, -, hrun⟩ := setxattr_run clock hmay
    refine .of_run (notErr_of_ok ⟨⟨⟩, ?_⟩)
    rw [hrun]

lemma removexattr_notErr : Prog.RefusesOr (removexattr clock path name) s NotErr := by
  rcases removexattr_may with hrefuses | ⟨ino, row, hmay⟩
  · exact Or.inl hrefuses
  · refine .of_run (notErr_of_ok ⟨⟨⟩, ?_⟩)
    rw [removexattr_run hmay]

end NotErr

/-- Every operation but `unlink` and `closeFd` fails without a trace. -/
lemma Op.notErr {operation : Op} (hclose : ∀ fd, operation ≠ .closeFd fd)
    (hunlink : ∀ path, operation ≠ .unlink path) :
    Prog.RefusesOr (operation.run clock) s NotErr := by
  by_cases hone : operation.OneStep
  · exact (operation.settles s clock hone).mono fun o h => notErr_of_ok h.returns
  cases operation with
  | writeFd fd offset data => exact notErr_answer writeFd_notErr
  | closeFd fd => exact absurd rfl (hclose fd)
  | unlink path => exact absurd rfl (hunlink path)
  | setxattr path name value flags => exact notErr_answer setxattr_notErr
  | removexattr path name => exact notErr_answer removexattr_notErr
  | _ => exact absurd trivial hone

lemma unlink_clean_iff (h : s.core.Counted (· ≠ .dir)) {path : Str} :
    (Call.op user clock (.unlink path)).Clean s ↔ ¬ WrapsAround (s.actAs user) (.unlink path) := by
  have hcounted : (s.actAs user).core.Counted (· ≠ .dir) := by
    rw [actAs_core]
    exact h
  by_cases hmay : ∃ e row, MayUnlink (s.actAs user) path e row
  · obtain ⟨e, row, hmay⟩ := hmay
    have hrun := unlink_unlinks clock hcounted hmay
    have hresult : ((Call.op user clock (.unlink path)).outcome s).result
        = (unlink clock path (s.actAs user)).result.map fun _ => .unit := by
      rw [outcome_op, asUser_result, Op.run, answer_apply]
    cases ho : unlink clock path (s.actAs user) with
    | mk r s' l =>
    rw [ho] at hrun hresult
    cases hrun with
    | keeps hdrops hkeeps =>
      refine iff_of_true (fun e he => ?_) ?_
      · rw [hresult] at he
        cases he
      · rintro ⟨e', row', hmay', hopen, hnames, -⟩
        obtain rfl := hmay.unique hmay'
        exact hkeeps ⟨hnames, hopen⟩
    | deletes hdrops hrem hone hopen =>
      refine iff_of_true (fun e he => ?_) ?_
      · rw [hresult] at he
        cases he
      · rintro ⟨e', row', hmay', -, -, hnot⟩
        obtain rfl := hmay.unique hmay'
        exact hnot hone
    | fails hdrops hnames hnot hopen =>
      refine iff_of_false (fun hclean => ?_) (not_not.mpr ⟨e, row, hmay, hopen, hnames, hnot⟩)
      have hexec := hclean _ hresult
      have hconn := congrArg Filesystem.conn hexec
      rw [exec_op, asUser_conn, Op.run, answer_apply, ho] at hconn
      refine drops_ne hdrops ?_
      rw [actAs_conn]
      exact hconn
  · have hrefuses : Prog.RefusesOr (unlink clock path) (s.actAs user) NotErr :=
      Or.inl (unlink_may.resolve_right hmay)
    refine iff_of_true (clean_of_refusesOr (notErr_answer hrefuses)) ?_
    rintro ⟨e, row, h, -⟩
    exact hmay ⟨e, row, h⟩

/-- In every reachable state, a call other than `closeFd` that fails leaves no trace, unless it is an
`unlink` for which the count wraps around: that one fails, and the name is gone. -/
theorem failed_call_clean_iff (h : Reachable s) {operation : Op}
    (hop : ∀ fd, operation ≠ .closeFd fd) :
    (Call.op user clock operation).Clean s ↔ ¬ WrapsAround (s.actAs user) operation := by
  cases operation with
  | unlink path => exact unlink_clean_iff (files_counted h)
  | _ => exact iff_of_true (clean_of_refusesOr (Op.notErr hop fun _ hc => nomatch hc)) id

/-- The user 5 may not take a name away from root's directory, and the count does not wrap. -/
theorem failed_call_clean_iff_manyLinks :
    (∃ e, ((Call.op (some (5, 5)) ⟨1, 1⟩ (.unlink ['/', 'f'])).outcome (manyLinks 1)).result
      = .error (.error (.permissionDenied e))) ∧
    ((Call.op (some (5, 5)) ⟨1, 1⟩ (.unlink ['/', 'f'])).Clean (manyLinks 1) ↔
      ¬ WrapsAround ((manyLinks 1).actAs (some (5, 5))) (.unlink ['/', 'f'])) ∧
    ¬ WrapsAround ((manyLinks 1).actAs (some (5, 5))) (.unlink ['/', 'f']) := by
  refine ⟨⟨[.lit "access ", .access (Access.W ||| Access.X), .lit " denied: caller=(", .num 5,
      .lit ",", .num 5, .lit "), node=(", .num 0, .lit ",", .num 0, .lit ",0o", .octal 0o755,
      .lit ")"], by decide +kernel⟩, failed_call_clean_iff (reachable_manyLinks 1) ?_, ?_⟩
  · rintro fd ⟨⟩
  · rintro ⟨e, row, hmay, -, hcount, hone⟩
    have hentries : ∀ x ∈ (manyLinks 1).conn.entries.rows, (manyLinks 1).conn.names x.inode = 2 := by
      decide +kernel
    rw [actAs_conn, hentries e (KeyTable.mem_def.mp hmay.entry)] at hcount
    exact absurd hcount (by decide)

/-- The count that `unlink` leaves reads as zero, and other names are left. -/
lemma Linked.wrapsAround {n : ℕ} (h : Linked n s) (hwrap : n % 2 ^ 32 = 0) (hpos : n ≠ 0) :
    WrapsAround s (.unlink ['/', 'f']) := by
  obtain ⟨r, hr, hrdir, hrmode⟩ := h.rootRow
  obtain ⟨f, hf, hffile⟩ := h.fileRow
  have hresolved : resolveParentAndName s.conn ['/', 'f'] = .ok (ROOT_INODE, ['f']) := by
    have hparse : parsePath ['/', 'f'] = .ok [['f']] := by decide
    unfold resolveParentAndName
    rw [hparse]
    rfl
  have haccess : MayChange s ROOT_INODE := by
    refine ⟨r.read, Nodes.get_eq_ok.mpr ⟨r, hr, rfl⟩, ?_⟩
    rw [requireAccess_eq_ok, h.byRoot]
    change checkAccess r.mode r.uid r.gid 0 s.callerGid _ = true
    rw [hrmode]
    rfl
  refine ⟨⟨ROOT_INODE, ['f'], 2⟩, f.read, ⟨h.writable, hresolved, h.name,
    Nodes.get_eq_ok.mpr ⟨f, hf, rfl⟩, ?_, haccess⟩, h.closed, ?_, ?_⟩
  · change f.kind ≠ .dir
    rw [hffile]
    decide
  · rw [h.names]
    omega
  · rw [h.names]
    omega

lemma Linked.not_clean {n : ℕ} (h : Linked n s) (hreach : Reachable s) (hwrap : n % 2 ^ 32 = 0)
    (hpos : n ≠ 0) : ¬ (Call.byRoot (.unlink ['/', 'f'])).Clean s := by
  intro hclean
  exact (unlink_clean_iff (files_counted hreach)).mp hclean (h.wrapsAround hwrap hpos)

/-- With 2³² + 1 names, `unlink` fails and takes one of them away. -/
theorem not_clean_manyLinks : Reachable (manyLinks (2 ^ 32)) ∧
    ¬ (Call.byRoot (.unlink ['/', 'f'])).Clean (manyLinks (2 ^ 32)) := by
  have hreach := reachable_manyLinks (2 ^ 32)
  have hlinked := linked_manyLinks (Nat.pow_le_pow_right (n := 2) (by decide) (by decide : 32 ≤ linkDigits))
  exact ⟨hreach, hlinked.not_clean hreach (Nat.mod_self _) (by decide)⟩

end Filesystem

end SqliteFs

import SqliteFs.Filesystem.Ownership

/-!
# Trusted attributes

Extended attributes named `trusted.…` are for root alone. `setxattr` checks that, `removexattr` does
not: it takes a trusted attribute away for every caller who may write to the node. No other call
changes the trusted attributes of a node.
-/

namespace SqliteFs

open Txn

/-- Does the name belong to root's namespace? -/
def IsTrusted (name : Str) : Prop := Xattrs.trustedPrefix.isPrefixOf name = true

/-- The node `i` has the same trusted attributes in both. -/
def Db.SameTrusted (d d' : Db) (i : ℕ) : Prop :=
  ∀ x : XattrsRow, x.inode = i → IsTrusted x.name → (x ∈ d'.xattrs ↔ x ∈ d.xattrs)

namespace Filesystem

variable {s : Filesystem} {user : Option (UInt32 × UInt32)} {clock : Clock}

/-- If the call changes the trusted attributes of a node that exists before and after it, then root
makes it. -/
def TrustedByRoot (s : Filesystem) (user : Option (UInt32 × UInt32)) (clock : Clock)
    (operation : Op) : Prop :=
  ∀ i, s.conn.hasNode i = true → ((Call.op user clock operation).exec s).conn.hasNode i = true →
    ¬ s.conn.SameTrusted ((Call.op user clock operation).exec s).conn i →
      (s.actAs user).callerUid = 0

/-- Another caller than root gets past the checks of `removexattr`, for a trusted attribute. -/
def RemovesTrusted (s : Filesystem) : Op → Prop
  | .removexattr path name => s.callerUid ≠ 0 ∧ IsTrusted name ∧
      ∃ i row, MayRemovexattr s path name i row
  | _ => False

/-- Only root passes the name check of `setxattr` with a trusted name. -/
lemma not_isTrusted_of_validateName {name : Str} {uid : UInt32}
    (h : Xattrs.validateName name uid = .ok ()) (hroot : uid ≠ 0) : ¬ IsTrusted name := by
  intro htrusted
  unfold Xattrs.validateName at h
  split_ifs at h with _ _ _ _ hprefix
  all_goals first | exact hprefix ⟨htrusted, hroot⟩ | cases h

/-- The statements that another caller than root may issue keep trusted attributes. -/
lemma sameTrusted_of_issues {operation : Op} {d₀ d d' : Db} {i : ℕ} {st : Statement}
    (hroot : s.callerUid ≠ 0) (hnot : ¬ RemovesTrusted s operation) (hissues : operation.Issues s st)
    (hst : st.Does d d') (h : d₀.SameTrusted d i) : d'.hasNode i = false ∨ d₀.SameTrusted d' i := by
  have hsetxattr : ∀ x : XattrsRow, IsTrusted x.name → st ≠ .insertXattr x ∧
      ∀ j value, st ≠ .updateXattr j x.name value := by
    intro x hx
    refine ⟨?_, fun j value => ?_⟩
    · rintro rfl
      cases operation with
      | setxattr path name value flags =>
        obtain ⟨rfl, -, hname⟩ := hissues
        exact not_isTrusted_of_validateName hname hroot hx
      | _ => exact hissues
    · rintro rfl
      cases operation with
      | setxattr path name value flags =>
        obtain ⟨rfl, -, hname⟩ := hissues
        exact not_isTrusted_of_validateName hname hroot hx
      | _ => exact hissues
  rw [or_iff_not_imp_left]
  intro hnode x hxi hx
  rw [← h x hxi hx]
  constructor
  · intro hx'
    rcases hst.mem_xattrs hx' with hmem | ⟨hins, -⟩ | ⟨hupd, -⟩
    · exact hmem
    · exact absurd hins (hsetxattr x hx).1
    · exact absurd hupd ((hsetxattr x hx).2 _ _)
  · intro hmem
    rcases hst.mem_xattrs_of_mem hmem with hx' | ⟨value, hupd⟩ | hdel | ⟨-, hgone⟩
    · exact hx'
    · exact absurd hupd ((hsetxattr x hx).2 _ _)
    · subst hdel
      cases operation with
      | removexattr path name =>
        obtain ⟨rfl, row, hmay⟩ := hissues
        exact absurd ⟨hroot, hx, _, row, hmay⟩ hnot
      | _ => exact hissues.elim
    · rw [hxi] at hgone
      exact absurd hgone hnode

lemma sameTrusted_call (hbounds : s.conn.SeqBounds) {operation : Op}
    (hroot : (s.actAs user).callerUid ≠ 0) (hnot : ¬ RemovesTrusted (s.actAs user) operation) {i : ℕ}
    (hi : s.conn.hasNode i = true) :
    ((Call.op user clock operation).exec s).conn.hasNode i = false ∨
      s.conn.SameTrusted ((Call.op user clock operation).exec s).conn i := by
  refine (Call.writes user clock operation s).gone_or (P := fun d => s.conn.SameTrusted d i)
    (hbounds i hi) (fun _ _ _ => Iff.rfl) fun st d d' hissues hst _ hd => ?_
  exact sameTrusted_of_issues hroot hnot hissues hst hd

lemma not_trustedByRoot {operation : Op} (h : RemovesTrusted (s.actAs user) operation) :
    ¬ TrustedByRoot s user clock operation := by
  cases operation with
  | removexattr path name =>
    obtain ⟨hroot, htrusted, i, row, hmay⟩ := h
    intro hby
    have hconn : ((Call.op user clock (.removexattr path name)).exec s).conn
        = stamp clock i (s.conn.deleteXattr i name) := by
      rw [exec_op, asUser_conn, Op.run, answer_apply, removexattr_run hmay, actAs_conn]
      rfl
    have hnode : s.conn.hasNode i = true := by
      rw [← actAs_conn s user]
      exact Db.hasNode_of_kind (Nodes.kind_of_get hmay.node)
    have hset := hmay.isSet
    rw [actAs_conn] at hset
    obtain ⟨x, hx, hkey⟩ := KeyTable.find?_isSome.mp hset
    cases hkey
    refine hroot (hby x.inode hnode ?_ fun hsame => ?_)
    · rw [hconn, (Nodes.updateTimes_ok updateTimes_stamp).hasNode]
      exact hnode
    · have hx' := (hsame x rfl htrusted).mpr hx
      rw [hconn] at hx'
      exact of_decide_eq_false (KeyTable.mem_deleteWhere.mp hx').2 ⟨rfl, rfl⟩
  | _ => exact h.elim

/-- In every reachable state, only root changes the trusted attributes of a node that stays, unless
another caller gets past the checks of `removexattr` with the name of one. -/
theorem trustedByRoot_iff (h : Reachable s) (operation : Op) :
    TrustedByRoot s user clock operation ↔ ¬ RemovesTrusted (s.actAs user) operation := by
  refine ⟨fun hby hrem => not_trustedByRoot hrem hby, fun hnot i hi hi' hdiff => ?_⟩
  by_contra hroot
  rcases sameTrusted_call (seqBounds_run (fun _ => seqBounds_fresh) h) hroot hnot hi with hgone | hsame
  · rw [hgone] at hi'
    cases hi'
  · exact hdiff hsame

/-- `"trusted.x"` -/
def trustedX : Str := Xattrs.trustedPrefix ++ ['x']

/-- A file of the user 5, with an attribute that root has set. -/
def markedFile : Filesystem :=
  newFsAfter [.create ['/', 'f'] Libc.O_RDWR 0o644, .chown ['/', 'f'] (some 5) none,
    .setxattr ['/', 'f'] trustedX [1] 0]

theorem trustedByRoot_iff_markedFile :
    (TrustedByRoot markedFile (some (5, 5)) ⟨1, 1⟩ (.removexattr ['/', 'f'] trustedX) ↔
      ¬ RemovesTrusted (markedFile.actAs (some (5, 5))) (.removexattr ['/', 'f'] trustedX)) ∧
    RemovesTrusted (markedFile.actAs (some (5, 5))) (.removexattr ['/', 'f'] trustedX) ∧
    (TrustedByRoot markedFile (some (7, 7)) ⟨1, 1⟩ (.removexattr ['/', 'f'] trustedX) ↔
      ¬ RemovesTrusted (markedFile.actAs (some (7, 7))) (.removexattr ['/', 'f'] trustedX)) ∧
    ¬ RemovesTrusted (markedFile.actAs (some (7, 7))) (.removexattr ['/', 'f'] trustedX) := by
  refine ⟨trustedByRoot_iff (reachable_newFsAfter _) _, ?_,
    trustedByRoot_iff (reachable_newFsAfter _) _, ?_⟩
  · exact ⟨by decide, rfl, 2, ⟨2, .file, 0o644, 5, 0, 0, 0, 0, 0, 1⟩,
      ⟨rfl, by decide +kernel, by decide +kernel, by decide, by decide +kernel⟩⟩
  · rintro ⟨-, -, i, row, hmay⟩
    have hresolved : resolveToInode (markedFile.actAs (some (7, 7))).conn ['/', 'f'] = .ok 2 := by
      decide +kernel
    cases hresolved.symm.trans hmay.resolved
    have hnode : Nodes.get (markedFile.actAs (some (7, 7))).conn 2
        = .ok ⟨2, .file, 0o644, 5, 0, 0, 0, 0, 0, 1⟩ := by decide +kernel
    cases hnode.symm.trans hmay.node
    exact absurd hmay.access (by decide)

/-- The user 5 removes root's mark from his file. -/
theorem not_trustedByRoot_markedFile : Reachable markedFile ∧
    ¬ TrustedByRoot markedFile (some (5, 5)) ⟨1, 1⟩ (.removexattr ['/', 'f'] trustedX) := by
  refine ⟨reachable_newFsAfter _, fun h => ?_⟩
  have hbefore : markedFile.conn.xattrs.find? (2, trustedX) = some ⟨2, trustedX, [1]⟩ := by
    decide +kernel
  have hafter : ((Call.op (some (5, 5)) ⟨1, 1⟩ (.removexattr ['/', 'f'] trustedX)).exec
      markedFile).conn.xattrs.find? (2, trustedX) = none := by decide +kernel
  have hroot := h 2 (by decide +kernel) (by decide +kernel) fun hsame => ?_
  · exact absurd hroot (by decide)
  · have hmem := (KeyTable.find?_eq_some.mp hbefore).1
    have htrusted : IsTrusted trustedX := rfl
    exact KeyTable.find?_eq_none.mp hafter _
      ((hsame ⟨2, trustedX, [1]⟩ rfl htrusted).mpr hmem) rfl

end Filesystem

end SqliteFs

import SqliteFs.Filesystem.Rows

/-!
# Ownership

A caller other than root changes the owner of no node, and the mode and group only of nodes that
belong to him; the nodes he makes are his. Numbers of nodes are never used twice, so a node is
told by its number along a run.
-/

namespace SqliteFs

open Txn

namespace Db

/-- From `d` to `d'`, no owner changed, modes and groups changed only for nodes of `uid`, and the new
nodes belong to `uid`. -/
structure Confined (uid : UInt32) (d d' : Db) : Prop where
  old : ∀ i r r', d.nodes.find? i = some r → d'.nodes.find? i = some r' →
    r'.uid = r.uid ∧ (r.uid ≠ uid → r'.mode = r.mode ∧ r'.gid = r.gid)
  new : ∀ i r', d.nodes.find? i = none → d'.nodes.find? i = some r' → r'.uid = uid

/-- `d'` also has a counter at least as large, and its new nodes have new numbers. -/
structure Follows (uid : UInt32) (d d' : Db) : Prop extends Confined uid d d' where
  seq : d.nodesSeq ≤ d'.nodesSeq
  fresh : ∀ i r', d.nodes.find? i = none → d'.nodes.find? i = some r' → d.nodesSeq < i

variable {d d₀ d₁ d' : Db} {i : ℕ} {st : Statement} {uid : UInt32}

lemma Confined.refl : Confined uid d d := by
  refine ⟨fun i r r' h h' => ?_, fun i r' h h' => ?_⟩
  · obtain rfl : r = r' := Option.some.inj (h.symm.trans h')
    exact ⟨rfl, fun _ => ⟨rfl, rfl⟩⟩
  · rw [h] at h'
    cases h'

lemma Follows.refl : Follows uid d d := by
  refine ⟨.refl, le_rfl, fun i r' h h' => ?_⟩
  rw [h] at h'
  cases h'

lemma Follows.trans (hbounds : d.SeqBounds) (h : Follows uid d d₁) (h' : Follows uid d₁ d') :
    Follows uid d d' := by
  refine ⟨⟨fun i r r' hr hr' => ?_, fun i r' hnone hr' => ?_⟩, h.seq.trans h'.seq,
    fun i r' hnone hr' => ?_⟩
  · cases hr₁ : d₁.nodes.find? i with
    | none =>
      -- a number that is given up does not come back
      have hnew := h'.fresh i r' hr₁ hr'
      have hold := hbounds i (Option.isSome_iff_exists.mpr ⟨r, hr⟩)
      have hle := h.seq
      omega
    | some r₁ =>
      obtain ⟨hu, hrest⟩ := h.old i r r₁ hr hr₁
      obtain ⟨hu', hrest'⟩ := h'.old i r₁ r' hr₁ hr'
      refine ⟨hu'.trans hu, fun hne => ?_⟩
      obtain ⟨hm, hg⟩ := hrest hne
      obtain ⟨hm', hg'⟩ := hrest' (hu ▸ hne)
      exact ⟨hm'.trans hm, hg'.trans hg⟩
  · cases hr₁ : d₁.nodes.find? i with
    | none => exact h'.new i r' hr₁ hr'
    | some r₁ => exact (h'.old i r₁ r' hr₁ hr').1.trans (h.new i r₁ hnone hr₁)
  · cases hr₁ : d₁.nodes.find? i with
    | none => exact h.seq.trans_lt (h'.fresh i r' hr₁ hr')
    | some r₁ => exact h.fresh i r₁ hnone hr₁

/-- The statement is one that `uid` may issue when the nodes were those of `d₀`. -/
def MayIssue (uid : UInt32) (d₀ : Db) : Statement → Prop
  | .insertNode row => row.uid = uid
  | .updateModeUidGid i mode uid' gid _ => ∃ r, d₀.nodes.find? i = some r ∧
    (∀ u, uid' = some u → u = r.uid) ∧ (r.uid ≠ uid → mode = none ∧ gid = none)
  | _ => True

/-- A statement of `uid`'s keeps what is confined so. -/
lemma Follows.does (h : Follows uid d₀ d) (hbounds : d₀.SeqBounds) (hmay : MayIssue uid d₀ st)
    (hst : st.Does d d') : Follows uid d₀ d' := by
  refine ⟨⟨fun i r₀ r' hr₀ hr' => ?_, fun i r' hnone hr' => ?_⟩, h.seq.trans hst.nodesSeq.1,
    fun i r' hnone hr' => ?_⟩
  · rcases hst.find?_nodes hr' with ⟨-, -, hnext⟩ | ⟨r, hr, hfrom⟩
    · have hold := hbounds i (Option.isSome_iff_exists.mpr ⟨r₀, hr₀⟩)
      have hlt := d.seq_lt_nextInode
      have hle := h.seq
      omega
    · obtain rfl : r.inode = i := (KeyTable.find?_eq_some.mp hr).2
      obtain ⟨huid, hothers⟩ := h.old r.inode r₀ r hr₀ hr
      rcases hfrom.owner with ⟨hm, hu, hg⟩ | ⟨mode, uid', gid, c, rfl, hm, hu, hg⟩
      · rw [hu, hm, hg]
        exact ⟨huid, hothers⟩
      · obtain ⟨r₁, hr₁, hkeep, hnot⟩ := hmay
        obtain rfl : r₀ = r₁ := Option.some.inj (hr₀.symm.trans hr₁)
        refine ⟨?_, fun hne => ?_⟩
        · rw [hu]
          cases uid' with
          | none => exact huid
          | some u => exact hkeep u rfl
        · obtain ⟨rfl, rfl⟩ := hnot hne
          rw [hm, hg]
          exact hothers hne
  · rcases hst.find?_nodes hr' with ⟨rfl, -, -⟩ | ⟨r, hr, hfrom⟩
    · exact hmay
    · obtain rfl : r.inode = i := (KeyTable.find?_eq_some.mp hr).2
      rcases hfrom.owner with ⟨-, hu, -⟩ | ⟨mode, uid', gid, c, rfl, -⟩
      · rw [hu]
        exact h.new _ r hnone hr
      · obtain ⟨r₁, hr₁, -⟩ := hmay
        rw [hnone] at hr₁
        cases hr₁
  · rcases hst.find?_nodes hr' with ⟨-, -, hnext⟩ | ⟨r, hr, -⟩
    · rw [hnext]
      exact h.seq.trans_lt d.seq_lt_nextInode
    · exact h.fresh i r hnone hr

end Db

namespace Filesystem

variable {s s' : Filesystem} {uid : UInt32}

/-- What a caller other than root issues, he may. -/
lemma mayIssue_of_issues {operation : Op} {st : Statement} (huid : s.callerUid = uid) (hroot : uid ≠ 0)
    (h : operation.Issues s st) : Db.MayIssue uid s.conn st := by
  cases st with
  | insertNode row =>
    have hcallers : ∃ k, CallersNode s k row := by
      cases operation <;> first | exact h.elim | exact ⟨_, h⟩
    obtain ⟨k, hk⟩ := hcallers
    exact hk.uid.trans huid
  | updateModeUidGid i mode uid' gid c =>
    cases operation with
    | chmod path m =>
      obtain ⟨-, rfl, rfl, row, hmay⟩ := h
      obtain ⟨r, hr, rfl⟩ := Nodes.get_eq_ok.mp hmay.node
      refine ⟨r, hr, ?_, fun hne => absurd ⟨huid ▸ hroot, huid ▸ Ne.symm hne⟩ hmay.owner⟩
      rintro u ⟨⟩
    | chown path u g =>
      obtain ⟨rfl, rfl, rfl, row, hmay⟩ := h
      obtain ⟨r, hr, rfl⟩ := Nodes.get_eq_ok.mp hmay.node
      refine ⟨r, hr, ?_, fun hne => ⟨rfl, ?_⟩⟩
      · rintro u rfl
        by_contra hu
        refine hmay.uid ⟨?_, huid ▸ hroot⟩
        rw [Option.any_some]
        exact decide_eq_true hu
      · by_contra hg
        exact hmay.gid ⟨Option.isSome_iff_ne_none.mpr hg, huid ▸ hroot, huid ▸ Ne.symm hne⟩
    | _ => exact h.elim
  | _ => trivial

/-- The call is an operation that `uid` executes. -/
def ByUser (uid : UInt32) (s : Filesystem) : Call → Prop
  | .op user _ _ => (s.actAs user).callerUid = uid
  | .reopen .. => False

/-- Whatever a caller other than root does, to any state and with any groups, no owner changes,
modes and groups change for his own nodes only, and the nodes he makes are his. -/
theorem ownership_confined (h : Reachable s) (hroot : uid ≠ 0)
    (hrun : Run (· = s) Call.exec (ByUser uid) s') : Db.Confined uid s.conn s'.conn := by
  have hbounds : s.conn.SeqBounds := seqBounds_run (fun _ => seqBounds_fresh) h
  have hfollows : Db.Follows uid s.conn s'.conn := by
    refine Run.invariant (P := fun s' => Db.Follows uid s.conn s'.conn) ?_ ?_ hrun
    · rintro _ rfl
      exact .refl
    · rintro s₁ call hrun₁ hby hs₁
      cases call with
      | reopen => exact hby.elim
      | op user clock operation =>
        have hbounds₁ : s₁.conn.SeqBounds := by
          refine seqBounds_run ?_ hrun₁
          rintro _ rfl
          exact hbounds
        refine hs₁.trans hbounds ?_
        refine (Call.writes user clock operation s₁).keeps (fun st d d' hissues hst hd => ?_) .refl
        refine hd.does hbounds₁ ?_ hst
        rw [← actAs_conn s₁ user]
        exact mayIssue_of_issues hby hroot hissues
  exact hfollows.toConfined

/-- A directory that everyone may write to. -/
def openDir : Filesystem := newFsAfter [.mkdir ['/', 'a'] 0o777]

theorem ownership_confined_openDir : Db.Confined 5 openDir.conn
    ((Call.op (some (5, 5)) ⟨1, 1⟩ (.create ['/', 'a', '/', 'f'] Libc.O_RDWR 0o644)).exec
      openDir).conn :=
  ownership_confined (reachable_newFsAfter _) (by decide) (.next (.start rfl) rfl)

end Filesystem

end SqliteFs

import SqliteFs.Python.Changes
import SqliteFs.Lib.Success

/-!
# When a plain rename of the Python library returns

`rename` gets to its transaction if both paths lead somewhere. There it fails just if a directory
stands at the destination that is not empty.
-/

namespace SqliteFs

open Txn

namespace Python

namespace Filesystem

variable {s : Filesystem} {env : Env} {src dst : Str} {e t : EntryRow} {q : ℕ} {m : Str}

/-! ### The way to the transaction -/

/-- `rename` gets to the entry `e` that is to become `(q, m)`. -/
structure Gets (s : Filesystem) (src dst : Str) (e : EntryRow) (q : ℕ) (m : Str) : Prop where
  writable : s.readonly = false
  source : resolveParentAs s.conn s.uid s.gid src = .ok (e.parent, e.name)
  target : resolveParentAs s.conn s.uid s.gid dst = .ok (q, m)
  entry : e ∈ s.conn.entries
  node : ∃ row, Nodes.get s.conn e.inode = .ok row

/-- The transaction of a plain rename. -/
def plainBody (s : Filesystem) (env : Env) (dst : Str) (e : EntryRow) (q : ℕ) (m : Str) : Sql PUnit :=
  renameBody env dst false false e.parent e.name q m (s.conn.entries.find? (q, m))
    (s.openCountOf (s.conn.entries.find? (q, m)))

lemma rename_refuses (h : ¬ ∃ e q m, Gets s src dst e q m) :
    ∃ x, rename env src dst false false s = ⟨.error x, s, []⟩ := by
  have hrefuses : Prog.RefusesOr (rename env src dst false false) s fun _ => False := by
    refine bind_requireWritable fun hw => bind_require fun _ => ?_
    refine bind_resolveParent fun p l hsrc => bind_resolveParent fun q m hdst => ?_
    refine bind_getEntry fun e he hp hl => bind_getNode fun row hrow => ?_
    subst hp hl
    exact absurd ⟨e, q, m, hw, hsrc, hdst, he, row, hrow⟩ h
  exact hrefuses.resolve_right id

/-- What is left of `rename` then. -/
def renameGot (s : Filesystem) (env : Env) (src dst : Str) (row : NodesRow) (e : EntryRow) (q : ℕ)
    (m : Str) : Action PUnit := do
  withConn (plainBody s env dst e q m)
  changeCache (renameUncache false row e (s.conn.entries.find? (q, m)))
  emitMove env src dst false row e (s.conn.entries.find? (q, m))

section Run
variable {row : NodesRow}

lemma rename_gets (h : Gets s src dst e q m) (hrow : Nodes.get s.conn e.inode = .ok row) :
    rename env src dst false false s =
      if e.parent = q ∧ e.name = m then ⟨.ok ⟨⟩, s, []⟩
      else match checkSubtree s.conn row e q with
        | .ok _ => renameGot s env src dst row e q m s
        | .error x => ⟨.error x, s, []⟩ := by
  have hflags : ¬ ((false : Bool) = true ∧ (false : Bool) = true) := fun hf => nomatch hf.1
  unfold rename
  rw [requireWritable_bind h.writable, require_bind hflags, resolveParent_bind h.source]
  dsimp only
  rw [resolveParent_bind h.target]
  dsimp only
  rw [getEntry_bind (Entries.get_eq_ok.mpr ⟨h.entry, rfl, rfl⟩), getNode_bind hrow]
  split_ifs
  · rfl
  · cases hsub : checkSubtree s.conn row e q with
    | error x => exact ask_bind_error hsub
    | ok _ =>
      rw [ask_bind hsub, ask_bind (b := s.conn.entries.find? (q, m)) rfl,
        ask_bind (b := s.openCountOf (s.conn.entries.find? (q, m))) rfl]
      rfl

/-- Once its transaction is done, `rename` returns. -/
lemma rename_of_body {d : Db} (h : Gets s src dst e q m)
    (hrow : Nodes.get s.conn e.inode = .ok row) (hother : ¬ (e.parent = q ∧ e.name = m))
    (hsub : checkSubtree s.conn row e q = .ok ⟨⟩)
    (hbody : plainBody s env dst e q m s.conn = .ok (⟨⟩, d)) :
    (rename env src dst false false s).result = .ok ⟨⟩ ∧
      (rename env src dst false false s).state.conn = d := by
  have hrun : withConn (plainBody s env dst e q m) s = ⟨.ok ⟨⟩, { s with conn := d }, [d]⟩ := by
    unfold withConn Prog.transaction
    rw [show plainBody s env dst e q m (Durable.disk s) = .ok (⟨⟩, d) from hbody]
    rfl
  rw [rename_gets h hrow, if_neg hother, hsub]
  dsimp only
  unfold renameGot
  rw [Prog.bind_apply_ok hrun]
  unfold changeCache emitMove emit
  rw [Prog.volatile_bind_ok (a := ⟨⟩) rfl, Prog.volatile_bind_ok (a := ⟨⟩) rfl]
  cases s.conn.entries.find? (q, m) <;> exact ⟨rfl, rfl⟩

lemma rename_of_refusal (h : Gets s src dst e q m)
    (hrow : Nodes.get s.conn e.inode = .ok row) (hother : ¬ (e.parent = q ∧ e.name = m))
    (hbody : ¬ Body.Returns (plainBody s env dst e q m) s.conn) :
    ∃ x, rename env src dst false false s = ⟨.error x, s, []⟩ := by
  rw [rename_gets h hrow, if_neg hother]
  cases checkSubtree s.conn row e q with
  | error x => exact ⟨x, rfl⟩
  | ok u =>
    cases hrun : plainBody s env dst e q m s.conn with
    | ok a => exact absurd ⟨a.1, a.2, hrun⟩ hbody
    | error x =>
      refine ⟨x, Prog.bind_apply_error ?_⟩
      unfold withConn Prog.transaction
      rw [show plainBody s env dst e q m (Durable.disk s) = .error x from hrun]

end Run

/-! ### Its transaction -/

section Body
variable {d : Db} {i : ℕ} {row : NodesRow}

lemma touch_returns (d : Db) : Body.Returns (touch env i) d := by
  have hparams : ∀ n ∈ [env.now], Storable n := by
    intro n hn
    rw [List.mem_singleton.mp hn]
    exact env.storable
  exact ⟨⟨⟩, _, params_bind_eq_ok.mpr ⟨hparams, update_eq_ok.mpr rfl⟩⟩

lemma moveEntry_isSome (he : e ∈ d.entries) (hq : d.hasNode q = true)
    (hfree : d.entries.find? (q, m) = none) :
    ∃ d', d.moveEntry e.parent e.name q m = some d' := by
  obtain ⟨t, ht⟩ : ∃ t, d.entries.rekey? (e.parent, e.name) (q, m) (fun r => ⟨q, m, r.inode⟩)
      (fun _ => rfl) = some t := KeyTable.rekey?_isSome fun _ => hfree
  refine ⟨{ d with entries := t }, ?_⟩
  have hsome : (d.entries.find? (e.parent, e.name)).isSome = true :=
    KeyTable.find?_isSome.mpr ⟨e, he, rfl⟩
  unfold Db.moveEntry
  rw [if_pos hsome, if_pos hq, ht]
  rfl

/-- The times that `rename` sets at the end can be set. -/
lemma touches_returns (env : Env) (p : ℕ) (d : Db) :
    Body.Returns (touch env p >>= fun _ => if q ≠ p then touch env q else pure ⟨⟩) d := by
  refine .bind_of (touch_returns _) fun _ d' _ => ?_
  split_ifs
  · exact touch_returns d'
  · exact Body.returns_pure _ d'

/-- An entry can be moved to a free place in a directory. -/
lemma move_returns (env : Env) (he : e ∈ d.entries) (hq : d.hasNode q = true)
    (hfree : d.entries.find? (q, m) = none) :
    Body.Returns (Entries.rename e.parent e.name q m >>= fun _ => touch env e.parent >>= fun _ =>
      if q ≠ e.parent then touch env q else pure ⟨⟩) d := by
  obtain ⟨d', hmove⟩ := moveEntry_isSome he hq hfree
  exact .bind (execute_eq_ok (u := ⟨⟩) |>.mpr hmove) (touches_returns env e.parent d')

lemma deleteNode_returns (h : ∀ y ∈ d.entries, y.inode ≠ i) : Body.Returns (Nodes.delete i) d := by
  have hcount : (d.entries.deleteWhere fun e => e.parent = i).count (fun e => e.inode = i) = 0 :=
    KeyTable.count_eq_zero.mpr fun y hy => decide_eq_false (h y (KeyTable.mem_deleteWhere.mp hy).1)
  have hdel : ∃ d', d.deleteNode i = some d' := by
    unfold Db.deleteNode
    dsimp only
    split_ifs with hnode hpos
    · omega
    · exact ⟨_, rfl⟩
    · exact ⟨_, rfl⟩
  obtain ⟨d', hd'⟩ := hdel
  exact ⟨⟨⟩, d', execute_eq_ok.mpr hd'⟩

/-- An empty directory that has one name goes with its node. -/
lemma replaceDir_returns (env : Env) (dst : Str) (ht : t ∈ d.entries) (hrow : Nodes.get d t.inode = .ok row)
    (hdir : row.kind = .dir) (hempty : ∀ y ∈ d.entries, y.parent ≠ t.inode)
    (hone : ∀ y ∈ d.entries, y.inode = t.inode → y = t) :
    Body.Returns (replaceTarget env dst false t.parent t.name t 0) d := by
  have hcount : Entries.count d t.inode = 0 :=
    KeyTable.count_eq_zero.mpr fun y hy => decide_eq_false (hempty y hy)
  unfold replaceTarget
  refine .bind (a := ⟨⟩) (Body.ask_eq_ok.mpr ⟨check_eq_ok.mpr rfl, rfl⟩)
    (.bind (Body.ask_eq_ok.mpr ⟨hrow, rfl⟩) ?_)
  rw [if_pos hdir]
  refine .bind (a := ⟨⟩) (Body.ask_eq_ok.mpr ⟨check_eq_ok.mpr (by omega), rfl⟩)
    (.bind (update_eq_ok (u := ⟨⟩) |>.mpr rfl) (deleteNode_returns fun y hy hyi => ?_))
  obtain ⟨hmem, hkeep⟩ := KeyTable.mem_deleteWhere.mp hy
  obtain rfl := hone y hmem hyi
  simp at hkeep

/-- A directory that is not empty stays, and `rename` fails. -/
lemma replaceDir_refuses {n : ℕ} (hrow : Nodes.get d t.inode = .ok row) (hdir : row.kind = .dir)
    (hfull : ∃ y ∈ d.entries, y.parent = t.inode) :
    ¬ Body.Returns (replaceTarget env dst false t.parent t.name t n) d := by
  rintro ⟨_, d', h⟩
  obtain ⟨_, -, h₁⟩ := Body.ask_bind_eq_ok.mp h
  obtain ⟨row', hrow', h₂⟩ := Body.ask_bind_eq_ok.mp h₁
  obtain rfl := Except.ok.inj (hrow'.symm.trans hrow)
  rw [if_pos hdir] at h₂
  obtain ⟨_, hcount, -⟩ := Body.ask_bind_eq_ok.mp h₂
  obtain ⟨y, hy, hp⟩ := hfull
  exact check_eq_ok.mp hcount (KeyTable.count_pos.mpr ⟨y, hy, decide_eq_true hp⟩)

/-- A node that is no directory loses a name, and goes if that was its last link. -/
lemma replaceFile (env : Env) (dst : Str) (ht : t ∈ d.entries) (hrow : Nodes.get d t.inode = .ok row)
    (hfile : row.kind ≠ .dir) (hlast : row.nlink + -1 = 0 → ∀ y ∈ d.entries, y.inode = t.inode → y = t) :
    ∃ d' d₁, replaceTarget env dst false t.parent t.name t 0 d = .ok (⟨⟩, d') ∧
      (d.skeleton.deleteEntry t.parent t.name).Adjust d₁ (Pi.single t.inode (-1)) ∧
      (if row.nlink + -1 = 0 then d₁.RemovesNode d'.skeleton t.inode else d'.skeleton = d₁) := by
  have hfind := Nodes.get_eq_ok.mp hrow
  obtain ⟨d₁, hd₁⟩ : ∃ d₁, d₁ = (d.deleteEntry t.parent t.name).updateNode t.inode
      (fun r => { r with nlink := r.nlink + -1, ctimeNs := env.now }) fun _ => rfl := ⟨_, rfl⟩
  have hfind₁ : d₁.nodes.find? t.inode
      = some { row with nlink := row.nlink + -1, ctimeNs := env.now } := by
    rw [hd₁]
    unfold Db.updateNode
    rw [KeyTable.find?_updateAt, if_pos rfl]
    exact congrArg _ hfind
  have hlinks : Nodes.changeNlink t.inode (-1) env.now (d.deleteEntry t.parent t.name)
      = .ok (row.nlink + -1, d₁) := by
    refine update_bind_eq_ok.mpr (Body.ask_eq_ok.mpr ⟨?_, hd₁⟩)
    rw [← hd₁, hfind₁]
    rfl
  have hadj : (d.skeleton.deleteEntry t.parent t.name).Adjust d₁.skeleton (Pi.single t.inode (-1)) :=
    (Nodes.changeNlink_ok hlinks).1
  obtain ⟨d', hgc, hend⟩ : ∃ d', maybeGc t.inode 0 d₁ = .ok (⟨⟩, d') ∧
      (if row.nlink + -1 = 0 then d₁.skeleton.RemovesNode d'.skeleton t.inode
        else d'.skeleton = d₁.skeleton) := by
    by_cases hzero : row.nlink + -1 = 0
    · have hnone : ∀ y ∈ d₁.entries, y.inode ≠ t.inode := by
        intro y hy hyi
        rw [hd₁] at hy
        obtain ⟨hmem, hkeep⟩ := KeyTable.mem_deleteWhere.mp hy
        obtain rfl := hlast hzero y hmem hyi
        simp at hkeep
      obtain ⟨_, d', hdel⟩ := deleteNode_returns hnone
      refine ⟨d', Body.ask_bind_eq_ok.mpr ⟨_, congrArg Except.ok hfind₁, ?_⟩, ?_⟩
      · dsimp only
        rw [if_pos ⟨hzero, rfl⟩]
        exact hdel
      · rw [if_pos hzero]
        refine Nodes.delete_ok ?_ hdel
        rw [Db.hasNode, hfind₁]
        rfl
    · refine ⟨d₁, Body.ask_bind_eq_ok.mpr ⟨_, congrArg Except.ok hfind₁, ?_⟩, ?_⟩
      · dsimp only
        rw [if_neg fun h => hzero h.1]
        rfl
      · rw [if_neg hzero]
  refine ⟨d', d₁.skeleton, ?_, hadj, hend⟩
  unfold replaceTarget
  refine Body.ask_bind_eq_ok.mpr ⟨⟨⟩, check_eq_ok.mpr rfl, Body.ask_bind_eq_ok.mpr ⟨row, hrow, ?_⟩⟩
  rw [if_neg hfile]
  exact update_bind_eq_ok.mpr (Body.bind_eq_ok.mpr ⟨_, d₁, hlinks, hgc⟩)

/-- An entry moves to a free place. -/
lemma renameBody_free (env : Env) (he : e ∈ d.entries) (hdir : d.skeleton.kind q = some .dir)
    (hfree : d.entries.find? (q, m) = none) :
    ∃ d', renameBody env dst false false e.parent e.name q m (d.entries.find? (q, m)) 0 d
      = .ok (⟨⟩, d') ∧ d.skeleton.Moves d'.skeleton False e q m := by
  have hq : d.hasNode q = true := by
    rw [← Db.hasNode_skeleton]
    exact SqliteFs.Db.hasNode_of_kind hdir
  obtain ⟨_, d', hmove⟩ := move_returns env he hq hfree
  refine ⟨d', ?_, moves_ok hmove⟩
  unfold renameBody
  rw [if_neg Bool.false_ne_true, hfree]
  exact hmove

/-- Once there is room for the entry, it moves there. -/
lemma renameBody_over {d₁ : Db} (hshape : d.skeleton.Shaped) (he : e ∈ d.entries)
    (hdir : d.skeleton.kind q = some .dir) (hne : ¬ (e.parent = q ∧ e.name = m))
    (hfind : d.entries.find? (q, m) = some t)
    (hroom : replaceTarget env dst false q m t 0 d = .ok (⟨⟩, d₁)) :
    ∃ d', renameBody env dst false false e.parent e.name q m (d.entries.find? (q, m)) 0 d
      = .ok (⟨⟩, d') ∧ d₁.skeleton.Moves d'.skeleton False e q m := by
  obtain ⟨ht, hkey⟩ := KeyTable.find?_eq_some.mp hfind
  obtain ⟨rfl, rfl⟩ := Prod.mk.inj hkey
  have hclears := (replaceTarget_ok ht hroom).2.2
  have hmem : ∀ {x}, x ∈ d₁.entries ↔ x ∈ d.entries ∧ some t ≠ some x := hclears.mem_entries hshape
  have hq : d₁.hasNode t.parent = true := by
    rw [← Db.hasNode_skeleton]
    exact SqliteFs.Db.hasNode_of_kind ((hclears.dir_parent hfind).mpr hdir)
  have hfree : d₁.entries.find? (t.parent, t.name) = none := by
    refine KeyTable.find?_eq_none.mpr fun x hx hkey => ?_
    obtain ⟨hx, hxt⟩ := hmem.mp hx
    exact hxt (congrArg some (KeyTable.eq_of_key ht hx hkey.symm))
  obtain ⟨_, d', hmove⟩ := move_returns env (hclears.mem_source hshape hfind he hne) hq hfree
  refine ⟨d', ?_, moves_ok hmove⟩
  unfold renameBody
  rw [if_neg Bool.false_ne_true, hfind]
  exact Body.bind_eq_ok.mpr ⟨⟨⟩, d₁, hroom, hmove⟩

lemma renameBody_refuses (hfind : d.entries.find? (q, m) = some t)
    (h : ¬ Body.Returns (replaceTarget env dst false q m t 0) d) :
    ¬ Body.Returns (renameBody env dst false false e.parent e.name q m (d.entries.find? (q, m)) 0)
      d := by
  rintro ⟨u, d', hbody⟩
  unfold renameBody at hbody
  rw [if_neg Bool.false_ne_true, hfind] at hbody
  obtain ⟨_, d₁, hroom, -⟩ := Body.bind_eq_ok.mp hbody
  exact h ⟨_, d₁, hroom⟩

end Body

end Filesystem

end Python

end SqliteFs

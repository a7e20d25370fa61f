import SqliteFs.Fuse.Adapter
import SqliteFs.Filesystem.Resolution

/-!
# Attributes of what the kernel still addresses

The adapter finds an inode by way of its path. It can so answer for the inodes that have a path,
as long as the path is not too long for `parsePath`.
-/

namespace SqliteFs

/-- A row as `stat` reports it. -/
def NodeRow.stat (row : NodeRow) : Stat :=
  ⟨row.kind, row.size, row.mode, row.uid, row.gid, row.atimeNs, row.mtimeNs, row.ctimeNs,
    row.nlink, row.inode⟩

namespace Fuse

open Filesystem

/-! ### Steps of a request -/

section Steps
variable {α β : Type} {s : Filesystem} {req : Request} {p : Action α} {path : Str} {i : ℕ}

/-- The state as the user of the request sees it. -/
abbrev Request.view (req : Request) (s : Filesystem) : Filesystem := s.actAs (some (req.uid, req.gid))

lemma asUserOf_bind {f : Except Error α → Action β} {a : α}
    (h : p (req.view s) = ⟨.ok a, req.view s, []⟩) : (asUserOf req p >>= f) s = f (.ok a) s := by
  have hrun : asUserOf req p s = ⟨.ok (.ok a), s, []⟩ := by
    have hp : p { s with callerUid := req.uid, callerGid := req.gid } = _ := h
    simp only [asUserOf, attempt, asUser, hp]
    rfl
  rw [Txn.Prog.bind_apply_ok hrun]
  exact congrArg _ (List.nil_append _)

lemma asUserOf_bind_error {f : Except Error α → Action β} {e : Error}
    (h : p (req.view s) = ⟨.error (.error e), req.view s, []⟩) :
    (asUserOf req p >>= f) s = f (.error e) s := by
  have hrun : asUserOf req p s = ⟨.ok (.error e), s, []⟩ := by
    simp only [asUserOf, attempt, asUser_refuses h]
  rw [Txn.Prog.bind_apply_ok hrun]
  exact congrArg _ (List.nil_append _)

lemma asUserOf_bind_halt {f : Except Error α → Action β} {e : Halt}
    (h : p (req.view s) = ⟨.error e, req.view s, []⟩) (he : ∀ x, e ≠ .error x) :
    (asUserOf req p >>= f) s = ⟨.error e, s, []⟩ := by
  refine Txn.Prog.bind_apply_error ?_
  unfold asUserOf attempt
  rw [asUser_refuses h]
  cases e with
  | error x => exact absurd rfl (he x)
  | panic => rfl
  | diverge => rfl

lemma stat_run {row : NodeRow} (hi : resolveToInode s.conn path = .ok i)
    (hrow : Nodes.get s.conn i = .ok row) : stat path s = ⟨.ok row.stat, s, []⟩ := by
  unfold stat
  rw [resolve_bind hi, getNode_bind hrow]
  rfl

lemma stat_error {e : Halt} (hi : resolveToInode s.conn path = .error e) :
    stat path s = ⟨.error e, s, []⟩ :=
  ask_bind_error hi

lemma pathOfInode_bind {f : Option Str → Action β} {o : Option Str} (hi : i ≠ ROOT_INODE)
    (ho : pathForInode s.conn i = .ok o) : (pathOfInode i >>= f) s = f o s := by
  unfold pathOfInode
  rw [if_neg hi]
  exact ask_bind ho

end Steps

/-! ### getattr -/

/-- The kernel may address the inode: it has an entry or an open descriptor. -/
def Live (s : Filesystem) (ino : ℕ) : Prop :=
  (∃ e ∈ s.conn.entries, e.inode = ino) ∨ ∃ f ∈ s.fdtable.entries, f.inode = ino

/-- The request is answered with the attributes of the row of `ino`. -/
def AnswersFor (s : Filesystem) (req : Request) (ino : ℕ) : Prop :=
  ∃ row, Nodes.get s.conn ino = .ok row ∧
    (Adapter.getattr req ino s).result = .ok (.ok ⟨TTL, statToAttr row.stat⟩)

variable {s : Filesystem} {ino : ℕ} {l : List Str}

lemma getattr_unnamed (req : Request) (hroot : ino ≠ ROOT_INODE)
    (h : pathForInode s.conn ino = .ok none) :
    (Adapter.getattr req ino s).result = .ok (.error Libc.ENOENT) := by
  unfold Adapter.getattr
  rw [pathOfInode_bind hroot h]
  rfl

lemma getattr_named (htree : s.conn.Tree) (hnames : s.conn.ValidNames) (req : Request)
    (hroot : ino ≠ ROOT_INODE) (hl : s.conn.FirstPath ino l) (hlen : (joinPath l).len ≤ PATH_MAX) :
    AnswersFor s req ino := by
  have hpath : pathForInode s.conn ino = .ok (some (joinPath l)) :=
    (pathForInode_eq_some htree).mpr ⟨l, hl, rfl⟩
  have hparse : parsePath (joinPath l) = .ok l :=
    parsePath_joinPath (validName_of_leads hnames hl.leads) hlen
  have hleads := hl.leads
  obtain ⟨e, init, he, -, -⟩ := hl
  obtain ⟨hmem, hei⟩ := Db.ofInode_eq_some he
  obtain ⟨n, hn⟩ := Db.hasNode_iff.mp (htree.child e hmem)
  obtain ⟨row, hrow, -⟩ := Nodes.get_of_kind (hei ▸ Db.kind_of_info hn)
  refine ⟨row, hrow, ?_⟩
  have hresolve : resolveToInode (req.view s).conn (joinPath l) = .ok ino :=
    (resolveToInode_eq_ok htree).mpr ⟨l, hparse, hleads⟩
  unfold Adapter.getattr
  rw [pathOfInode_bind hroot hpath]
  dsimp only
  rw [asUserOf_bind (stat_run hresolve hrow)]
  rfl

lemma getattr_tooLong (htree : s.conn.Tree) (req : Request) (hroot : ino ≠ ROOT_INODE)
    (hl : s.conn.FirstPath ino l) (hlen : ¬ (joinPath l).len ≤ PATH_MAX) :
    (Adapter.getattr req ino s).result = .ok (.error Libc.EINVAL) := by
  have hpath : pathForInode s.conn ino = .ok (some (joinPath l)) :=
    (pathForInode_eq_some htree).mpr ⟨l, hl, rfl⟩
  have hresolve : resolveToInode (req.view s).conn (joinPath l) =
      err (.pathSyntax [.lit "path exceeds PATH_MAX (", .num PATH_MAX, .lit ")"]) := by
    unfold resolveToInode
    rw [parsePath_tooLong (joinPath_ne_nil l) hlen]
    rfl
  unfold Adapter.getattr
  rw [pathOfInode_bind hroot hpath]
  dsimp only
  rw [asUserOf_bind_error (stat_error hresolve)]
  rfl

lemma live_ne_root (h : Reachable s) (hlive : Live s ino) : ino ≠ ROOT_INODE := by
  obtain ⟨htree, hfds⟩ := rooted_runsTo h
  rintro rfl
  rcases hlive with ⟨e, he, hei⟩ | ⟨f, hf, hfi⟩
  · exact htree.rootUnnamed e he hei
  · exact hfds f hf hfi

/-- The adapter answers for a live inode exactly if the inode has a path, through its first entry,
that `parsePath` does not find too long. -/
theorem getattr_answers_iff (h : Reachable s) (req : Request) (hlive : Live s ino) :
    AnswersFor s req ino ↔
      ∃ l, s.conn.FirstPath ino l ∧ (joinPath l).len ≤ PATH_MAX := by
  have htree : s.conn.Tree := (rooted_runsTo h).tree
  have hroot := live_ne_root h hlive
  constructor
  · rintro ⟨row, -, hreply⟩
    obtain ⟨o, ho⟩ := htree.pathForInode_ok ino
    cases o with
    | none =>
      rw [getattr_unnamed req hroot ho] at hreply
      cases hreply
    | some path =>
      obtain ⟨l, hl, rfl⟩ := (pathForInode_eq_some htree).mp ho
      refine ⟨l, hl, ?_⟩
      by_contra hlen
      rw [getattr_tooLong htree req hroot hl hlen] at hreply
      cases hreply
  · rintro ⟨l, hl, hlen⟩
    exact getattr_named htree (validNames_runsTo h) req hroot hl hlen

/-- A file that is open, once its only name is gone. -/
def unlinkedFile : Filesystem :=
  newFsAfter [.create ['/', 'a'] Libc.O_RDWR 0o644, .unlink ['/', 'a']]

lemma live_unlinkedFile : Live unlinkedFile 2 := by
  refine Or.inr ?_
  decide +kernel

theorem getattr_answers_iff_unlinkedFile :
    AnswersFor unlinkedFile ⟨0, 0⟩ 2 ↔
      ∃ l, unlinkedFile.conn.FirstPath 2 l ∧ (joinPath l).len ≤ PATH_MAX :=
  getattr_answers_iff (reachable_newFsAfter _) ⟨0, 0⟩ live_unlinkedFile

/-- The file that is open but has no name is not found. -/
theorem not_getattr_answers_unlinkedFile :
    ¬ ∀ (s : Filesystem) (req : Request) (ino : ℕ), Reachable s → Live s ino →
      AnswersFor s req ino := by
  intro h
  obtain ⟨row, -, hreply⟩ := h unlinkedFile ⟨0, 0⟩ 2 (reachable_newFsAfter _) live_unlinkedFile
  have hnone : pathForInode unlinkedFile.conn 2 = .ok none := by decide +kernel
  rw [getattr_unnamed ⟨0, 0⟩ (by decide) hnone] at hreply
  cases hreply

end Fuse

end SqliteFs

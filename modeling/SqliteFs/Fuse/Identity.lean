import SqliteFs.Filesystem.Identity
import SqliteFs.Filesystem.ResolutionErrors
import SqliteFs.Fuse.Names

/-!
# Numbers that the kernel remembers

The adapter answers with the inode of a node, and always with generation 0: the kernel takes equal
inodes for the same node, at all times. It may do so. A new name stands for a node whose inode was never
used before, and a symbolic link is read back under its inode as it was made, for as long as it has a
name.
-/

namespace SqliteFs

open Txn

namespace Fuse

open Filesystem

variable {s t : Filesystem} {req req' : Request} {clock clock' : Clock} {parent : ℕ} {name : OsStr}
  {path : Str} {k : ℕ × Str} {i : ℕ}

/-- What a session goes through, library calls can bring about. -/
lemma run_of_turns (h : Run (· = s) Turn.exec (fun _ _ => True) t) :
    Run (· = s) Call.exec (fun _ _ => True) t := by
  induction h with
  | start heq => exact .start heq
  | @next u turn _ _ ih =>
    obtain ⟨l, -, hs⟩ := turn.exec_eq_after u
    rw [hs]
    exact Run.after_of_forall_mem l (fun _ _ _ => trivial) ih

lemma run_of_message (clock : Clock) (req : Request) (m : Message) (s : Filesystem) :
    Run (· = s) Call.exec (fun _ _ => True) (m.run clock req s).state := by
  have hturn : Run (· = s) Turn.exec (fun _ _ => True) ((Turn.serve clock req m).exec s) :=
    .next (.start rfl) trivial
  exact run_of_turns hturn

/-! ### New nodes -/

/-- The name that the request is to make with a new node. -/
def Message.newName : Message → Option (ℕ × Str)
  | .mkdir p (some n) _ | .symlink p (some n) _ | .create p (some n) _ _ => some (p, n)
  | _ => none

/-- The inode that comes with the answer. -/
def Answer.ino : Answer → Option ℕ
  | .node r => some r.attr.ino
  | .created r => some r.attr.ino
  | _ => none

lemma answered_new (h : Reachable s) {m : Message} (hplain : m.PlainNames) {a : Answer}
    (hok : (m.run clock req s).result = .ok (.ok a)) (hm : m.newName = some k) (ha : a.ino = some i)
    (hfree : s.conn.nameTable k = none) :
    s.conn.hasNode i = false ∧ (m.run clock req s).state.conn.nameTable k = some i := by
  obtain ⟨htold, hheard⟩ := answered_names h hplain hok
  rw [hheard]
  cases m with
  | mkdir p name mode =>
    cases name with
    | none => cases hm
    | some n =>
      cases hm
      obtain ⟨r, hr, rfl⟩ := reply_ok.mp hok
      cases ha
      exact ⟨htold.2, NameTable.add_self⟩
  | symlink p name target =>
    cases name with
    | none => cases hm
    | some n =>
      cases hm
      obtain ⟨r, hr, rfl⟩ := reply_ok.mp hok
      cases ha
      exact ⟨htold.2, NameTable.add_self⟩
  | create p name mode flags =>
    cases name with
    | none => cases hm
    | some n =>
      cases hm
      obtain ⟨r, hr, rfl⟩ := reply_ok.mp hok
      cases ha
      rcases htold with hthere | ⟨-, hfresh⟩
      · rw [hfree] at hthere
        cases hthere
      · exact ⟨hfresh, NameTable.add_self⟩
  | _ => cases hm

/-- The inode of a node that a request makes has been that of no node at any time before. -/
theorem session_new_node (h : Reachable s) (hrun : Run (· = s) Turn.exec (fun _ _ => True) t)
    {m : Message} (hplain : m.PlainNames) {a : Answer} (hok : (m.run clock req t).result = .ok (.ok a))
    (hm : m.newName = some k) (ha : a.ino = some i) (hfree : t.conn.nameTable k = none) :
    s.conn.hasNode i = false := by
  have hbefore := run_of_turns hrun
  have hafter := run_of_message clock req m t
  have hreach : Reachable t := h.trans hbefore
  obtain ⟨hfresh, hname⟩ := answered_new hreach hplain hok hm ha hfree
  cases hnode : s.conn.hasNode i with
  | false => rfl
  | true =>
    have hreach' : Reachable (m.run clock req t).state := hreach.trans hafter
    have hlive : (m.run clock req t).state.conn.hasNode i = true :=
      (rooted_runsTo hreach').tree.child _ (Db.nameTable_eq_some.mp hname)
    have hold := handsOut_nodes.live_of_run hafter
      (handsOut_nodes.seen_of_run hbefore (seqBounds_run (fun _ => seqBounds_fresh) h i hnode)) hlive
    rw [hfresh] at hold
    cases hold

/-- The open file is removed and closed, and the filesystem mounted again. -/
def emptiedFs : Filesystem :=
  (Turn.remount false 0 0).exec ((Turn.serve ⟨3, 3⟩ ⟨0, 0⟩ (.release 1)).exec
    ((Turn.serve ⟨2, 2⟩ ⟨0, 0⟩ (.unlink 1 (some ['f']))).exec mountedFile))

theorem session_new_node_emptiedFs : mountedFile.conn.hasNode 3 = false := by
  have hrun : Run (· = mountedFile) Turn.exec (fun _ _ => True) emptiedFs :=
    .next (.next (.next (.start rfl) trivial) trivial) trivial
  have hserved : Served (fun _ _ => True) mountedFile := .next (.start fresh_newFs) trivial
  have hplain : (Message.mkdir 1 (some ['d']) 0o755).PlainNames := by
    rintro _ ⟨⟩
    decide
  have hok : ((Message.mkdir 1 (some ['d']) 0o755).run ⟨4, 4⟩ ⟨0, 0⟩ emptiedFs).result
      = .ok (.ok (.node (replyNode ⟨.dir, 0, 0o755, 0, 0, 4, 4, 4, 2, 3⟩))) := by decide +kernel
  exact session_new_node (reachable_of_served hserved) hrun hplain hok rfl rfl (by decide +kernel)

/-! ### Symbolic links -/

/-- The node `i` is a symbolic link to `target`. -/
structure LinksTo (s : Filesystem) (i : ℕ) (target : Bytes) : Prop where
  kind : s.conn.kind i = some .symlink
  row : ⟨i, target⟩ ∈ s.conn.symlinks

lemma LinksTo.of_run {target : Bytes} (h : Reachable s) (hlinks : LinksTo s i target)
    (hrun : Run (· = s) Call.exec (fun _ _ => True) t) (hlive : t.conn.hasNode i = true) :
    LinksTo t i target := by
  have hi : s.conn.hasNode i = true := Db.hasNode_of_kind hlinks.kind
  have hseen : i ≤ s.conn.nodesSeq := seqBounds_run (fun _ => seqBounds_fresh) h i hi
  refine ⟨?_, ?_⟩
  · exact (kind_of_run hrun hseen hlive).trans hlinks.kind
  · exact symlink_of_run hrun hseen hlinks.row rfl hlive

lemma readlink_run {target : Bytes} (hlinks : LinksTo s i target) (hi : resolveToInode s.conn path = .ok i) :
    (readlink path s).result = .ok target := by
  obtain ⟨row, hrow, hkind⟩ := Nodes.get_of_kind hlinks.kind
  have hget : Symlinks.get s.conn i = .ok target := by
    have hfind : s.conn.symlinks.find? i = some ⟨i, target⟩ := KeyTable.find?_key hlinks.row
    rw [Symlinks.get, hfind]
    rfl
  unfold readlink
  rw [resolve_bind hi, getNode_bind hrow, require_bind hkind]
  exact hget

/-- The node that a `symlink` request answers with is a link to what it was given. -/
lemma symlink_linksTo (h : Reachable s) {target : Bytes} {r : ReplyNode}
    (hok : ((Message.symlink parent name target).run clock req s).result = .ok (.ok (.node r))) :
    LinksTo ((Message.symlink parent name target).run clock req s).state r.attr.ino target := by
  obtain ⟨r', hr, hanswer⟩ := reply_ok.mp hok
  cases hanswer
  obtain ⟨path, b, st, hnames, hb, hst, rfl⟩ := addition_ok hr
  obtain ⟨e, hresolved, hattaches, hrow⟩ := symlink_links.of_ok hb
  have htree := tree_after h clock req (.symlink target path)
  rw [Op.run, answer_state] at htree
  have hino : st.inode = e.inode := stat_nameTable_of_add (s := req.view s) (rooted_runsTo h).tree htree
    hattaches.free hattaches.nameTable hresolved hst
  have hconn : ((Message.symlink parent name target).run clock req s).state.conn
      = (Filesystem.symlink clock target path (req.view s)).state.conn :=
    reply_conn.trans (addition_conn hnames)
  change LinksTo _ st.inode target
  rw [hino]
  refine ⟨?_, ?_⟩
  · rw [hconn, hattaches.kind, if_pos rfl]
  · rw [hconn]
    exact hrow

/-- What a symbolic link was made with is read back under its inode, by whoever asks and whatever has
happened in between, as long as the link has a name whose path is not too long. -/
theorem session_readlink (h : Reachable s) {target : Bytes} {r : ReplyNode}
    (hok : ((Message.symlink parent name target).run clock req s).result = .ok (.ok (.node r)))
    (hrun : Run (· = (Turn.serve clock req (.symlink parent name target)).exec s) Turn.exec
      (fun _ _ => True) t) (a : Answer) :
    ((Message.readlink r.attr.ino).run clock' req' t).result = .ok (.ok a) ↔
      a = .data target ∧ ∃ path, PathOf t r.attr.ino path ∧ path.len ≤ PATH_MAX := by
  have hmade : Reachable ((Message.symlink parent name target).run clock req s).state :=
    h.trans (run_of_message clock req _ s)
  have hreach : Reachable t := hmade.trans (run_of_turns hrun)
  have htree := (rooted_runsTo hreach).tree
  have hreads {path : Str} (hpath : resolveToInode t.conn path = .ok r.attr.ino) :
      (readlink path (req'.view t)).result = .ok target := by
    have hlive : t.conn.hasNode r.attr.ino = true := by
      obtain ⟨l, -, hl⟩ := (resolveToInode_eq_ok htree).mp hpath
      exact htree.hasNode_of_leads (Db.hasNode_of_kind htree.rootDir) hl
    have hlinks : LinksTo t r.attr.ino target := (symlink_linksTo h hok).of_run hmade (run_of_turns hrun) hlive
    exact readlink_run (s := req'.view t) ⟨hlinks.kind, hlinks.row⟩ hpath
  constructor
  · intro hanswer
    obtain ⟨bytes, hbytes, rfl⟩ := reply_ok.mp hanswer
    obtain ⟨path, hpath, hresult⟩ := onNode_ok.mp hbytes
    have hfinds : ∃ i row, Finds (req'.view t) path i row ∧ row.kind = .symlink ∧
        ∃ target, Symlinks.get t.conn i = .ok target := readlink_returns.mp ⟨bytes, hresult⟩
    obtain ⟨i, row, ⟨hi, -⟩, -⟩ := hfinds
    obtain rfl := eq_of_resolved hreach hreach rfl hpath hi
    obtain ⟨l, hparse, -⟩ := (resolveToInode_eq_ok htree).mp hi
    refine ⟨congrArg Answer.data (Except.ok.inj (hresult.symm.trans (hreads hi))), path, hpath, ?_⟩
    exact (parsePath_eq_ok.mp hparse).2.1
  · rintro ⟨rfl, path, hpath, hlen⟩
    refine reply_ok.mpr ⟨target, onNode_ok.mpr ⟨path, hpath, ?_⟩, rfl⟩
    exact hreads (resolve_of_pathOfInode hreach hpath hlen)

/-- A link of root is moved, and the filesystem mounted again. -/
def movedLink : Filesystem :=
  (Turn.remount true 0 0).exec ((Turn.serve ⟨2, 2⟩ ⟨0, 0⟩ (.rename 1 (some ['l']) 1 (some ['m']) 0)).exec
    ((Turn.serve ⟨1, 1⟩ ⟨0, 0⟩ (.symlink 1 (some ['l']) [102])).exec newFs))

theorem session_readlink_movedLink :
    ((Message.readlink 2).run ⟨3, 3⟩ ⟨7, 7⟩ movedLink).result = .ok (.ok (.data [102])) ↔
      Answer.data [102] = .data [102] ∧ ∃ path, PathOf movedLink 2 path ∧ path.len ≤ PATH_MAX := by
  have hok : ((Message.symlink 1 (some ['l']) [102]).run ⟨1, 1⟩ ⟨0, 0⟩ newFs).result
      = .ok (.ok (.node (replyNode ⟨.symlink, 0, 0o777, 0, 0, 1, 1, 1, 1, 2⟩))) := by decide +kernel
  exact session_readlink (.start fresh_newFs) hok (.next (.next (.start rfl) trivial) trivial) _

end Fuse

end SqliteFs

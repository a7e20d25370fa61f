import SqliteFs.Filesystem.NameTable
import SqliteFs.Fuse.Contents

/-!
# Requests about names

The kernel asks about a name in a directory, and knows the directory by its inode only. The adapter
looks for a path of the directory, appends the name, and hands the path to the library, which takes it
apart again. In the end a request does to the names in that directory what it says, and to no others,
and answers with the node that the name stands for.
-/

namespace SqliteFs

open Txn

namespace Fuse

open Filesystem

/-! ### Paths of names -/

/-- What may stand for one component of a path, whether the filesystem takes it or not. -/
def Plain (n : Str) : Prop := n ≠ [] ∧ '/' ∉ n

instance (n : Str) : Decidable (Plain n) := inferInstanceAs (Decidable (n ≠ [] ∧ '/' ∉ n))

section Paths
variable {n m : Str} {l l' : List Str}

lemma joinPath_injective (hl : ∀ c ∈ l, '/' ∉ c) (hl' : ∀ c ∈ l', '/' ∉ c) (hne : l ≠ [])
    (hne' : l' ≠ []) (h : joinPath l = joinPath l') : l = l' := by
  rw [← List.splitOn_intercalate '/' hl hne, (List.cons.inj h).2, List.splitOn_intercalate '/' hl' hne']

lemma noSlash_concat (hl : ∀ c ∈ l, ValidName c) (hn : Plain n) : ∀ c ∈ l ++ [n], '/' ∉ c := by
  intro c hc
  rcases List.mem_append.mp hc with hc | hc
  · exact (hl c hc).noSlash
  · rw [List.mem_singleton.mp hc]
    exact hn.2

lemma childPath_joinPath (hl : ∀ c ∈ l, ValidName c) (n : Str) :
    Adapter.childPath (joinPath l) n = joinPath (l ++ [n]) := by
  rw [Adapter.childPath, joinPath_concat]
  simp only [joinPath_eq_root hl]

lemma getLast?_childPath (hn : Plain n) (path : Str) :
    (Adapter.childPath path n).getLast? ≠ some '/' := by
  have hlast : ∀ r : Str, (r ++ '/' :: n).getLast? = n.getLast? := by
    intro r
    rw [List.getLast?_append_of_ne_nil _ (List.cons_ne_nil _ _), List.getLast?_cons_of_ne_nil hn.1]
  intro h
  refine hn.2 (List.mem_of_getLast? ?_)
  unfold Adapter.childPath at h
  split_ifs at h
  · exact (hlast []).symm.trans h
  · exact (hlast path).symm.trans h

/-- The library takes a path apart that the adapter has put together. -/
lemma parsePath_childPath (hl : ∀ c ∈ l, ValidName c) (hn : Plain n)
    (h : parsePath (Adapter.childPath (joinPath l) n) = .ok l') : l' = l ++ [n] := by
  obtain ⟨hvalid, -, hpath⟩ := parsePath_eq_ok.mp h
  have hlast := getLast?_childPath hn (joinPath l)
  rw [childPath_joinPath hl] at hpath hlast
  rcases hpath with hpath | ⟨-, hpath⟩
  · refine (joinPath_injective (noSlash_concat hl hn) (fun c hc => (hvalid c hc).noSlash) (by simp) ?_ hpath).symm
    rintro rfl
    have hroot : joinPath (l ++ [n]) = ['/'] := hpath
    rw [hroot] at hlast
    exact hlast rfl
  · rw [hpath] at hlast
    exact absurd (List.getLast?_concat ..) hlast

end Paths

section Child
variable {s : Filesystem} {parent : ℕ} {n path : Str} {k : ℕ × Str}

lemma leads_of_pathOf (h : Reachable s) {ino : ℕ} (hpath : PathOf s ino path) :
    ∃ l, s.conn.Leads ROOT_INODE l ino ∧ (∀ c ∈ l, ValidName c) ∧ path = joinPath l := by
  rcases pathOfInode_cases (rooted_runsTo h).tree ino with ⟨-, -, hnone⟩ | ⟨l, -, hl, hsome⟩
  · cases hnone.symm.trans hpath
  · cases hsome.symm.trans hpath
    exact ⟨l, hl, validName_of_leads (validNames_runsTo h) hl, rfl⟩

/-- Where the library can take the path of a name apart, it comes to that name in that directory. -/
lemma resolveParent_of_names (h : Reachable s) (hn : Plain n) (hnames : Names s parent (some n) path)
    {l' : List Str} (hparse : parsePath path = .ok l') :
    resolveParentAndName s.conn path = .ok (parent, n) := by
  obtain ⟨_, ppath, hname, hpath, rfl⟩ := hnames
  cases hname
  obtain ⟨l, hl, hvalid, rfl⟩ := leads_of_pathOf h hpath
  obtain rfl := parsePath_childPath hvalid hn hparse
  exact (resolveParentAndName_eq_ok (rooted_runsTo h).tree).mpr ⟨l, hparse, hl⟩

lemma eq_of_resolveParent (h : Reachable s) (hn : Plain n) (hnames : Names s parent (some n) path)
    (hk : resolveParentAndName s.conn path = .ok k) : k = (parent, n) := by
  obtain ⟨p, m⟩ := k
  obtain ⟨l, hparse, -⟩ := (resolveParentAndName_eq_ok (rooted_runsTo h).tree).mp hk
  exact Except.ok.inj (hk.symm.trans (resolveParent_of_names h hn hnames hparse))

/-- Different names have different paths. -/
lemma names_injective (h : Reachable s) {q : ℕ} {m : Str} (hn : Plain n) (hm : Plain m)
    (hnames : Names s parent (some n) path) (hnames' : Names s q (some m) path) :
    (parent, n) = (q, m) := by
  obtain ⟨_, ppath, hname, hp, rfl⟩ := hnames
  obtain ⟨_, qpath, hname', hq, heq⟩ := hnames'
  cases hname
  cases hname'
  obtain ⟨l, hl, hvalid, rfl⟩ := leads_of_pathOf h hp
  obtain ⟨l', hl', hvalid', rfl⟩ := leads_of_pathOf h hq
  rw [childPath_joinPath hvalid, childPath_joinPath hvalid'] at heq
  have hlist := joinPath_injective (noSlash_concat hvalid hn) (noSlash_concat hvalid' hm)
    (by simp) (by simp) heq
  obtain ⟨rfl, hlast⟩ := List.append_inj' hlist rfl
  exact Prod.ext (hl.unique hl') (List.singleton_inj.mp hlast)

end Child

/-! ### What requests do to the names -/

/-- Each name of the request may stand for one component of a path. -/
def Message.PlainNames : Message → Prop
  | .lookup _ name | .mkdir _ name _ | .rmdir _ name | .unlink _ name | .create _ name _ _
  | .symlink _ name _ | .link _ _ name => ∀ n, name = some n → Plain n
  | .rename _ name _ newname _ => (∀ n, name = some n → Plain n) ∧ ∀ n, newname = some n → Plain n
  | _ => True

/-- What an answer says about the names that there were when the request was served. -/
def Message.Says (s : Filesystem) (τ : NameTable) : Message → Answer → Prop
  | .lookup p (some n), .node r => τ (p, n) = some r.attr.ino
  | .mkdir p (some n) _, .node r | .symlink p (some n) _, .node r =>
    τ (p, n) = none ∧ s.conn.hasNode r.attr.ino = false
  | .create p (some n) _ _, .created r =>
    τ (p, n) = some r.attr.ino ∨ τ (p, n) = none ∧ s.conn.hasNode r.attr.ino = false
  | .link i p (some n), .node r => τ (p, n) = none ∧ r.attr.ino = i
  | .rmdir p (some n), _ | .unlink p (some n), _ => τ (p, n) ≠ none
  | .rename p (some n) q (some m) _, _ => (p, n) = (q, m) ∨ τ (p, n) ≠ none
  | _, _ => True

/-- What the names are after an answer. -/
def Message.heard : Message → Answer → NameTable → NameTable
  | .mkdir p (some n) _, .node r, τ | .symlink p (some n) _, .node r, τ
  | .link _ p (some n), .node r, τ | .create p (some n) _ _, .created r, τ => τ.add (p, n) r.attr.ino
  | .rmdir p (some n), _, τ | .unlink p (some n), _, τ => τ.remove (p, n)
  | .rename p (some n) q (some m) _, _, τ => τ.move (p, n) (q, m)
  | _, _, τ => τ

section Requests
variable {s t : Filesystem} {req : Request} {clock : Clock} {parent ino : ℕ} {name : OsStr}
  {n path : Str} {k : ℕ × Str} {α β γ : Type}

lemma bind_result_ok {p : Action α} {f : α → Action β} {b : β} :
    ((p >>= f) s).result = .ok b ↔
      ∃ a, (p s).result = .ok a ∧ (f a (p s).state).result = .ok b := by
  cases hp : p s with
  | mk x u commits =>
    cases x with
    | error e => rw [Prog.bind_apply_error hp]; simp
    | ok a => rw [Prog.bind_apply_ok hp]; simp

lemma reply_conn {f : α → Answer} {p : Action (Except Errno α)} :
    (reply f p s).state.conn = (p s).state.conn :=
  congrArg conn (Prog.bind_state_of_idle (fun _ => pure_idle _) s)

lemma onNode_conn {p : Str → Action α} (hpath : PathOf s ino path) :
    (Adapter.onNode req ino p s).state.conn = (p path (req.view s)).state.conn := by
  unfold Adapter.onNode
  rw [pathOfInode_run hpath]
  exact asUserOf_conn fun _ _ => rfl

lemma onChild_conn {p : Str → Action α} (hnames : Names s parent name path) :
    (Adapter.onChild req parent name p s).state.conn = (p path (req.view s)).state.conn := by
  obtain ⟨n, ppath, rfl, hpath, rfl⟩ := hnames
  exact onNode_conn (p := fun path => p (Adapter.childPath path n)) hpath

/-- The node that `stat` finds stands in the table. -/
lemma stat_nameTable (htree : s.conn.Tree) (htree' : t.conn.Tree)
    (hsub : ∀ x ∈ s.conn.entries, x ∈ t.conn.entries)
    (hk : resolveParentAndName s.conn path = .ok k) {st : Stat}
    (hst : (stat path t).result = .ok st) : t.conn.nameTable k = some st.inode := by
  obtain ⟨p, n⟩ := k
  have hfinds : ∃ i row, Finds t path i row := stat_returns.mp ⟨st, hst⟩
  obtain ⟨i, row, hi, hrow⟩ := hfinds
  rw [stat_run hi hrow] at hst
  obtain rfl := Except.ok.inj hst
  obtain ⟨l, hparse, hl⟩ := (resolveParentAndName_eq_ok htree).mp hk
  obtain ⟨l', hparse', hl'⟩ := (resolveToInode_eq_ok htree').mp hi
  cases hparse.symm.trans hparse'
  obtain ⟨e, he, hparent, hname, hinode⟩ := Db.Leads.concat_iff.mp hl'
  have hp : e.parent = p := hparent.unique (hl.mono hsub)
  have hino : row.stat.inode = i := (Nodes.info_of_get hrow).choose_spec.2.2.2.2
  rw [hino, ← hinode, ← Db.nameTable_of_mem he, hp, hname]

/-- The table has more names after an operation, where it has a new one, and none less. -/
lemma stat_nameTable_of_add (htree : s.conn.Tree) (htree' : t.conn.Tree) {i : ℕ}
    (hfree : s.conn.nameTable k = none) (hadd : t.conn.nameTable = s.conn.nameTable.add k i)
    (hk : resolveParentAndName s.conn path = .ok k) {st : Stat}
    (hst : (stat path t).result = .ok st) : st.inode = i := by
  have hstat : t.conn.nameTable k = some st.inode := by
    refine stat_nameTable htree htree' (fun x hx => Db.mem_of_nameTable ?_ hx) hk hst
    intro k' j hj
    rw [hadd]
    exact NameTable.add_of_some hfree hj i
  rw [hadd, NameTable.add_self] at hstat
  exact (Option.some.inj hstat).symm

lemma tree_after (h : Reachable s) (clock : Clock) (req : Request) (operation : Op) :
    (operation.run clock (req.view s)).state.conn.Tree := by
  have hnext : Reachable ((Call.op (some (req.uid, req.gid)) clock operation).exec s) :=
    .next h trivial
  have htree : ((Call.op (some (req.uid, req.gid)) clock operation).exec s).conn.Tree :=
    (rooted_runsTo hnext).tree
  rw [exec_op, asUser_conn] at htree
  exact htree

/-- A request that is answered with what an operation returns and with what `stat` shows then. -/
lemma addition_ok {op : Str → Action β} {f : β → Stat → α} {a : α}
    (hok : (Adapter.onChild req parent name (fun path => do
      let b ← op path
      let st ← stat path
      return f b st) s).result = .ok (.ok a)) :
    ∃ path b st, Names s parent name path ∧ (op path (req.view s)).result = .ok b ∧
      (stat path (op path (req.view s)).state).result = .ok st ∧ a = f b st := by
  obtain ⟨path, hnames, hrun⟩ := onChild_ok.mp hok
  obtain ⟨b, hb, hrun⟩ := bind_result_ok.mp hrun
  rw [bind_pure_result, map_eq_ok] at hrun
  obtain ⟨st, hst, rfl⟩ := hrun
  exact ⟨path, b, st, hnames, hb, hst, rfl⟩

lemma addition_conn {op : Str → Action β} {f : β → Stat → α} (hnames : Names s parent name path) :
    (Adapter.onChild req parent name (fun path => do
      let b ← op path
      let st ← stat path
      return f b st) s).state.conn = (op path (req.view s)).state.conn :=
  (onChild_conn hnames).trans (congrArg conn (Prog.bind_state_of_idle (fun _ => stat_idle _ path) _))

lemma rename_run {newparent : ℕ} {newname : OsStr} {flags : UInt32} {src dst : Str}
    (hsrc : Names s parent name src) (hdst : Names s newparent newname dst) :
    Adapter.rename clock req parent name newparent newname flags s
      = Adapter.onFd req (Filesystem.rename clock src dst) s := by
  obtain ⟨n, ppath, rfl, hp, rfl⟩ := hsrc
  obtain ⟨m, qpath, rfl, hq, rfl⟩ := hdst
  exact (pathOfInode_run hp).trans (pathOfInode_run hq)

section Answered
variable (h : Reachable s) (hn : Plain n)
include h hn

lemma mkdir_request {mode : UInt32} {r : ReplyNode}
    (hok : (Adapter.mkdir clock req parent (some n) mode s).result = .ok (.ok r)) :
    s.conn.nameTable (parent, n) = none ∧ s.conn.hasNode r.attr.ino = false ∧
      (Adapter.mkdir clock req parent (some n) mode s).state.conn.nameTable
        = s.conn.nameTable.add (parent, n) r.attr.ino := by
  obtain ⟨path, b, st, hnames, hb, hst, rfl⟩ := addition_ok hok
  obtain ⟨k, i, hk, hfree, hfresh, hadd⟩ := mkdir_names.of_ok hb
  obtain rfl := eq_of_resolveParent h hn hnames hk
  have htree := tree_after h clock req (.mkdir path mode)
  rw [Op.run, answer_state] at htree
  obtain rfl := stat_nameTable_of_add (s := req.view s) (rooted_runsTo h).tree htree hfree hadd hk hst
  exact ⟨hfree, hfresh, (congrArg Db.nameTable (addition_conn hnames)).trans hadd⟩

lemma symlink_request {target : Bytes} {r : ReplyNode}
    (hok : (Adapter.symlink clock req parent (some n) target s).result = .ok (.ok r)) :
    s.conn.nameTable (parent, n) = none ∧ s.conn.hasNode r.attr.ino = false ∧
      (Adapter.symlink clock req parent (some n) target s).state.conn.nameTable
        = s.conn.nameTable.add (parent, n) r.attr.ino := by
  obtain ⟨path, b, st, hnames, hb, hst, rfl⟩ := addition_ok hok
  obtain ⟨k, i, hk, hfree, hfresh, hadd⟩ := symlink_names.of_ok hb
  obtain rfl := eq_of_resolveParent h hn hnames hk
  have htree := tree_after h clock req (.symlink target path)
  rw [Op.run, answer_state] at htree
  obtain rfl := stat_nameTable_of_add (s := req.view s) (rooted_runsTo h).tree htree hfree hadd hk hst
  exact ⟨hfree, hfresh, (congrArg Db.nameTable (addition_conn hnames)).trans hadd⟩

lemma create_request {mode : UInt32} {flags : Flags} {r : ReplyCreated}
    (hok : (Adapter.create clock req parent (some n) mode flags s).result = .ok (.ok r)) :
    s.conn.nameTable (parent, n) = some r.attr.ino ∧
        (Adapter.create clock req parent (some n) mode flags s).state.conn.nameTable
          = s.conn.nameTable ∨
      s.conn.nameTable (parent, n) = none ∧ s.conn.hasNode r.attr.ino = false ∧
        (Adapter.create clock req parent (some n) mode flags s).state.conn.nameTable
          = s.conn.nameTable.add (parent, n) r.attr.ino := by
  obtain ⟨path, b, st, hnames, hb, hst, rfl⟩ := addition_ok hok
  obtain ⟨k, hk, hcase⟩ := create_names.of_ok hb
  obtain rfl := eq_of_resolveParent h hn hnames hk
  have htree : s.conn.Tree := (rooted_runsTo h).tree
  have htree' := tree_after h clock req (.create path flags mode)
  rw [Op.run, answer_state] at htree'
  have hconn : (Adapter.create clock req parent (some n) mode flags s).state.conn.nameTable
      = (Filesystem.create clock path flags mode (req.view s)).state.conn.nameTable :=
    congrArg Db.nameTable (addition_conn hnames)
  rcases hcase with ⟨-, hsame⟩ | ⟨hfree, i, hfresh, hadd⟩
  · refine Or.inl ⟨?_, hconn.trans hsame⟩
    have hstat := stat_nameTable (s := req.view s) htree htree'
      (fun x hx => Db.mem_of_nameTable (fun k i hk => by rw [hsame]; exact hk) hx) hk hst
    rw [hsame] at hstat
    exact hstat
  · obtain rfl := stat_nameTable_of_add (s := req.view s) htree htree' hfree hadd hk hst
    exact Or.inr ⟨hfree, hfresh, hconn.trans hadd⟩

omit h hn in
lemma link_run {target : Str} (hpath : PathOf s ino target) :
    Adapter.link clock req ino parent (some n) s = Adapter.onChild req parent (some n) (fun path => do
      Filesystem.link clock target path
      let st ← stat path
      return replyNode st) s :=
  pathOfInode_run hpath

omit h hn in
lemma link_unnamed (hpath : (pathOfInode ino s).result = .ok none) :
    Adapter.link clock req ino parent (some n) s
      = (pure (.error Libc.ENOENT) : Action (Except Errno ReplyNode)) s :=
  pathOfInode_run hpath

lemma link_request {r : ReplyNode}
    (hok : (Adapter.link clock req ino parent (some n) s).result = .ok (.ok r)) :
    s.conn.nameTable (parent, n) = none ∧ r.attr.ino = ino ∧
      (Adapter.link clock req ino parent (some n) s).state.conn.nameTable
        = s.conn.nameTable.add (parent, n) ino := by
  obtain ⟨o, ho, hrun⟩ := bind_result_ok.mp hok
  cases o with
  | none => cases hrun
  | some target =>
    rw [link_run ho] at hok ⊢
    obtain ⟨path, b, st, hnames, hb, hst, rfl⟩ := addition_ok hok
    obtain ⟨k, i, hi, hk, hfree, hadd⟩ := link_names.of_ok hb
    obtain rfl := eq_of_resolveParent h hn hnames hk
    obtain rfl := eq_of_resolved h h rfl ho hi
    have htree := tree_after h clock req (.link target path)
    rw [Op.run, answer_state] at htree
    have hino := stat_nameTable_of_add (s := req.view s) (rooted_runsTo h).tree htree hfree hadd hk hst
    exact ⟨hfree, hino, (congrArg Db.nameTable (addition_conn hnames)).trans hadd⟩

lemma rmdir_request {u : PUnit}
    (hok : (Adapter.rmdir clock req parent (some n) s).result = .ok (.ok u)) :
    s.conn.nameTable (parent, n) ≠ none ∧
      (Adapter.rmdir clock req parent (some n) s).state.conn.nameTable
        = s.conn.nameTable.remove (parent, n) := by
  obtain ⟨path, hnames, hrun⟩ := onChild_ok.mp hok
  obtain ⟨k, hk, hthere, hremove⟩ := rmdir_names.of_ok hrun
  obtain rfl := eq_of_resolveParent h hn hnames hk
  exact ⟨hthere, (congrArg Db.nameTable (onChild_conn hnames)).trans hremove⟩

lemma unlink_request {u : PUnit}
    (hok : (Adapter.unlink clock req parent (some n) s).result = .ok (.ok u)) :
    s.conn.nameTable (parent, n) ≠ none ∧
      (Adapter.unlink clock req parent (some n) s).state.conn.nameTable
        = s.conn.nameTable.remove (parent, n) := by
  obtain ⟨path, hnames, hrun⟩ := onChild_ok.mp hok
  have hcounted : s.core.Counted (· ≠ .dir) := files_counted h
  obtain ⟨k, hk, hthere, hremove⟩ := 
    (unlink_names (s := req.view s) hcounted (rooted_runsTo h).tree).of_ok hrun
  obtain rfl := eq_of_resolveParent h hn hnames hk
  exact ⟨hthere, (congrArg Db.nameTable (onChild_conn hnames)).trans hremove⟩

omit hn in
lemma rename_request {newparent : ℕ} {m : Str} {flags : UInt32} {u : PUnit} (hn : Plain n) (hm : Plain m)
    (hok : (Adapter.rename clock req parent (some n) newparent (some m) flags s).result = .ok (.ok u)) :
    ((parent, n) = (newparent, m) ∨ s.conn.nameTable (parent, n) ≠ none) ∧
      (Adapter.rename clock req parent (some n) newparent (some m) flags s).state.conn.nameTable
        = s.conn.nameTable.move (parent, n) (newparent, m) := by
  obtain ⟨o, ho, hrun⟩ := bind_result_ok.mp hok
  cases o with
  | none => cases hrun
  | some ppath =>
    rw [(pathOfInode_reads parent s).1] at hrun
    obtain ⟨o', ho', hrun⟩ := bind_result_ok.mp hrun
    cases o' with
    | none => cases hrun
    | some qpath =>
      have hsrc : Names s parent (some n) (Adapter.childPath ppath n) := ⟨n, ppath, rfl, ho, rfl⟩
      have hdst : Names s newparent (some m) (Adapter.childPath qpath m) := ⟨m, qpath, rfl, ho', rfl⟩
      have hconn : (Adapter.rename clock req parent (some n) newparent (some m) flags s).state.conn.nameTable
          = (Filesystem.rename clock _ _ (req.view s)).state.conn.nameTable :=
        congrArg Db.nameTable (rename_named hsrc hdst)
      rw [(pathOfInode_reads newparent s).1] at hrun
      have hreturns := onFd_ok.mp hrun
      rcases (rename_names (s := req.view s) (rooted_runsTo h).tree).of_ok hreturns with
        ⟨heq, hsame⟩ | ⟨k, k', hk, hk', hthere, hmove⟩
      · have heq' : (parent, n) = (newparent, m) := names_injective h hn hm hsrc (heq ▸ hdst)
        refine ⟨Or.inl heq', hconn.trans (hsame.trans ?_)⟩
        rw [heq', NameTable.move_self]
        rfl
      · obtain rfl := eq_of_resolveParent h hn hsrc hk
        obtain rfl := eq_of_resolveParent h hm hdst hk'
        exact ⟨Or.inr hthere, hconn.trans hmove⟩

lemma lookup_request {r : ReplyNode}
    (hok : (Adapter.lookup req parent (some n) s).result = .ok (.ok r)) :
    s.conn.nameTable (parent, n) = some r.attr.ino := by
  obtain ⟨path, hnames, hrun⟩ := onChild_ok.mp hok
  rw [bind_pure_result, map_eq_ok] at hrun
  obtain ⟨st, hst, rfl⟩ := hrun
  have htree : s.conn.Tree := (rooted_runsTo h).tree
  have hfinds : ∃ i row, Finds (req.view s) path i row := stat_returns.mp ⟨st, hst⟩
  obtain ⟨i, row, hi, -⟩ := hfinds
  obtain ⟨l, hparse, -⟩ := (resolveToInode_eq_ok htree).mp hi
  have hk := resolveParent_of_names h hn hnames hparse
  exact stat_nameTable htree (t := req.view s) htree (fun x hx => hx) hk hst

end Answered

/-! ### Requests that fail -/

lemma onChild_unnamed (htree : s.conn.Tree) {p : Str → Action α}
    (hunnamed : ¬ ∃ path, Names s parent name path) : (Adapter.onChild req parent name p s).state = s := by
  cases name with
  | none => rfl
  | some n =>
    obtain ⟨o, ho⟩ := pathOfInode_ok htree parent
    cases o with
    | none =>
      have hrun : Adapter.onChild req parent (some n) p s
          = (pure (.error Libc.ENOENT) : Action (Except Errno α)) s := pathOfInode_run ho
      rw [hrun]
      rfl
    | some ppath => exact absurd ⟨_, n, ppath, rfl, ho, rfl⟩ hunnamed

/-- A request that is not answered has changed nothing, if its work on the path changes nothing where it
does not return. -/
lemma onChild_failed (htree : s.conn.Tree) {p : Str → Action α}
    (hfail : ∀ a, (Adapter.onChild req parent name p s).result ≠ .ok (.ok a))
    (hkeeps : ∀ path, Names s parent name path → ¬ Prog.Returns (p path) (req.view s) →
      (p path (req.view s)).state.conn = s.conn) :
    (Adapter.onChild req parent name p s).state.conn = s.conn := by
  by_cases hnamed : ∃ path, Names s parent name path
  · obtain ⟨path, hnames⟩ := hnamed
    refine (onChild_conn hnames).trans (hkeeps path hnames ?_)
    rintro ⟨a, ha⟩
    exact hfail a (onChild_ok.mpr ⟨path, hnames, ha⟩)
  · rw [onChild_unnamed htree hnamed]

/-- An operation with one commit that does not return has changed nothing. -/
lemma conn_of_not_returns {p : Action α} {f : α → Reply} (operation : Op)
    (hrun : operation.run clock = answer f p) (hone : operation.OneStep)
    (h : ¬ Prog.Returns p s) : (p s).state.conn = s.conn := by
  have hstate : (operation.run clock s).state = (p s).state := by rw [hrun, answer_state]
  rw [← hstate]
  rcases operation.settles s clock hone with ⟨x, hx⟩ | hsettles
  · rw [hx]
  · obtain ⟨b, hb⟩ := hsettles.returns
    rw [hrun, answer_apply] at hb
    obtain ⟨a, ha, -⟩ := map_eq_ok.mp hb
    exact absurd ⟨a, ha⟩ h

/-- Where the name is in the table, `stat` finds its node. -/
lemma stat_ok (htree : s.conn.Tree) (htree' : t.conn.Tree)
    (hsub : ∀ x ∈ s.conn.entries, x ∈ t.conn.entries)
    (hk : resolveParentAndName s.conn path = .ok k) {i : ℕ} (hi : t.conn.nameTable k = some i) :
    ∃ st, (stat path t).result = .ok st := by
  obtain ⟨p, n⟩ := k
  obtain ⟨l, hparse, hl⟩ := (resolveParentAndName_eq_ok htree).mp hk
  have hmem := Db.nameTable_eq_some.mp hi
  have hres : resolveToInode t.conn path = .ok i :=
    (resolveToInode_eq_ok htree').mpr ⟨_, hparse, (hl.mono hsub).concat hmem⟩
  obtain ⟨info, hinfo⟩ := Db.hasNode_iff.mp (htree'.child _ hmem)
  obtain ⟨row, hrow, -⟩ := Nodes.get_of_kind (Db.kind_of_info hinfo)
  exact stat_returns.mpr ⟨i, row, hres, hrow⟩

section Failed
variable (h : Reachable s)
include h

/-- Where the operation succeeds, `stat` does: a request that is not answered has made no change. -/
lemma addition_failed {op : Str → Action β} {f : β → Stat → α} {g : β → Reply} (operation : Str → Op)
    (hrun : ∀ path, (operation path).run clock = answer g (op path))
    (hone : ∀ path, (operation path).OneStep)
    (hputs : ∀ path b, (op path (req.view s)).result = .ok b →
      ∃ k i, resolveParentAndName s.conn path = .ok k ∧
        (∀ k' j, s.conn.nameTable k' = some j → (op path (req.view s)).state.conn.nameTable k' = some j) ∧
        (op path (req.view s)).state.conn.nameTable k = some i)
    (hfail : ∀ a, (Adapter.onChild req parent name (fun path => do
      let b ← op path
      let st ← stat path
      return f b st) s).result ≠ .ok (.ok a)) :
    (Adapter.onChild req parent name (fun path => do
      let b ← op path
      let st ← stat path
      return f b st) s).state.conn = s.conn := by
  refine onChild_failed (rooted_runsTo h).tree hfail fun path hnames hnot => ?_
  refine (congrArg conn (Prog.bind_state_of_idle (fun _ => stat_idle _ path) _)).trans ?_
  refine conn_of_not_returns (s := req.view s) (operation path) (hrun path) (hone path) ?_
  rintro ⟨b, hb⟩
  obtain ⟨k, i, hk, hkeeps, hi⟩ := hputs path b hb
  have htree := tree_after h clock req (operation path)
  rw [hrun, answer_state] at htree
  obtain ⟨st, hst⟩ := stat_ok (rooted_runsTo h).tree htree
    (fun x hx => Db.mem_of_nameTable hkeeps hx) hk hi
  refine hnot ⟨f b st, bind_result_ok.mpr ⟨b, hb, ?_⟩⟩
  rw [bind_pure_result, hst]
  rfl

omit h in
lemma puts_of_add {i : ℕ} (hk : resolveParentAndName s.conn path = .ok k)
    (hfree : s.conn.nameTable k = none) (hadd : t.conn.nameTable = s.conn.nameTable.add k i) :
    ∃ k i, resolveParentAndName s.conn path = .ok k ∧
      (∀ k' j, s.conn.nameTable k' = some j → t.conn.nameTable k' = some j) ∧
      t.conn.nameTable k = some i := by
  rw [hadd]
  exact ⟨k, i, hk, fun k' j hj => NameTable.add_of_some hfree hj i, NameTable.add_self⟩

lemma mkdir_failed {mode : UInt32}
    (hfail : ∀ r, (Adapter.mkdir clock req parent name mode s).result ≠ .ok (.ok r)) :
    (Adapter.mkdir clock req parent name mode s).state.conn = s.conn := by
  refine addition_failed h (fun path => .mkdir path mode) (fun _ => rfl) (fun _ => trivial) ?_ hfail
  intro path b hb
  obtain ⟨k, i, hk, hfree, -, hadd⟩ := mkdir_names.of_ok hb
  exact puts_of_add hk hfree hadd

lemma symlink_failed {target : Bytes}
    (hfail : ∀ r, (Adapter.symlink clock req parent name target s).result ≠ .ok (.ok r)) :
    (Adapter.symlink clock req parent name target s).state.conn = s.conn := by
  refine addition_failed h (fun path => .symlink target path) (fun _ => rfl) (fun _ => trivial) ?_ hfail
  intro path b hb
  obtain ⟨k, i, hk, hfree, -, hadd⟩ := symlink_names.of_ok hb
  exact puts_of_add hk hfree hadd

lemma create_failed {mode : UInt32} {flags : Flags}
    (hfail : ∀ r, (Adapter.create clock req parent name mode flags s).result ≠ .ok (.ok r)) :
    (Adapter.create clock req parent name mode flags s).state.conn = s.conn := by
  refine addition_failed h (fun path => .create path flags mode) (fun _ => rfl) (fun _ => trivial) ?_ hfail
  intro path b hb
  obtain ⟨k, hk, ⟨hthere, hsame⟩ | ⟨hfree, i, -, hadd⟩⟩ := create_names.of_ok hb
  · obtain ⟨i, hi⟩ := Option.ne_none_iff_exists'.mp hthere
    rw [hsame]
    exact ⟨k, i, hk, fun _ _ hj => hj, hi⟩
  · exact puts_of_add hk hfree hadd

lemma link_failed (hfail : ∀ r, (Adapter.link clock req ino parent name s).result ≠ .ok (.ok r)) :
    (Adapter.link clock req ino parent name s).state.conn = s.conn := by
  cases name with
  | none => rfl
  | some n =>
    obtain ⟨o, ho⟩ := pathOfInode_ok (rooted_runsTo h).tree ino
    cases o with
    | none => exact congrArg (fun o => o.state.conn) (link_unnamed ho)
    | some target =>
      rw [link_run ho] at hfail ⊢
      refine addition_failed h (fun path => .link target path) (fun _ => rfl) (fun _ => trivial) ?_ hfail
      intro path b hb
      obtain ⟨k, i, -, hk, hfree, hadd⟩ := link_names.of_ok hb
      exact puts_of_add hk hfree hadd

lemma rmdir_failed (hfail : ∀ u, (Adapter.rmdir clock req parent name s).result ≠ .ok (.ok u)) :
    (Adapter.rmdir clock req parent name s).state.conn = s.conn :=
  onChild_failed (rooted_runsTo h).tree hfail fun path _ hnot =>
    conn_of_not_returns (s := req.view s) (.rmdir path) rfl trivial hnot

/-- An `unlink` that is not answered has changed nothing, unless the count of the names has wrapped
around. -/
lemma unlink_failed
    (hwrap : ∀ path, Names s parent name path → ¬ WrapsAround (req.view s) (.unlink path))
    (hfail : ∀ u, (Adapter.unlink clock req parent name s).result ≠ .ok (.ok u)) :
    (Adapter.unlink clock req parent name s).state.conn = s.conn := by
  refine onChild_failed (rooted_runsTo h).tree hfail fun path hnames hnot => ?_
  have hmay : Prog.RefusesOr (Filesystem.unlink clock path) (req.view s) fun _ =>
      ∃ e row, MayUnlink (req.view s) path e row := unlink_may
  rcases hmay with ⟨x, hx⟩ | ⟨e, row, hmay⟩
  · rw [hx]
    rfl
  · have hcounted : s.core.Counted (· ≠ .dir) := files_counted h
    have hunlinks := unlink_unlinks (s := req.view s) clock hcounted hmay
    unfold Prog.Returns at hnot
    generalize Filesystem.unlink clock path (req.view s) = o at hunlinks hnot ⊢
    cases hunlinks with
    | keeps | deletes => exact absurd ⟨_, rfl⟩ hnot
    | fails hdrops hnames' hne hopen => exact absurd ⟨e, row, hmay, hopen, hnames', hne⟩ (hwrap path hnames)

lemma rename_failed {newparent : ℕ} {newname : OsStr} {flags : UInt32}
    (hfail : ∀ u, (Adapter.rename clock req parent name newparent newname flags s).result ≠ .ok (.ok u)) :
    (Adapter.rename clock req parent name newparent newname flags s).state.conn = s.conn := by
  by_cases hnamed : ∃ src dst, Names s parent name src ∧ Names s newparent newname dst
  · obtain ⟨src, dst, hsrc, hdst⟩ := hnamed
    refine (rename_named hsrc hdst).trans ?_
    refine conn_of_not_returns (s := req.view s) (.rename src dst) rfl trivial ?_
    rintro ⟨u, hu⟩
    refine hfail u ?_
    rw [rename_run hsrc hdst]
    exact onFd_ok.mpr hu
  · exact rename_unnamed (rooted_runsTo h).tree flags hnamed

end Failed

/-! ### The other requests -/

lemma nameTable_exec (h : Reachable s) (user : Option (UInt32 × UInt32)) (clock : Clock) {operation : Op}
    (hop : ∀ u τ τ', operation.OnNames u τ τ' → τ' = τ) :
    ((Call.op user clock operation).exec s).conn.nameTable = s.conn.nameTable := by
  have hrooted : (s.actAs user).core.Rooted := by
    rw [actAs_core]
    exact rooted_runsTo h
  have hcounted : (s.actAs user).core.Counted (· ≠ .dir) := by
    rw [actAs_core]
    exact files_counted h
  have hnames : Prog.RefusesOr (operation.run clock) (s.actAs user) (LeavesNames (s.actAs user) operation) :=
    Op.names hrooted hcounted operation
  rw [exec_op, asUser_conn, ← actAs_conn s user]
  rcases hnames with ⟨x, hx⟩ | hleaves
  · rw [hx]
  · exact hop _ _ _ hleaves

/-- A request that is not about a name, or only looks at one. -/
def Message.Nameless : Message → Prop
  | .mkdir .. | .symlink .. | .create .. | .link .. | .rmdir .. | .unlink .. | .rename .. => False
  | _ => True

lemma Message.Nameless.makes {m : Message} (hm : m.Nameless) {operation : Op}
    (hmakes : m.Makes s operation) {u : Filesystem} {τ τ' : NameTable} (hon : operation.OnNames u τ τ') :
    τ' = τ := by
  cases m with
  | setattr r ino c =>
    obtain ⟨path, -, hmakes⟩ := hmakes
    cases operation with
    | chmod | chown | utimes | open_ | closeFd => exact hon
    | _ => exact hmakes.elim
  | open_ ino flags =>
    obtain ⟨path, -, rfl⟩ := hmakes
    exact hon
  | setxattr ino name value flags =>
    obtain ⟨n, path, -, -, rfl⟩ := hmakes
    exact hon
  | removexattr ino name =>
    obtain ⟨n, path, -, -, rfl⟩ := hmakes
    exact hon
  | write | release =>
    cases hmakes
    exact hon
  | mkdir | symlink | create | link | rmdir | unlink | rename => exact hm.elim
  | _ => exact hmakes.elim

lemma nameless_request (h : Reachable s) (clock : Clock) (req : Request) {m : Message} (hm : m.Nameless) :
    (m.run clock req s).state.conn.nameTable = s.conn.nameTable := by
  obtain ⟨l, hl, hs⟩ := message_plays clock req m s
  have hrun : Run (· = s) Call.exec (fun _ call => req.Makes (m.Makes s) call)
      (Run.after Call.exec l s) :=
    Run.after_of_forall_mem l (fun call hcall _ => hl call hcall) (.start rfl)
  rw [hs]
  refine (Run.invariant (P := fun t => Reachable t ∧ t.conn.nameTable = s.conn.nameTable) ?_ ?_ hrun).2
  · rintro _ rfl
    exact ⟨h, rfl⟩
  · rintro t _ _ ⟨clock', operation, hmakes, rfl⟩ ⟨ht, heq⟩
    exact ⟨.next ht trivial,
      (nameTable_exec ht _ clock' fun _ _ _ hon => hm.makes hmakes hon).trans heq⟩

/-- What a request that is answered has done to the names. -/
lemma answered_names (h : Reachable s) {m : Message} (hplain : m.PlainNames) {a : Answer}
    (hok : (m.run clock req s).result = .ok (.ok a)) : m.Says s s.conn.nameTable a ∧
      (m.run clock req s).state.conn.nameTable = m.heard a s.conn.nameTable := by
  have hnameless : m.Nameless →
      (m.run clock req s).state.conn.nameTable = s.conn.nameTable := nameless_request h clock req
  cases m with
  | lookup parent name =>
    obtain ⟨r, hr, rfl⟩ := reply_ok.mp hok
    cases name with
    | none => cases hr
    | some n => exact ⟨lookup_request h (hplain n rfl) hr, hnameless trivial⟩
  | mkdir parent name mode =>
    obtain ⟨r, hr, rfl⟩ := reply_ok.mp hok
    rw [Message.run, reply_conn]
    cases name with
    | none => cases hr
    | some n =>
      obtain ⟨hfree, hfresh, hadd⟩ := mkdir_request h (hplain n rfl) hr
      exact ⟨⟨hfree, hfresh⟩, hadd⟩
  | symlink parent name target =>
    obtain ⟨r, hr, rfl⟩ := reply_ok.mp hok
    rw [Message.run, reply_conn]
    cases name with
    | none => cases hr
    | some n =>
      obtain ⟨hfree, hfresh, hadd⟩ := symlink_request h (hplain n rfl) hr
      exact ⟨⟨hfree, hfresh⟩, hadd⟩
  | create parent name mode flags =>
    obtain ⟨r, hr, rfl⟩ := reply_ok.mp hok
    rw [Message.run, reply_conn]
    cases name with
    | none => cases hr
    | some n =>
      rcases create_request h (hplain n rfl) hr with ⟨hthere, hsame⟩ | ⟨hfree, hfresh, hadd⟩
      · -- the name stands for the file already: it is heard of once more
        exact ⟨Or.inl hthere, hsame.trans (Function.update_eq_self_iff.mpr hthere.symm).symm⟩
      · exact ⟨Or.inr ⟨hfree, hfresh⟩, hadd⟩
  | link ino parent name =>
    obtain ⟨r, hr, rfl⟩ := reply_ok.mp hok
    rw [Message.run, reply_conn]
    cases name with
    | none => cases hr
    | some n =>
      obtain ⟨hfree, rfl, hadd⟩ := link_request h (hplain n rfl) hr
      exact ⟨⟨hfree, rfl⟩, hadd⟩
  | rmdir parent name =>
    obtain ⟨r, hr, rfl⟩ := reply_ok.mp hok
    rw [Message.run, reply_conn]
    cases name with
    | none => cases hr
    | some n => exact rmdir_request h (hplain n rfl) hr
  | unlink parent name =>
    obtain ⟨r, hr, rfl⟩ := reply_ok.mp hok
    rw [Message.run, reply_conn]
    cases name with
    | none => cases hr
    | some n => exact unlink_request h (hplain n rfl) hr
  | rename parent name newparent newname flags =>
    obtain ⟨r, hr, rfl⟩ := reply_ok.mp hok
    rw [Message.run, reply_conn]
    cases name with
    | none => cases hr
    | some n =>
      cases newname with
      | none => cases hr
      | some m => exact rename_request h (hplain.1 n rfl) (hplain.2 m rfl) hr
  | _ => exact ⟨trivial, hnameless trivial⟩

/-- An `unlink` of a name in a number of them at which their count has wrapped around. -/
def Message.Wraps (s : Filesystem) (req : Request) : Message → Prop
  | .unlink parent name => ∃ path, Names s parent name path ∧ WrapsAround (req.view s) (.unlink path)
  | _ => False

lemma not_ok_of_reply {f : α → Answer} {p : Action (Except Errno α)}
    (h : ∀ a, (reply f p s).result ≠ .ok (.ok a)) (b : α) : (p s).result ≠ .ok (.ok b) :=
  fun hb => h (f b) (reply_ok.mpr ⟨b, hb, rfl⟩)

/-- A request that is not answered leaves the names alone. -/
lemma failed_names (h : Reachable s) {m : Message} (hwraps : ¬ m.Wraps s req)
    (hfail : ∀ a, (m.run clock req s).result ≠ .ok (.ok a)) :
    (m.run clock req s).state.conn.nameTable = s.conn.nameTable := by
  have hnameless : m.Nameless →
      (m.run clock req s).state.conn.nameTable = s.conn.nameTable := nameless_request h clock req
  cases m with
  | mkdir parent name mode =>
    rw [Message.run, reply_conn, mkdir_failed h (not_ok_of_reply hfail)]
  | symlink parent name target =>
    rw [Message.run, reply_conn, symlink_failed h (not_ok_of_reply hfail)]
  | create parent name mode flags =>
    rw [Message.run, reply_conn, create_failed h (not_ok_of_reply hfail)]
  | link ino parent name => rw [Message.run, reply_conn, link_failed h (not_ok_of_reply hfail)]
  | rmdir parent name => rw [Message.run, reply_conn, rmdir_failed h (not_ok_of_reply hfail)]
  | unlink parent name =>
    rw [Message.run, reply_conn, unlink_failed h ?_ (not_ok_of_reply hfail)]
    exact fun path hnames hwrap => hwraps ⟨path, hnames, hwrap⟩
  | rename parent name newparent newname flags =>
    rw [Message.run, reply_conn, rename_failed h (not_ok_of_reply hfail)]
  | _ => exact hnameless trivial

/-! ### Sessions -/

def Turn.heard (s : Filesystem) : Turn → NameTable → NameTable
  | .serve clock req m, τ =>
    match (m.run clock req s).result with
    | .ok (.ok a) => m.heard a τ
    | _ => τ
  | .remount .., τ => τ

def Turn.PlainNames : Turn → Prop
  | .serve _ _ m => m.PlainNames
  | .remount .. => True

def Turn.Wraps (s : Filesystem) : Turn → Prop
  | .serve _ req m => m.Wraps s req
  | .remount .. => False

lemma turn_names (h : Reachable s) {turn : Turn} (hplain : turn.PlainNames) (hwraps : ¬ turn.Wraps s) :
    (turn.exec s).conn.nameTable = turn.heard s s.conn.nameTable := by
  cases turn with
  | remount readonly uid gid => rfl
  | serve clock req m =>
    unfold Turn.heard
    dsimp only
    split
    · rename_i a hok
      exact (answered_names h hplain hok).2
    · rename_i hfail
      exact failed_names h hwraps fun a hok => hfail a hok

/-- What a filesystem and the kernel go through while it is mounted: the kernel remembers what the
answers say about names. -/
abbrev Heard (x : Filesystem × NameTable) : Prop :=
  Run (fun y => Fresh y.1 ∧ y.2 = fun _ => none)
    (fun (turn : Turn) y => (turn.exec y.1, turn.heard y.1 y.2))
    (fun y turn => turn.PlainNames ∧ ¬ turn.Wraps y.1) x

lemma Heard.served {x : Filesystem × NameTable} (h : Heard x) : Served (fun _ _ => True) x.1 := by
  induction h with
  | start h => exact .start h.1
  | next _ _ ih => exact .next ih trivial

lemma Heard.reachable {x : Filesystem × NameTable} (h : Heard x) : Reachable x.1 :=
  reachable_of_served h.served

lemma Heard.names {x : Filesystem × NameTable} (h : Heard x) : x.1.conn.nameTable = x.2 := by
  induction h with
  | start h =>
    obtain ⟨⟨chunkSize, uid, gid, now, readonly, uid', gid', hs⟩, hτ⟩ := h
    rw [hs, hτ]
    rfl
  | next hrun hok ih =>
    rw [← ih]
    exact turn_names (Heard.reachable hrun) hok.1 hok.2

/-- The table that the kernel puts together from the answers is that of the filesystem, throughout a
session. What is answered next is true of it: a name that is made was free and stands for a node that
was not there, a name that is taken away or moved was there. -/
theorem session_names {x : Filesystem × NameTable} (h : Heard x) : x.1.conn.nameTable = x.2 ∧
    ∀ clock req m a, Message.PlainNames m → (m.run clock req x.1).result = .ok (.ok a) →
      m.Says x.1 x.2 a := by
  refine ⟨h.names, fun clock req m a hplain hok => ?_⟩
  rw [← h.names]
  exact (answered_names h.reachable hplain hok).1

/-- A directory is made, a file in it, and the file is moved out of it under another name. -/
def movedFile : Filesystem × NameTable :=
  let heard (turn : Turn) (x : Filesystem × NameTable) := (turn.exec x.1, turn.heard x.1 x.2)
  heard (.serve ⟨3, 3⟩ ⟨0, 0⟩ (.rename 2 (some ['f']) 1 (some ['g']) 0))
    (heard (.serve ⟨2, 2⟩ ⟨0, 0⟩ (.create 2 (some ['f']) 0o644 Libc.O_RDWR))
      (heard (.serve ⟨1, 1⟩ ⟨0, 0⟩ (.mkdir 1 (some ['d']) 0o755)) (newFs, fun _ => none)))

lemma heard_movedFile : Heard movedFile := by
  have hplain : ∀ n ∈ [['d'], ['f'], ['g']], Plain n := by decide
  refine .next (.next (.next (.start ⟨fresh_newFs, rfl⟩) ⟨?_, id⟩) ⟨?_, id⟩) ⟨⟨?_, ?_⟩, id⟩
  all_goals
    rintro _ ⟨⟩
    exact hplain _ (by decide)

theorem session_names_movedFile : movedFile.1.conn.nameTable = movedFile.2 ∧
    ∀ clock req m a, Message.PlainNames m → (m.run clock req movedFile.1).result = .ok (.ok a) →
      m.Says movedFile.1 movedFile.2 a :=
  session_names heard_movedFile

/-- A lookup comes to a node exactly if the name stands for it in the table that the kernel has put
together, and the path of the name is not too long. -/
theorem session_lookup {x : Filesystem × NameTable} (h : Heard x) (clock : Clock) (req : Request)
    (parent : ℕ) (hn : Plain n) (i : ℕ) :
    (∃ r, ((Message.lookup parent (some n)).run clock req x.1).result = .ok (.ok (.node r)) ∧
      r.attr.ino = i) ↔
    x.2 (parent, n) = some i ∧ ∃ path, Names x.1 parent (some n) path ∧ path.len ≤ PATH_MAX := by
  have hreach := h.reachable
  have htree := (rooted_runsTo hreach).tree
  rw [← h.names]
  constructor
  · rintro ⟨r, hok, rfl⟩
    obtain ⟨r', hr, hanswer⟩ := reply_ok.mp hok
    cases hanswer
    refine ⟨lookup_request hreach hn hr, ?_⟩
    obtain ⟨path, hnames, hrun⟩ := onChild_ok.mp hr
    rw [bind_pure_result, map_eq_ok] at hrun
    obtain ⟨st, hst, -⟩ := hrun
    have hfinds : ∃ i row, Finds (req.view x.1) path i row := stat_returns.mp ⟨st, hst⟩
    obtain ⟨i, row, hi, -⟩ := hfinds
    obtain ⟨l, hparse, -⟩ := (resolveToInode_eq_ok htree).mp hi
    exact ⟨path, hnames, (parsePath_eq_ok.mp hparse).2.1⟩
  · rintro ⟨hi, path, hnames, hlen⟩
    have hmem := Db.nameTable_eq_some.mp hi
    have hchild : x.1.conn.hasNode i = true := htree.child _ hmem
    obtain ⟨info, hinfo⟩ := Db.hasNode_iff.mp hchild
    obtain ⟨row, hrow, -⟩ := Nodes.get_of_kind (Db.kind_of_info hinfo)
    have hres : resolveToInode x.1.conn path = .ok i := by
      obtain ⟨_, ppath, hname, hpath, rfl⟩ := hnames
      cases hname
      obtain ⟨l, hl, hvalid, rfl⟩ := leads_of_pathOf hreach hpath
      rw [childPath_joinPath hvalid] at hlen ⊢
      exact resolveToInode_joinPath htree (validNames_runsTo hreach) (hl.concat hmem) hlen
    refine ⟨replyNode row.stat, reply_ok.mpr ⟨_, onChild_ok.mpr ⟨path, hnames, ?_⟩, rfl⟩, ?_⟩
    · have hst : (stat path (req.view x.1)).result = .ok row.stat := by
        rw [stat_run (s := req.view x.1) hres hrow]
      rw [bind_pure_result, hst]
      rfl
    · exact (Nodes.info_of_get hrow).choose_spec.2.2.2.2

theorem session_lookup_movedFile :
    (∃ r, ((Message.lookup 1 (some ['g'])).run ⟨4, 4⟩ ⟨7, 7⟩ movedFile.1).result
      = .ok (.ok (.node r)) ∧ r.attr.ino = 3) ↔
    movedFile.2 (1, ['g']) = some 3 ∧ ∃ path, Names movedFile.1 1 (some ['g']) path ∧ path.len ≤ PATH_MAX :=
  session_lookup heard_movedFile ⟨4, 4⟩ ⟨7, 7⟩ 1 (by decide) 3

end Requests

end Fuse

end SqliteFs

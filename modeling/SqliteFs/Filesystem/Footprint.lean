import SqliteFs.Filesystem.Scripts
import SqliteFs.Filesystem.Resolution

/-!
# The footprint of a call

All nodes share five tables, and rows go with the rows that they refer to. Still an operation leaves
alone what belongs to other nodes than the ones it is about: the nodes that its arguments name,
the directories these are in, and the node it makes.
-/

namespace SqliteFs

open Txn

/-- The rows of the node `i` are the same in `d'` as in `d`. -/
structure Db.SameRows (d d' : Db) (i : ℕ) : Prop where
  node : d'.nodes.find? i = d.nodes.find? i
  blobs : ∀ c, d'.blobs.find? (i, c) = d.blobs.find? (i, c)
  xattrs : ∀ n, d'.xattrs.find? (i, n) = d.xattrs.find? (i, n)
  symlink : d'.symlinks.find? i = d.symlinks.find? i

namespace Db.SameRows

variable {d d' d'' : Db} {i : ℕ}

lemma refl : d.SameRows d i := ⟨rfl, fun _ => rfl, fun _ => rfl, rfl⟩

lemma trans (h : d.SameRows d' i) (h' : d'.SameRows d'' i) : d.SameRows d'' i :=
  ⟨h'.node.trans h.node, fun c => (h'.blobs c).trans (h.blobs c),
    fun n => (h'.xattrs n).trans (h.xattrs n), h'.symlink.trans h.symlink⟩

end Db.SameRows

namespace Statement

/-- The statement keeps to the nodes in `F` and to the entries with keys in `K`; a node that it
deletes has no entries in `d`. -/
def Within (F : ℕ → Prop) (K : ℕ × Str → Prop) (d : Db) : Statement → Prop
  | insertNode row => F row.inode
  | updateTimes i .. | updateModeUidGid i .. | updateSize i .. | changeNlink i .. => F i
  | deleteNode i => F i ∧ Filesystem.Childless d i
  | insertEntry row => K (row.parent, row.name)
  | deleteEntry p n => K (p, n)
  | moveEntry p m q n => K (p, m) ∧ K (q, n)
  | putBlob i .. | updateBlob i .. | deleteBlobs i _ => F i
  | insertXattr row => F row.inode
  | updateXattr i .. | deleteXattr i _ => F i
  | insertSymlink row => F row.inode

section Within
variable {F : ℕ → Prop} {K : ℕ × Str → Prop} {d₀ d d' : Db} {st : Statement} {i : ℕ}

lemma find?_updateNode_of_ne {j : ℕ} {f : NodesRow → NodesRow} {hf : ∀ r, (f r).inode = r.inode}
    (hij : i ≠ j) : (d.updateNode j f hf).nodes.find? i = d.nodes.find? i := by
  unfold Db.updateNode
  rw [KeyTable.find?_updateAt, if_neg hij]

lemma Does.find?_nodes_of_within (h : st.Does d d') (hst : st.Within F K d₀) (hi : ¬ F i) :
    d'.nodes.find? i = d.nodes.find? i := by
  have hne : ∀ {j}, F j → i ≠ j := fun hj heq => hi (heq ▸ hj)
  cases st with
  | insertNode row =>
    obtain ⟨rows, ht, rfl⟩ := Db.insertNode_eq_ok.mp h.2
    exact (KeyTable.find?_insert? ht i).trans (if_neg (hne hst).symm)
  | updateTimes j a m c =>
    replace h : Nodes.updateTimes j a m c d = .ok (⟨⟩, d') := h
    unfold Nodes.updateTimes at h
    split_ifs at h
    · rw [(Body.pure_eq_ok.mp h).2]
    · rw [update_eq_ok.mp h]
      exact find?_updateNode_of_ne (hne hst)
  | updateModeUidGid j mode uid gid c =>
    rw [update_eq_ok.mp h]
    exact find?_updateNode_of_ne (hne hst)
  | updateSize j size m c =>
    rw [update_eq_ok.mp h]
    exact find?_updateNode_of_ne (hne hst)
  | changeNlink j delta c =>
    cases h
    exact find?_updateNode_of_ne (hne hst)
  | deleteNode j =>
    rcases deleteNode_cases h with ⟨rfl, -⟩ | rfl
    · rfl
    · refine KeyTable.find?_deleteWhere_of fun r hr => decide_eq_false ?_
      exact fun hrj => hne hst.1 (hr.symm.trans hrj)
  | _ => rw [(h.same (t := .nodes) (by simp [tables])).1]

lemma Does.find?_blobs_of_within (h : st.Does d d') (hst : st.Within F K d₀) (hi : ¬ F i) (c : ℤ) :
    d'.blobs.find? (i, c) = d.blobs.find? (i, c) := by
  have hne : ∀ {j}, F j → i ≠ j := fun hj heq => hi (heq ▸ hj)
  have hkey : ∀ {j} {c' : ℤ}, F j → (i, c) ≠ (j, c') := fun hj heq => hne hj (Prod.mk.inj heq).1
  cases st with
  | putBlob j chunk data =>
    obtain ⟨-, rfl⟩ := Db.putBlob_eq_ok.mp h
    exact (KeyTable.find?_put _ _ _).trans (if_neg (hkey hst).symm)
  | updateBlob j chunk data =>
    cases h
    unfold Db.updateBlob
    rw [KeyTable.find?_updateAt, if_neg (hkey hst)]
  | deleteBlobs j p =>
    cases h
    refine KeyTable.find?_deleteWhere_of fun r hr => decide_eq_false ?_
    exact fun hrj => hne hst ((Prod.mk.inj hr).1.symm.trans hrj.1)
  | deleteNode j =>
    rcases deleteNode_cases h with ⟨rfl, -⟩ | rfl
    · rfl
    · refine KeyTable.find?_deleteWhere_of fun r hr => decide_eq_false ?_
      exact fun hrj => hne hst.1 ((Prod.mk.inj hr).1.symm.trans hrj)
  | _ => rw [h.same (t := .blobs) (by simp [tables])]

lemma Does.find?_xattrs_of_within (h : st.Does d d') (hst : st.Within F K d₀) (hi : ¬ F i) (n : Str) :
    d'.xattrs.find? (i, n) = d.xattrs.find? (i, n) := by
  have hne : ∀ {j}, F j → i ≠ j := fun hj heq => hi (heq ▸ hj)
  have hkey : ∀ {j} {n' : Str}, F j → (i, n) ≠ (j, n') := fun hj heq => hne hj (Prod.mk.inj heq).1
  cases st with
  | insertXattr row =>
    obtain ⟨-, rows, ht, rfl⟩ := Db.insertXattr_eq_ok.mp h
    exact (KeyTable.find?_insert? ht _).trans (if_neg (hkey hst).symm)
  | updateXattr j name value =>
    cases h
    unfold Db.updateXattr
    rw [KeyTable.find?_updateAt, if_neg (hkey hst)]
  | deleteXattr j name =>
    cases h
    refine KeyTable.find?_deleteWhere_of fun r hr => decide_eq_false ?_
    exact fun hrj => hne hst ((Prod.mk.inj hr).1.symm.trans hrj.1)
  | deleteNode j =>
    rcases deleteNode_cases h with ⟨rfl, -⟩ | rfl
    · rfl
    · refine KeyTable.find?_deleteWhere_of fun r hr => decide_eq_false ?_
      exact fun hrj => hne hst.1 ((Prod.mk.inj hr).1.symm.trans hrj)
  | _ => rw [h.same (t := .xattrs) (by simp [tables])]

lemma Does.find?_symlinks_of_within (h : st.Does d d') (hst : st.Within F K d₀) (hi : ¬ F i) :
    d'.symlinks.find? i = d.symlinks.find? i := by
  have hne : ∀ {j}, F j → i ≠ j := fun hj heq => hi (heq ▸ hj)
  cases st with
  | insertSymlink row =>
    obtain ⟨-, rows, ht, rfl⟩ := Db.insertSymlink_eq_ok.mp h
    exact (KeyTable.find?_insert? ht _).trans (if_neg (hne hst).symm)
  | deleteNode j =>
    rcases deleteNode_cases h with ⟨rfl, -⟩ | rfl
    · rfl
    · refine KeyTable.find?_deleteWhere_of fun r hr => decide_eq_false ?_
      exact fun hrj => hne hst.1 (hr.symm.trans hrj)
  | _ => rw [h.same (t := .symlinks) (by simp [tables])]

/-- A statement leaves the rows of the nodes alone that it does not keep to. -/
lemma Does.sameRows (h : st.Does d d') (hst : st.Within F K d₀) (hi : ¬ F i) : d.SameRows d' i :=
  ⟨h.find?_nodes_of_within hst hi, h.find?_blobs_of_within hst hi,
    h.find?_xattrs_of_within hst hi, h.find?_symlinks_of_within hst hi⟩

/-- A statement leaves the entries alone that it does not keep to: the node that it may delete has
none. -/
lemma Does.find?_entries (h : st.Does d d') (hst : st.Within F K d₀) {k : ℕ × Str} (hk : ¬ K k)
    (hd : d.entries.find? k = d₀.entries.find? k) : d'.entries.find? k = d₀.entries.find? k := by
  rw [← hd]
  have hne : ∀ {k'}, K k' → k ≠ k' := fun hk' heq => hk (heq ▸ hk')
  cases st with
  | insertEntry row =>
    obtain ⟨-, -, rows, ht, rfl⟩ := Db.insertEntry_eq_ok.mp h
    exact (KeyTable.find?_insert? ht _).trans (if_neg (hne hst).symm)
  | deleteEntry p n =>
    cases h
    refine KeyTable.find?_deleteWhere_of fun r hr => decide_eq_false ?_
    exact fun hrk => hne hst (hr.symm.trans (Prod.ext hrk.1 hrk.2))
  | moveEntry p m q n =>
    replace h : d.moveEntry p m q n = .ok d' := h
    by_cases hfind : (d.entries.find? (p, m)).isSome
    · obtain ⟨x, hx, hkey⟩ := KeyTable.find?_isSome.mp hfind
      cases hkey
      refine KeyTable.find?_congr_key fun r hr => ?_
      rw [Db.mem_moveEntry hx h]
      have hfrom : r ≠ x := by
        rintro rfl
        exact hne hst.1 hr.symm
      have hto : r ≠ ⟨q, n, x.inode⟩ := by
        rintro rfl
        exact hne hst.2 hr.symm
      rw [and_iff_left hfrom, or_iff_left hto]
    · rw [Db.moveEntry, if_neg hfind] at h
      rw [Except.ok.inj h]
  | deleteNode j =>
    rcases deleteNode_cases h with ⟨rfl, -⟩ | rfl
    · rfl
    · by_cases hkj : k.1 = j
      · have hnone : d.entries.find? k = none := by
          rw [hd]
          exact KeyTable.find?_eq_none.mpr fun r hr hrk =>
            hst.2 r hr ((congrArg Prod.fst hrk).trans hkj)
        refine (KeyTable.find?_deleteWhere _ _ _).trans ?_
        rw [hnone]
        rfl
      · refine KeyTable.find?_deleteWhere_of fun r hr => decide_eq_false ?_
        exact fun hrj => hkj ((congrArg Prod.fst hr).symm.trans hrj)
  | _ => rw [h.same (t := .entries) (by simp [tables])]

variable {l : List Statement}

/-- A script leaves the rows of the nodes alone that it does not keep to. -/
lemma runs_sameRows (hl : ∀ st ∈ l, st.Within F K d) (hruns : d.Runs l d') (hi : ¬ F i) :
    d.SameRows d' i := by
  refine hruns.related (R := fun d d' => d.SameRows d' i) (fun _ => .refl) (fun _ _ _ => .trans) ?_
  exact fun st hst d d' hdoes => hdoes.sameRows (hl st hst) hi

/-- A script leaves the entries alone that it does not keep to. -/
lemma runs_entries (hl : ∀ st ∈ l, st.Within F K d) (hruns : d.Runs l d') {k : ℕ × Str} (hk : ¬ K k) :
    d'.entries.find? k = d.entries.find? k := by
  refine hruns.keeps (P := fun d' => d'.entries.find? k = d.entries.find? k) ?_ rfl
  exact fun st hst d d' hdoes => hdoes.find?_entries (hl st hst) hk

end Within

end Statement

namespace Filesystem

variable {s : Filesystem}

/-- The paths among the arguments. -/
def Op.paths : Op → List Str
  | .stat path | .readdir path | .readlink path | .getxattr path _ | .listxattr path | .fsyncdir path
  | .mkdir path _ | .rmdir path | .create path _ _ | .open_ path _ | .unlink path | .symlink _ path
  | .chmod path _ | .chown path _ _ | .utimes path _ _ | .setxattr path _ _ _ | .removexattr path _
  | .watch path _ => [path]
  | .link target linkPath => [target, linkPath]
  | .rename src dst => [src, dst]
  | _ => []

/-- The descriptors among the arguments. -/
def Op.fds : Op → List ℕ
  | .readFd fd _ _ | .posixGetlk fd _ _ _ | .ofdGetlk fd _ _ | .flush fd | .fsync fd
  | .writeFd fd _ _ | .closeFd fd | .posixLock fd _ _ _ _ _ | .ofdLock fd _ _ _ _ | .flock fd _ _ => [fd]
  | _ => []

/-- The nodes that an operation is about, which leads from `d` to `d'`: what its paths resolve to,
the directories that these are in, the open files of its descriptors, and what is new. -/
inductive Op.Names (operation : Op) (d : Db) (tab : FdTable) (d' : Db) : ℕ → Prop
  | target {path : Str} {i : ℕ} : path ∈ operation.paths → resolveToInode d path = .ok i →
      Names operation d tab d' i
  | parent {path name : Str} {i : ℕ} : path ∈ operation.paths →
      resolveParentAndName d path = .ok (i, name) → Names operation d tab d' i
  | opened {fd : ℕ} {f : FdEntry} : fd ∈ operation.fds → tab.entries.find? fd = some f →
      Names operation d tab d' f.inode
  | created {i : ℕ} : d.hasNode i = false → d'.hasNode i = true → Names operation d tab d' i

/-- The key is that of a path of the operation. -/
def Op.Pairs (operation : Op) (d : Db) (k : ℕ × Str) : Prop :=
  ∃ path ∈ operation.paths, resolveParentAndName d path = .ok k

section Scripts
variable {d d' : Db} {tab : FdTable} {now : ℤ} {operation : Op} {l : List Statement}

lemma resolveToInode_of_mem (h : d.Tree) {path : Str} {e : EntryRow}
    (hparent : resolveParentAndName d path = .ok (e.parent, e.name)) (he : e ∈ d.entries) :
    resolveToInode d path = .ok e.inode := by
  obtain ⟨l, hparse, hl⟩ := (resolveParentAndName_eq_ok h).mp hparent
  exact (resolveToInode_eq_ok h).mpr ⟨_, hparse, hl.concat he⟩

/-- A node that a script makes and does not delete is there at the end. -/
lemma hasNode_of_insertNode {row : NodesRow} (hruns : d.Runs l d') (hrow : .insertNode row ∈ l)
    (hdel : .deleteNode row.inode ∉ l) : d'.hasNode row.inode = true := by
  refine hruns.establishes (P := fun d => d.hasNode row.inode = true) ?_ ⟨_, hrow, ?_⟩
  · intro st hst d d' hdoes hnode
    rcases hdoes.hasNode hnode with hnode' | rfl
    · exact hnode'
    · exact absurd hst hdel
  · intro d d' hdoes
    obtain ⟨rows, ht, rfl⟩ := Db.insertNode_eq_ok.mp hdoes.2
    unfold Db.hasNode
    rw [KeyTable.find?_insert? ht, key_nodesRow, if_pos rfl]
    rfl

/-- A new node is one that the operation is about. -/
lemma Op.Names.of_newRow {row : NodesRow} (hrow : NewRow d now row) (hruns : d.Runs l d')
    (hmem : .insertNode row ∈ l) (hdel : .deleteNode row.inode ∉ l) :
    operation.Names d tab d' row.inode := by
  refine .created ?_ (hasNode_of_insertNode hruns hmem hdel)
  unfold Db.hasNode
  rw [hrow.inode, d.find?_nextInode]
  rfl

lemma forall_mem_ite {P : Statement → Prop} {c : Prop} [Decidable c] (h : ∀ st ∈ l, P st) :
    ∀ st ∈ (if c then l else []), P st := by
  split_ifs
  · exact h
  · exact List.forall_mem_nil P

section Rename
variable {F : ℕ → Prop} {K : ℕ × Str → Prop} {isDir : Prop} [Decidable isDir] {p q : ℕ} {m : Str}
  {e t : EntryRow} {del : List Statement}

lemma moveScript_within (hp : F e.parent) (hq : F q) (hi : F e.inode) (hk : K (e.parent, e.name))
    (hk' : K (q, m)) : ∀ st ∈ moveScript now isDir e q m, st.Within F K d := by
  simp only [moveScript, List.forall_mem_append, List.forall_mem_singleton]
  refine ⟨⟨⟨⟨⟨hk, hk'⟩, forall_mem_ite ?_⟩, hp⟩, forall_mem_ite ?_⟩, hi⟩
  · exact List.forall_mem_cons.mpr ⟨hp, List.forall_mem_singleton.mpr hq⟩
  · exact List.forall_mem_singleton.mpr hq

lemma evictScript_within (hp : F t.parent) (hi : F t.inode) (hk : K (t.parent, t.name))
    (hdel : ∀ st ∈ del, st.Within F K d) : ∀ st ∈ evictScript now isDir p t del, st.Within F K d := by
  simp only [evictScript, List.forall_mem_append, List.forall_mem_cons]
  exact ⟨⟨⟨hk, hi, List.forall_mem_nil _⟩, forall_mem_ite (List.forall_mem_singleton.mpr hp)⟩, hdel⟩

end Rename

/-- A script keeps to the nodes that its operation is about. -/
lemma Op.Script.within (htree : d.Tree) (h : operation.Script d tab now l) (hruns : d.Runs l d') :
    ∀ st ∈ l, st.Within (operation.Names d tab d') (operation.Pairs d) d := by
  have hone : ∀ path : Str, path ∈ [path] := List.mem_singleton_self
  have hnil {P : Statement → Prop} : ∀ st ∈ [], P st := List.forall_mem_nil P
  cases h with
  | nothing => exact hnil
  | @mkdir path mode row p n hparent hrow =>
    have hp : Op.Names (.mkdir path mode) d tab d' p := .parent (hone path) hparent
    simp only [List.forall_mem_cons]
    exact ⟨.of_newRow hrow hruns (by simp) (by simp [touch]), ⟨path, hone path, hparent⟩, hp, hp, hnil⟩
  | @rmdir path e hparent he hempty =>
    have hp : Op.Names (.rmdir path) d tab d' e.parent := .parent (hone path) hparent
    have htarget := resolveToInode_of_mem htree hparent he
    simp only [List.forall_mem_cons]
    exact ⟨⟨path, hone path, hparent⟩, hp, hp, ⟨.target (hone path) htarget, hempty⟩, hnil⟩
  | @create path flags mode row p n hparent hrow =>
    simp only [List.forall_mem_cons]
    exact ⟨.of_newRow hrow hruns (by simp) (by simp [touch]), ⟨path, hone path, hparent⟩,
      Op.Names.parent (hone path) hparent, hnil⟩
  | @open_ path flags i cuts hino hcuts =>
    have hi : Op.Names (.open_ path flags) d tab d' i := .target (hone path) hino
    refine List.forall_mem_append.mpr ⟨fun st hst => ?_, List.forall_mem_singleton.mpr hi⟩
    rcases hcuts st hst with ⟨p, rfl⟩ | ⟨c, data, rfl⟩
    · exact hi
    · exact hi
  | @writeFd fd offset size data f puts hf hputs =>
    have hi : Op.Names (.writeFd fd offset data) d tab d' f.inode :=
      .opened (List.mem_singleton_self fd) hf
    refine List.forall_mem_append.mpr ⟨fun st hst => ?_, List.forall_mem_singleton.mpr hi⟩
    obtain ⟨c, data, rfl⟩ := hputs st hst
    exact hi
  | @closeFd fd f hf hempty =>
    exact List.forall_mem_singleton.mpr ⟨.opened (List.mem_singleton_self fd) hf, hempty⟩
  | @unlink path e del hparent he hempty hdel =>
    have htarget : Op.Names (.unlink path) d tab d' e.inode :=
      .target (hone path) (resolveToInode_of_mem htree hparent he)
    simp only [List.forall_mem_append, List.forall_mem_cons]
    refine ⟨⟨⟨path, hone path, hparent⟩, htarget, Op.Names.parent (hone path) hparent, hnil⟩,
      fun st hst => ?_⟩
    rw [hdel st hst]
    exact ⟨htarget, hempty⟩
  | @symlink target path row p n hparent hrow =>
    have hi : Op.Names (.symlink target path) d tab d' row.inode :=
      .of_newRow hrow hruns (by simp) (by simp [touch])
    simp only [List.forall_mem_cons]
    exact ⟨hi, ⟨path, hone path, hparent⟩, hi, Op.Names.parent (hone path) hparent, hnil⟩
  | @link target linkPath i p n hino hparent =>
    have hmem : linkPath ∈ [target, linkPath] := List.mem_cons_of_mem _ (hone linkPath)
    simp only [List.forall_mem_cons]
    exact ⟨⟨linkPath, hmem, hparent⟩, Op.Names.target List.mem_cons_self hino,
      Op.Names.parent hmem hparent, hnil⟩
  | @moves src dst e q m isDir _ hsrc he hdst =>
    have hmem : dst ∈ [src, dst] := List.mem_cons_of_mem _ (hone dst)
    exact moveScript_within (.parent List.mem_cons_self hsrc) (.parent hmem hdst)
      (.target List.mem_cons_self (resolveToInode_of_mem htree hsrc he))
      ⟨src, List.mem_cons_self, hsrc⟩ ⟨dst, hmem, hdst⟩
  | @replaces src dst e t isDir isDir' _ _ del hsrc he hdst ht hempty hdel =>
    have hmem : dst ∈ [src, dst] := List.mem_cons_of_mem _ (hone dst)
    have htarget : Op.Names (.rename src dst) d tab d' t.inode :=
      .target hmem (resolveToInode_of_mem htree hdst ht)
    refine List.forall_mem_append.mpr ⟨?_, ?_⟩
    · refine evictScript_within (.parent hmem hdst) htarget ⟨dst, hmem, hdst⟩ fun st hst => ?_
      rw [hdel st hst]
      exact ⟨htarget, hempty⟩
    · exact moveScript_within (.parent List.mem_cons_self hsrc) (.parent hmem hdst)
        (.target List.mem_cons_self (resolveToInode_of_mem htree hsrc he))
        ⟨src, List.mem_cons_self, hsrc⟩ ⟨dst, hmem, hdst⟩
  | @chmod path mode i hino => exact List.forall_mem_singleton.mpr (.target (hone path) hino)
  | @chown path uid gid i hino => exact List.forall_mem_singleton.mpr (.target (hone path) hino)
  | @utimes path a m i hino => exact List.forall_mem_singleton.mpr (.target (hone path) hino)
  | @setxattr path name value flags i st hino hst =>
    have hi : Op.Names (.setxattr path name value flags) d tab d' i := .target (hone path) hino
    refine List.forall_mem_cons.mpr ⟨?_, List.forall_mem_singleton.mpr hi⟩
    rcases hst with rfl | rfl
    · exact hi
    · exact hi
  | @removexattr path name i hino =>
    have hi : Op.Names (.removexattr path name) d tab d' i := .target (hone path) hino
    exact List.forall_mem_cons.mpr ⟨hi, List.forall_mem_singleton.mpr hi⟩

end Scripts

/-- In every reachable state, a call of an operation leaves alone every row of every node that the
operation is not about, and every entry that its paths do not say. -/
theorem keepsToFootprint (h : Reachable s) (user : Option (UInt32 × UInt32)) (clock : Clock)
    (operation : Op) :
    (∀ i, ¬ operation.Names s.conn s.fdtable ((Call.op user clock operation).exec s).conn i →
      s.conn.SameRows ((Call.op user clock operation).exec s).conn i) ∧
    ∀ k, ¬ operation.Pairs s.conn k →
      ((Call.op user clock operation).exec s).conn.entries.find? k = s.conn.entries.find? k := by
  obtain ⟨l, hscript, hruns⟩ := Call.follows h user clock operation
  have hwithin := hscript.within (rooted_runsTo h).tree hruns
  exact ⟨fun i => Statement.runs_sameRows hwithin hruns, fun k => Statement.runs_entries hwithin hruns⟩

/-- Three files of root's. -/
def threeFiles : Filesystem :=
  newFsAfter [.create ['/', 'a'] Libc.O_RDWR 0o644, .create ['/', 'b'] Libc.O_RDWR 0o644,
    .create ['/', 'c'] Libc.O_RDWR 0o644, .closeFd 1, .closeFd 2, .writeFd 3 0 [7]]

/-- The first file replaces the second: nothing of the third changes. -/
theorem keepsToFootprint_threeFiles :
    threeFiles.conn.SameRows
      ((Call.op none ⟨0, 0⟩ (.rename ['/', 'a'] ['/', 'b'])).exec threeFiles).conn 4 := by
  refine (keepsToFootprint (s := threeFiles) (reachable_newFsAfter _) none ⟨0, 0⟩
    (.rename ['/', 'a'] ['/', 'b'])).1 4 ?_
  generalize hfour : 4 = i
  rintro (⟨hpath, hi⟩ | ⟨hpath, hi⟩ | ⟨hfd, -⟩ | ⟨hnone, -⟩)
  · have hne : ∀ path ∈ [['/', 'a'], ['/', 'b']], resolveToInode threeFiles.conn path ≠ .ok 4 := by
      decide +kernel
    exact hne _ hpath (hfour ▸ hi)
  · have hroot : ∀ path ∈ [['/', 'a'], ['/', 'b']],
        (resolveParentAndName threeFiles.conn path).map Prod.fst = .ok 1 := by decide +kernel
    have hparent := hroot _ hpath
    rw [hi, ← hfour] at hparent
    cases hparent
  · cases hfd
  · have hsome : threeFiles.conn.hasNode 4 = true := by decide +kernel
    rw [hfour, hnone] at hsome
    cases hsome

end Filesystem

end SqliteFs

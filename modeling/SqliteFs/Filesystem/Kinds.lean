import SqliteFs.Filesystem.Rows
import SqliteFs.Filesystem.Frames
import SqliteFs.Filesystem.Names
import SqliteFs.Filesystem.OpenFiles

/-!
# Kinds of nodes

Only files have contents, and only symbolic links have targets. `open` refuses directories and
nothing else, and `create` opens whatever has the name. So a descriptor can be opened on a directory
or on a symbolic link, and chunks written through it. While no step of a run opens such a node, and
none deletes the node of an open file, every row and every descriptor fits the kind of its node.
-/

namespace SqliteFs

open Txn

/-- Contents belong to files, and targets to the symbolic links, all of which have one but for those
in `P`. -/
structure Db.KindRows (P : ℕ → Prop) (d : Db) : Prop where
  blobs : ∀ b ∈ d.blobs, d.kind b.inode = some .file
  sizes : ∀ i n, d.info i = some n → n.kind ≠ .file → n.size = 0
  symlinks : ∀ l ∈ d.symlinks, d.kind l.inode = some .symlink
  targets : ∀ i, ¬ P i → d.kind i = some .symlink → (d.symlinks.find? i).isSome

namespace Db

variable {P : ℕ → Prop} {d d' : Db} {st : Statement}

lemma KindRows.mono {Q : ℕ → Prop} (hPQ : ∀ i, P i → Q i) (h : d.KindRows P) : d.KindRows Q :=
  ⟨h.blobs, h.sizes, h.symlinks, fun i hi => h.targets i (mt (hPQ i) hi)⟩

/-- A statement that writes contents to files only, inserts empty nodes, and gives targets to
symbolic links, keeps rows and kinds together. -/
lemma KindRows.does (h : d.KindRows P) (howned : d.Owned) (hst : st.Does d d')
    (hwrites : ∀ i, st.Rewrites i → d.kind i = some .file)
    (hnode : ∀ row, st = .insertNode row → row.size = 0 ∧ (row.kind = .symlink → P row.inode))
    (hlink : ∀ l, st = .insertSymlink l → d.kind l.inode = some .symlink) : d'.KindRows P := by
  have howned' := hst.owned howned
  refine ⟨fun b hb => ?_, fun i n hn hkind => ?_, fun l hl => ?_, fun i hi hkind => ?_⟩
  · rcases hst.mem_blobs hb with ⟨b₀, hb₀, heq⟩ | ⟨rfl, hexists⟩
    · have hfile := h.blobs b₀ hb₀
      rw [heq] at hfile
      rw [hst.kind (hasNode_of_kind hfile) (howned'.blobs b hb)]
      exact hfile
    · rw [hst.kind hexists (howned'.blobs b hb)]
      exact hwrites _ rfl
  · obtain ⟨r', hr', rfl⟩ := Option.map_eq_some_iff.mp hn
    rcases hst.find?_nodes hr' with ⟨hins, -, -⟩ | ⟨r, hr, hfrom⟩
    · exact (hnode r' hins).1
    · have hr₀ := info_of_find? hr
      have hrkind : r.kind ≠ .file := fun hr => hkind (hfrom.kind.trans hr)
      rcases hfrom.size with hsize | ⟨size, m, c, rfl, -⟩
      · exact hsize.trans (h.sizes i _ hr₀ hrkind)
      · obtain rfl : r.inode = i := (KeyTable.find?_eq_some.mp hr).2
        have hfile := hwrites r.inode rfl
        rw [kind_of_info hr₀] at hfile
        exact absurd (Option.some.inj hfile) hrkind
  · rcases hst.mem_symlinks hl with hl₀ | ⟨hins, hexists⟩
    · have hsym := h.symlinks l hl₀
      rw [hst.kind (hasNode_of_kind hsym) (howned'.symlinks l hl)]
      exact hsym
    · rw [hst.kind hexists (howned'.symlinks l hl)]
      exact hlink l hins
  · obtain ⟨n, hn, hnkind⟩ := exists_info_of_kind hkind
    obtain ⟨r', hr', rfl⟩ := Option.map_eq_some_iff.mp hn
    rcases hst.find?_nodes hr' with ⟨hins, -, -⟩ | ⟨r, hr, hfrom⟩
    · refine absurd ?_ hi
      rw [← (KeyTable.find?_eq_some.mp hr').2]
      exact (hnode r' hins).2 hnkind
    · have hsym : d.kind i = some .symlink := by
        rw [kind_of_info (info_of_find? hr)]
        exact congrArg some (hfrom.kind.symm.trans hnkind)
      obtain ⟨l, hl, rfl⟩ := KeyTable.find?_isSome.mp (h.targets i hi hsym)
      rcases hst.mem_symlinks_of_mem hl with hl' | hgone
      · exact KeyTable.find?_isSome.mpr ⟨l, hl', rfl⟩
      · have hnode' : d'.hasNode l.inode = true := hasNode_of_kind hkind
        rw [hgone] at hnode'
        cases hnode'

end Db

namespace Filesystem

variable {s : Filesystem} {clock : Clock} {path : Str} {flags : Flags} {i : ℕ}

/-! ### What is opened -/

/-- `open` gets past its checks for the node `i`. -/
structure MayOpen (s : Filesystem) (path : Str) (flags : Flags) (i : ℕ) (row : NodeRow) : Prop where
  resolved : resolveToInode s.conn path = .ok i
  node : Nodes.get s.conn i = .ok row
  notDir : row.kind ≠ .dir
  access : (checkOpenAccess row flags s).result = .ok ⟨⟩
  writable : flags &&& Libc.O_TRUNC ≠ 0 → s.readonly = false

/-- `create` gets past its checks for the node `i`, which has the name already. -/
structure MayOpenExisting (s : Filesystem) (path : Str) (flags : Flags) (i : ℕ) (row : NodeRow) :
    Prop where
  writable : s.readonly = false
  named : ∃ parent name, resolveParentAndName s.conn path = .ok (parent, name) ∧
    Entries.get s.conn parent name = .ok ⟨parent, name, i⟩
  notExcl : flags &&& Libc.O_EXCL = 0
  node : Nodes.get s.conn i = .ok row
  access : (checkOpenAccess row flags s).result = .ok ⟨⟩

/-- The operation opens the node `i`, which exists already. -/
def Op.Opens (s : Filesystem) : Op → ℕ → Prop
  | .create path flags _, i => ∃ row, MayOpenExisting s path flags i row
  | .open_ path flags, i => ∃ row, MayOpen s path flags i row
  | _, _ => False

/-- The call opens the node `i`, which exists already. -/
def Call.Opens (s : Filesystem) : Call → ℕ → Prop
  | .op user _ operation, i => operation.Opens (s.actAs user) i
  | .reopen .., _ => False

lemma create_opens (clock : Clock) (path : Str) (flags : Flags) (mode : UInt32) :
    Prog.RefusesOr (create clock path flags mode) s fun o => ∃ i,
      o.state.fdtable = (s.fdtable.open_ i flags s.callerUid s.callerGid).2 ∧
        ((∃ row, MayOpenExisting s path flags i row) ∨ o.state.conn.kind i = some .file) := by
  apply bind_requireWritable
  intro hw
  apply Prog.RefusesOr.bind_query
  rintro ⟨parent, name⟩ hparent
  apply Prog.RefusesOr.bind_query
  intro existing hexisting
  cases hexisting
  cases he : Entries.get s.conn parent name with
  | ok existing =>
    obtain ⟨-, hep, hen⟩ := Entries.get_eq_ok.mp he
    apply bind_require
    intro hexcl
    apply bind_getNode
    intro row hrow
    apply Prog.RefusesOr.bind_query
    intro _ haccess
    refine .of_run ⟨existing.inode, rfl, Or.inl ⟨row, hw, ⟨parent, name, hparent, ?_⟩, hexcl, hrow,
      haccess⟩⟩
    rw [he, ← hep, ← hen]
  | error _ =>
    have hnamed : s.conn.Named parent := resolveParentAndName_named hparent
    refine (createNew_outcome s clock path flags mode hnamed).mono ?_
    rintro o ⟨e, d, fd, -, -, hattaches, rfl⟩
    refine ⟨e.inode, rfl, Or.inr ?_⟩
    exact (hattaches.kind e.inode).trans (if_pos rfl)

lemma open_opens (clock : Clock) (path : Str) (flags : Flags) :
    Prog.RefusesOr (open_ clock path flags) s fun o => ∃ i,
      o.state.fdtable = (s.fdtable.open_ i flags s.callerUid s.callerGid).2 ∧
        ∃ row, MayOpen s path flags i row := by
  apply Prog.RefusesOr.bind_query
  intro ino hino
  apply bind_getNode
  intro row hrow
  apply bind_require
  intro hfile
  apply Prog.RefusesOr.bind_query
  intro _ haccess
  split_ifs with htrunc
  · exact .of_run ⟨ino, rfl, row, hino, hrow, hfile, haccess, fun h => absurd htrunc h⟩
  · apply bind_requireWritable
    intro hw
    apply Prog.RefusesOr.bind_query
    intro chunkSize _
    apply bind_tx
    intro _ d _ _
    exact ⟨ino, rfl, row, hino, hrow, hfile, haccess, fun _ => hw⟩

lemma closeFd_fdtable (fd : ℕ) : (closeFd fd s).state.fdtable = (s.fdtable.close fd).2 := by
  cases hf : s.fdtable.entries.find? fd with
  | none =>
    rw [closeFd_unknown hf, FdTable.close, hf]
  | some f =>
    obtain rfl : f.fd = fd := (KeyTable.find?_eq_some.mp hf).2
    exact closeFd_frames_closed aside_fdtable hf

/-- A descriptor was there before, or it was opened on a node that existed, or on a new file. -/
lemma Call.mem_fdtable {user : Option (UInt32 × UInt32)} {operation : Op} {f : FdEntry}
    (hf : f ∈ ((Call.op user clock operation).exec s).fdtable.entries) :
    f ∈ s.fdtable.entries ∨ operation.Opens (s.actAs user) f.inode ∨
      ((Call.op user clock operation).exec s).conn.kind f.inode = some .file := by
  have hfds : ((Call.op user clock operation).exec s).fdtable
      = (operation.run clock (s.actAs user)).state.fdtable := by
    cases user <;> rfl
  have hconn : ((Call.op user clock operation).exec s).conn
      = (operation.run clock (s.actAs user)).state.conn := by
    cases user <;> rfl
  rw [hfds] at hf
  rw [hconn]
  have hopened : ∀ {i : ℕ} {flags : Flags} {uid gid : UInt32},
      f ∈ ((s.actAs user).fdtable.open_ i flags uid gid).2.entries →
        f.inode = i ∨ f ∈ s.fdtable.entries := by
    intro i flags uid gid hmem
    rw [actAs_fdtable] at hmem
    rcases FdTable.mem_open.mp hmem with rfl | ⟨hmem, -⟩
    · exact Or.inl rfl
    · exact Or.inr hmem
  by_cases htouches : operation.TouchesFds
  · cases operation with
    | create path flags mode =>
      rw [Op.run, answer_apply] at hf ⊢
      rcases create_opens (s := s.actAs user) clock path flags mode
        with ⟨e, he⟩ | ⟨i, hfd, hcase⟩
      · rw [he, actAs_fdtable] at hf
        exact Or.inl hf
      · rw [hfd] at hf
        rcases hopened hf with rfl | hmem
        · exact Or.inr hcase
        · exact Or.inl hmem
    | open_ path flags =>
      rw [Op.run, answer_apply] at hf ⊢
      rcases open_opens (s := s.actAs user) clock path flags
        with ⟨e, he⟩ | ⟨i, hfd, hmay⟩
      · rw [he, actAs_fdtable] at hf
        exact Or.inl hf
      · rw [hfd] at hf
        rcases hopened hf with rfl | hmem
        · exact Or.inr (Or.inl hmay)
        · exact Or.inl hmem
    | closeFd fd =>
      rw [Op.run, answer_apply, closeFd_fdtable, actAs_fdtable] at hf
      exact Or.inl (FdTable.mem_close.mp hf).1
    | _ => exact htouches.elim
  · left
    rw [operation.frames aside_fdtable.beside clock (fun h => absurd h htouches) fun _ _ _ => rfl,
      actAs_fdtable] at hf
    exact hf

/-! ### Every operation -/

/-- The statements of an operation that rewrites contents delete no node. -/
lemma not_issues_deleteNode {operation : Op} {st : Statement} {j : ℕ}
    (hissues : operation.Issues s st) (hst : st.Rewrites i) :
    ¬ operation.Issues s (.deleteNode j) := by
  intro hdelete
  cases st with
  | putBlob | updateBlob | deleteBlobs | updateSize => cases operation <;> first | exact hissues | exact hdelete
  | _ => exact hst

/-- `symlink` gives the new node its target in the transaction that inserts it. -/
lemma symlink_kindRows {target : Bytes} (howned : s.conn.Owned) (h : s.conn.KindRows fun _ => False) :
    (symlink clock target path s).state.conn.KindRows fun _ => False := by
  have hrun : Prog.RefusesOr (symlink clock target path) s
      fun o => o.state.conn.KindRows fun _ => False := by
    apply bind_requireWritable
    intro hw
    apply Prog.RefusesOr.bind_query
    rintro ⟨parent, name⟩ hparent
    apply bind_getNode
    intro parentRow _
    apply bind_require
    intro _
    apply Prog.RefusesOr.bind_query
    intro _ _
    apply Prog.RefusesOr.bind_query
    rintro ⟨uid, gid⟩ _
    apply bind_tx
    intro newIno d _ hd
    change d.KindRows fun _ => False
    obtain ⟨i, d₁, hins, hd⟩ := Body.bind_eq_ok.mp hd
    obtain ⟨_, d₂, hent, hd⟩ := Body.bind_eq_ok.mp hd
    obtain ⟨_, d₃, hsym, hd⟩ := Body.bind_eq_ok.mp hd
    obtain ⟨_, d₄, htimes, hd⟩ := Body.bind_eq_ok.mp hd
    obtain ⟨rfl, rfl⟩ := Body.pure_eq_ok.mp hd
    have hdoes₁ := Nodes.insert_does hins
    have hdoes₂ : (Statement.insertEntry ⟨parent, name, newIno⟩).Does d₁ d₂ :=
      Entries.insert_eq_ok.mp hent
    have hdoes₃ : (Statement.insertSymlink ⟨newIno, target⟩).Does d₂ d₃ := stmt_eq_ok.mp hsym
    have hdoes₄ : (Statement.updateTimes parent none (some clock.now) (some clock.now)).Does d₃ d :=
      htimes
    have h₁ : d₁.KindRows (· = newIno) := by
      refine (h.mono fun _ hP => hP.elim).does howned hdoes₁ (fun _ hw => hw.elim) ?_
        (fun _ hl => Statement.noConfusion hl)
      intro row hrow
      cases hrow
      exact ⟨rfl, fun _ => rfl⟩
    have hkind₁ : d₁.kind newIno = some .symlink := by
      rw [(Nodes.insert_ok hins).kind, if_pos rfl]
    have h₂ : d₂.KindRows (· = newIno) := h₁.does (hdoes₁.owned howned) hdoes₂
      (fun _ hw => hw.elim) (fun _ hrow => Statement.noConfusion hrow) fun _ hl => Statement.noConfusion hl
    have howned₂ := hdoes₂.owned (hdoes₁.owned howned)
    have hkind₂ : d₂.kind newIno = some .symlink := by
      rw [Db.kind, Db.info_insertEntry hdoes₂]
      exact hkind₁
    have h₃ : d₃.KindRows (· = newIno) := by
      refine h₂.does howned₂ hdoes₃ (fun _ hw => hw.elim) (fun _ hrow => Statement.noConfusion hrow) ?_
      intro l hl
      cases hl
      exact hkind₂
    obtain ⟨-, t, ht, rfl⟩ := Db.insertSymlink_eq_ok.mp hdoes₃
    -- the new link has its target now
    have h₃' : Db.KindRows (fun _ => False) { d₂ with symlinks := t } := by
      refine ⟨h₃.blobs, h₃.sizes, h₃.symlinks, fun j _ hj => ?_⟩
      by_cases hji : j = newIno
      · subst hji
        exact KeyTable.find?_isSome.mpr ⟨_, (KeyTable.mem_insert? ht).mpr (Or.inr rfl), rfl⟩
      · exact h₃.targets j hji hj
    exact h₃'.does (hdoes₃.owned howned₂) hdoes₄ (fun _ hw => hw.elim)
      (fun _ hrow => Statement.noConfusion hrow) fun _ hl => Statement.noConfusion hl
  rcases hrun with ⟨e, he⟩ | hrows
  · rw [he]
    exact h
  · exact hrows

/-- An operation that rewrites the contents of files only keeps rows and kinds together. -/
lemma Call.kindRows {user : Option (UInt32 × UInt32)} {operation : Op} (howned : s.conn.Owned)
    (h : s.conn.KindRows fun _ => False)
    (hfile : ∀ st i, operation.Issues (s.actAs user) st → st.Rewrites i →
      s.conn.kind i = some .file) :
    ((Call.op user clock operation).exec s).conn.KindRows fun _ => False := by
  by_cases hsymlink : ∃ target path, operation = .symlink target path
  · obtain ⟨target, path, rfl⟩ := hsymlink
    rw [exec_op, asUser_conn, Op.run, answer_apply]
    refine symlink_kindRows ?_ ?_
    · rw [actAs_conn]
      exact howned
    · rw [actAs_conn]
      exact h
  · have hkeeps : ∀ st d d', operation.Issues (s.actAs user) st → st.Does d d' →
        (d.Owned ∧ (d.KindRows fun _ => False) ∧ ∀ st i, operation.Issues (s.actAs user) st →
          st.Rewrites i → d.kind i = some .file) →
        (d'.Owned ∧ (d'.KindRows fun _ => False) ∧ ∀ st i, operation.Issues (s.actAs user) st →
          st.Rewrites i → d'.kind i = some .file) := by
      rintro st d d' hissues hst ⟨howned, hrows, htargets⟩
      refine ⟨hst.owned howned, ?_, fun st' i hissues' hst' => ?_⟩
      · refine hrows.does howned hst (fun i hi => htargets st i hissues hi) ?_ ?_
        · rintro row rfl
          cases operation with
          | mkdir path mode =>
            exact ⟨hissues.size, fun hk => absurd (hissues.kind.symm.trans hk) (by decide)⟩
          | create path flags mode =>
            exact ⟨hissues.size, fun hk => absurd (hissues.kind.symm.trans hk) (by decide)⟩
          | symlink target path => exact absurd ⟨target, path, rfl⟩ hsymlink
          | _ => exact hissues.elim
        · rintro l rfl
          cases operation with
          | symlink target path => exact absurd ⟨target, path, rfl⟩ hsymlink
          | _ => exact hissues.elim
      · have hkind := htargets st' i hissues' hst'
        rcases hst.hasNode (Db.hasNode_of_kind hkind) with hnode | rfl
        · rw [hst.kind (Db.hasNode_of_kind hkind) hnode]
          exact hkind
        · exact absurd hissues (not_issues_deleteNode hissues' hst')
    exact ((Call.writes user clock operation s).keeps hkeeps ⟨howned, h, hfile⟩).2.1

/-- A node that exists before and after a call keeps its kind. -/
lemma Call.kind (hbounds : s.conn.SeqBounds) {user : Option (UInt32 × UInt32)} {operation : Op}
    (hi : s.conn.hasNode i = true)
    (hi' : ((Call.op user clock operation).exec s).conn.hasNode i = true) :
    ((Call.op user clock operation).exec s).conn.kind i = s.conn.kind i := by
  have hgone := (Call.writes user clock operation s).gone_or
    (P := fun d => d.kind i = s.conn.kind i) (hbounds i hi) rfl fun st d d' _ hst hnode hd => ?_
  · refine hgone.resolve_left fun hnone => ?_
    rw [hi'] at hnone
    cases hnone
  · cases hnode' : d'.hasNode i with
    | false => exact Or.inl rfl
    | true => exact Or.inr ((hst.kind hnode hnode').trans hd)

/-! ### Runs -/

/-- Rows and descriptors fit the kinds of their nodes. -/
structure KindsRespected (s : Filesystem) : Prop where
  fds : ∀ f ∈ s.fdtable.entries, s.conn.kind f.inode = some .file
  blobs : ∀ b ∈ s.conn.blobs, s.conn.kind b.inode = some .file
  sizes : ∀ i n, s.conn.info i = some n → n.kind = .dir ∨ n.kind = .symlink → n.size = 0
  symlinks : ∀ i, (s.conn.symlinks.find? i).isSome ↔ s.conn.kind i = some .symlink
  parents : ∀ e ∈ s.conn.entries, s.conn.kind e.parent = some .dir

/-- What the call opens is a file, or new, and it is no rename that replaces the only name of an
open node. -/
structure RespectsKinds (s : Filesystem) (call : Call) : Prop where
  opens : ∀ i, call.Opens s i → s.conn.kind i = some .file
  replaces : ∀ e t, call.Asks s (.replaces e t) →
    s.fdtable.openCount t.inode = 0 ∨ s.conn.names t.inode ≠ 1

/-- What a run keeps for `KindsRespected`. -/
structure KindInvariant (s : Filesystem) : Prop where
  rooted : s.core.Rooted
  pinned : s.core.Pinned
  owned : s.conn.Owned
  bounds : s.conn.SeqBounds
  rows : s.conn.KindRows fun _ => False
  fds : ∀ f ∈ s.fdtable.entries, s.conn.kind f.inode = some .file

lemma kindInvariant_fresh (h : Fresh s) : s.KindInvariant := by
  refine ⟨rooted_fresh h, pinned_fresh h, owned_fresh h, seqBounds_fresh h, ?_, ?_⟩
  all_goals obtain ⟨chunkSize, ownerUid, ownerGid, now, readonly, uid, gid, rfl⟩ := h
  · have hroot : ∀ {i n}, (mkfs chunkSize ownerUid ownerGid now).info i = some n →
        n = ⟨.dir, 0, 2⟩ := by
      intro i n hn
      obtain ⟨r, hr, rfl⟩ := Option.map_eq_some_iff.mp hn
      rcases KeyTable.mem_put.mp (KeyTable.find?_eq_some.mp hr).1 with rfl | ⟨hr, -⟩
      · rfl
      · exact absurd hr (KeyTable.not_mem_empty r)
    refine ⟨fun b hb => absurd hb (KeyTable.not_mem_empty b), fun i n hn _ => ?_,
      fun l hl => absurd hl (KeyTable.not_mem_empty l), fun i _ hi => ?_⟩
    · rw [hroot hn]
    · obtain ⟨n, hn, hkind⟩ := Db.exists_info_of_kind hi
      rw [hroot hn] at hkind
      cases hkind
  · exact fun f hf => absurd hf (KeyTable.not_mem_empty f)

namespace KindInvariant

variable {call : Call}

lemma sparesOpenFiles (h : s.KindInvariant) (hok : RespectsKinds s call) :
    SparesOpenFiles s call := by
  intro l hl
  cases l with
  | removesDir e =>
    -- directories are not open
    refine FdTable.openCount_eq_zero.mpr fun f hf hfe => ?_
    have hfile := h.fds f hf
    have hdir : s.conn.kind e.inode = some .dir := by
      cases call with
      | reopen readonly uid gid => cases hl
      | op user clock operation =>
        cases operation with
        | rmdir path =>
          have hmay : MayRmdir (s.actAs user) path e := hl
          have hdir := hmay.dir
          rwa [actAs_conn] at hdir
        | _ => exact False.elim hl
    rw [hfe, hdir] at hfile
    cases hfile
  | replaces e t =>
    rcases hok.replaces e t hl with hopen | hnames
    · exact Or.inl hopen
    · exact Or.inr (Or.inl hnames)
  | _ => trivial

/-- What the operation rewrites is a file. -/
lemma file_of_rewrites (h : s.KindInvariant) {user : Option (UInt32 × UInt32)} {operation : Op}
    (hok : RespectsKinds s (.op user clock operation)) {st : Statement}
    (hissues : operation.Issues (s.actAs user) st) (hst : st.Rewrites i) :
    s.conn.kind i = some .file := by
  have hfd : ∀ fd, (∃ f, (s.actAs user).fdtable.entries.find? fd = some f ∧ f.Writable ∧
      f.inode = i) → s.conn.kind i = some .file := by
    rintro fd ⟨f, hf, -, rfl⟩
    rw [actAs_fdtable] at hf
    exact h.fds f (KeyTable.find?_eq_some.mp hf).1
  have hopen : ∀ path flags, operation = .open_ path flags →
      (∃ row, MayTruncate (s.actAs user) path flags i row) → s.conn.kind i = some .file := by
    rintro path flags rfl ⟨row, hmay⟩
    have hopens : MayOpen (s.actAs user) path flags i row :=
      ⟨hmay.resolved, hmay.node, hmay.notDir, hmay.access, fun _ => hmay.writable⟩
    exact hok.opens i ⟨row, hopens⟩
  cases st with
  | putBlob j chunk data =>
    obtain rfl : j = i := hst
    cases operation with
    | writeFd fd offset data => exact hfd fd hissues
    | _ => exact hissues.elim
  | updateBlob j chunk data =>
    obtain rfl : j = i := hst
    cases operation with
    | open_ path flags => exact hopen path flags rfl hissues
    | _ => exact hissues.elim
  | deleteBlobs j p =>
    obtain rfl : j = i := hst
    cases operation with
    | open_ path flags => exact hopen path flags rfl hissues
    | _ => exact hissues.elim
  | updateSize j size m c =>
    obtain rfl : j = i := hst
    cases operation with
    | open_ path flags => exact hopen path flags rfl hissues
    | writeFd fd offset data => exact hfd fd hissues
    | _ => exact hissues.elim
  | _ => exact hst.elim

lemma exec (h : s.KindInvariant) (hok : RespectsKinds s call) : (call.exec s).KindInvariant := by
  obtain ⟨l, hl, he⟩ := call.effect s
  have hpinned : (call.exec s).core.Pinned :=
    h.pinned.effect h.rooted.tree (h.sparesOpenFiles hok l hl) he
  cases call with
  | reopen readonly uid gid =>
    exact ⟨h.rooted.effect he, hpinned, h.owned, h.bounds, h.rows,
      fun f hf => absurd hf (KeyTable.not_mem_empty f)⟩
  | op user clock operation =>
    have hwrites := Call.writes user clock operation s
    refine ⟨h.rooted.effect he, hpinned,
      hwrites.keeps (fun _ _ _ _ hst hd => hst.owned hd) h.owned,
      hwrites.keeps (fun _ _ _ _ hst hd => hd.does hst) h.bounds,
      Call.kindRows h.owned h.rows fun st i => h.file_of_rewrites hok, fun f hf => ?_⟩
    have hstays : s.conn.kind f.inode = some .file →
        ((Call.op user clock operation).exec s).conn.kind f.inode = some .file := by
      intro hkind
      rw [Call.kind h.bounds (Db.hasNode_of_kind hkind) (hpinned.node f hf)]
      exact hkind
    rcases Call.mem_fdtable hf with hmem | hopens | hfile
    · exact hstays (h.fds f hmem)
    · exact hstays (hok.opens f.inode hopens)
    · exact hfile

end KindInvariant

/-- Along every run that opens files only, and leaves open files a name when it replaces one, the
tables respect the kinds of nodes. -/
theorem kinds_respected (h : RunsTo RespectsKinds s) : KindsRespected s := by
  have hkinds : s.KindInvariant := Run.invariant (P := fun s => s.KindInvariant)
    (fun _ => kindInvariant_fresh) (fun _ _ _ hok hs => hs.exec hok) h
  refine ⟨hkinds.fds, hkinds.rows.blobs, fun i n hn hkind => hkinds.rows.sizes i n hn ?_, fun i => ?_,
    hkinds.rooted.tree.parentDir⟩
  · intro hfile
    rw [hfile] at hkind
    rcases hkind with hkind | hkind <;> cases hkind
  · refine ⟨fun hi => ?_, hkinds.rows.targets i id⟩
    obtain ⟨l, hl, rfl⟩ := KeyTable.find?_isSome.mp hi
    exact hkinds.rows.symlinks l hl

/-- A new file and a new symbolic link. -/
def fileAndLink : Filesystem :=
  newFsAfter [.create ['/', 'a'] Libc.O_RDWR 0o644, .symlink [47, 97] ['/', 'l']]

theorem kinds_respected_fileAndLink : KindsRespected fileAndLink := by
  have hcreate : RunsTo RespectsKinds
      ((Call.byRoot (.create ['/', 'a'] Libc.O_RDWR 0o644)).exec newFs) := by
    refine .next (.start fresh_newFs) ⟨fun i hi => ?_, fun _ _ hasks => hasks.elim⟩
    obtain ⟨row, hmay⟩ := hi
    obtain ⟨parent, name, -, he⟩ := hmay.named
    exact absurd (Entries.get_eq_ok.mp he).1 (KeyTable.not_mem_empty _)
  exact kinds_respected (.next (i := Call.byRoot (.symlink [47, 97] ['/', 'l'])) hcreate
    ⟨fun _ hi => hi.elim, fun _ _ hasks => hasks.elim⟩)

/-- A directory that `create` has opened, with a byte written to it. -/
def writtenDir : Filesystem :=
  newFsAfter [.mkdir ['/', 'a'] 0o755, .create ['/', 'a'] Libc.O_RDWR 0o644, .writeFd 1 0 [7]]

/-- The byte is stored as contents of the directory. -/
theorem not_kinds_respected_writtenDir : Reachable writtenDir ∧ ¬ KindsRespected writtenDir := by
  refine ⟨reachable_newFsAfter _, fun h => ?_⟩
  have hblob : (⟨2, 0, [7]⟩ : BlobsRow) ∈ writtenDir.conn.blobs :=
    (KeyTable.find?_eq_some (k := (2, 0))).mp (by decide +kernel) |>.1
  have hdir : writtenDir.conn.kind 2 = some .dir := by decide +kernel
  have hfile := h.blobs _ hblob
  rw [hdir] at hfile
  cases hfile

end Filesystem

end SqliteFs

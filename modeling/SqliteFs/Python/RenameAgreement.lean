import SqliteFs.Python.PlainRename
import SqliteFs.Python.SharedTables

/-!
# The plain rename of both libraries

Both libraries move the same entry to the same place, but they disagree about what may stand there,
about the node of a directory that stood there, about the links of the directories that a moved
directory leaves and enters, about directories on the way that may not be searched, and about the
rename of a path to itself.
-/

namespace SqliteFs

open Txn

namespace Python

namespace Filesystem

/-! ### The two filesystems -/

/-- One database mounted by both libraries for root, with nothing open. -/
structure Comparable (r : SqliteFs.Filesystem) (p : Filesystem) : Prop where
  conn : p.conn = Db.ofPort r.conn
  readonly : p.readonly = r.readonly
  rootCaller : r.callerUid = 0
  rootUser : p.uid = 0
  noFds : ∀ f, f ∉ r.fdtable.entries
  noHandles : ∀ f, f ∉ p.fdTable.entries
  tree : r.conn.Tree
  exact : SqliteFs.Filesystem.LinksExact r.conn

/-- Both have the same entries, rows of `nodes` for the same inodes, and the same link counts. -/
structure SameTables (d : SqliteFs.Db) (k : Db) : Prop where
  entries : k.entries = d.entries
  nodes : ∀ i, k.hasNode i = d.hasNode i
  nlink : ∀ i, (k.nodes.find? i).map NodesRow.nlink = (d.nodes.find? i).map SqliteFs.NodesRow.nlink

/-- `rename` does the same in both libraries. -/
def RenamesAgree (r : SqliteFs.Filesystem) (p : Filesystem) (clock : Clock) (env : Env)
    (src dst : Str) : Prop :=
  let o := SqliteFs.Filesystem.rename clock src dst r
  let o' := rename env src dst false false p
  ((∃ x, o.result = .error x) ∧ o.state.conn = r.conn ∧
    (∃ x, o'.result = .error x) ∧ o'.state.conn = p.conn) ∨
  (o.result = .ok ⟨⟩ ∧ o'.result = .ok ⟨⟩ ∧ SameTables o.state.conn o'.state.conn)

lemma sameTables_of_mirrors {d : SqliteFs.Db} {k : Db} (h : Db.Mirrors d k.skeleton) :
    SameTables d k := by
  refine ⟨h.entries, fun i => ?_, fun i => ?_⟩
  · rw [← Db.hasNode_skeleton, h.hasNode]
  · have hnlink := h.nlink i
    rw [Db.info_skeleton, SqliteFs.Db.info, Option.map_map, Option.map_map] at hnlink
    exact hnlink

namespace Comparable

variable {r : SqliteFs.Filesystem} {p : Filesystem} {clock : Clock}

lemma counted (h : Comparable r p) : r.core.Counted fun _ => True :=
  ⟨⟨h.tree, fun f hf => absurd hf (h.noFds f)⟩, SqliteFs.Filesystem.linksExact_iff.mp h.exact⟩

lemma files (h : Comparable r p) : r.core.Counted (· ≠ .dir) :=
  ⟨h.counted.rooted, h.counted.exact.mono fun _ _ => trivial⟩

lemma mirrors (h : Comparable r p) : Db.Mirrors r.conn p.conn.skeleton := by
  rw [h.conn]
  exact Db.mirrors_ofPort _

lemma entries (h : Comparable r p) : p.conn.entries = r.conn.entries := h.mirrors.entries

lemma openCountOf (h : Comparable r p) (o : Option EntryRow) : p.openCountOf o = 0 := by
  cases o with
  | none => rfl
  | some t => exact KeyTable.count_eq_zero.mpr fun f hf => absurd hf (h.noHandles f)

end Comparable

/-! ### The rename of the port -/

section Port
variable {s : SqliteFs.Filesystem} {clock : Clock} {src dst : Str} {e e' t : EntryRow}
  {q q' i : ℕ} {m m' : Str}

/-- The paths say which entry goes where. -/
lemma mayRename_unique (h : SqliteFs.Filesystem.MayRename s src dst e q m)
    (h' : SqliteFs.Filesystem.MayRename s src dst e' q' m') : e' = e ∧ q' = q ∧ m' = m := by
  have hsource := Except.ok.inj (h'.source.symm.trans h.source)
  have htarget := Except.ok.inj (h'.target.symm.trans h.target)
  obtain ⟨hq, hm⟩ := Prod.mk.inj htarget
  exact ⟨KeyTable.eq_of_key h'.move.1 h.move.1 hsource, hq, hm⟩

/-- Where the entry `e` is to become `(q, m)`: it stays, it moves to a free place, or it takes the
place of another entry. -/
inductive Renamed (d : SqliteFs.Db) (e : EntryRow) (q : ℕ) (m : Str) : SqliteFs.Db → Prop
  | stays {t : EntryRow} : d.entries.find? (q, m) = some t → t.inode = e.inode → Renamed d e q m d
  | moves {d' : SqliteFs.Db} : d.entries.find? (q, m) = none →
      d.Moves d' (d.kind e.inode = some .dir) e q m → Renamed d e q m d'
  | replaces {d₁ d' : SqliteFs.Db} {t : EntryRow} : d.entries.find? (q, m) = some t →
      t.inode ≠ e.inode → d.Evicts d₁ (d.kind e.inode = some .dir) e.parent t →
      d₁.Moves d' (d.kind e.inode = some .dir) e q m → Renamed d e q m d'

lemma find?_of_mem {d : SqliteFs.Db} (h : t ∈ d.entries) :
    d.entries.find? (t.parent, t.name) = some t :=
  KeyTable.find?_eq_some.mpr ⟨h, rfl⟩

lemma renamed (h : SqliteFs.Filesystem.MayRename s src dst e q m) :
    Prog.RefusesOr (SqliteFs.Filesystem.rename clock src dst) s fun o =>
      o.result = .ok ⟨⟩ ∧ Renamed s.conn e q m o.state.conn := by
  refine SqliteFs.Filesystem.rename_rule s clock (fun commits hsame _ => ⟨rfl, ?_⟩)
    (fun d e' q' m' k _ hmay hfree hmoves => ⟨rfl, ?_⟩)
    fun d₁ d e' t k _ hmay hevicts hmoves => ⟨rfl, ?_⟩
  · rcases hsame with hsame | ⟨e', he', t, ht, hinode, hsource, htarget⟩
    · exact absurd hsame h.different
    obtain rfl : e' = e := KeyTable.eq_of_key he' h.move.1
      (Except.ok.inj (hsource.symm.trans h.source))
    have hkey := Except.ok.inj (htarget.symm.trans h.target)
    exact .stays (hkey ▸ find?_of_mem ht) hinode
  · obtain ⟨rfl, rfl, rfl⟩ := mayRename_unique h hmay
    exact .moves (KeyTable.find?_eq_none.mpr fun x hx hkey => hfree x hx (Prod.mk.inj hkey)) hmoves
  · obtain ⟨rfl, rfl, rfl⟩ := mayRename_unique h hmay.toMayRename
    exact .replaces (find?_of_mem hmay.entry) hmay.other hevicts hmoves

lemma port_returns (clock : Clock) (hc : s.core.Counted (· ≠ .dir)) (h : SqliteFs.Filesystem.MayRename s src dst e q m)
    (hroom : ∀ t, s.conn.entries.find? (q, m) = some t → t.inode ≠ e.inode →
      SqliteFs.Filesystem.MayEvict s e t) :
    (SqliteFs.Filesystem.rename clock src dst s).result = .ok ⟨⟩ ∧
      Renamed s.conn e q m (SqliteFs.Filesystem.rename clock src dst s).state.conn := by
  have hreturns : Prog.Returns (SqliteFs.Filesystem.rename clock src dst) s := by
    refine (SqliteFs.Filesystem.rename_returns hc).mpr ⟨h.writable, Or.inr ⟨e, q, m, h, ?_⟩⟩
    rintro t ht rfl rfl hne
    exact hroom t (find?_of_mem ht) hne
  obtain ⟨a, ha⟩ := hreturns
  refine (renamed h).resolve_left ?_
  rintro ⟨x, hx⟩
  rw [hx] at ha
  cases ha

lemma renames_returns {o : Outcome SqliteFs.Filesystem SqliteFs.Db SqliteFs.Halt PUnit}
    (h : SqliteFs.Filesystem.Renames s clock src dst o) : ∃ a, o.result = .ok a := by
  cases h with
  | stays _ => exact ⟨_, rfl⟩
  | moves _ _ _ => exact ⟨_, rfl⟩
  | replaces _ _ _ => exact ⟨_, rfl⟩

lemma port_refuses (clock : Clock) (hc : s.core.Counted (· ≠ .dir))
    (h : ¬ (s.readonly = false ∧ (src = dst ∨ SqliteFs.Filesystem.MayMoveTo s src dst))) :
    ∃ x, SqliteFs.Filesystem.rename clock src dst s = ⟨.error x, s, []⟩ := by
  refine (SqliteFs.Filesystem.rename_outcome s clock src dst).resolve_right fun hrenames => h ?_
  exact (SqliteFs.Filesystem.rename_returns hc).mp (renames_returns hrenames)

/-- The port refuses what may not make room. -/
lemma port_refuses_over (clock : Clock) (hc : s.core.Counted (· ≠ .dir))
    (h : SqliteFs.Filesystem.MayRename s src dst e q m) (ht : s.conn.entries.find? (q, m) = some t)
    (hne : t.inode ≠ e.inode) (hroom : ¬ SqliteFs.Filesystem.MayEvict s e t) :
    ∃ x, SqliteFs.Filesystem.rename clock src dst s = ⟨.error x, s, []⟩ := by
  refine port_refuses clock hc fun hreturns => ?_
  obtain ⟨e', q', m', hmay, hall⟩ := hreturns.2.resolve_left h.different
  obtain ⟨rfl, rfl, rfl⟩ := mayRename_unique h hmay
  obtain ⟨hmem, hkey⟩ := KeyTable.find?_eq_some.mp ht
  obtain ⟨rfl, rfl⟩ := Prod.mk.inj hkey
  exact hroom (hall t hmem rfl rfl hne)

/-- For root it is enough that it may search a directory. -/
lemma mayChange_root (hroot : s.callerUid = 0) (hdir : s.conn.kind i = some .dir)
    (hs : Searchable s.conn i) : SqliteFs.Filesystem.MayChange s i := by
  obtain ⟨r, hr, -⟩ := find?_of_kind hdir
  have hget : SqliteFs.Nodes.get s.conn i = .ok r.read := by
    rw [SqliteFs.Nodes.get, hr]
    rfl
  refine ⟨_, hget, ?_⟩
  rw [SqliteFs.requireAccess_eq_ok, hroot]
  exact bne_iff_ne.mpr (hs _ hget)

end Port

/-! ### Where both get -/

/-- The entry `e` is to become `(q, m)`, and root may search the ways there. -/
structure Reaches (s : SqliteFs.Filesystem) (src dst : Str) (e : EntryRow) (q : ℕ) (m : Str) :
    Prop where
  writable : s.readonly = false
  source : SqliteFs.Filesystem.resolveParentAndName s.conn src = .ok (e.parent, e.name)
  target : SqliteFs.Filesystem.resolveParentAndName s.conn dst = .ok (q, m)
  entry : e ∈ s.conn.entries
  dir : s.conn.kind q = some .dir
  srcWay : SearchableWay s.conn src
  dstWay : SearchableWay s.conn dst

section Both
variable {r : SqliteFs.Filesystem} {p : Filesystem} {clock : Clock} {env : Env} {src dst path name : Str}
  {e t : EntryRow} {q i : ℕ} {m : Str}

lemma searchable_parent {d : SqliteFs.Db} (htree : d.Tree) (h : SearchableWay d path)
    (hres : SqliteFs.Filesystem.resolveParentAndName d path = .ok (i, name)) : Searchable d i := by
  obtain ⟨l, hl, hleads⟩ := (SqliteFs.Filesystem.resolveParentAndName_eq_ok htree).mp hres
  exact h l name hl l (List.prefix_refl l) i hleads

lemma gets_iff (h : Comparable r p) (hsrc : TraversesNoSymlink r.conn src)
    (hdst : TraversesNoSymlink r.conn dst) :
    Gets p src dst e q m ↔ Reaches r src dst e q m := by
  have hway : ∀ {path name : Str} {i : ℕ}, TraversesNoSymlink r.conn path →
      (resolveParentAs p.conn p.uid p.gid path = .ok (i, name) ↔
        SqliteFs.Filesystem.resolveParentAndName r.conn path = .ok (i, name) ∧
          r.conn.kind i = some .dir ∧ SearchableWay r.conn path) := by
    intro path name i hsym
    rw [h.conn, h.rootUser]
    exact resolveParentAs_root h.tree hsym
  constructor
  · rintro ⟨hw, hsource, htarget, he, -⟩
    obtain ⟨hsource, -, hsway⟩ := (hway hsrc).mp hsource
    obtain ⟨htarget, hdir, hdway⟩ := (hway hdst).mp htarget
    exact ⟨h.readonly ▸ hw, hsource, htarget, h.entries ▸ he, hdir, hsway, hdway⟩
  · rintro ⟨hw, hsource, htarget, he, hdir, hsway, hdway⟩
    refine ⟨h.readonly.trans hw, (hway hsrc).mpr ⟨hsource, h.tree.parentDir e he, hsway⟩,
      (hway hdst).mpr ⟨htarget, hdir, hdway⟩, h.entries.symm ▸ he, ?_⟩
    obtain ⟨n, hn⟩ := SqliteFs.Db.hasNode_iff.mp (h.tree.child e he)
    obtain ⟨row, hrow, -⟩ := find?_of_kind (SqliteFs.Db.kind_of_info hn)
    rw [h.conn]
    exact ⟨_, get_ofPort.mpr ⟨row, hrow, rfl⟩⟩

lemma mayRename_of_reaches (h : Comparable r p) (hne : src ≠ dst) (hr : Reaches r src dst e q m)
    (hmay : r.conn.MayMove e q) : SqliteFs.Filesystem.MayRename r src dst e q m :=
  ⟨hr.writable, hne, hr.source, hr.target, hmay,
    mayChange_root h.rootCaller (h.tree.parentDir e hr.entry) (searchable_parent h.tree hr.srcWay hr.source),
    mayChange_root h.rootCaller hr.dir (searchable_parent h.tree hr.dstWay hr.target)⟩

lemma reaches_of_mayRename (h : SqliteFs.Filesystem.MayRename r src dst e q m)
    (hsway : SearchableWay r.conn src) (hdway : SearchableWay r.conn dst) : Reaches r src dst e q m :=
  ⟨h.writable, h.source, h.target, h.move.1, h.move.2.2.1.2, hsway, hdway⟩

/-- The loop that climbs the tree looks at the entries only. -/
lemma ancestry_congr {d d' : SqliteFs.Db} (h : d'.entries = d.entries) (i : ℕ) :
    SqliteFs.Entries.ancestry d' i = SqliteFs.Entries.ancestry d i := by
  have hparent : ∀ x, SqliteFs.Entries.parentOf d' x = SqliteFs.Entries.parentOf d x := by
    intro x
    unfold SqliteFs.Entries.parentOf SqliteFs.Entries.ofInode
    rw [h]
  have hloop : ∀ fuel x out, SqliteFs.Entries.ancestryLoop d' fuel x out
      = SqliteFs.Entries.ancestryLoop d fuel x out := by
    intro fuel
    induction fuel with
    | zero => exact fun _ _ => rfl
    | succ fuel ih =>
      intro x out
      rw [SqliteFs.Entries.ancestryLoop, SqliteFs.Entries.ancestryLoop, hparent]
      cases SqliteFs.Entries.parentOf d x with
      | none => rfl
      | some y => exact ih _ _
  unfold SqliteFs.Entries.ancestry
  rw [hloop, h]

/-- Both libraries make the same check before they move a directory. -/
lemma checkSubtree_iff {row : NodesRow} (h : Comparable r p) (hr : Reaches r src dst e q m)
    (hrow : Nodes.get p.conn e.inode = .ok row) :
    checkSubtree p.conn row e q = .ok ⟨⟩ ↔ r.conn.MayMove e q := by
  have hkind : r.conn.kind e.inode = some row.kind :=
    (h.mirrors.kind _).symm.trans (Nodes.kind_of_get hrow)
  have hancestry : ∀ {l}, Nodes.ancestry p.conn q = .ok l ↔
      SqliteFs.Entries.ancestry r.conn q = .ok l := by
    intro l
    rw [Nodes.ancestry_skeleton, ancestry_congr h.mirrors.entries]
  constructor
  · intro hsub
    refine ⟨hr.entry, h.tree.child e hr.entry,
      ⟨SqliteFs.Filesystem.resolveParentAndName_named hr.target, hr.dir⟩, fun hdir => ?_⟩
    obtain ⟨hne, l, hl, hmem⟩ := checkSubtree_ok hrow hsub ((h.mirrors.kind _).trans hdir)
    exact ⟨hne, l, hancestry.mp (Nodes.ancestry_skeleton.mpr hl), hmem⟩
  · intro hmay
    unfold checkSubtree
    split_ifs with hdir
    · obtain ⟨hne, l, hl, hmem⟩ := hmay.2.2.2 (hkind.trans (congrArg some hdir))
      refine bind_res_eq_ok.mpr ⟨l, hancestry.mpr hl, check_eq_ok.mpr ?_⟩
      exact not_or.mpr ⟨hmem, hne⟩
    · rfl

end Both

/-! ### What both leave -/

section Leave
variable {d d' k k' : SqliteFs.Db} {b : Db} {isDir : Prop} [Decidable isDir] {e : EntryRow} {q i : ℕ}
  {m : Str}

lemma SameTables.info (h : SameTables d b) (i : ℕ) :
    (b.skeleton.info i).map NodeInfo.nlink = (d.info i).map NodeInfo.nlink := by
  rw [Db.info_skeleton, SqliteFs.Db.info, Option.map_map, Option.map_map]
  exact h.nlink i

lemma mirrors_moves (hm : Db.Mirrors d k) (hd : d.Moves d' isDir e q m)
    (hk : k.Moves k' False e q m) (hstill : ¬ (isDir ∧ e.parent ≠ q)) : Db.Mirrors d' k' := by
  obtain ⟨d₁, hmove, hadj⟩ := hd
  obtain ⟨k₁, hmove', hadj'⟩ := hk
  rw [if_neg hstill] at hadj
  rw [if_neg fun h => h.1] at hadj'
  exact (hm.moveEntry hmove hmove').adjust hadj hadj'

/-- The port gives one more link to the directory that a directory enters. -/
lemma not_sameTables_of_moves (hm : Db.Mirrors d k) (he : e ∈ d.entries) (hq : d.hasNode q = true)
    (hd : d.Moves d' isDir e q m) (hk : k.Moves b.skeleton False e q m)
    (hacross : isDir ∧ e.parent ≠ q) : ¬ SameTables d' b := by
  intro hsame
  obtain ⟨d₁, hmove, hadj⟩ := hd
  obtain ⟨k₁, hmove', hadj'⟩ := hk
  rw [if_pos hacross] at hadj
  rw [if_neg fun h => h.1] at hadj'
  obtain ⟨n, hn⟩ := SqliteFs.Db.hasNode_iff.mp hq
  have hnlink := hsame.info q
  rw [hadj'.info, (hm.moveEntry hmove hmove').info, hadj.info, SqliteFs.Db.info_moveEntry he hmove,
    hn, Pi.add_apply, Pi.single_eq_same, Pi.single_eq_of_ne hacross.2.symm] at hnlink
  simp at hnlink

lemma moves_hasNode (he : e ∈ d.entries) (h : d.Moves d' isDir e q m) (i : ℕ) :
    d'.hasNode i = d.hasNode i := by
  obtain ⟨d₁, hmove, hadj⟩ := h
  refine (hadj.hasNode i).trans (SqliteFs.Db.hasNode_congr ?_)
  rw [SqliteFs.Db.kind, SqliteFs.Db.info_moveEntry he hmove]
  rfl

lemma not_hasNode_of_removesNode (h : d.RemovesNode d' i) : d'.hasNode i = false := by
  refine Bool.eq_false_iff.mpr fun hnode => ?_
  obtain ⟨n, hn⟩ := SqliteFs.Db.hasNode_iff.mp hnode
  rw [h.info, if_pos rfl] at hn
  cases hn

/-- A name of a node that is no directory goes in both libraries, and the node with it or not. -/
lemma mirrors_evicts {d₁ k₁ k₂ : SqliteFs.Db} {t : EntryRow} {parent : ℕ} {gone : Prop}
    [Decidable gone] (hm : Db.Mirrors d k) (hd : d.Evicts d₁ isDir parent t) (hfile : ¬ isDir)
    (hk : (k.deleteEntry t.parent t.name).Adjust k₁ (Pi.single t.inode (-1)))
    (hlast : if gone then k₁.RemovesNode k₂ t.inode else k₂ = k₁)
    (hgone : ∀ n, d.info t.inode = some n → (U32.ofI64 (n.nlink + -1) = 0 ↔ gone)) :
    Db.Mirrors d₁ k₂ := by
  obtain ⟨-, -, -, n, d₀, hn, hadj, hlast'⟩ := hd
  rw [if_neg fun hdir => hfile hdir.1, add_zero] at hadj
  have hm₁ := (hm.deleteEntry t.parent t.name).adjust hadj hk
  simp only [hgone n hn] at hlast'
  split_ifs at hlast hlast'
  · exact hm₁.removesNode hlast' hlast
  · rwa [hlast, hlast']

/-- The port does not delete the node of a directory that it has replaced. -/
lemma hasNode_of_evicts {d₁ : SqliteFs.Db} {t : EntryRow} {parent : ℕ}
    (hexact : SqliteFs.Filesystem.LinksExact d) (hd : d.Evicts d₁ isDir parent t) (hdir : isDir) :
    d₁.hasNode t.inode = true := by
  obtain ⟨ht, hkind, hempty, n, d₀, hn, hadj, hlast⟩ := hd
  have hisDir : n.kind = .dir := by
    have hk := hkind.mpr hdir
    rwa [SqliteFs.Db.kind_of_info hn, Option.some.injEq] at hk
  have hlinks : n.nlink = 2 := by
    have hcount : (d.entries.count fun x => x.parent = t.inode ∧ d.kind x.inode = some .dir) = 0 :=
      KeyTable.count_eq_zero.mpr fun x hx => decide_eq_false fun h => hempty hdir x hx h.1
    rw [hexact _ n hn, if_pos hisDir, hcount]
    rfl
  rw [hlinks, if_neg (by decide)] at hlast
  rw [hlast, hadj.hasNode]
  exact SqliteFs.Db.hasNode_iff.mpr ⟨n, hn⟩

end Leave

/-! ### Where the outcomes differ -/

/-- The two libraries do not do the same about `t`, which stands where `e` is to go under `q`. The
Python library does not count the links of a directory that gets another parent. The port keeps the
node of an empty directory that it replaces by a directory, and does not replace a file and a
directory by each other, nor a file that seems to have lost its last name and has not. -/
def Differs (d : SqliteFs.Db) (e : EntryRow) (q : ℕ) : Option EntryRow → Prop
  | none => d.kind e.inode = some .dir ∧ e.parent ≠ q
  | some t => t ≠ e ∧
    if d.kind t.inode = some .dir then ∀ x ∈ d.entries, x.parent ≠ t.inode
    else d.kind e.inode = some .dir ∨ d.names t.inode % 2 ^ 32 = 1 ∧ d.names t.inode ≠ 1

/-- The plain renames of the two libraries do not agree. -/
inductive Diverges (s : SqliteFs.Filesystem) (src dst : Str) : Prop
  -- the port does not look where a path leads that is to become itself
  | itself : s.readonly = false → src = dst → (∀ e q m, ¬ Reaches s src dst e q m) →
      Diverges s src dst
  -- the port does not ask whether it may search the directories on the way
  | unsearchable : SqliteFs.Filesystem.MayMoveTo s src dst →
      ¬ (SearchableWay s.conn src ∧ SearchableWay s.conn dst) → Diverges s src dst
  | differs {e : EntryRow} {q : ℕ} {m : Str} : Reaches s src dst e q m → s.conn.MayMove e q →
      Differs s.conn e q (s.conn.entries.find? (q, m)) → Diverges s src dst

/-- The paths lead to two entries of one node. -/
def NameTwoLinks (d : SqliteFs.Db) (src dst : Str) : Prop :=
  ∃ e ∈ d.entries, ∃ t ∈ d.entries, t ≠ e ∧ t.inode = e.inode ∧
    SqliteFs.Filesystem.resolveParentAndName d src = .ok (e.parent, e.name) ∧
    SqliteFs.Filesystem.resolveParentAndName d dst = .ok (t.parent, t.name)

section Agree
variable {r : SqliteFs.Filesystem} {p : Filesystem} {clock : Clock} {env : Env} {src dst : Str}
  {e t : EntryRow} {q : ℕ} {m : Str}

lemma agree_of_refusals
    (hr : ∃ x, SqliteFs.Filesystem.rename clock src dst r = ⟨.error x, r, []⟩)
    (hp : ∃ x, rename env src dst false false p = ⟨.error x, p, []⟩) :
    RenamesAgree r p clock env src dst := by
  obtain ⟨x, hx⟩ := hr
  obtain ⟨y, hy⟩ := hp
  unfold RenamesAgree
  rw [hx, hy]
  exact Or.inl ⟨⟨x, rfl⟩, rfl, ⟨y, rfl⟩, rfl⟩

lemma not_agree_of_port
    (hr : (SqliteFs.Filesystem.rename clock src dst r).result = .ok ⟨⟩)
    (hp : ∃ x, rename env src dst false false p = ⟨.error x, p, []⟩) :
    ¬ RenamesAgree r p clock env src dst := by
  obtain ⟨y, hy⟩ := hp
  rintro (⟨⟨x, hx⟩, -⟩ | ⟨-, hok, -⟩)
  · cases hr.symm.trans hx
  · rw [hy] at hok
    cases hok

lemma not_agree_of_python
    (hr : ∃ x, SqliteFs.Filesystem.rename clock src dst r = ⟨.error x, r, []⟩)
    (hp : (rename env src dst false false p).result = .ok ⟨⟩) :
    ¬ RenamesAgree r p clock env src dst := by
  obtain ⟨x, hx⟩ := hr
  rintro (⟨-, -, ⟨y, hy⟩, -⟩ | ⟨hok, -, -⟩)
  · cases hp.symm.trans hy
  · rw [hx] at hok
    cases hok

lemma agree_iff_sameTables {d : SqliteFs.Db} {b : Db}
    (hr : (SqliteFs.Filesystem.rename clock src dst r).result = .ok ⟨⟩ ∧
      (SqliteFs.Filesystem.rename clock src dst r).state.conn = d)
    (hp : (rename env src dst false false p).result = .ok ⟨⟩ ∧
      (rename env src dst false false p).state.conn = b) :
    RenamesAgree r p clock env src dst ↔ SameTables d b := by
  obtain ⟨hok, rfl⟩ := hr
  obtain ⟨hok', rfl⟩ := hp
  refine ⟨?_, fun h => Or.inr ⟨hok, hok', h⟩⟩
  rintro (⟨⟨x, hx⟩, -⟩ | ⟨-, -, h⟩)
  · cases hok.symm.trans hx
  · exact h

lemma reaches_unique {e' : EntryRow} {q' : ℕ} {m' : Str} (h : Reaches r src dst e q m)
    (h' : Reaches r src dst e' q' m') : e' = e ∧ q' = q ∧ m' = m := by
  obtain ⟨hq, hm⟩ := Prod.mk.inj (Except.ok.inj (h'.target.symm.trans h.target))
  exact ⟨KeyTable.eq_of_key h'.entry h.entry (Except.ok.inj (h'.source.symm.trans h.source)), hq, hm⟩

lemma diverges_iff (hr : Reaches r src dst e q m) : Diverges r src dst ↔
    r.conn.MayMove e q ∧ Differs r.conn e q (r.conn.entries.find? (q, m)) := by
  constructor
  · intro h
    cases h with
    | itself _ _ hnone => exact absurd hr (hnone e q m)
    | unsearchable _ hway => exact absurd ⟨hr.srcWay, hr.dstWay⟩ hway
    | differs hr' hmay hdiffers =>
      obtain ⟨rfl, rfl, rfl⟩ := reaches_unique hr hr'
      exact ⟨hmay, hdiffers⟩
  · exact fun h => .differs hr h.1 h.2

/-- A directory does not lie below its own place. -/
lemma mayMove_own (h : Comparable r p) (hr : Reaches r src dst e e.parent e.name) :
    r.conn.MayMove e e.parent := by
  obtain ⟨l, hl⟩ := h.tree.ancestry_ok e.parent
  refine ⟨hr.entry, h.tree.child e hr.entry, ⟨h.tree.named_parent hr.entry, hr.dir⟩, fun _ =>
    ⟨h.tree.inode_ne_parent hr.entry, l, hl, fun hmem => ?_⟩⟩
  obtain ⟨l', rfl, hchain⟩ := SqliteFs.Db.chain_of_ancestryLoop hl
  have habove := hchain.above (fun _ _ => SqliteFs.Db.up_of_parentOf) _ hmem
  exact h.tree.acyclic e.inode (.head ⟨e, hr.entry, rfl, rfl⟩ habove)

/-- An entry that is to become itself stays. -/
lemma agree_stays (h : Comparable r p) (hg : Gets p src dst e e.parent e.name)
    (hr : Reaches r src dst e e.parent e.name) : RenamesAgree r p clock env src dst := by
  obtain ⟨row, hrow⟩ := hg.node
  have hpython : rename env src dst false false p = ⟨.ok ⟨⟩, p, []⟩ := by
    rw [rename_gets hg hrow, if_pos ⟨rfl, rfl⟩]
  have hport : (SqliteFs.Filesystem.rename clock src dst r).result = .ok ⟨⟩ ∧
      (SqliteFs.Filesystem.rename clock src dst r).state.conn = r.conn := by
    by_cases hne : src = dst
    · unfold SqliteFs.Filesystem.rename
      rw [SqliteFs.Filesystem.requireWritable_bind hr.writable, if_pos hne]
      exact ⟨rfl, rfl⟩
    · have hmay := mayRename_of_reaches h hne hr (mayMove_own h hr)
      have hself := find?_of_mem hr.entry
      obtain ⟨hok, hrenamed⟩ := port_returns clock h.files hmay fun t ht hother =>
        absurd (congrArg EntryRow.inode (Option.some.inj (ht.symm.trans hself))) hother
      refine ⟨hok, ?_⟩
      generalize (SqliteFs.Filesystem.rename clock src dst r).state.conn = d at hrenamed
      cases hrenamed with
      | stays _ _ => rfl
      | moves hfree _ => cases hfree.symm.trans hself
      | replaces ht hother _ _ =>
        exact absurd (congrArg EntryRow.inode (Option.some.inj (ht.symm.trans hself))) hother
  refine (agree_iff_sameTables hport ⟨?_, rfl⟩).mpr ?_
  · rw [hpython]
  · rw [hpython]
    exact sameTables_of_mirrors h.mirrors

/-- No library moves a directory below itself. -/
lemma agree_below (h : Comparable r p) (hg : Gets p src dst e q m) (hr : Reaches r src dst e q m)
    (hother : ¬ (e.parent = q ∧ e.name = m)) (hmay : ¬ r.conn.MayMove e q) :
    RenamesAgree r p clock env src dst := by
  obtain ⟨row, hrow⟩ := hg.node
  refine agree_of_refusals (port_refuses clock h.files ?_) ?_
  · rintro ⟨-, rfl | ⟨e', q', m', hmay', -⟩⟩
    · exact hother (Prod.mk.inj (Except.ok.inj (hr.source.symm.trans hr.target)))
    obtain ⟨rfl, rfl, rfl⟩ := reaches_unique hr (reaches_of_mayRename hmay' hr.srcWay hr.dstWay)
    exact hmay hmay'.move
  · rw [rename_gets hg hrow, if_neg hother]
    cases hsub : checkSubtree p.conn row e q with
    | error x => exact ⟨x, rfl⟩
    | ok u => exact absurd ((checkSubtree_iff h hr hrow).mp hsub) hmay

end Agree

/-! ### An entry that both would move -/

section Both
variable {r : SqliteFs.Filesystem} {p : Filesystem} {clock : Clock} {env : Env} {src dst : Str}
  {e t : EntryRow} {q : ℕ} {m : Str} {b : Db}

/-- What both libraries read of the node of an entry. -/
lemma exists_node (h : Comparable r p) (ht : t ∈ r.conn.entries) :
    ∃ row n, Nodes.get p.conn t.inode = .ok row ∧ r.conn.info t.inode = some n ∧
      row.kind = n.kind ∧ row.nlink = n.nlink := by
  obtain ⟨n, hn⟩ := SqliteFs.Db.hasNode_iff.mp (h.tree.child t ht)
  obtain ⟨c, hc, rfl⟩ := Option.map_eq_some_iff.mp hn
  refine ⟨NodesRow.ofPort c, _, ?_, hn, rfl, rfl⟩
  rw [h.conn]
  exact get_ofPort.mpr ⟨c, hc, rfl⟩

lemma Comparable.shaped (h : Comparable r p) : p.conn.skeleton.Shaped :=
  h.tree.shaped.congr h.mirrors.entries h.mirrors.kind

variable (h : Comparable r p) (hg : Gets p src dst e q m) (hr : Reaches r src dst e q m)
  (hmay : SqliteFs.Filesystem.MayRename r src dst e q m) (hother : ¬ (e.parent = q ∧ e.name = m))

include h hg hr hmay hother

lemma python_returns (hbody : renameBody env dst false false e.parent e.name q m
      (p.conn.entries.find? (q, m)) 0 p.conn = .ok (⟨⟩, b)) :
    (rename env src dst false false p).result = .ok ⟨⟩ ∧
      (rename env src dst false false p).state.conn = b := by
  obtain ⟨row, hrow⟩ := hg.node
  refine rename_of_body hg hrow hother ((checkSubtree_iff h hr hrow).mpr hmay.move) ?_
  unfold plainBody
  rwa [h.openCountOf]

omit hr hmay in
lemma python_refuses (hfind : r.conn.entries.find? (q, m) = some t)
    (hroom : ¬ Body.Returns (replaceTarget env dst false q m t 0) p.conn) :
    ∃ x, rename env src dst false false p = ⟨.error x, p, []⟩ := by
  obtain ⟨row, hrow⟩ := hg.node
  refine rename_of_refusal hg hrow hother ?_
  unfold plainBody
  rw [h.openCountOf]
  exact renameBody_refuses (h.entries ▸ hfind) hroom

/-- Once the Python library has made room for the entry, it returns. -/
lemma python_over {b₁ : Db} (hfind : r.conn.entries.find? (q, m) = some t)
    (hroom : replaceTarget env dst false q m t 0 p.conn = .ok (⟨⟩, b₁)) :
    ∃ b, ((rename env src dst false false p).result = .ok ⟨⟩ ∧
      (rename env src dst false false p).state.conn = b) ∧
      b₁.skeleton.Moves b.skeleton False e q m := by
  obtain ⟨b, hbody, hmoves⟩ := renameBody_over h.shaped (h.entries.symm ▸ hr.entry)
    ((h.mirrors.kind q).trans hr.dir) hother (h.entries ▸ hfind) hroom
  exact ⟨b, python_returns h hg hr hmay hother hbody, hmoves⟩

lemma agree_free (hfree : r.conn.entries.find? (q, m) = none) :
    RenamesAgree r p clock env src dst ↔ ¬ Differs r.conn e q none := by
  obtain ⟨b, hbody, hmoves⟩ := renameBody_free env (h.entries.symm ▸ hr.entry)
    ((h.mirrors.kind q).trans hr.dir) (h.entries ▸ hfree)
  obtain ⟨hok, hrenamed⟩ := port_returns clock h.files hmay fun t ht => nomatch ht.symm.trans hfree
  refine (agree_iff_sameTables ⟨hok, rfl⟩ (python_returns h hg hr hmay hother hbody)).trans ?_
  generalize (SqliteFs.Filesystem.rename clock src dst r).state.conn = d at hrenamed
  cases hrenamed with
  | stays ht _ => cases ht.symm.trans hfree
  | replaces ht _ _ _ => cases ht.symm.trans hfree
  | moves _ hmoves' =>
    have hq : r.conn.hasNode q = true := SqliteFs.Db.hasNode_of_kind hr.dir
    constructor
    · exact fun hsame hacross =>
        not_sameTables_of_moves h.mirrors hr.entry hq hmoves' hmoves hacross hsame
    · exact fun hstill => sameTables_of_mirrors (mirrors_moves h.mirrors hmoves' hmoves hstill)

omit hg hr hother in
/-- The port replaces an entry that may make room. -/
lemma port_over (clock : Clock) (hfind : r.conn.entries.find? (q, m) = some t)
    (hinode : t.inode ≠ e.inode) (hevict : SqliteFs.Filesystem.MayEvict r e t) :
    ∃ d₁ d, ((SqliteFs.Filesystem.rename clock src dst r).result = .ok ⟨⟩ ∧
      (SqliteFs.Filesystem.rename clock src dst r).state.conn = d) ∧
      r.conn.Evicts d₁ (r.conn.kind e.inode = some .dir) e.parent t ∧
      d₁.Moves d (r.conn.kind e.inode = some .dir) e q m := by
  obtain ⟨hok, hrenamed⟩ := port_returns clock h.files hmay fun t' ht' _ =>
    Option.some.inj (hfind.symm.trans ht') ▸ hevict
  generalize (SqliteFs.Filesystem.rename clock src dst r).state.conn = d at hrenamed
  cases hrenamed with
  | stays hfind' heq =>
    obtain rfl := Option.some.inj (hfind.symm.trans hfind')
    exact absurd heq hinode
  | moves hfree _ => cases hfind.symm.trans hfree
  | replaces hfind' _ hevicts hmoves =>
    obtain rfl := Option.some.inj (hfind.symm.trans hfind')
    exact ⟨_, _, ⟨hok, rfl⟩, hevicts, hmoves⟩

/-- A directory at the destination. -/
lemma agree_overDir (hfind : r.conn.entries.find? (q, m) = some t) (hinode : t.inode ≠ e.inode)
    (hdir : r.conn.kind t.inode = some .dir) :
    RenamesAgree r p clock env src dst ↔ ¬ ∀ x ∈ r.conn.entries, x.parent ≠ t.inode := by
  obtain ⟨ht, hkey⟩ := KeyTable.find?_eq_some.mp hfind
  obtain ⟨hparent, hname⟩ := Prod.mk.inj hkey
  obtain ⟨row, n, hrow, hn, hkind, -⟩ := exists_node h ht
  have hrowDir : row.kind = .dir := by
    rw [SqliteFs.Db.kind_of_info hn, Option.some.injEq] at hdir
    rw [hkind, hdir]
  have ht' : t ∈ p.conn.entries := h.entries.symm ▸ ht
  constructor
  · intro hagree hempty
    have hone : ∀ y ∈ p.conn.entries, y.inode = t.inode → y = t := by
      intro y hy hyi
      rw [h.entries] at hy
      exact h.tree.oneName y hy t ht hyi (hyi ▸ hdir)
    obtain ⟨_, b₁, hroom⟩ := replaceDir_returns env dst ht' hrow hrowDir
      (h.entries ▸ hempty) hone
    have hclears := (replaceTarget_ok ht' hroom).2.2
    rw [hparent, hname] at hroom
    obtain ⟨b, hpython, hmoves⟩ := python_over h hg hr hmay hother hfind hroom
    by_cases hsrcDir : r.conn.kind e.inode = some .dir
    · -- both return, but the node of the directory is left in one of the databases only
      obtain ⟨d₁, d, hport, hevicts, hmoves'⟩ := port_over h hmay clock hfind hinode
        ⟨iff_of_true hdir hsrcDir, fun _ => hempty, fun hfile => absurd hdir hfile⟩
      have hne : e ≠ t := fun heq => hinode (congrArg EntryRow.inode heq.symm)
      have he : e ∈ d₁.entries := (hevicts.mem_entries h.tree).mpr ⟨hr.entry, hne⟩
      have he₁ : e ∈ b₁.skeleton.entries := (hclears.mem_entries h.shaped).mpr
        ⟨h.mirrors.entries.symm ▸ hr.entry, fun heq => hne (Option.some.inj heq).symm⟩
      have hgone : b₁.skeleton.hasNode t.inode = false := by
        rcases hclears with hloses | hloses
        · exact not_hasNode_of_removesNode hloses.2.2.2
        · exact absurd ((h.mirrors.kind _).trans hdir) hloses.notDir
      have hnode := ((agree_iff_sameTables hport hpython).mp hagree).nodes t.inode
      rw [← Db.hasNode_skeleton, moves_hasNode he₁ hmoves, hgone, moves_hasNode he hmoves',
        hasNode_of_evicts h.exact hevicts hsrcDir] at hnode
      cases hnode
    · refine not_agree_of_python (port_refuses_over clock h.files hmay hfind hinode fun hevict => ?_)
        hpython.1 hagree
      exact hsrcDir (hevict.sameKind.mp hdir)
  · intro hfull
    simp only [not_forall, not_not] at hfull
    obtain ⟨y, hy, hyp⟩ := hfull
    refine agree_of_refusals (port_refuses_over clock h.files hmay hfind hinode fun hevict => ?_)
      (python_refuses h hg hother hfind ?_)
    · exact hevict.empty (hevict.sameKind.mp hdir) y hy hyp
    · rw [← hparent, ← hname]
      exact replaceDir_refuses hrow hrowDir ⟨y, h.entries.symm ▸ hy, hyp⟩

/-- A node at the destination that is no directory. -/
lemma agree_overFile (hfind : r.conn.entries.find? (q, m) = some t) (hinode : t.inode ≠ e.inode)
    (hfile : r.conn.kind t.inode ≠ some .dir) :
    RenamesAgree r p clock env src dst ↔ ¬ (r.conn.kind e.inode = some .dir ∨
      r.conn.names t.inode % 2 ^ 32 = 1 ∧ r.conn.names t.inode ≠ 1) := by
  obtain ⟨ht, hkey⟩ := KeyTable.find?_eq_some.mp hfind
  obtain ⟨hparent, hname⟩ := Prod.mk.inj hkey
  obtain ⟨row, n, hrow, hn, hkind, hnlink⟩ := exists_node h ht
  have hnFile : n.kind ≠ .dir := by
    rw [SqliteFs.Db.kind_of_info hn] at hfile
    exact fun hk => hfile (congrArg some hk)
  have hnames : n.nlink = r.conn.names t.inode := SqliteFs.Filesystem.nlink_eq_names h.files hn hnFile
  have hlast : row.nlink + -1 = 0 ↔ r.conn.names t.inode = 1 := by
    rw [hnlink, hnames]
    omega
  have ht' : t ∈ p.conn.entries := h.entries.symm ▸ ht
  obtain ⟨b₁, k₁, hroom, hadj, hgone⟩ := replaceFile env dst ht' hrow
    (fun hk => hnFile (hkind.symm.trans hk)) fun hzero y hy hyi => by
      by_contra hne
      refine (SqliteFs.Filesystem.names_eq_one ht).mp (hlast.mp hzero) y ?_ hyi
      exact (SqliteFs.Db.mem_deleteEntry ht).mpr ⟨h.entries ▸ hy, hne⟩
  rw [hparent, hname] at hroom
  obtain ⟨b, hpython, hmoves⟩ := python_over h hg hr hmay hother hfind hroom
  constructor
  · intro hagree hdiffers
    refine not_agree_of_python (port_refuses_over clock h.files hmay hfind hinode fun hevict => ?_)
      hpython.1 hagree
    rcases hdiffers with hdir | ⟨hwraps, hmore⟩
    · exact hfile (hevict.sameKind.mpr hdir)
    · exact hmore (hevict.counted hfile hwraps)
  · intro hsame
    obtain ⟨hsrcFile, hnowrap⟩ := not_or.mp hsame
    have hone : r.conn.names t.inode % 2 ^ 32 = 1 ↔ r.conn.names t.inode = 1 := by
      refine ⟨fun hwraps => not_not.mp fun hmore => hnowrap ⟨hwraps, hmore⟩, fun hone => ?_⟩
      rw [hone]
      decide
    obtain ⟨d₁, d, hport, hevicts, hmoves'⟩ := port_over h hmay clock hfind hinode
      ⟨iff_of_false hfile hsrcFile, fun hdir => absurd hdir hsrcFile, fun _ => hone.mp⟩
    have hmirrors : Db.Mirrors d₁ b₁.skeleton := by
      refine mirrors_evicts h.mirrors hevicts hsrcFile hadj hgone fun n' hn' => ?_
      obtain rfl := Option.some.inj (hn.symm.trans hn')
      rw [SqliteFs.Filesystem.reads_zero_iff h.files hn hnFile ht, hone, hlast]
    refine (agree_iff_sameTables hport hpython).mpr (sameTables_of_mirrors ?_)
    exact mirrors_moves hmirrors hmoves' hmoves fun hacross => hsrcFile hacross.1

end Both

/-! ### Exactly where they agree -/

section Exactly
variable {r : SqliteFs.Filesystem} {p : Filesystem} {clock : Clock} {env : Env} {src dst : Str}

lemma diverges_iff_of_not_reaches (hnone : ∀ e q m, ¬ Reaches r src dst e q m) :
    Diverges r src dst ↔
      r.readonly = false ∧ (src = dst ∨ SqliteFs.Filesystem.MayMoveTo r src dst) := by
  constructor
  · intro h
    cases h with
    | itself hw hsame _ => exact ⟨hw, Or.inl hsame⟩
    | unsearchable hmay _ =>
      obtain ⟨e, q, m, hrename, -⟩ := id hmay
      exact ⟨hrename.writable, Or.inr hmay⟩
    | differs hr _ _ => exact absurd hr (hnone _ _ _)
  · rintro ⟨hw, hsame | hmay⟩
    · exact .itself hw hsame hnone
    · refine .unsearchable hmay fun hway => ?_
      obtain ⟨e, q, m, hrename, -⟩ := hmay
      exact hnone e q m (reaches_of_mayRename hrename hway.1 hway.2)

/-- Where the Python library does not get to the entries. -/
lemma agree_of_not_reaches (h : Comparable r p) (hnone : ∀ e q m, ¬ Reaches r src dst e q m)
    (hgets : ∀ e q m, ¬ Gets p src dst e q m) :
    RenamesAgree r p clock env src dst ↔ ¬ Diverges r src dst := by
  have hpython : ∃ x, rename env src dst false false p = ⟨.error x, p, []⟩ :=
    rename_refuses fun ⟨e, q, m, hg⟩ => hgets e q m hg
  rw [diverges_iff_of_not_reaches hnone]
  constructor
  · intro hagree hreturns
    have hport : Prog.Returns (SqliteFs.Filesystem.rename clock src dst) r :=
      (SqliteFs.Filesystem.rename_returns h.files).mpr hreturns
    obtain ⟨_, hok⟩ := hport
    exact not_agree_of_port hok hpython hagree
  · exact fun hrefuses => agree_of_refusals (port_refuses clock h.files hrefuses) hpython

/-- The plain renames of the two libraries agree just where nothing makes them diverge. -/
theorem renames_agree_iff (h : Comparable r p) (hsrc : TraversesNoSymlink r.conn src)
    (hdst : TraversesNoSymlink r.conn dst) (hlinks : ¬ NameTwoLinks r.conn src dst) :
    RenamesAgree r p clock env src dst ↔ ¬ Diverges r src dst := by
  by_cases hreach : ∃ e q m, Reaches r src dst e q m
  · obtain ⟨e, q, m, hr⟩ := hreach
    have hg : Gets p src dst e q m := (gets_iff h hsrc hdst).mpr hr
    rw [diverges_iff hr]
    by_cases hother : e.parent = q ∧ e.name = m
    · obtain ⟨rfl, rfl⟩ := hother
      rw [find?_of_mem hr.entry]
      exact iff_of_true (agree_stays h hg hr) fun hdiffers => hdiffers.2.1 rfl
    by_cases hmay : r.conn.MayMove e q
    · have hne : src ≠ dst := by
        rintro rfl
        exact hother (Prod.mk.inj (Except.ok.inj (hr.source.symm.trans hr.target)))
      have hrename := mayRename_of_reaches h hne hr hmay
      rw [and_iff_right hmay]
      cases hfind : r.conn.entries.find? (q, m) with
      | none => exact agree_free h hg hr hrename hother hfind
      | some t =>
        obtain ⟨ht, hkey⟩ := KeyTable.find?_eq_some.mp hfind
        obtain ⟨rfl, rfl⟩ := Prod.mk.inj hkey
        have hte : t ≠ e := by
          rintro rfl
          exact hother ⟨rfl, rfl⟩
        have hinode : t.inode ≠ e.inode := fun heq =>
          hlinks ⟨e, hr.entry, t, ht, hte, heq, hr.source, hr.target⟩
        rw [Differs, and_iff_right hte]
        split_ifs with hdir
        · exact agree_overDir h hg hr hrename hother hfind hinode hdir
        · exact agree_overFile h hg hr hrename hother hfind hinode hdir
    · exact iff_of_true (agree_below h hg hr hother hmay) fun hdiffers => hmay hdiffers.1
  · have hnone : ∀ e q m, ¬ Reaches r src dst e q m := fun e q m hr => hreach ⟨e, q, m, hr⟩
    exact agree_of_not_reaches h hnone fun e q m hg => hnone e q m ((gets_iff h hsrc hdst).mp hg)

end Exactly

/-! ### A directory that gets another parent -/

section Examples
variable {r : SqliteFs.Filesystem} {d : SqliteFs.Db} {src dst path : Str} {q : ℕ} {m : Str}

/-- The database of `r` as the Python library mounts it for root. -/
def mounted (r : SqliteFs.Filesystem) : Filesystem := openFs (Db.ofPort r.conn) r.readonly 0 0

lemma comparable_mounted (h : SqliteFs.Filesystem.RunsTo SqliteFs.Filesystem.ReplacesNoDir r)
    (hroot : r.callerUid = 0) (hclosed : r.fdtable.entries = .empty) : Comparable r (mounted r) where
  conn := rfl
  readonly := rfl
  rootCaller := hroot
  rootUser := rfl
  noFds f hf := KeyTable.not_mem_empty f (hclosed ▸ hf)
  noHandles f hf := KeyTable.not_mem_empty f hf
  tree := (SqliteFs.Filesystem.rooted_runsTo h).tree
  exact := SqliteFs.Filesystem.linksExact_iff.mpr
    (SqliteFs.Filesystem.counted_of_replacesNoDir h).exact

lemma traversesNoSymlink_of_none (h : (d.nodes.count fun row => row.kind = .symlink) = 0) :
    TraversesNoSymlink d path := by
  intro _ _ _ _ _ i _ hkind
  obtain ⟨row, hrow, hsymlink⟩ := find?_of_kind hkind
  exact of_decide_eq_false (KeyTable.count_eq_zero.mp h row (KeyTable.find?_eq_some.mp hrow).1) hsymlink

lemma not_nameTwoLinks_of_free (htarget : SqliteFs.Filesystem.resolveParentAndName d dst = .ok (q, m))
    (hfree : d.entries.find? (q, m) = none) : ¬ NameTwoLinks d src dst := by
  rintro ⟨e, -, t, ht, -, -, -, htarget'⟩
  cases Except.ok.inj (htarget.symm.trans htarget')
  cases hfree.symm.trans (find?_of_mem ht)

/-- Two directories side by side. -/
def twoDirs : SqliteFs.Filesystem :=
  SqliteFs.Filesystem.newFsAfter [.mkdir ['/', 'a'] 0o755, .mkdir ['/', 'b'] 0o755]

lemma comparable_twoDirs : Comparable twoDirs (mounted twoDirs) := by
  refine comparable_mounted ?_ (by decide +kernel) (by decide +kernel)
  exact .next (.next (.start SqliteFs.Filesystem.fresh_newFs) fun _ _ hasks => hasks.elim)
    fun _ _ hasks => hasks.elim

lemma traversesNoSymlink_twoDirs : TraversesNoSymlink twoDirs.conn path :=
  traversesNoSymlink_of_none (by decide +kernel)

theorem renames_agree_iff_twoDirs :
    RenamesAgree twoDirs (mounted twoDirs) ⟨0, 0⟩ ⟨0, 1, by decide⟩ ['/', 'a'] ['/', 'c'] ↔
      ¬ Diverges twoDirs ['/', 'a'] ['/', 'c'] :=
  renames_agree_iff comparable_twoDirs traversesNoSymlink_twoDirs traversesNoSymlink_twoDirs
    (not_nameTwoLinks_of_free (q := 1) (m := ['c']) (by decide +kernel) (by decide +kernel))

/-- When `/a` becomes `/b/a`, the port counts its link for `/b`, and the Python library for the
root still. -/
theorem not_renames_agree : ¬ ∀ (r : SqliteFs.Filesystem) (p : Filesystem) (clock : Clock) (env : Env)
    (src dst : Str), Comparable r p → TraversesNoSymlink r.conn src → TraversesNoSymlink r.conn dst →
      ¬ NameTwoLinks r.conn src dst → RenamesAgree r p clock env src dst := by
  intro h
  have hagree := h twoDirs (mounted twoDirs) ⟨0, 0⟩ ⟨0, 1, by decide⟩ ['/', 'a'] ['/', 'b', '/', 'a']
    comparable_twoDirs traversesNoSymlink_twoDirs traversesNoSymlink_twoDirs
    (not_nameTwoLinks_of_free (q := 3) (m := ['a']) (by decide +kernel) (by decide +kernel))
  have hport : (SqliteFs.Filesystem.rename ⟨0, 0⟩ ['/', 'a'] ['/', 'b', '/', 'a'] twoDirs).result
      = .ok ⟨⟩ := by decide +kernel
  rcases hagree with ⟨⟨x, hx⟩, -⟩ | ⟨-, -, hsame⟩
  · cases hport.symm.trans hx
  · exact absurd (hsame.nlink 3) (by decide +kernel)

end Examples

end Filesystem

end Python

end SqliteFs

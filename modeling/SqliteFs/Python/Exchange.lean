import SqliteFs.Python.PlainRename
import SqliteFs.Python.SharedTables

/-!
# The exchange of two entries in the Python library

An exchange parks its source under a name of its own in the directory of its target. It goes
through if nothing has that name, and exchanges the inodes of the two entries. A second one takes
this back if the two paths still lead to the two entries.
-/

namespace SqliteFs

open Txn Relation ParentForest

namespace Python

/-! ### The entries after an exchange -/

section Entries
variable {d : Db} {e t r x : EntryRow} {k : ℕ × Str}

/-- An entry at the place of `e` or `t` names the inode of the other one. -/
def swapInodes (e t r : EntryRow) : EntryRow :=
  if Keyed.key r = Keyed.key e then ⟨r.parent, r.name, t.inode⟩
  else if Keyed.key r = Keyed.key t then ⟨r.parent, r.name, e.inode⟩
  else r

lemma key_swapInodes (e t r : EntryRow) : Keyed.key (swapInodes e t r) = Keyed.key r := by
  unfold swapInodes
  split_ifs <;> rfl

/-- The tables with the inodes of the entries `e` and `t` exchanged. -/
def Db.exchanged (d : Db) (e t : EntryRow) : Db :=
  { d with entries := d.entries.map (swapInodes e t) (key_swapInodes e t) }

lemma Db.find?_exchanged (d : Db) (e t : EntryRow) (k : ℕ × Str) :
    (d.exchanged e t).entries.find? k = (d.entries.find? k).map (swapInodes e t) :=
  KeyTable.find?_map _ (key_swapInodes e t) _ _

lemma swapInodes_left (e t : EntryRow) : swapInodes e t e = ⟨e.parent, e.name, t.inode⟩ := by
  rw [swapInodes, if_pos rfl]

lemma swapInodes_right (hne : Keyed.key e ≠ Keyed.key t) :
    swapInodes e t t = ⟨t.parent, t.name, e.inode⟩ := by
  rw [swapInodes, if_neg hne.symm, if_pos rfl]

lemma swapInodes_other (he : Keyed.key r ≠ Keyed.key e) (ht : Keyed.key r ≠ Keyed.key t) :
    swapInodes e t r = r := by
  rw [swapInodes, if_neg he, if_neg ht]

lemma swapInodes_comm (hne : Keyed.key e ≠ Keyed.key t) : swapInodes e t r = swapInodes t e r := by
  unfold swapInodes
  split_ifs with he ht
  · exact absurd (he.symm.trans ht) hne
  · rfl
  · rfl
  · rfl

/-- What an exchange leaves. -/
lemma Exchanges.find?_entries {d' : Db} (h : Exchanges d.skeleton d'.skeleton e t)
    (he : e ∈ d.entries) (ht : t ∈ d.entries) (hne : Keyed.key e ≠ Keyed.key t)
    (hfree : d.entries.find? (t.parent, Filesystem.swapTmp) = none) :
    d'.entries.find? k = (d.exchanged e t).entries.find? k := by
  have hplaces : ¬ (e.parent = t.parent ∧ e.name = t.name) := fun h => hne (Prod.ext h.1 h.2)
  have hmem : ∀ x, x ∈ d'.entries ↔ (x ∈ d.entries ∧ x ≠ e ∧ x ≠ t) ∨
      x = ⟨e.parent, e.name, t.inode⟩ ∨ x = ⟨t.parent, t.name, e.inode⟩ :=
    fun x => h.mem_entries (x := x) he ht hplaces hfree
  refine Option.ext fun x => ?_
  rw [Db.find?_exchanged, KeyTable.find?_eq_some, Option.map_eq_some_iff, hmem]
  constructor
  · rintro ⟨⟨hx, hxe, hxt⟩ | rfl | rfl, rfl⟩
    · refine ⟨x, KeyTable.find?_key hx, swapInodes_other ?_ ?_⟩
      · exact fun hkey => hxe (KeyTable.eq_of_key hx he hkey)
      · exact fun hkey => hxt (KeyTable.eq_of_key hx ht hkey)
    · exact ⟨e, KeyTable.find?_key he, swapInodes_left e t⟩
    · exact ⟨t, KeyTable.find?_key ht, swapInodes_right hne⟩
  · rintro ⟨r, hfind, rfl⟩
    obtain ⟨hr, rfl⟩ := KeyTable.find?_eq_some.mp hfind
    refine ⟨?_, key_swapInodes e t r⟩
    by_cases hre : r = e
    · subst hre
      exact Or.inr (Or.inl (swapInodes_left r t))
    by_cases hrt : r = t
    · subst hrt
      exact Or.inr (Or.inr (swapInodes_right hne))
    · rw [swapInodes_other (fun hkey => hre (KeyTable.eq_of_key hr he hkey))
        fun hkey => hrt (KeyTable.eq_of_key hr ht hkey)]
      exact Or.inl ⟨hr, hre, hrt⟩

/-- The entries that an exchange puts at the places of `e` and `t`, exchanged again. -/
lemma Db.exchanged_twice (he : e ∈ d.entries) (ht : t ∈ d.entries)
    (hne : Keyed.key e ≠ Keyed.key t) :
    ((d.exchanged e t).exchanged (swapInodes e t e) (swapInodes e t t)).entries.find? k
      = d.entries.find? k := by
  rw [Db.find?_exchanged, Db.find?_exchanged, Option.map_map]
  cases hr : d.entries.find? k with
  | none => rfl
  | some r =>
    obtain ⟨hr, -⟩ := KeyTable.find?_eq_some.mp hr
    refine congrArg some ?_
    rw [Function.comp_apply, swapInodes_left, swapInodes_right hne]
    by_cases hre : r = e
    · subst hre
      rw [swapInodes_left]
      exact swapInodes_left _ _
    by_cases hrt : r = t
    · subst hrt
      rw [swapInodes_right hne]
      exact swapInodes_right hne
    · have hke : Keyed.key r ≠ Keyed.key e := fun hkey => hre (KeyTable.eq_of_key hr he hkey)
      have hkt : Keyed.key r ≠ Keyed.key t := fun hkey => hrt (KeyTable.eq_of_key hr ht hkey)
      rw [swapInodes_other hke hkt]
      exact swapInodes_other hke hkt

/-- An exchange that takes back one of two inodes is one of the same two places. -/
lemma key_of_takes_back {e' t' : EntryRow} (he : e ∈ d.entries) (hother : e.inode ≠ t.inode)
    (h : ((d.exchanged e t).exchanged e' t').entries.find? (Keyed.key e)
      = d.entries.find? (Keyed.key e)) :
    Keyed.key e = Keyed.key e' ∨ Keyed.key e = Keyed.key t' := by
  by_contra hnot
  obtain ⟨hne', hnt'⟩ := not_or.mp hnot
  rw [Db.find?_exchanged, Db.find?_exchanged, KeyTable.find?_key he, Option.map_some,
    Option.map_some, Option.some.injEq, swapInodes_left] at h
  rw [swapInodes_other (r := ⟨e.parent, e.name, t.inode⟩) hne' hnt'] at h
  exact hother (congrArg EntryRow.inode h).symm

end Entries

/-! ### The way up from a directory that a path leads to -/

section Climb
variable {d d' : SqliteFs.Db} {e t x : EntryRow} {q : ℕ}

lemma not_up_root (hshape : d.Shaped) (y : ℕ) : ¬ d.Up ROOT_INODE y := by
  rintro ⟨x, hx, hi, -⟩
  exact hshape.rootUnnamed x hx hi

lemma not_above_root (hshape : d.Shaped) {i : ℕ} (hi : i ≠ ROOT_INODE) :
    ¬ ReflTransGen d.Up ROOT_INODE i := by
  intro habove
  rcases ReflTransGen.cases_head habove with heq | ⟨y, hy, -⟩
  · exact hi heq.symm
  · exact not_up_root hshape y hy

/-- An entry does not lead back above the directory it lies in, if that hangs below the root. -/
lemma not_above_parent (hshape : d.Shaped) (hroot : Rooted d.Up ROOT_INODE t.parent)
    (ht : t ∈ d.entries) : ¬ ReflTransGen d.Up t.parent t.inode := by
  intro habove
  have hcycle : TransGen d.Up t.parent t.parent := TransGen.tail' habove ⟨t, ht, rfl, rfl⟩
  exact hroot.acyclic (not_up_root hshape) hcycle

section Exchanges
variable (he : e ∈ d.entries) (ht : t ∈ d.entries)
  (hne : ¬ (e.parent = t.parent ∧ e.name = t.name))
  (hfree : d.entries.find? (t.parent, Filesystem.swapTmp) = none) (hx : Exchanges d d' e t)
include he ht hne hfree hx

lemma up_exchanges {z y : ℕ} (hze : z ≠ e.inode) (hzt : z ≠ t.inode) : d'.Up z y ↔ d.Up z y := by
  have hmem : ∀ x, x ∈ d'.entries ↔ (x ∈ d.entries ∧ x ≠ e ∧ x ≠ t) ∨
      x = ⟨e.parent, e.name, t.inode⟩ ∨ x = ⟨t.parent, t.name, e.inode⟩ :=
    fun x => hx.mem_entries (x := x) he ht hne hfree
  constructor
  · rintro ⟨x, hx, rfl, rfl⟩
    rcases (hmem x).mp hx with ⟨hx, -, -⟩ | rfl | rfl
    · exact ⟨x, hx, rfl, rfl⟩
    · exact absurd rfl hzt
    · exact absurd rfl hze
  · rintro ⟨x, hx, rfl, rfl⟩
    refine ⟨x, (hmem x).mpr (Or.inl ⟨hx, ?_, ?_⟩), rfl, rfl⟩
    · exact fun heq => hze (congrArg EntryRow.inode heq)
    · exact fun heq => hzt (congrArg EntryRow.inode heq)

/-- Above a directory that does not lie below either of the two inodes, all stays as it is. -/
lemma above_exchanges (hqe : ¬ ReflTransGen d.Up q e.inode) (hqt : ¬ ReflTransGen d.Up q t.inode) :
    (Rooted d.Up ROOT_INODE q → Rooted d'.Up ROOT_INODE q) ∧
      ∀ z, ReflTransGen d'.Up q z → ReflTransGen d.Up q z := by
  have hup : ∀ z y, ReflTransGen d.Up q z → (d'.Up z y ↔ d.Up z y) := by
    intro z y hz
    refine up_exchanges he ht hne hfree hx ?_ ?_
    · rintro rfl
      exact hqe hz
    · rintro rfl
      exact hqt hz
  refine ⟨fun hroot => ?_, fun z hz => ?_⟩
  · exact hroot.congr_on (S := ReflTransGen d.Up q) (fun _ _ hz hy => hz.tail hy) hup .refl
  · induction hz with
    | refl => exact .refl
    | tail _ hy ih => exact ih.tail ((hup _ _ ih).mp hy)

end Exchanges

end Climb

namespace Filesystem

variable {s : Filesystem} {env : Env} {src dst path : Str} {e t : EntryRow} {d d' : Db} {q : ℕ}
  {m : Str} {node : NodesRow}

/-- What a parent is resolved to hangs below the root, whatever else the tables hold. -/
lemma rooted_of_resolveParentAs {uid gid : ℤ} (hshape : d.skeleton.Shaped)
    (h : resolveParentAs d uid gid path = .ok (q, m)) : Rooted d.skeleton.Up ROOT_INODE q := by
  obtain ⟨init, row, -, hres, hrow, hdir, -⟩ := resolveParentAs_eq_ok.mp h
  refine resolvePathAs_induction (P := fun i => d.skeleton.kind i = some .dir →
    Rooted d.skeleton.Up ROOT_INODE i) (fun _ => .base) ?_ hres (hdir ▸ Nodes.kind_of_get hrow)
  intro dir e hdirRow hkind he hparent hchild
  refine .climb ⟨e.parent, e, he, rfl, rfl⟩ ?_
  rintro y ⟨e', he', hinode, rfl⟩
  rw [hshape.oneName e' he' e he hinode (hinode ▸ hchild)]
  exact hparent (hkind ▸ Nodes.kind_of_get hdirRow)

/-- `rename` does not take the destination for a part of the source. -/
lemma checkSubtree_of_not_above (hshape : d.skeleton.Shaped)
    (hroot : Rooted d.skeleton.Up ROOT_INODE q) (h : ¬ ReflTransGen d.skeleton.Up q e.inode) :
    checkSubtree d node e q = .ok ⟨⟩ := by
  obtain ⟨l, hl, hlen⟩ := SqliteFs.Db.exists_chain_of_rooted hshape.rootUnnamed hroot
  have hancestry : Nodes.ancestry d q = .ok l :=
    Nodes.ancestry_skeleton.mpr (SqliteFs.Db.ancestryLoop_of_chain hl (Nat.lt_succ_of_le hlen))
  unfold checkSubtree
  split_ifs
  · refine bind_res_eq_ok.mpr ⟨l, hancestry, check_eq_ok.mpr (not_or.mpr ⟨fun hmem => h ?_, ?_⟩)⟩
    · exact (hl.above (fun _ _ => SqliteFs.Db.up_of_parentOf) _ hmem).to_reflTransGen
    · rintro rfl
      exact h .refl
  · rfl

/-! ### The transaction of an exchange -/

section Body
variable {d₀ : Db} {i n : ℕ}

/-- A walk reads the same of the nodes and symlinks in both databases. -/
def SameNodes (d d' : Db) : Prop :=
  (∀ i, (d'.nodes.find? i).map accessOf = (d.nodes.find? i).map accessOf) ∧ d'.symlinks = d.symlinks

lemma sameNodes_touch : Body.Keeps (SameNodes d₀) (touch env i) := by
  intro d u d' h hd
  obtain ⟨-, hd⟩ := params_bind_eq_ok.mp hd
  obtain rfl := update_eq_ok.mp hd
  refine ⟨fun j => ?_, h.2⟩
  rw [← h.1 j]
  unfold Db.updateNode
  rw [KeyTable.find?_updateAt]
  split_ifs
  · rw [Option.map_map]
    rfl
  · rfl

lemma sameNodes_rename {p q : ℕ} {m n : Str} :
    Body.Keeps (SameNodes d₀) (Entries.rename p m q n) := by
  intro d u d' h hd
  have hmove := execute_eq_ok.mp hd
  unfold Db.moveEntry at hmove
  split_ifs at hmove
  · obtain ⟨_, -, rfl⟩ := Option.map_eq_some_iff.mp hmove
    exact h
  · cases hmove
    exact h

lemma sameNodes_swap {p : ℕ} {l : Str} {noreplace : Bool} :
    Body.Keeps (SameNodes d₀) (renameBody env dst noreplace true p l q m (some t) n) := by
  unfold renameBody
  rw [if_pos rfl]
  dsimp only
  refine .bind (.bind sameNodes_rename fun _ => .bind sameNodes_rename fun _ => sameNodes_rename) fun _ => ?_
  exact .bind sameNodes_touch fun _ => .ite sameNodes_touch (.pure _)

lemma hasNode_moveEntry {p q : ℕ} {m n : Str} (h : d.moveEntry p m q n = some d') (j : ℕ) :
    d'.hasNode j = d.hasNode j := by
  unfold Db.moveEntry at h
  split_ifs at h
  · obtain ⟨_, -, rfl⟩ := Option.map_eq_some_iff.mp h
    rfl
  · cases h
    rfl

/-- Two entries can change places if the name in between is free. -/
lemma swapEntries_returns (hshape : d.skeleton.Shaped) (he : e ∈ d.entries) (ht : t ∈ d.entries)
    (hne : Keyed.key e ≠ Keyed.key t) (hfree : d.entries.find? (t.parent, swapTmp) = none) :
    Body.Returns (swapEntries e.parent e.name t.parent t.name) d := by
  have hdir : ∀ {x}, x ∈ d.entries → d.hasNode x.parent = true := by
    intro x hx
    rw [← Db.hasNode_skeleton]
    exact SqliteFs.Db.hasNode_of_kind (hshape.parentDir x hx)
  have hte : t ≠ e := by
    rintro rfl
    exact hne rfl
  obtain ⟨d₁, h₁⟩ := moveEntry_isSome he (hdir ht) hfree
  have hmem₁ : ∀ {x}, x ∈ d₁.entries ↔ (x ∈ d.entries ∧ x ≠ e) ∨ x = ⟨t.parent, swapTmp, e.inode⟩ :=
    SqliteFs.Db.mem_moveEntry he (Db.skeleton_moveEntry h₁)
  have ht₁ : t ∈ d₁.entries := hmem₁.mpr (Or.inl ⟨ht, hte⟩)
  -- the old place of the source is free now
  have hfree₁ : d₁.entries.find? (e.parent, e.name) = none := by
    refine KeyTable.find?_eq_none.mpr fun x hx hkey => ?_
    rcases hmem₁.mp hx with ⟨hx, hxe⟩ | rfl
    · exact hxe (KeyTable.eq_of_key hx he hkey)
    · exact KeyTable.find?_eq_none.mp hfree e he hkey.symm
  obtain ⟨d₂, h₂⟩ := moveEntry_isSome ht₁ ((hasNode_moveEntry h₁ _).trans (hdir he)) hfree₁
  have hmem₂ : ∀ {x}, x ∈ d₂.entries ↔ (x ∈ d₁.entries ∧ x ≠ t) ∨ x = ⟨e.parent, e.name, t.inode⟩ :=
    SqliteFs.Db.mem_moveEntry ht₁ (Db.skeleton_moveEntry h₂)
  have htmp : (⟨t.parent, swapTmp, e.inode⟩ : EntryRow) ∈ d₂.entries := by
    refine hmem₂.mpr (Or.inl ⟨hmem₁.mpr (Or.inr rfl), ?_⟩)
    intro heq
    exact KeyTable.find?_eq_none.mp hfree t ht (congrArg Keyed.key heq.symm)
  -- and so is that of the target
  have hfree₂ : d₂.entries.find? (t.parent, t.name) = none := by
    refine KeyTable.find?_eq_none.mpr fun x hx hkey => ?_
    rcases hmem₂.mp hx with ⟨hx, hxt⟩ | rfl
    · exact hxt (KeyTable.eq_of_key hx ht₁ hkey)
    · exact hne hkey
  have hdir₂ : d₂.hasNode t.parent = true :=
    (hasNode_moveEntry h₂ _).trans ((hasNode_moveEntry h₁ _).trans (hdir ht))
  obtain ⟨d₃, h₃⟩ := moveEntry_isSome htmp hdir₂ hfree₂
  exact .bind (execute_eq_ok (u := ⟨⟩) |>.mpr h₁)
    (.bind (execute_eq_ok (u := ⟨⟩) |>.mpr h₂) ⟨⟨⟩, d₃, execute_eq_ok.mpr h₃⟩)

lemma swapBody_returns (env : Env) (dst : Str) (n : ℕ) (hshape : d.skeleton.Shaped) (he : e ∈ d.entries)
    (ht : t ∈ d.entries) (hne : Keyed.key e ≠ Keyed.key t)
    (hfree : d.entries.find? (t.parent, swapTmp) = none) :
    Body.Returns (renameBody env dst false true e.parent e.name t.parent t.name (some t) n) d := by
  unfold renameBody
  rw [if_pos rfl]
  exact .bind_of (swapEntries_returns hshape he ht hne hfree) fun _ d' _ => touches_returns env _ d'

end Body

/-! ### The call -/

lemma MayRename.entries_ne {o : Option EntryRow} (h : MayRename s src dst e t.parent t.name o) :
    Keyed.key e ≠ Keyed.key t := fun hkey => h.other (Prod.mk.inj hkey)

lemma MaySwap.target_mem (h : MaySwap s src dst e t) : t ∈ s.conn.entries :=
  (KeyTable.find?_eq_some.mp h.found).1

/-- `rename` makes an exchange, or nothing. -/
lemma exchange_refuses (s : Filesystem) (env : Env) (src dst : Str) :
    Prog.RefusesOr (rename env src dst false true) s fun o => o.state = s ∧
      resolveParentAs s.conn s.uid s.gid src = resolveParentAs s.conn s.uid s.gid dst ∨
        ∃ e t, MaySwap s src dst e t := by
  refine bind_requireWritable fun hw => bind_require fun _ => ?_
  refine bind_resolveParent fun p l hsrc => bind_resolveParent fun q m hdst => ?_
  refine bind_getEntry fun e he hp hl => bind_getNode fun node hnode => ?_
  subst hp hl
  split_ifs with hsame
  · obtain ⟨rfl, rfl⟩ := hsame
    exact .of_run (Or.inl ⟨rfl, hsrc.trans hdst.symm⟩)
  refine bind_ask fun _ hsub => bind_ask fun t ht => bind_ask fun n _ => ?_
  obtain rfl := Except.ok.inj ht
  refine .bind_transaction fun _ d hd => ?_
  obtain ⟨x, hx, d₁, d₂, d₃, h₁, h₂, -⟩ := renameBody_swap_ok hd
  obtain ⟨hmem, hkey⟩ := KeyTable.find?_eq_some.mp hx
  obtain ⟨rfl, rfl⟩ := Prod.mk.inj hkey
  have hmay : MayRename s src dst e x.parent x.name (some x) :=
    ⟨hw, hsrc, hdst, he, ⟨node, hnode, hsub⟩, hsame, hx⟩
  exact Or.inr ⟨e, x, hmay, free_of_swap he hmem hsame h₁ h₂⟩

/-- What an exchange leaves of the filesystem. -/
structure Swapped (s s' : Filesystem) (e t : EntryRow) : Prop where
  readonly : s'.readonly = s.readonly
  uid : s'.uid = s.uid
  gid : s'.gid = s.gid
  exchanges : Exchanges s.conn.skeleton s'.conn.skeleton e t
  nodes : SameNodes s.conn s'.conn

lemma exchange_runs (env : Env) (hshape : s.conn.skeleton.Shaped) (h : MaySwap s src dst e t) :
    (rename env src dst false true s).result = .ok ⟨⟩ ∧
      Swapped s (rename env src dst false true s).state e t := by
  have ht := h.target_mem
  obtain ⟨row, hrow, hsub⟩ := h.subtree
  obtain ⟨_, d, hbody⟩ := swapBody_returns env dst (s.openCountOf (some t)) hshape
    h.entry ht h.entries_ne h.free
  have hnodes : SameNodes s.conn d := sameNodes_swap s.conn _ d ⟨fun _ => rfl, rfl⟩ hbody
  have hex : Exchanges s.conn.skeleton d.skeleton e t := by
    obtain ⟨_, -, hsteps⟩ := renameBody_swap_ok hbody
    exact hsteps
  obtain ⟨child, hchild⟩ : ∃ child, Nodes.get d t.inode = .ok child := by
    obtain ⟨k, hk⟩ := hshape.kind_child ht
    have hkind := hex.kind_eq h.entry ht h.other h.free t.inode
    obtain ⟨child, hchild, -⟩ := Nodes.get_of_kind (hkind.trans hk)
    exact ⟨child, hchild⟩
  have hrun : withConn (renameBody env dst false true e.parent e.name t.parent t.name
      (s.conn.entries.find? (t.parent, t.name))
      (s.openCountOf (s.conn.entries.find? (t.parent, t.name)))) s
        = ⟨.ok ⟨⟩, { s with conn := d }, [d]⟩ := by
    rw [h.found]
    unfold withConn Prog.transaction
    rw [show renameBody env dst false true e.parent e.name t.parent t.name (some t)
      (s.openCountOf (some t)) (Durable.disk s) = .ok (⟨⟩, d) from hbody]
    rfl
  have hflags : ¬ ((false : Bool) = true ∧ (true : Bool) = true) := fun hf => nomatch hf.1
  obtain ⟨s', l, hs', hswapped⟩ : ∃ s' l, rename env src dst false true s = ⟨.ok ⟨⟩, s', l⟩ ∧
      Swapped s s' e t := by
    unfold rename
    rw [requireWritable_bind h.writable, require_bind hflags, resolveParent_bind h.source]
    dsimp only
    rw [resolveParent_bind h.target]
    dsimp only
    rw [getEntry_bind (Entries.get_eq_ok.mpr ⟨h.entry, rfl, rfl⟩), getNode_bind hrow,
      if_neg h.other, ask_bind hsub, ask_bind (b := s.conn.entries.find? (t.parent, t.name)) rfl,
      ask_bind (b := s.openCountOf (s.conn.entries.find? (t.parent, t.name))) rfl,
      Prog.bind_apply_ok hrun]
    unfold changeCache
    rw [Prog.volatile_bind_ok (a := ⟨⟩) rfl, h.found]
    unfold emitMove emit
    rw [Prog.volatile_bind_ok (a := ⟨⟩) rfl]
    dsimp only
    rw [if_pos rfl, getNode_bind hchild]
    exact ⟨_, _, rfl, rfl, rfl, rfl, hex, hnodes⟩
  rw [hs']
  exact ⟨rfl, hswapped⟩

/-! ### Once and twice -/

/-- The two paths lead to the places of `e` and `t`. -/
def LeadTo (d : Db) (uid gid : ℤ) (src dst : Str) (e t : EntryRow) : Prop :=
  resolveParentAs d uid gid src = .ok (e.parent, e.name) ∧
    resolveParentAs d uid gid dst = .ok (t.parent, t.name)

/-- With the two inodes exchanged, the two paths lead to the same two places. If they have changed
sides, the name that an exchange takes for a while is free on the other side, too. -/
def LeadBack (s : Filesystem) (src dst : Str) (e t : EntryRow) : Prop :=
  LeadTo (s.conn.exchanged e t) s.uid s.gid src dst e t ∨
    LeadTo (s.conn.exchanged e t) s.uid s.gid src dst t e ∧
      s.conn.entries.find? (e.parent, swapTmp) = none

/-- `rename(src, dst, exchange=True)` succeeds and exchanges the inodes of `e` and `t`, and the same
call made once more takes it back. -/
def SwapsAndBack (s : Filesystem) (env env' : Env) (src dst : Str) (e t : EntryRow) : Prop :=
  (rename env src dst false true s).result = .ok ⟨⟩ ∧
    (∀ x, x ∈ (rename env src dst false true s).state.conn.entries ↔
      (x ∈ s.conn.entries ∧ x ≠ e ∧ x ≠ t) ∨ x = ⟨e.parent, e.name, t.inode⟩ ∨
        x = ⟨t.parent, t.name, e.inode⟩) ∧
    (rename env' src dst false true (rename env src dst false true s).state).result = .ok ⟨⟩ ∧
    ∀ x, x ∈ (rename env' src dst false true
      (rename env src dst false true s).state).state.conn.entries ↔ x ∈ s.conn.entries

section Twice
variable {s' : Filesystem}

lemma maySwap_of_leadTo (hshape : s.conn.skeleton.Shaped) (hw : s.readonly = false)
    (he : e ∈ s.conn.entries) (ht : t ∈ s.conn.entries) (hne : Keyed.key e ≠ Keyed.key t)
    (hlead : LeadTo s.conn s.uid s.gid src dst e t)
    (hnot : ¬ ReflTransGen s.conn.skeleton.Up t.parent e.inode)
    (hfree : s.conn.entries.find? (t.parent, swapTmp) = none) : MaySwap s src dst e t := by
  obtain ⟨k, hk⟩ := hshape.kind_child he
  obtain ⟨row, hrow, -⟩ := Nodes.get_of_kind hk
  have hsub : checkSubtree s.conn row e t.parent = .ok ⟨⟩ :=
    checkSubtree_of_not_above hshape (rooted_of_resolveParentAs hshape hlead.2) hnot
  exact ⟨⟨hw, hlead.1, hlead.2, he, ⟨row, hrow, hsub⟩, fun h => hne (Prod.ext h.1 h.2),
    KeyTable.find?_key ht⟩, hfree⟩

/-- A successful exchange is one of the entries that the paths lead to. -/
lemma maySwap_of_ok (he : e ∈ s.conn.entries) (ht : t ∈ s.conn.entries)
    (hne : Keyed.key e ≠ Keyed.key t) (hlead : LeadTo s.conn s.uid s.gid src dst e t)
    (h : (rename env src dst false true s).result = .ok ⟨⟩) : MaySwap s src dst e t := by
  rcases exchange_refuses s env src dst with
    ⟨x, hx⟩ | ⟨-, hsame⟩ | ⟨e', t', hmay⟩
  · rw [hx] at h
    cases h
  · exact absurd (Except.ok.inj (hlead.1.symm.trans (hsame.trans hlead.2))) hne
  · have hsrc := Except.ok.inj (hlead.1.symm.trans hmay.source)
    have hdst := Except.ok.inj (hlead.2.symm.trans hmay.target)
    rw [KeyTable.eq_of_key he hmay.entry hsrc, KeyTable.eq_of_key ht hmay.target_mem hdst]
    exact hmay

lemma Swapped.find?_entries (h : Swapped s s' e t) (hmay : MaySwap s src dst e t) (k : ℕ × Str) :
    s'.conn.entries.find? k = (s.conn.exchanged e t).entries.find? k :=
  h.exchanges.find?_entries hmay.entry hmay.target_mem hmay.entries_ne hmay.free

/-- Paths lead where they lead in the tables with the two inodes exchanged. -/
lemma Swapped.resolveParentAs (h : Swapped s s' e t) (hmay : MaySwap s src dst e t) :
    resolveParentAs s'.conn s'.uid s'.gid path
      = resolveParentAs (s.conn.exchanged e t) s.uid s.gid path := by
  have hways : SameWays (s.conn.exchanged e t) s'.conn := by
    refine ⟨h.find?_entries hmay, h.nodes.1, fun i => ?_⟩
    rw [h.nodes.2]
    rfl
  rw [h.uid, h.gid, hways.resolveParentAs]

lemma Swapped.shaped (h : Swapped s s' e t) (hmay : MaySwap s src dst e t)
    (hshape : s.conn.skeleton.Shaped) : s'.conn.skeleton.Shaped :=
  h.exchanges.shaped hmay.entry hmay.target_mem hmay.other hmay.free hshape

/-- Links to one inode stay what they are. -/
lemma leadBack_of_same_inode (he : e ∈ s.conn.entries) (ht : t ∈ s.conn.entries)
    (hsame : e.inode = t.inode) (hlead : LeadTo s.conn s.uid s.gid src dst e t) :
    LeadBack s src dst e t := by
  have hways : SameWays s.conn (s.conn.exchanged e t) := by
    refine ⟨fun k => ?_, fun _ => rfl, fun _ => rfl⟩
    rw [Db.find?_exchanged]
    cases hr : s.conn.entries.find? k with
    | none => rfl
    | some r =>
      obtain ⟨hr, -⟩ := KeyTable.find?_eq_some.mp hr
      refine congrArg some ?_
      unfold swapInodes
      split_ifs with hre hrt
      · rw [KeyTable.eq_of_key hr he hre, ← hsame]
      · rw [KeyTable.eq_of_key hr ht hrt, hsame]
      · rfl
  refine Or.inl ⟨?_, ?_⟩
  · rw [hways.resolveParentAs]
    exact hlead.1
  · rw [hways.resolveParentAs]
    exact hlead.2

lemma Swapped.mem_entries (h : Swapped s s' e t) (hmay : MaySwap s src dst e t) {r : EntryRow}
    (hr : r ∈ s.conn.entries) : swapInodes e t r ∈ s'.conn.entries := by
  refine (KeyTable.find?_eq_some.mp ((h.find?_entries hmay (Keyed.key r)).trans ?_)).1
  rw [Db.find?_exchanged, KeyTable.find?_key hr, Option.map_some]

lemma Swapped.find?_none (h : Swapped s s' e t) (hmay : MaySwap s src dst e t) {k : ℕ × Str} :
    s'.conn.entries.find? k = none ↔ s.conn.entries.find? k = none := by
  rw [h.find?_entries hmay, Db.find?_exchanged, Option.map_eq_none_iff]

/-- No directory gets below itself, neither way. -/
lemma Swapped.not_above (h : Swapped s s' e t) (hmay : MaySwap s src dst e t)
    (hshape : s.conn.skeleton.Shaped) (hbelow : ¬ ReflTransGen s.conn.skeleton.Up t.parent e.inode)
    (habove : ¬ ReflTransGen s.conn.skeleton.Up e.parent t.inode) :
    ¬ ReflTransGen s'.conn.skeleton.Up t.parent t.inode ∧
      ¬ ReflTransGen s'.conn.skeleton.Up e.parent e.inode := by
  have hself : ∀ {r}, r ∈ s.conn.entries →
      Rooted s.conn.skeleton.Up ROOT_INODE r.parent →
        ¬ ReflTransGen s.conn.skeleton.Up r.parent r.inode :=
    fun hr hroot => not_above_parent hshape hroot hr
  have hte := hself hmay.target_mem (rooted_of_resolveParentAs hshape hmay.target)
  have hee := hself hmay.entry (rooted_of_resolveParentAs hshape hmay.source)
  have hclimb : ∀ {q}, ¬ ReflTransGen s.conn.skeleton.Up q e.inode →
      ¬ ReflTransGen s.conn.skeleton.Up q t.inode → ∀ z, ReflTransGen s'.conn.skeleton.Up q z →
        ReflTransGen s.conn.skeleton.Up q z := fun hqe hqt =>
    (above_exchanges hmay.entry hmay.target_mem hmay.other hmay.free h.exchanges hqe hqt).2
  exact ⟨fun hz => hte (hclimb hbelow hte _ hz), fun hz => hee (hclimb hee habove _ hz)⟩

/-- The second exchange finds the entries that the first one has left. -/
lemma second_maySwap (hshape : s.conn.skeleton.Shaped) (hmay : MaySwap s src dst e t)
    (hbelow : ¬ ReflTransGen s.conn.skeleton.Up t.parent e.inode)
    (habove : ¬ ReflTransGen s.conn.skeleton.Up e.parent t.inode) (h : Swapped s s' e t)
    (hback : LeadBack s src dst e t) :
    MaySwap s' src dst (swapInodes e t e) (swapInodes e t t) ∨
      MaySwap s' src dst (swapInodes e t t) (swapInodes e t e) := by
  have hshape' := h.shaped hmay hshape
  have hwritable : s'.readonly = false := h.readonly.trans hmay.writable
  have he := h.mem_entries hmay hmay.entry
  have ht := h.mem_entries hmay hmay.target_mem
  have hkeys : Keyed.key (swapInodes e t e) ≠ Keyed.key (swapInodes e t t) := by
    rw [key_swapInodes, key_swapInodes]
    exact hmay.entries_ne
  obtain ⟨hnot, hnot'⟩ := h.not_above hmay hshape hbelow habove
  rw [swapInodes_left, swapInodes_right hmay.entries_ne] at *
  rcases hback with ⟨hsrc, hdst⟩ | ⟨⟨hsrc, hdst⟩, hfree⟩
  · refine Or.inl (maySwap_of_leadTo hshape' hwritable he ht hkeys ⟨?_, ?_⟩ hnot
      ((h.find?_none hmay).mpr hmay.free))
    · exact (h.resolveParentAs hmay).trans hsrc
    · exact (h.resolveParentAs hmay).trans hdst
  · refine Or.inr (maySwap_of_leadTo hshape' hwritable ht he hkeys.symm ⟨?_, ?_⟩ hnot'
      ((h.find?_none hmay).mpr hfree))
    · exact (h.resolveParentAs hmay).trans hsrc
    · exact (h.resolveParentAs hmay).trans hdst

/-- The second exchange takes back the first if the paths lead back. -/
lemma second_restores (env : Env) (hshape : s.conn.skeleton.Shaped) (hmay : MaySwap s src dst e t)
    (hbelow : ¬ ReflTransGen s.conn.skeleton.Up t.parent e.inode)
    (habove : ¬ ReflTransGen s.conn.skeleton.Up e.parent t.inode) (h : Swapped s s' e t)
    (hback : LeadBack s src dst e t) :
    (rename env src dst false true s').result = .ok ⟨⟩ ∧
      ∀ x, x ∈ (rename env src dst false true s').state.conn.entries ↔ x ∈ s.conn.entries := by
  have hkeys : Keyed.key (swapInodes e t e) ≠ Keyed.key (swapInodes e t t) := by
    rw [key_swapInodes, key_swapInodes]
    exact hmay.entries_ne
  have hrestores : ∀ {k}, ((s.conn.exchanged e t).entries.find? k).map
      (swapInodes (swapInodes e t e) (swapInodes e t t)) = s.conn.entries.find? k := by
    intro k
    rw [← Db.find?_exchanged]
    exact Db.exchanged_twice hmay.entry hmay.target_mem hmay.entries_ne
  rcases second_maySwap hshape hmay hbelow habove h hback with hmay' | hmay'
  · obtain ⟨hok, hswapped⟩ := exchange_runs env (h.shaped hmay hshape) hmay'
    refine ⟨hok, KeyTable.mem_congr fun k => ?_⟩
    rw [hswapped.find?_entries hmay', Db.find?_exchanged, h.find?_entries hmay]
    exact hrestores
  · obtain ⟨hok, hswapped⟩ := exchange_runs env (h.shaped hmay hshape) hmay'
    refine ⟨hok, KeyTable.mem_congr fun k => ?_⟩
    rw [hswapped.find?_entries hmay', Db.find?_exchanged, h.find?_entries hmay,
      funext fun r => (swapInodes_comm hkeys (r := r)).symm]
    exact hrestores

/-- If the second exchange takes back the first, the paths lead back. -/
lemma leadBack_of_restores (hshape : s.conn.skeleton.Shaped) (hmay : MaySwap s src dst e t)
    (h : Swapped s s' e t) (hok : (rename env src dst false true s').result = .ok ⟨⟩)
    (hsame : ∀ x, x ∈ (rename env src dst false true s').state.conn.entries ↔ x ∈ s.conn.entries) :
    LeadBack s src dst e t := by
  have he := hmay.entry
  have ht := hmay.target_mem
  have hne := hmay.entries_ne
  by_cases hinode : e.inode = t.inode
  · exact leadBack_of_same_inode he ht hinode ⟨hmay.source, hmay.target⟩
  have hother : e ≠ ⟨e.parent, e.name, t.inode⟩ := by
    intro heq
    have hinode' := congrArg EntryRow.inode heq
    exact hinode hinode'
  rcases exchange_refuses s' env src dst with
    ⟨x, hx⟩ | ⟨hstate, -⟩ | ⟨e', t', hmay'⟩
  · rw [hx] at hok
    cases hok
  · -- a call that does nothing would leave the entries exchanged
    have hfind := (h.find?_entries hmay (Keyed.key e)).symm
    rw [hstate] at hsame
    rw [KeyTable.find?_congr hsame, Db.find?_exchanged, KeyTable.find?_key he, Option.map_some,
      swapInodes_left, Option.some.injEq] at hfind
    exact absurd hfind.symm hother
  · obtain ⟨-, hswapped⟩ := exchange_runs env (h.shaped hmay hshape) hmay'
    have hfind : ∀ k, ((s.conn.exchanged e t).exchanged e' t').entries.find? k
        = s.conn.entries.find? k := by
      intro k
      rw [Db.find?_exchanged, ← h.find?_entries hmay, ← Db.find?_exchanged,
        ← hswapped.find?_entries hmay']
      exact KeyTable.find?_congr hsame k
    have hfind' : ∀ k, ((s.conn.exchanged t e).exchanged e' t').entries.find? k
        = s.conn.entries.find? k := by
      intro k
      rw [Db.find?_exchanged, Db.find?_exchanged, funext fun r => (swapInodes_comm hne (r := r)).symm,
        ← Db.find?_exchanged, ← Db.find?_exchanged]
      exact hfind k
    have hsrc := (h.resolveParentAs hmay).symm.trans hmay'.source
    have hdst := (h.resolveParentAs hmay).symm.trans hmay'.target
    rcases key_of_takes_back he hinode (hfind _) with hee | het
    · rcases key_of_takes_back ht (Ne.symm hinode) (hfind' _) with hte | htt
      · exact absurd (hee.trans hte.symm) hne
      · exact Or.inl ⟨hsrc.trans (congrArg Except.ok hee.symm), hdst.trans (congrArg Except.ok htt.symm)⟩
    · rcases key_of_takes_back ht (Ne.symm hinode) (hfind' _) with hte | htt
      · refine Or.inr ⟨⟨hsrc.trans (congrArg Except.ok hte.symm),
          hdst.trans (congrArg Except.ok het.symm)⟩, (h.find?_none hmay).mp ?_⟩
        rw [show e.parent = t'.parent from congrArg Prod.fst het]
        exact hmay'.free
      · exact absurd (het.trans htt.symm) hne

end Twice

/-! ### Paths without symlinks -/

section NoSymlink

/-- A walk that meets neither inode nor symlinks goes the same way after the exchange. -/
lemma walk_exchanged {uid gid : ℤ} {again again' : Option (Str → Res ℕ)} {rest : List Str}
    (hmem : e ∈ d.entries) (hmem' : t ∈ d.entries)
    (he : ¬ ReflTransGen d.skeleton.Up q e.inode) (ht : ¬ ReflTransGen d.skeleton.Up q t.inode) :
    ∀ {done : List Str} {cur : ℕ}, (∀ init, init <+: rest → ∀ j, d.skeleton.Leads cur init j →
        d.skeleton.kind j ≠ some .symlink) →
      walk d uid gid path true again done cur rest = .ok q →
        walk (d.exchanged e t) uid gid path true again' done cur rest = .ok q ∧
          ReflTransGen d.skeleton.Up q cur := by
  induction rest with
  | nil =>
    intro done cur _ h
    rw [walk] at h ⊢
    obtain rfl := Except.ok.inj h
    exact ⟨rfl, .refl⟩
  | cons name rest ih =>
    intro done cur hsym h
    rw [walk] at h
    obtain ⟨dir, hdir, h₁⟩ := bind_res_eq_ok.mp h
    obtain ⟨hkind, h₂⟩ := check_bind_eq_ok.mp h₁
    obtain ⟨u, haccess, h₃⟩ := bind_res_eq_ok.mp h₂
    obtain ⟨x, hx, h₄⟩ := bind_res_eq_ok.mp h₃
    obtain ⟨child, hchild, h₅⟩ := bind_res_eq_ok.mp h₄
    obtain ⟨hxmem, rfl, rfl⟩ := Entries.get_eq_ok.mp hx
    have hinode : child.inode = x.inode :=
      (KeyTable.find?_eq_some.mp (Nodes.get_eq_ok.mp hchild)).2
    have hlink : ¬ child.kind = .symlink := by
      intro hlink
      refine hsym [x.name] (List.cons_prefix_cons.mpr ⟨rfl, List.nil_prefix⟩) _
        ⟨x, hxmem, rfl, rfl, rfl⟩ ?_
      rw [Nodes.kind_of_get hchild, hlink]
    rw [if_neg fun hs => hlink hs.1, hinode] at h₅
    obtain ⟨hwalk, habove⟩ := ih (fun init hinit j hj => hsym (x.name :: init)
      (List.cons_prefix_cons.mpr ⟨rfl, hinit⟩) j ⟨x, hxmem, rfl, rfl, hj⟩) h₅
    have hother : ∀ {y}, ¬ ReflTransGen d.skeleton.Up q y.inode → y ∈ d.entries →
        Keyed.key x ≠ Keyed.key y := by
      intro y hy hymem hkey
      exact hy (KeyTable.eq_of_key hxmem hymem hkey ▸ habove)
    have hget : Entries.get (d.exchanged e t) x.parent x.name = .ok x := by
      rw [Entries.get, rowOr_eq_ok, Db.find?_exchanged]
      exact Option.map_eq_some_iff.mpr
        ⟨x, KeyTable.find?_key hxmem, swapInodes_other (hother he hmem) (hother ht hmem')⟩
    refine ⟨?_, habove.tail ⟨x, hxmem, rfl, rfl⟩⟩
    rw [walk]
    refine bind_res_eq_ok.mpr ⟨dir, hdir, check_bind_eq_ok.mpr ⟨hkind, ?_⟩⟩
    refine bind_res_eq_ok.mpr ⟨u, haccess, bind_res_eq_ok.mpr ⟨x, hget, ?_⟩⟩
    refine bind_res_eq_ok.mpr ⟨child, hchild, ?_⟩
    rw [if_neg fun hs => hlink hs.1, hinode]
    exact hwalk

/-- A path that goes through no symlink leads where it did. -/
lemma resolveParentAs_exchanged {uid gid : ℤ} (hmem : e ∈ d.entries) (hmem' : t ∈ d.entries)
    (he : ¬ ReflTransGen d.skeleton.Up q e.inode) (ht : ¬ ReflTransGen d.skeleton.Up q t.inode)
    (hsym : TraversesNoSymlink d.skeleton path)
    (h : resolveParentAs d uid gid path = .ok (q, m)) :
    resolveParentAs (d.exchanged e t) uid gid path = .ok (q, m) := by
  obtain ⟨init, row, hparse, hres, hrow, hdir, haccess⟩ := resolveParentAs_eq_ok.mp h
  refine resolveParentAs_eq_ok.mpr ⟨init, row, hparse, ?_, hrow, hdir, haccess⟩
  unfold resolvePathAs MAXSYMLINKS at hres ⊢
  rw [resolvePathWith] at hres ⊢
  obtain ⟨components, hcomponents, hwalk⟩ := bind_res_eq_ok.mp hres
  have hshared := parsePath_eq_ok.mp hparse
  rw [parsePath_eq_ok, parsePath_init hshared] at hcomponents
  obtain rfl := Except.ok.inj hcomponents
  refine bind_res_eq_ok.mpr ⟨init, parsePath_eq_ok.mpr (parsePath_init hshared), ?_⟩
  exact (walk_exchanged hmem hmem' he ht (hsym init m hshared) hwalk).1

/-- Two paths that go through no symlink lead back. -/
theorem leadBack_of_noSymlink (hs : Reachable s) (he : e ∈ s.conn.entries)
    (ht : t ∈ s.conn.entries) (hlead : LeadTo s.conn s.uid s.gid src dst e t)
    (hbelow : ¬ ReflTransGen s.conn.skeleton.Up t.parent e.inode)
    (habove : ¬ ReflTransGen s.conn.skeleton.Up e.parent t.inode)
    (hsrc : TraversesNoSymlink s.conn.skeleton src)
    (hdst : TraversesNoSymlink s.conn.skeleton dst) : LeadBack s src dst e t := by
  have hshape : s.conn.skeleton.Shaped := shaped_runsTo hs
  have hee := not_above_parent hshape (rooted_of_resolveParentAs hshape hlead.1) he
  have htt := not_above_parent hshape (rooted_of_resolveParentAs hshape hlead.2) ht
  exact Or.inl ⟨resolveParentAs_exchanged he ht hee habove hsrc hlead.1,
    resolveParentAs_exchanged he ht hbelow htt hdst hlead.2⟩

end NoSymlink

/-- Where two paths lead to two entries neither of which lies below the other, an exchange is a
swap that a second one takes back if and only if the filesystem is writable, nothing has the name
in between in the directory of the target, and both paths lead back once the inodes are
exchanged. -/
theorem swapsAndBack_iff {env' : Env} (hs : Reachable s) (he : e ∈ s.conn.entries)
    (ht : t ∈ s.conn.entries) (hne : e ≠ t) (hlead : LeadTo s.conn s.uid s.gid src dst e t)
    (hbelow : ¬ ReflTransGen s.conn.skeleton.Up t.parent e.inode)
    (habove : ¬ ReflTransGen s.conn.skeleton.Up e.parent t.inode) :
    SwapsAndBack s env env' src dst e t ↔ s.readonly = false ∧
      s.conn.entries.find? (t.parent, swapTmp) = none ∧ LeadBack s src dst e t := by
  have hshape : s.conn.skeleton.Shaped := shaped_runsTo hs
  have hkeys : Keyed.key e ≠ Keyed.key t := fun hkey => hne (KeyTable.eq_of_key he ht hkey)
  constructor
  · rintro ⟨hok, -, hok', hback⟩
    have hmay := maySwap_of_ok he ht hkeys hlead hok
    obtain ⟨-, hswapped⟩ := exchange_runs env hshape hmay
    exact ⟨hmay.writable, hmay.free, leadBack_of_restores hshape hmay hswapped hok' hback⟩
  · rintro ⟨hw, hfree, hback⟩
    have hmay := maySwap_of_leadTo hshape hw he ht hkeys hlead hbelow hfree
    obtain ⟨hok, hswapped⟩ := exchange_runs env hshape hmay
    refine ⟨hok, fun x => ?_, second_restores env' hshape hmay hbelow habove hswapped hback⟩
    exact hswapped.exchanges.mem_entries he ht hmay.other hfree

/-- The files `/a` and `/b`. -/
def twoFiles : Filesystem := newFsAfter [.create ['/', 'a'] 0o644 0, .create ['/', 'b'] 0o644 0]

theorem swapsAndBack_iff_twoFiles :
    SwapsAndBack twoFiles ⟨0, 1, by decide⟩ ⟨0, 1, by decide⟩ ['/', 'a'] ['/', 'b'] ⟨1, ['a'], 2⟩
      ⟨1, ['b'], 3⟩ ↔ twoFiles.readonly = false ∧
      twoFiles.conn.entries.find? (1, swapTmp) = none ∧
      LeadBack twoFiles ['/', 'a'] ['/', 'b'] ⟨1, ['a'], 2⟩ ⟨1, ['b'], 3⟩ :=
  swapsAndBack_iff (reachable_newFsAfter _) (by decide +kernel) (by decide +kernel) (by decide)
    ⟨by decide +kernel, by decide +kernel⟩
    (not_above_root (shaped_runsTo (reachable_newFsAfter _)) (by decide))
    (not_above_root (shaped_runsTo (reachable_newFsAfter _)) (by decide))

/-- The files `/a`, `/b` and `/__swap_tmp__`. -/
def threeFiles : Filesystem :=
  newFsAfter [.create ['/', 'a'] 0o644 0, .create ['/', 'b'] 0o644 0,
    .create ('/' :: swapTmp) 0o644 0]

/-- Where a file has the name in between, an exchange of two other files fails. -/
theorem not_swapsAndBack : ¬ ∀ (s : Filesystem) (env env' : Env) (src dst : Str) (e t : EntryRow),
    Reachable s → s.readonly = false → s.uid = 0 → e ∈ s.conn.entries → t ∈ s.conn.entries → e ≠ t →
      LeadTo s.conn s.uid s.gid src dst e t → ¬ ReflTransGen s.conn.skeleton.Up t.parent e.inode →
      ¬ ReflTransGen s.conn.skeleton.Up e.parent t.inode → SwapsAndBack s env env' src dst e t := by
  intro h
  have hreach : Reachable threeFiles := reachable_newFsAfter _
  have hswaps := h threeFiles ⟨0, 1, by decide⟩ ⟨0, 1, by decide⟩ ['/', 'a'] ['/', 'b']
    ⟨1, ['a'], 2⟩ ⟨1, ['b'], 3⟩ hreach (by decide +kernel) (by decide +kernel) (by decide +kernel)
    (by decide +kernel) (by decide) ⟨by decide +kernel, by decide +kernel⟩
    (not_above_root (shaped_runsTo hreach) (by decide))
    (not_above_root (shaped_runsTo hreach) (by decide))
  exact absurd hswaps.1 (by decide +kernel)

end Filesystem

end Python

end SqliteFs

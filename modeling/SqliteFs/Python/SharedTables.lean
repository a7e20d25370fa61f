import SqliteFs.Python.Rename
import SqliteFs.Filesystem.Passes

/-!
# One database, two libraries

Both libraries open the same file. Here are the tables of the Rust port as the Python library reads
them, what it means that both leave the same tables, and where a path leads root in either library
if there is no symlink on its way: to the same place, only that the Python library wants to search
every directory that it goes through.
-/

namespace SqliteFs

open Txn

namespace Python

/-- A row of `nodes`, as the Python library reads it. -/
def NodesRow.ofPort (r : SqliteFs.NodesRow) : NodesRow :=
  ⟨r.inode, r.kind, r.mode.toNat, r.uid.toNat, r.gid.toNat, r.size, r.atimeNs, r.mtimeNs, r.ctimeNs,
    r.nlink⟩

lemma key_ofPort (r : SqliteFs.NodesRow) : Keyed.key (NodesRow.ofPort r) = Keyed.key r := rfl

namespace Db

/-- The tables of the Rust port, as the Python library reads them. -/
def ofPort (d : SqliteFs.Db) : Db where
  chunkSize := d.chunkSize
  nodes := d.nodes.map NodesRow.ofPort key_ofPort
  nodesSeq := d.nodesSeq
  entries := d.entries
  blobs := d.blobs
  xattrs := d.xattrs
  symlinks := d.symlinks

variable {d d₁ d₂ : SqliteFs.Db} {k k₁ k₂ : SqliteFs.Db} {δ : ℕ → ℤ} {i j : ℕ}

@[simp] lemma ofPort_entries (d : SqliteFs.Db) : (ofPort d).entries = d.entries := rfl

lemma find?_ofPort (d : SqliteFs.Db) (i : ℕ) :
    (ofPort d).nodes.find? i = (d.nodes.find? i).map NodesRow.ofPort :=
  KeyTable.find?_map _ key_ofPort _ _

/-- `k` has the entries of `d`, and its nodes with their kinds and link counts. -/
structure Mirrors (d k : SqliteFs.Db) : Prop where
  entries : k.entries = d.entries
  info : ∀ i, k.info i = (d.info i).map fun n => ⟨n.kind, 0, n.nlink⟩

lemma mirrors_ofPort (d : SqliteFs.Db) : Mirrors d (ofPort d).skeleton := by
  refine ⟨rfl, fun i => ?_⟩
  rw [info_skeleton, find?_ofPort, SqliteFs.Db.info, Option.map_map, Option.map_map]
  rfl

namespace Mirrors

lemma kind (h : Mirrors d k) (i : ℕ) : k.kind i = d.kind i := by
  rw [SqliteFs.Db.kind, h.info, Option.map_map]
  rfl

lemma hasNode (h : Mirrors d k) (i : ℕ) : k.hasNode i = d.hasNode i :=
  SqliteFs.Db.hasNode_congr (h.kind i)

lemma nlink (h : Mirrors d k) (i : ℕ) :
    (k.info i).map NodeInfo.nlink = (d.info i).map NodeInfo.nlink := by
  rw [h.info, Option.map_map]
  rfl

lemma adjust (h : Mirrors d k) (hd : d.Adjust d₁ δ) (hk : k.Adjust k₁ δ) : Mirrors d₁ k₁ := by
  refine ⟨hk.entries.trans (h.entries.trans hd.entries.symm), fun i => ?_⟩
  rw [hk.info, h.info, hd.info, Option.map_map, Option.map_map]
  rfl

lemma deleteEntry (h : Mirrors d k) (p : ℕ) (n : Str) :
    Mirrors (d.deleteEntry p n) (k.deleteEntry p n) := by
  refine ⟨?_, h.info⟩
  unfold SqliteFs.Db.deleteEntry
  rw [h.entries]

lemma moveEntry (h : Mirrors d k) {p q : ℕ} {m n : Str} (hd : d.moveEntry p m q n = .ok d₁)
    (hk : k.moveEntry p m q n = .ok k₁) : Mirrors d₁ k₁ := by
  unfold SqliteFs.Db.moveEntry at hd hk
  rw [h.entries, h.hasNode] at hk
  split_ifs at hd hk
  · cases ht : d.entries.rekey? (p, m) (q, n) (fun r => ⟨q, n, r.inode⟩) fun _ => rfl with
    | none =>
      rw [ht] at hd
      cases hd
    | some t =>
      rw [ht] at hd hk
      cases hd
      cases hk
      exact ⟨rfl, h.info⟩
  · cases hd
    cases hk
    exact h

lemma removesNode (h : Mirrors d k) (hd : d.RemovesNode d₁ i) (hk : k.RemovesNode k₁ i) :
    Mirrors d₁ k₁ := by
  refine ⟨?_, fun j => ?_⟩
  · rw [hk.entries, hd.entries, h.entries]
  · rw [hk.info, hd.info, h.info]
    split_ifs <;> rfl

end Mirrors

end Db

/-! ### Where paths lead root -/

/-- Root may search node `i`: some bit of its mode allows it to somebody. -/
def Searchable (d : SqliteFs.Db) (i : ℕ) : Prop :=
  ∀ row, SqliteFs.Nodes.get d i = .ok row → row.mode &&& 0o111 ≠ 0

/-- Root may search every directory that the path goes through. -/
def SearchableWay (d : SqliteFs.Db) (path : Str) : Prop :=
  ∀ l name, SqliteFs.parsePath path = .ok (l ++ [name]) → ∀ init, init <+: l →
    ∀ i, d.Leads ROOT_INODE init i → Searchable d i

/-- The path goes through no symlink. -/
def TraversesNoSymlink (d : SqliteFs.Db) (path : Str) : Prop :=
  ∀ l name, SqliteFs.parsePath path = .ok (l ++ [name]) → ∀ init, init <+: l →
    ∀ i, d.Leads ROOT_INODE init i → d.kind i ≠ some .symlink

namespace Filesystem

variable {d : SqliteFs.Db} {path name : Str} {i j parent : ℕ} {gid : ℤ}

lemma searchable_iff {r : SqliteFs.NodesRow} (h : d.nodes.find? i = some r) :
    Searchable d i ↔ r.mode &&& 0o111 ≠ 0 := by
  have hget : SqliteFs.Nodes.get d i = .ok r.read := by
    rw [SqliteFs.Nodes.get, h]
    rfl
  constructor
  · exact fun hs => hs _ hget
  · intro hmode row hrow
    cases hget.symm.trans hrow
    exact hmode

/-- Root needs a bit of the mode to search a node, and nothing else for anything else. -/
lemma checkAccess_root {r : SqliteFs.NodesRow} {access : Access} (hx : access.contains Access.X) :
    checkAccess (NodesRow.ofPort r).mode (NodesRow.ofPort r).uid (NodesRow.ofPort r).gid 0 gid
      access = true ↔ r.mode &&& 0o111 ≠ 0 := by
  have hland : (NodesRow.ofPort r).mode.land 0o111 = ((r.mode &&& 0o111).toNat : ℤ) := rfl
  unfold checkAccess
  rw [if_pos rfl, if_pos hx, hland, decide_eq_true_iff]
  refine not_congr ?_
  rw [Nat.cast_eq_zero]
  exact UInt32.toNat_inj (b := 0)

lemma get_ofPort {row : NodesRow} : Nodes.get (Db.ofPort d) i = .ok row ↔
    ∃ r, d.nodes.find? i = some r ∧ NodesRow.ofPort r = row := by
  rw [Nodes.get_eq_ok, Db.find?_ofPort, Option.map_eq_some_iff]

lemma kind_of_find? {r : SqliteFs.NodesRow} (h : d.nodes.find? i = some r) :
    d.kind i = some r.kind := by
  rw [SqliteFs.Db.kind, SqliteFs.Db.info_of_find? h]
  rfl

lemma find?_of_kind {k : NodeKind} (h : d.kind i = some k) :
    ∃ r, d.nodes.find? i = some r ∧ r.kind = k := by
  obtain ⟨n, hn, rfl⟩ := SqliteFs.Db.exists_info_of_kind h
  obtain ⟨r, hr, rfl⟩ := Option.map_eq_some_iff.mp hn
  exact ⟨r, hr, rfl⟩

/-- A round of the walk for root, where there is no symlink to go through. -/
lemma walk_cons_root (htree : d.Tree) {again : Option (Str → Res ℕ)} {done l : List Str}
    (hsym : ∀ e ∈ d.entries, e.parent = i → e.name = name → d.kind e.inode ≠ some .symlink) :
    walk (Db.ofPort d) 0 gid path true again done i (name :: l) = .ok j ↔
      Searchable d i ∧ ∃ e ∈ d.entries, e.parent = i ∧ e.name = name ∧
        walk (Db.ofPort d) 0 gid path true again (done ++ [name]) e.inode l = .ok j := by
  rw [walk]
  constructor
  · intro h
    obtain ⟨row, hrow, h₁⟩ := bind_res_eq_ok.mp h
    obtain ⟨hkind, h₂⟩ := check_bind_eq_ok.mp h₁
    obtain ⟨_, haccess, h₃⟩ := bind_res_eq_ok.mp h₂
    obtain ⟨e, he, h₄⟩ := bind_res_eq_ok.mp h₃
    obtain ⟨child, hchild, h₅⟩ := bind_res_eq_ok.mp h₄
    obtain ⟨hmem, rfl, rfl⟩ := Entries.get_eq_ok.mp he
    obtain ⟨r, hr, rfl⟩ := get_ofPort.mp hrow
    obtain ⟨c, hc, rfl⟩ := get_ofPort.mp hchild
    have hnot : c.kind ≠ .symlink := by
      intro hk
      exact hsym e hmem rfl rfl (hk ▸ kind_of_find? hc)
    have hinode : c.inode = e.inode := (KeyTable.find?_eq_some.mp hc).2
    rw [if_neg fun hs => hnot hs.1] at h₅
    exact ⟨(searchable_iff hr).mpr ((checkAccess_root rfl).mp (requireAccess_eq_ok.mp haccess)),
      e, hmem, rfl, rfl, hinode ▸ h₅⟩
  · rintro ⟨hs, e, he, rfl, rfl, h⟩
    obtain ⟨r, hr, hdir⟩ := find?_of_kind (htree.parentDir e he)
    obtain ⟨n, hn⟩ := SqliteFs.Db.hasNode_iff.mp (htree.child e he)
    obtain ⟨c, hc, -⟩ := find?_of_kind (SqliteFs.Db.kind_of_info hn)
    have hinode : (NodesRow.ofPort c).inode = e.inode := (KeyTable.find?_eq_some.mp hc).2
    have haccess : checkAccess (NodesRow.ofPort r).mode (NodesRow.ofPort r).uid
        (NodesRow.ofPort r).gid 0 gid Access.X = true :=
      (checkAccess_root rfl).mpr ((searchable_iff hr).mp hs)
    refine bind_res_eq_ok.mpr ⟨_, get_ofPort.mpr ⟨r, hr, rfl⟩, check_bind_eq_ok.mpr ⟨hdir, ?_⟩⟩
    refine bind_res_eq_ok.mpr ⟨⟨⟩, requireAccess_eq_ok.mpr haccess, ?_⟩
    refine bind_res_eq_ok.mpr ⟨e, Entries.get_eq_ok.mpr ⟨he, rfl, rfl⟩, ?_⟩
    refine bind_res_eq_ok.mpr ⟨_, get_ofPort.mpr ⟨c, hc, rfl⟩, ?_⟩
    have hnot : ¬ (NodesRow.ofPort c).kind = .symlink := by
      intro hk
      exact hsym e he rfl rfl (hk ▸ kind_of_find? hc)
    rw [if_neg fun hs => hnot hs.1]
    exact hinode ▸ h

lemma walk_root (htree : d.Tree) {again : Option (Str → Res ℕ)} {l : List Str} :
    ∀ {done : List Str} {i : ℕ}, (∀ init, init <+: l → ∀ j, d.Leads i init j →
      d.kind j ≠ some .symlink) →
    (walk (Db.ofPort d) 0 gid path true again done i l = .ok j ↔
      d.Leads i l j ∧ ∀ init, init <+: l → init ≠ l → ∀ k, d.Leads i init k → Searchable d k) := by
  induction l with
  | nil =>
    intro done i _
    rw [walk, Except.ok.injEq]
    refine ⟨fun h => ⟨h, fun init hinit hne => ?_⟩, fun h => h.1⟩
    exact absurd (List.prefix_nil.mp hinit) hne
  | cons name l ih =>
    intro done i hsym
    rw [walk_cons_root htree]
    · constructor
      · rintro ⟨hs, e, he, rfl, rfl, h⟩
        have hrest := (ih fun init hinit j hj => hsym _ (List.cons_prefix_cons.mpr ⟨rfl, hinit⟩) j
          ⟨e, he, rfl, rfl, hj⟩).mp h
        refine ⟨⟨e, he, rfl, rfl, hrest.1⟩, fun init hinit hne k hk => ?_⟩
        cases init with
        | nil => exact hk ▸ hs
        | cons m init =>
          obtain ⟨rfl, hinit'⟩ := List.cons_prefix_cons.mp hinit
          obtain ⟨e', he', hp, hn, hk⟩ := hk
          obtain rfl : e' = e := KeyTable.eq_of_key he' he (Prod.ext hp hn)
          exact hrest.2 init hinit' (fun heq => hne (by rw [heq])) k hk
      · rintro ⟨⟨e, he, rfl, rfl, hl⟩, hs⟩
        refine ⟨hs [] List.nil_prefix (by simp) _ rfl, e, he, rfl, rfl, ?_⟩
        refine (ih fun init hinit j hj => hsym _ (List.cons_prefix_cons.mpr ⟨rfl, hinit⟩) j
          ⟨e, he, rfl, rfl, hj⟩).mpr ⟨hl, fun init hinit hne k hk => ?_⟩
        exact hs (e.name :: init) (List.cons_prefix_cons.mpr ⟨rfl, hinit⟩)
          (fun heq => hne (List.cons.inj heq).2) k ⟨e, he, rfl, rfl, hk⟩
    · intro e he hp hn
      exact hsym [name] (List.cons_prefix_cons.mpr ⟨rfl, List.nil_prefix⟩) _ ⟨e, he, hp, hn, rfl⟩

/-- Root gets to the same parent in both libraries, if it may search the way to it and the parent
itself. -/
theorem resolveParentAs_root (htree : d.Tree) (hsym : TraversesNoSymlink d path) :
    resolveParentAs (Db.ofPort d) 0 gid path = .ok (parent, name) ↔
      SqliteFs.Filesystem.resolveParentAndName d path = .ok (parent, name) ∧
        d.kind parent = some .dir ∧ SearchableWay d path := by
  rw [resolveParentAs_eq_ok, SqliteFs.Filesystem.resolveParentAndName_eq_ok htree]
  have hresolve : ∀ {l : List Str}, SqliteFs.parsePath path = .ok (l ++ [name]) →
      (resolvePathAs (Db.ofPort d) 0 gid (joinPath l) true = .ok parent ↔
        d.Leads ROOT_INODE l parent ∧ ∀ init, init <+: l → init ≠ l → ∀ k,
          d.Leads ROOT_INODE init k → Searchable d k) := by
    intro l hl
    unfold resolvePathAs MAXSYMLINKS resolvePathWith
    rw [bind_res_eq_ok]
    constructor
    · rintro ⟨l', hl', hwalk⟩
      rw [parsePath_eq_ok, parsePath_init hl] at hl'
      obtain rfl := Except.ok.inj hl'
      exact (walk_root htree (hsym l name hl)).mp hwalk
    · intro hleads
      exact ⟨l, parsePath_eq_ok.mpr (parsePath_init hl), (walk_root htree (hsym l name hl)).mpr hleads⟩
  constructor
  · rintro ⟨l, row, hparse, hres, hrow, hdir, haccess⟩
    rw [parsePath_eq_ok] at hparse
    obtain ⟨hleads, hway⟩ := (hresolve hparse).mp hres
    obtain ⟨r, hr, rfl⟩ := get_ofPort.mp hrow
    refine ⟨⟨l, hparse, hleads⟩, hdir ▸ kind_of_find? hr, fun l' name' hparse' init hinit k hk => ?_⟩
    obtain ⟨rfl, -⟩ := List.append_inj' (Except.ok.inj (hparse.symm.trans hparse')) rfl
    by_cases hne : init = l
    · subst hne
      obtain rfl := hk.unique hleads
      exact (searchable_iff hr).mpr ((checkAccess_root rfl).mp haccess)
    · exact hway init hinit hne k hk
  · rintro ⟨⟨l, hparse, hleads⟩, hdir, hway⟩
    obtain ⟨r, hr, hk⟩ := find?_of_kind hdir
    refine ⟨l, _, parsePath_eq_ok.mpr hparse, (hresolve hparse).mpr ⟨hleads, ?_⟩,
      get_ofPort.mpr ⟨r, hr, rfl⟩, hk, ?_⟩
    · exact fun init hinit _ => hway l name hparse init hinit
    · exact (checkAccess_root rfl).mpr
        ((searchable_iff hr).mp (hway l name hparse l (List.prefix_refl l) parent hleads))

end Filesystem

end Python

end SqliteFs

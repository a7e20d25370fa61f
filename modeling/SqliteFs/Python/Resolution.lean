import SqliteFs.Python.Skeleton

/-!
# Where paths lead in the Python library

A path that is resolved leads to the root or to what some entry names, through directories only. A
path whose parent is resolved ends in a valid name, below a directory that the caller may write.
-/

namespace SqliteFs

namespace Python

namespace Filesystem

variable {d : Db} {uid gid : ℤ} {path : Str} {follow : Bool} {i : ℕ}

lemma bind_res_eq_ok {α β : Type} {r : Res α} {f : α → Res β} {b : β} :
    (r >>= f) = .ok b ↔ ∃ a, r = .ok a ∧ f a = .ok b := by
  cases r with
  | error e => exact iff_of_false (fun h => nomatch h) fun ⟨_, h, _⟩ => nomatch h
  | ok a =>
    constructor
    · exact fun h => ⟨a, rfl, h⟩
    · rintro ⟨_, h, hb⟩
      obtain rfl := Except.ok.inj h
      exact hb

lemma requireAccess_eq_ok {nodeMode nodeUid nodeGid callerUid callerGid : ℤ} {access : Access}
    {u : PUnit} : requireAccess nodeMode nodeUid nodeGid callerUid callerGid access = .ok u ↔
      checkAccess nodeMode nodeUid nodeGid callerUid callerGid access = true :=
  check_eq_ok

section Walk
variable {P : ℕ → Prop}

/-- What holds where the walk starts and is handed down from directories to what lies in them holds
where the walk ends. -/
lemma walk_ok (hstep : ∀ (dir : NodesRow) (e : EntryRow), Nodes.get d e.parent = .ok dir →
      dir.kind = .dir → e ∈ d.entries → P e.parent → P e.inode) {again : Option (Str → Res ℕ)}
    (hagain : ∀ f, again = some f → ∀ p j, f p = .ok j → P j) {rest : List Str} :
    ∀ {done : List Str} {cur : ℕ}, P cur →
      walk d uid gid path follow again done cur rest = .ok i → P i := by
  induction rest with
  | nil =>
    intro done cur hcur h
    rw [walk] at h
    obtain rfl := Except.ok.inj h
    exact hcur
  | cons name rest ih =>
    intro done cur hcur h
    rw [walk] at h
    obtain ⟨dir, hdir, h₁⟩ := bind_res_eq_ok.mp h
    obtain ⟨hkind, h₂⟩ := check_bind_eq_ok.mp h₁
    obtain ⟨_, -, h₃⟩ := bind_res_eq_ok.mp h₂
    obtain ⟨e, he, h₄⟩ := bind_res_eq_ok.mp h₃
    obtain ⟨child, hchild, h₅⟩ := bind_res_eq_ok.mp h₄
    clear h h₁ h₂ h₃ h₄
    split_ifs at h₅
    · cases again with
      | none => cases h₅
      | some f =>
        obtain ⟨_, -, h₆⟩ := bind_res_eq_ok.mp h₅
        obtain ⟨_, -, h₇⟩ := bind_res_eq_ok.mp h₆
        exact hagain f rfl _ _ h₇
    · obtain ⟨hmem, rfl, rfl⟩ := Entries.get_eq_ok.mp he
      have hinode : child.inode = e.inode :=
        (KeyTable.find?_eq_some.mp (Nodes.get_eq_ok.mp hchild)).2
      exact ih (hinode ▸ hstep dir e hdir hkind hmem hcur) h₅

lemma resolvePathAs_induction (hroot : P ROOT_INODE)
    (hstep : ∀ (dir : NodesRow) (e : EntryRow), Nodes.get d e.parent = .ok dir →
      dir.kind = .dir → e ∈ d.entries → P e.parent → P e.inode)
    (h : resolvePathAs d uid gid path follow = .ok i) : P i := by
  have hall : ∀ (budget : ℕ) (path : Str) (i : ℕ),
      resolvePathWith d uid gid follow budget path = .ok i → P i := by
    intro budget
    induction budget with
    | zero =>
      intro path i h
      obtain ⟨components, -, h⟩ := bind_res_eq_ok.mp h
      exact walk_ok hstep (fun _ hf => absurd hf (by simp)) hroot h
    | succ budget ih =>
      intro path i h
      obtain ⟨components, -, h⟩ := bind_res_eq_ok.mp h
      refine walk_ok hstep (fun f hf p j hj => ?_) hroot h
      obtain rfl := Option.some.inj hf
      exact ih p j hj
  exact hall _ _ _ h

end Walk

/-- A path leads to the root, or to a named node if the root is a directory. -/
lemma resolvePathAs_named (h : resolvePathAs d uid gid path follow = .ok i) :
    d.skeleton.Named i ∧ (d.skeleton.kind ROOT_INODE = some .dir ∨ i = ROOT_INODE) := by
  refine resolvePathAs_induction (P := fun i => d.skeleton.Named i ∧
    (d.skeleton.kind ROOT_INODE = some .dir ∨ i = ROOT_INODE)) ⟨Or.inl rfl, Or.inr rfl⟩ ?_ h
  rintro dir e hdir hkind he ⟨-, hroot⟩
  have hparent : d.skeleton.kind e.parent = some .dir := hkind ▸ Nodes.kind_of_get hdir
  refine ⟨Or.inr ⟨e, he, rfl⟩, Or.inl ?_⟩
  rcases hroot with hroot | hroot
  · exact hroot
  · exact hroot ▸ hparent

/-- New entries may go where a parent is resolved to, under a valid name. -/
structure ParentOk (d : Db) (uid gid : ℤ) (parent : ℕ) (name : Str) : Prop where
  rootDir : d.skeleton.kind ROOT_INODE = some .dir
  placed : d.skeleton.Placed parent
  validName : ValidName name
  access : ∃ row, Nodes.get d parent = .ok row ∧
    checkAccess row.mode row.uid row.gid uid gid (Access.W ||| Access.X) = true

lemma resolveParentAs_eq_ok {parent : ℕ} {name : Str} :
    resolveParentAs d uid gid path = .ok (parent, name) ↔ ∃ init row,
      parsePath path = .ok (init ++ [name]) ∧
      resolvePathAs d uid gid (joinPath init) true = .ok parent ∧ Nodes.get d parent = .ok row ∧
      row.kind = .dir ∧
      checkAccess row.mode row.uid row.gid uid gid (Access.W ||| Access.X) = true := by
  unfold resolveParentAs
  rw [bind_res_eq_ok]
  constructor
  · rintro ⟨components, hparse, h⟩
    cases hlast : components.getLast? with
    | none =>
      rw [hlast] at h
      cases h
    | some last =>
      rw [hlast] at h
      obtain ⟨p, hp, h⟩ := bind_res_eq_ok.mp h
      obtain ⟨row, hrow, h⟩ := bind_res_eq_ok.mp h
      obtain ⟨hkind, h⟩ := check_bind_eq_ok.mp h
      obtain ⟨_, haccess, h⟩ := bind_res_eq_ok.mp h
      obtain ⟨rfl, rfl⟩ := Prod.mk.inj (Except.ok.inj h)
      have hcomponents : components = components.dropLast ++ [last] :=
        (List.dropLast_append_getLast? last hlast).symm
      exact ⟨components.dropLast, row, hcomponents ▸ hparse, hp, hrow, hkind,
        requireAccess_eq_ok.mp haccess⟩
  · rintro ⟨init, row, hparse, hp, hrow, hkind, haccess⟩
    refine ⟨init ++ [name], hparse, ?_⟩
    rw [List.getLast?_append_of_ne_nil _ (List.cons_ne_nil _ _), List.getLast?_singleton]
    dsimp only
    rw [List.dropLast_concat, bind_res_eq_ok]
    refine ⟨parent, hp, bind_res_eq_ok.mpr ⟨row, hrow, check_bind_eq_ok.mpr ⟨hkind, ?_⟩⟩⟩
    exact bind_res_eq_ok.mpr ⟨⟨⟩, requireAccess_eq_ok.mpr haccess, rfl⟩

lemma resolveParentAs_ok {parent : ℕ} {name : Str}
    (h : resolveParentAs d uid gid path = .ok (parent, name)) : ParentOk d uid gid parent name := by
  obtain ⟨init, row, hparse, hp, hrow, hkind, haccess⟩ := resolveParentAs_eq_ok.mp h
  obtain ⟨hnamed, hroot⟩ := resolvePathAs_named hp
  have hdir : d.skeleton.kind parent = some .dir := hkind ▸ Nodes.kind_of_get hrow
  refine ⟨?_, ⟨hnamed, hdir⟩, ?_, row, hrow, haccess⟩
  · rcases hroot with hroot | rfl
    · exact hroot
    · exact hdir
  · exact (SqliteFs.parsePath_eq_ok.mp (parsePath_eq_ok.mp hparse)).1 name
      (List.mem_append_right _ (List.mem_singleton_self _))

/-! ### What resolution reads -/

/-- What a walk reads of a node: all but its size, its times and its link count. -/
def accessOf (row : NodesRow) : ℕ × NodeKind × ℤ × ℤ × ℤ :=
  (row.inode, row.kind, row.mode, row.uid, row.gid)

lemma accessOf_eq {row row' : NodesRow} : accessOf row' = accessOf row ↔
    row'.inode = row.inode ∧ row'.kind = row.kind ∧ row'.mode = row.mode ∧ row'.uid = row.uid ∧
      row'.gid = row.gid := by
  simp [accessOf]

/-- A walk reads the same in both databases. -/
structure SameWays (d d' : Db) : Prop where
  entries : ∀ k, d'.entries.find? k = d.entries.find? k
  access : ∀ i, (d'.nodes.find? i).map accessOf = (d.nodes.find? i).map accessOf
  symlinks : ∀ i, d'.symlinks.find? i = d.symlinks.find? i

section SameWays
variable {d' : Db}

lemma SameWays.getNode_bind {α : Type} (h : SameWays d d') {f f' : NodesRow → Res α} (i : ℕ)
    (hf : ∀ row row', accessOf row' = accessOf row → f' row' = f row) :
    (Nodes.get d' i >>= f') = (Nodes.get d i >>= f) := by
  have hrow := h.access i
  unfold Nodes.get
  cases hd : d.nodes.find? i with
  | none =>
    rw [hd] at hrow
    rw [Option.map_eq_none_iff.mp hrow]
    rfl
  | some row =>
    rw [hd] at hrow
    obtain ⟨row', hrow', haccess⟩ := Option.map_eq_some_iff.mp hrow
    rw [hrow']
    exact hf row row' haccess

lemma SameWays.walk (h : SameWays d d') {again : Option (Str → Res ℕ)} {rest : List Str} :
    ∀ {done : List Str} {cur : ℕ}, walk d' uid gid path follow again done cur rest =
      walk d uid gid path follow again done cur rest := by
  induction rest with
  | nil =>
    intro done cur
    rw [Filesystem.walk, Filesystem.walk]
  | cons name rest ih =>
    intro done cur
    have hentry : Entries.get d' cur name = Entries.get d cur name := by
      unfold Entries.get
      rw [h.entries]
    have hlink : ∀ i, Symlinks.get d' i = Symlinks.get d i := by
      intro i
      unfold Symlinks.get
      rw [h.symlinks]
    rw [Filesystem.walk, Filesystem.walk]
    refine h.getNode_bind cur fun row row' hrow => ?_
    obtain ⟨-, hkind, hmode, huid, hgid⟩ := accessOf_eq.mp hrow
    rw [hkind, hmode, huid, hgid, hentry]
    refine bind_congr fun _ => bind_congr fun _ => bind_congr fun e => ?_
    refine h.getNode_bind e.inode fun child child' hchild => ?_
    obtain ⟨hinode, hkind', -⟩ := accessOf_eq.mp hchild
    rw [hinode, hkind', hlink, ih]

lemma SameWays.resolvePathAs (h : SameWays d d') :
    resolvePathAs d' uid gid path follow = resolvePathAs d uid gid path follow := by
  have hall : ∀ (budget : ℕ) (path : Str),
      resolvePathWith d' uid gid follow budget path = resolvePathWith d uid gid follow budget path := by
    intro budget
    induction budget with
    | zero =>
      intro path
      rw [resolvePathWith, resolvePathWith]
      exact bind_congr fun _ => h.walk
    | succ budget ih =>
      intro path
      rw [resolvePathWith, resolvePathWith, funext ih]
      exact bind_congr fun _ => h.walk
  exact hall _ _

lemma SameWays.resolveParentAs (h : SameWays d d') :
    resolveParentAs d' uid gid path = resolveParentAs d uid gid path := by
  unfold Filesystem.resolveParentAs
  refine bind_congr fun components => ?_
  cases components.getLast? with
  | none => rfl
  | some name =>
    dsimp only
    rw [h.resolvePathAs]
    refine bind_congr fun i => h.getNode_bind i fun row row' hrow => ?_
    obtain ⟨-, hkind, hmode, huid, hgid⟩ := accessOf_eq.mp hrow
    rw [hkind, hmode, huid, hgid]

end SameWays

end Filesystem

end Python

end SqliteFs

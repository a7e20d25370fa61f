import SqliteFs.Python.Changes
import SqliteFs.Filesystem.Mirror
import SqliteFs.Filesystem.Names

/-!
# The cache of paths in the Python library

A cached path is coherent if its names lead from the root to the inode it is cached for. Adding
entries keeps every path, and an entry that goes takes with it the paths that use it. `unlink` and
`rmdir` drop the one path there can be. A rename that is none of a directory drops the path of its
source only, and so may leave those that led through its destination; and where the root directory
goes, no path is left but all stay cached. In every other case the cache stays coherent.
-/

namespace SqliteFs

open Relation

namespace Db

variable {d d' : Db} {e x : EntryRow} {i j : ℕ} {l : List Str}

/-- Names still lead where they did if the entries on the way are still there. -/
lemma Leads.of_kept (h : d.Leads i l j)
    (hkept : ∀ x ∈ d.entries, ∀ l₁ l₂, l = l₁ ++ x.name :: l₂ → d.Leads i l₁ x.parent →
      d.Leads x.inode l₂ j → x ∈ d'.entries) : d'.Leads i l j := by
  induction l generalizing i with
  | nil => exact h
  | cons m l ih =>
    obtain ⟨x, hx, rfl, rfl, hrest⟩ := h
    refine ⟨x, hkept x hx [] l rfl rfl hrest, rfl, rfl, ih hrest fun y hy l₁ l₂ hl h₁ h₂ => ?_⟩
    exact hkept y hy (x.name :: l₁) l₂ (by rw [hl, List.cons_append]) ⟨x, hx, rfl, rfl, h₁⟩ h₂

/-- Names lead from a leaf nowhere else. -/
lemma Leads.eq_of_leaf (hleaf : ∀ x ∈ d.entries, x.parent ≠ i) (h : d.Leads i l j) : i = j := by
  cases l with
  | nil => exact h
  | cons m l =>
    obtain ⟨x, hx, hparent, -⟩ := h
    exact absurd hparent (hleaf x hx)

/-- What names lead to from elsewhere has a name outside itself. -/
lemma Leads.exists_name (h : d.Leads i l j) (hij : i ≠ j) :
    ∃ x ∈ d.entries, x.inode = j ∧ x.parent ≠ j := by
  induction l generalizing i with
  | nil => exact absurd h hij
  | cons m l ih =>
    obtain ⟨x, hx, rfl, -, hrest⟩ := h
    by_cases hxj : x.inode = j
    · exact ⟨x, hx, hxj, hij⟩
    · exact ih hrest hxj

end Db

namespace Python

/-- The components of an absolute path. -/
def components (path : Str) : List Str := (path.tail.splitOn '/').filter (· ≠ [])

lemma components_joinPath {l : List Str} (h : ∀ c ∈ l, ValidName c) :
    components (joinPath l) = l := by
  unfold components joinPath
  rw [List.tail_cons]
  cases l with
  | nil => rfl
  | cons c l =>
    rw [List.splitOn_intercalate '/' (fun c hc => (h c hc).noSlash) (List.cons_ne_nil _ _),
      List.filter_eq_self]
    exact fun c hc => decide_eq_true (h c hc).nonempty

/-- The cached path goes through the entry `t`. -/
def Through (d : SqliteFs.Db) (r : CachedPath) (t : EntryRow) : Prop :=
  ∃ l l', components r.path = l ++ t.name :: l' ∧ d.follow ROOT_INODE l = some t.parent

variable {d d' : SqliteFs.Db} {e t x : EntryRow} {r : CachedPath} {i q : ℕ} {m : Str}

/-- The path of `r` is one of its inode. -/
def Bound (d : SqliteFs.Db) (r : CachedPath) : Prop :=
  ∃ l, d.Leads ROOT_INODE l r.inode ∧ r.path = joinPath l

lemma Bound.follow (hnames : d.ValidNames) (h : Bound d r) :
    d.follow ROOT_INODE (components r.path) = some r.inode := by
  obtain ⟨l, hl, hpath⟩ := h
  rw [hpath, components_joinPath (Filesystem.validName_of_leads hnames hl)]
  exact SqliteFs.Db.follow_eq_some.mpr hl

/-- A path stays bound if no entry on its way goes. -/
lemma Bound.of_kept (hnames : d.ValidNames) (h : Bound d r)
    (hkept : ∀ x ∈ d.entries, ∀ l, Through d r x → d.Leads x.inode l r.inode →
      x ∈ d'.entries) : Bound d' r := by
  obtain ⟨l, hl, hpath⟩ := h
  refine ⟨l, hl.of_kept fun x hx l₁ l₂ hsplit h₁ h₂ => hkept x hx l₂ ⟨l₁, l₂, ?_, ?_⟩ h₂, hpath⟩
  · rw [hpath, components_joinPath (Filesystem.validName_of_leads hnames hl), hsplit]
  · exact SqliteFs.Db.follow_eq_some.mpr h₁

lemma Bound.mono (h : Bound d r) (hsub : ∀ x ∈ d.entries, x ∈ d'.entries) : Bound d' r := by
  obtain ⟨l, hl, hpath⟩ := h
  exact ⟨l, hl.mono hsub, hpath⟩

/-- Where a leaf loses a name, only its own path goes. -/
lemma Bound.of_leaf (hnames : d.ValidNames) (h : Bound d r)
    (hleaf : ∀ x ∈ d.entries, x.parent ≠ e.inode) (hr : r.inode ≠ e.inode)
    (hmem : ∀ x ∈ d.entries, x ≠ e → x ∈ d'.entries) : Bound d' r := by
  refine h.of_kept hnames fun x hx l _ hl => hmem x hx ?_
  rintro rfl
  exact hr (hl.eq_of_leaf hleaf).symm

/-- The paths below a node that goes are those of the root, or else there are none. -/
lemma Bound.removesNode (hnames : d.ValidNames) (h : Bound d r) (hi : i ≠ ROOT_INODE)
    (hrem : d.RemovesNode d' i) : Bound d' r := by
  refine h.of_kept hnames fun x hx l hthrough _ => ?_
  rw [hrem.entries]
  refine KeyTable.mem_deleteWhere.mpr ⟨hx, decide_eq_false fun hparent => ?_⟩
  obtain ⟨l₁, -, -, hfollow⟩ := hthrough
  rw [SqliteFs.Db.follow_eq_some, hparent] at hfollow
  obtain ⟨y, hy, hyi, hyp⟩ := hfollow.exists_name hi.symm
  exact hrem.unnamed y hy hyp hyi

/-! ### Every effect -/

/-- The effect leaves no path cached that goes through an entry that it takes away. -/
def Label.KeepsPaths (c : Core) : Label → Prop
  | .replaces e _ _ o => c.names.kind e.inode ≠ some .dir → ∀ t, o = some t →
    ∀ r ∈ c.cache, r.inode ≠ e.inode → ¬ Through c.names r t
  | .swaps e t => c.names.kind e.inode ≠ some .dir →
    ∀ r ∈ c.cache, r.inode ≠ e.inode → r.inode ≠ t.inode → ¬ Through c.names r t
  | .closes fd => ∀ f n, c.fds.entries.find? fd = some f → f.inode = ROOT_INODE →
    c.readonly = false → (c.fds.close fd).openCount ROOT_INODE = 0 →
    c.names.info ROOT_INODE = some n → n.nlink = 0 → ∀ r, r ∉ c.cache
  | _ => True

/-- Entries with valid names, and a coherent cache. -/
structure Core.Coherent (c : Core) : Prop where
  shaped : c.names.Shaped
  names : c.names.ValidNames
  bound : ∀ r ∈ c.cache, Bound c.names r

lemma mem_without {c : KeyTable CachedPath} :
    r ∈ without c i ↔ r ∈ c ∧ r.inode ≠ i := by
  unfold without
  rw [KeyTable.mem_deleteWhere, decide_eq_false_iff_not]

lemma validNames_mono (hnames : d.ValidNames) (hmem : ∀ x ∈ d'.entries, x ∈ d.entries) :
    d'.ValidNames :=
  fun x hx => hnames x (hmem x hx)

lemma validNames_insert (hnames : d.ValidNames) (hvalid : ValidName e.name)
    (hmem : ∀ x, x ∈ d'.entries ↔ x ∈ d.entries ∨ x = e) : d'.ValidNames := by
  intro x hx
  rcases (hmem x).mp hx with hx | rfl
  · exact hnames x hx
  · exact hvalid

section
variable {d₁ : SqliteFs.Db} {o : Option EntryRow} {c : KeyTable CachedPath}

/-- What a plain rename leaves of the entries. -/
lemma mem_replaces (hshape : d.Shaped) (he : e ∈ d.entries) (hne : ¬ (e.parent = q ∧ e.name = m))
    (hfound : d.entries.find? (q, m) = o) (hclears : Clears d d₁ o)
    (hmoves : d₁.Moves d' False e q m) : x ∈ d'.entries ↔
      (x ∈ d.entries ∧ o ≠ some x ∧ x ≠ e) ∨ x = ⟨q, m, e.inode⟩ := by
  rw [hmoves.mem_entries (hclears.mem_source hshape hfound he hne), hclears.mem_entries hshape,
    and_assoc]

end

section Effect
variable {c c' : Core} {l : Label} (h : c.Coherent)
include h

lemma Core.Coherent.names_effect (he : Effect c l c') : c'.names.ValidNames := by
  obtain ⟨hshape, hnames, -⟩ := h
  cases he with
  | quiet hsame _ => exact validNames_mono hnames fun x hx => hsame.entries ▸ hx
  | opens hsame => exact validNames_mono hnames fun x hx => hsame.entries ▸ hx
  | attaches _ hvalid ha => exact validNames_insert hnames hvalid fun x => ha.mem_entries
  | creates _ hvalid ha => exact validNames_insert hnames hvalid fun x => ha.mem_entries
  | links _ hvalid ha => exact validNames_insert hnames hvalid fun x => ha.mem_entries
  | removesDir hr => exact validNames_mono hnames fun x hx => (hr.mem_entries.mp hx).1
  | unlinks hlose => exact validNames_mono hnames fun x hx => ((hlose.mem_entries hshape).mp hx).1
  | closes _ hc =>
    rcases hc with rfl | ⟨-, -, -, hrem⟩
    · exact hnames
    · refine validNames_mono hnames fun x hx => ?_
      exact (KeyTable.mem_deleteWhere.mp (hrem.entries ▸ hx)).1
  | replaces hmay hvalid hne hfound _ hclears hmoves =>
    intro x hx
    rcases (mem_replaces hshape hmay.1 hne hfound hclears hmoves).mp hx with ⟨hx, -⟩ | rfl
    · exact hnames x hx
    · exact hvalid
  | @swaps d e t _ hmay ht hne hfree _ hex =>
    intro x hx
    rcases (hex.mem_entries hmay.1 ht hne hfree).mp hx with ⟨hx, -⟩ | rfl | rfl
    · exact hnames x hx
    · exact hnames e hmay.1
    · exact hnames t ht
  | reopens => exact hnames

lemma Core.Coherent.bound_effect (hl : l.KeepsPaths c) (he : Effect c l c') :
    ∀ r ∈ c'.cache, Bound c'.names r := by
  obtain ⟨hshape, hnames, hbound⟩ := h
  cases he with
  | quiet hsame hfills =>
    have hold : ∀ r ∈ c.cache, Bound _ r :=
      fun r hr => (hbound r hr).mono fun x hx => hsame.entries.symm ▸ hx
    cases hfills with
    | same => exact hold
    | filled hleads =>
      intro r hr
      rcases KeyTable.mem_put.mp hr with rfl | ⟨hr, -⟩
      · exact ⟨_, hleads, rfl⟩
      · exact hold r hr
  | opens hsame => exact fun r hr => (hbound r hr).mono fun x hx => hsame.entries.symm ▸ hx
  | attaches _ _ ha =>
    exact fun r hr => (hbound r hr).mono fun x hx => ha.mem_entries.mpr (Or.inl hx)
  | creates _ _ ha =>
    exact fun r hr => (hbound r hr).mono fun x hx => ha.mem_entries.mpr (Or.inl hx)
  | links _ _ ha =>
    exact fun r hr => (hbound r hr).mono fun x hx => ha.mem_entries.mpr (Or.inl hx)
  | removesDir hr =>
    intro r hmem
    obtain ⟨hmem, hne⟩ := mem_without.mp hmem
    exact (hbound r hmem).of_leaf hnames hr.2.2.1 hne fun x hx hxe => hr.mem_entries.mpr ⟨hx, hxe⟩
  | unlinks hlose =>
    intro r hmem
    obtain ⟨hmem, hne⟩ := mem_without.mp hmem
    exact (hbound r hmem).of_leaf hnames
      (fun x hx => hshape.parent_ne_of_notDir hlose.notDir hx) hne
      fun x hx hxe => (hlose.mem_entries hshape).mpr ⟨hx, hxe⟩
  | @closes d fd f hf hc =>
    rcases hc with rfl | ⟨hw, hcount, ⟨n, hn, hzero⟩, hrem⟩
    · exact hbound
    · intro r hr
      by_cases hroot : f.inode = ROOT_INODE
      · rw [hroot] at hcount hn
        exact absurd hr (hl f n hf hroot hw hcount hn hzero r)
      · exact (hbound r hr).removesNode hnames hroot hrem
  | replaces hmay _ hne hfound hcache hclears hmoves =>
    intro r hr
    rw [hcache] at hr
    split_ifs at hr with hdir
    · exact absurd hr (KeyTable.not_mem_empty r)
    · obtain ⟨hr, hre⟩ := mem_without.mp hr
      refine (hbound r hr).of_kept hnames fun x hx l hthrough hleads => ?_
      refine (mem_replaces hshape hmay.1 hne hfound hclears hmoves).mpr (Or.inl ⟨hx, ?_, ?_⟩)
      · exact fun hx' => hl hdir x hx' r hr hre hthrough
      · rintro rfl
        exact hre (hleads.eq_of_leaf fun y hy => hshape.parent_ne_of_notDir hdir hy).symm
  | swaps hmay ht hne hfree hcache hex =>
    intro r hr
    rw [hcache] at hr
    split_ifs at hr with hdir
    · exact absurd hr (KeyTable.not_mem_empty r)
    · obtain ⟨hr₁, hrt⟩ := mem_without.mp hr
      obtain ⟨hr₂, hre⟩ := mem_without.mp hr₁
      refine (hbound r hr₂).of_kept hnames fun x hx l hthrough hleads => ?_
      refine (hex.mem_entries hmay.1 ht hne hfree).mpr (Or.inl ⟨hx, ?_, ?_⟩)
      · rintro rfl
        exact hre (hleads.eq_of_leaf fun y hy => hshape.parent_ne_of_notDir hdir hy).symm
      · rintro rfl
        exact hl hdir r hr₂ hre hrt hthrough
  | reopens => exact fun r hr => absurd hr (KeyTable.not_mem_empty r)

lemma Core.Coherent.effect (hl : l.KeepsPaths c) (he : Effect c l c') : c'.Coherent :=
  ⟨c.shaped_effect h.shaped he, h.names_effect he, h.bound_effect hl he⟩

end Effect

namespace Filesystem

/-- The path that `_path_of_inode` returns is cached, or found on the way up. -/
lemma pathOfInode_cases {s : Filesystem} {i : ℕ} {p : Str}
    (h : (pathOfInode i s).result = .ok (some p)) :
    (i = ROOT_INODE ∧ p = ['/']) ∨ (∃ r ∈ s.pathCache, r.inode = i ∧ r.path = p) ∨
      uncachedPath s.conn i = .ok (some p) := by
  unfold pathOfInode at h
  split_ifs at h with hroot
  · exact Or.inl ⟨hroot, (Option.some.inj (Except.ok.inj h)).symm⟩
  · rw [ask_bind (b := (s.pathCache.find? i).map CachedPath.path) rfl] at h
    cases hcached : s.pathCache.find? i with
    | some r =>
      obtain ⟨hr, hi⟩ := KeyTable.find?_eq_some.mp hcached
      rw [hcached] at h
      exact Or.inr (Or.inl ⟨r, hr, hi, Option.some.inj (Except.ok.inj h)⟩)
    | none =>
      rw [hcached] at h
      dsimp only [Option.map_none] at h
      cases hup : uncachedPath s.conn i with
      | error e =>
        rw [ask_bind_error hup] at h
        cases h
      | ok o =>
        rw [ask_bind hup] at h
        cases o with
        | none => cases h
        | some path =>
          obtain rfl : path = p := Option.some.inj (Except.ok.inj h)
          exact Or.inr (Or.inr rfl)

/-- A plain rename of what is no directory goes through, over an entry that a cached path goes
through. -/
def Overwrites (s : Filesystem) (src dst : Str) (noreplace : Bool) : Prop :=
  ∃ e q m t, MayReplace s src dst noreplace e q m (some t) ∧ s.conn.kind e.inode ≠ some .dir ∧
    ∃ r ∈ s.pathCache, r.inode ≠ e.inode ∧ Through s.conn.skeleton r t

end Filesystem

end Python

end SqliteFs

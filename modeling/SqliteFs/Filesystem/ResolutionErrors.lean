import SqliteFs.Filesystem.Resolution

/-!
# Which failure path resolution reports

`walk` asks whether it stands in a directory before every lookup but the last. So a path that ends
one name below a file is answered as if that name were missing.
-/

namespace SqliteFs

namespace Db

variable {d : Db} {i j k : ℕ} {l init rest : List Str} {m : Str}

/-- From `i`, the names lead to `j`, each from a directory. -/
def Descends (d : Db) : ℕ → List Str → ℕ → Prop
  | i, [], j => i = j
  | i, m :: l, j =>
    d.kind i = some .dir ∧ ∃ e ∈ d.entries, e.parent = i ∧ e.name = m ∧ d.Descends e.inode l j

/-- Nothing is named `m` in `i`. -/
def Lacks (d : Db) (i : ℕ) (m : Str) : Prop := ∀ e ∈ d.entries, ¬ (e.parent = i ∧ e.name = m)

/-- Names lead on only from a directory. -/
lemma Tree.dir_of_leads_cons (h : d.Tree) (hl : d.Leads i (m :: l) j) : d.kind i = some .dir := by
  obtain ⟨e, he, rfl, -⟩ := hl
  exact h.parentDir e he

lemma Tree.descends_iff (h : d.Tree) : d.Descends i l j ↔ d.Leads i l j := by
  induction l generalizing i with
  | nil => exact Iff.rfl
  | cons m l ih =>
    constructor
    · rintro ⟨-, e, he, hparent, hname, hrest⟩
      exact ⟨e, he, hparent, hname, ih.mp hrest⟩
    · intro hl
      refine ⟨h.dir_of_leads_cons hl, ?_⟩
      obtain ⟨e, he, hparent, hname, hrest⟩ := hl
      exact ⟨e, he, hparent, hname, ih.mpr hrest⟩

lemma Lacks.not_leads (h : d.Lacks i m) : ¬ d.Leads i (m :: l) j := by
  rintro ⟨e, he, hparent, hname, -⟩
  exact h e he ⟨hparent, hname⟩

lemma Tree.lacks_of_kind (h : d.Tree) (hkind : d.kind i ≠ some .dir) (m : Str) : d.Lacks i m := by
  rintro e he ⟨rfl, -⟩
  exact hkind (h.parentDir e he)

/-- There is one place where the names lead no further. -/
lemma Lacks.unique {init' rest' : List Str} {m' : Str} {k' : ℕ} (hm : d.Lacks k m)
    (hm' : d.Lacks k' m') (hinit : d.Leads i init k) (hinit' : d.Leads i init' k')
    (hsplit : init ++ m :: rest = init' ++ m' :: rest') :
    init = init' ∧ m = m' ∧ rest = rest' ∧ k = k' := by
  induction init generalizing i init' with
  | nil =>
    obtain rfl : i = k := hinit
    cases init' with
    | nil =>
      obtain rfl : i = k' := hinit'
      obtain ⟨rfl, rfl⟩ := List.cons.inj hsplit
      exact ⟨rfl, rfl, rfl, rfl⟩
    | cons x init' =>
      obtain ⟨rfl, -⟩ := List.cons.inj hsplit
      exact absurd hinit' hm.not_leads
  | cons x init ih =>
    cases init' with
    | nil =>
      obtain rfl : i = k' := hinit'
      obtain ⟨rfl, -⟩ := List.cons.inj hsplit
      exact absurd hinit hm'.not_leads
    | cons x' init' =>
      obtain ⟨rfl, hrest⟩ := List.cons.inj hsplit
      obtain ⟨e, he, hparent, hname, hinit⟩ := hinit
      obtain ⟨e', he', hparent', hname', hinit'⟩ := hinit'
      obtain rfl : e' = e := KeyTable.eq_of_key he' he
        (Prod.ext (hparent'.trans hparent.symm) (hname'.trans hname.symm))
      obtain ⟨rfl, rfl, rfl, rfl⟩ := ih hinit hinit' hrest
      exact ⟨rfl, rfl, rfl, rfl⟩

lemma Tree.hasNode_of_leads (h : d.Tree) (hi : d.hasNode i = true) (hl : d.Leads i l j) :
    d.hasNode j = true := by
  rcases List.eq_nil_or_concat l with rfl | ⟨init, m, rfl⟩
  · obtain rfl : i = j := hl
    exact hi
  · rw [List.concat_eq_append] at hl
    obtain ⟨e, he, -, -, rfl⟩ := Leads.concat_iff.mp hl
    exact h.child e he

end Db

namespace Filesystem

variable {d : Db} {i j k : ℕ} {path m : Str} {components l init rest : List Str}

/-! ### The ways in which the walk ends -/

/-- The message of `NotADirectory`. -/
def nonDirComponent (path : Str) : Error :=
  .notADirectory [.lit "non-dir component in path ", .debug path]

/-- The message of `NotFound`. -/
def noEntry (parent : ℕ) (name : Str) : Error :=
  .notFound [.lit "no entry ", .debug name, .lit " under inode ", .num parent]

/-- The walk ends where the names lead, at a node that is no directory while two names are left, or
at a name that is missing. -/
inductive WalkEnds (d : Db) (path : Str) (i : ℕ) (l : List Str) : Res ℕ → Prop
  | found {j : ℕ} (hl : d.Leads i l j) : WalkEnds d path i l (.ok j)
  | blocked {init rest : List Str} {k : ℕ} (hsplit : l = init ++ rest) (htwo : 2 ≤ rest.length)
      (hinit : d.Leads i init k) (hkind : d.kind k ≠ some .dir) :
      WalkEnds d path i l (err (nonDirComponent path))
  | missing {init rest : List Str} {m : Str} {k : ℕ} (hsplit : l = init ++ m :: rest)
      (hinit : d.Leads i init k) (hkind : rest ≠ [] → d.kind k = some .dir)
      (hlacks : d.Lacks k m) : WalkEnds d path i l (err (noEntry k m))

lemma Entries.get_of_lacks (h : d.Lacks i m) : Entries.get d i m = err (noEntry i m) := by
  have hnone : d.entries.find? (i, m) = none := by
    cases hfind : d.entries.find? (i, m) with
    | none => rfl
    | some e =>
      have hget : Entries.get d i m = .ok e := by rw [Entries.get, hfind]; rfl
      obtain ⟨he, hparent, hname⟩ := Entries.get_eq_ok.mp hget
      exact absurd ⟨hparent, hname⟩ (h e he)
  rw [Entries.get, hnone]
  rfl

lemma WalkEnds.step {e : EntryRow} {r : Res ℕ} (he : e ∈ d.entries)
    (h : WalkEnds d path e.inode l r) : WalkEnds d path e.parent (e.name :: l) r := by
  cases h with
  | found hl => exact .found ⟨e, he, rfl, rfl, hl⟩
  | @blocked init rest k hsplit htwo hinit hkind =>
    have hinit' : d.Leads e.parent (e.name :: init) k := ⟨e, he, rfl, rfl, hinit⟩
    exact .blocked (by rw [hsplit, List.cons_append]) htwo hinit' hkind
  | @missing init rest m k hsplit hinit hkind hlacks =>
    have hinit' : d.Leads e.parent (e.name :: init) k := ⟨e, he, rfl, rfl, hinit⟩
    exact .missing (by rw [hsplit, List.cons_append]) hinit' hkind hlacks

lemma walk_ends (h : d.Tree) (hi : d.hasNode i = true) (l : List Str) :
    WalkEnds d path i l (walk d path i l) := by
  induction l generalizing i with
  | nil => exact .found rfl
  | cons m l ih =>
    have hlookup (hkind : l ≠ [] → d.kind i = some .dir) :
        WalkEnds d path i (m :: l) (Entries.get d i m >>= fun e => walk d path e.inode l) := by
      by_cases hm : d.Lacks i m
      · rw [Entries.get_of_lacks hm]
        exact .missing (List.nil_append _).symm rfl hkind hm
      · unfold Db.Lacks at hm
        push Not at hm
        obtain ⟨e, he, rfl, rfl⟩ := hm
        rw [Entries.get_eq_ok.mpr ⟨he, rfl, rfl⟩]
        exact (ih (h.child e he)).step he
    cases l with
    | nil => exact hlookup fun hnil => absurd rfl hnil
    | cons m' l =>
      obtain ⟨n, hn⟩ := Db.hasNode_iff.mp hi
      obtain ⟨row, hrow, hkind⟩ := Nodes.get_of_kind (Db.kind_of_info hn)
      rw [walk.eq_3 d path i m (m' :: l) (List.cons_ne_nil m' l), hrow]
      change WalkEnds d path i _ (if row.kind ≠ .dir then _ else _)
      split_ifs with hdir
      · refine .blocked (List.nil_append _).symm (Nat.le_add_left 2 l.length) rfl ?_
        rw [Db.kind_of_info hn, ← hkind]
        exact fun heq => hdir (Option.some.inj heq)
      · refine hlookup fun _ => ?_
        rw [Db.kind_of_info hn, ← hkind, not_not.mp hdir]

/-! ### The right failure -/

/-- `resolveToInode` finds what the names lead to; it answers `NotADirectory` if they lead to a node
that is no directory with names left, and `NotFound` only if a name is missing from a directory. -/
structure ReportsRight (d : Db) (path : Str) (components : List Str) : Prop where
  found : ∀ i, d.Descends ROOT_INODE components i → resolveToInode d path = .ok i
  notADirectory : ∀ init rest i, components = init ++ rest → rest ≠ [] →
    d.Leads ROOT_INODE init i → d.hasNode i = true → d.kind i ≠ some .dir →
    ∃ msg, resolveToInode d path = err (.notADirectory msg)
  notFound : ∀ msg, resolveToInode d path = err (.notFound msg) →
    ∃ init m rest i, components = init ++ m :: rest ∧ d.Descends ROOT_INODE init i ∧
      d.kind i = some .dir ∧ d.Lacks i m
  others : (∃ i, resolveToInode d path = .ok i) ∨
    (∃ msg, resolveToInode d path = err (.notADirectory msg)) ∨
    ∃ msg, resolveToInode d path = err (.notFound msg)

/-- All names but the last lead to a node that is no directory. -/
def EndsBelowFile (d : Db) (components : List Str) : Prop :=
  ∃ init m i, components = init ++ [m] ∧ d.Leads ROOT_INODE init i ∧ d.hasNode i = true ∧
    d.kind i ≠ some .dir

lemma resolveToInode_of_parse (hparse : parsePath path = .ok components) :
    resolveToInode d path = walk d path ROOT_INODE components := by
  rw [resolveToInode, hparse]
  rfl

lemma resolveToInode_ends (h : d.Tree) (hparse : parsePath path = .ok components) :
    WalkEnds d path ROOT_INODE components (resolveToInode d path) := by
  rw [resolveToInode_of_parse hparse]
  exact walk_ends h (Db.hasNode_of_kind h.rootDir) components

/-- Where a directory is needed, `NotADirectory` is the answer if two names are left, and `NotFound`
if there is only one. -/
lemma resolveToInode_of_file (h : d.Tree) (hparse : parsePath path = .ok components)
    (hsplit : components = init ++ m :: rest) (hinit : d.Leads ROOT_INODE init k)
    (hkind : d.kind k ≠ some .dir) : resolveToInode d path =
      if rest = [] then err (noEntry k m) else err (nonDirComponent path) := by
  have hlacks : d.Lacks k m := h.lacks_of_kind hkind m
  have hends := resolveToInode_ends h hparse
  generalize resolveToInode d path = r at hends ⊢
  cases hends with
  | found hl =>
    rw [hsplit] at hl
    obtain ⟨k', hk', hl⟩ := Db.Leads.append_iff.mp hl
    obtain rfl := hinit.unique hk'
    exact absurd hl hlacks.not_leads
  | @blocked init' rest' k' hsplit' htwo hinit' hkind' =>
    obtain ⟨m', rest', rfl⟩ := List.exists_cons_of_length_pos (Nat.zero_lt_of_lt htwo)
    obtain ⟨-, -, rfl, -⟩ :=
      hlacks.unique (h.lacks_of_kind hkind' m') hinit hinit' (hsplit.symm.trans hsplit')
    rw [if_neg (List.ne_nil_of_length_pos (Nat.lt_of_succ_lt_succ htwo))]
  | missing hsplit' hinit' hdir hlacks' =>
    obtain ⟨-, rfl, rfl, rfl⟩ := hlacks.unique hlacks' hinit hinit' (hsplit.symm.trans hsplit')
    rw [if_pos (not_not.mp fun hne => hkind (hdir hne))]

lemma WalkEnds.others {r : Res ℕ} (h : WalkEnds d path i l r) : (∃ j, r = .ok j) ∨
    (∃ msg, r = err (.notADirectory msg)) ∨ ∃ msg, r = err (.notFound msg) := by
  cases h with
  | found => exact Or.inl ⟨_, rfl⟩
  | blocked => exact Or.inr (Or.inl ⟨_, rfl⟩)
  | missing => exact Or.inr (Or.inr ⟨_, rfl⟩)

lemma WalkEnds.of_notFound {msg : Msg} (h : WalkEnds d path i l (err (.notFound msg))) :
    ∃ init m rest k, l = init ++ m :: rest ∧ d.Leads i init k ∧
      (rest ≠ [] → d.kind k = some .dir) ∧ d.Lacks k m := by
  generalize hr : (err (.notFound msg) : Res ℕ) = r at h
  cases h with
  | found => cases hr
  | blocked => cases hr
  | missing hsplit hinit hdir hlacks => exact ⟨_, _, _, _, hsplit, hinit, hdir, hlacks⟩

/-- Path resolution reports the right failure exactly if the path does not end one name below a
node that is no directory. -/
theorem reportsRight_iff {s : Filesystem} (h : Reachable s)
    (hparse : parsePath path = .ok components) :
    ReportsRight s.conn path components ↔ ¬ EndsBelowFile s.conn components := by
  have htree : s.conn.Tree := (rooted_runsTo h).tree
  have hends := resolveToInode_ends htree hparse
  constructor
  · rintro hright ⟨init, m, i, hsplit, hinit, hnode, hkind⟩
    obtain ⟨msg, hmsg⟩ :=
      hright.notADirectory init [m] i hsplit (List.cons_ne_nil m []) hinit hnode hkind
    rw [resolveToInode_of_file htree hparse hsplit hinit hkind, if_pos rfl] at hmsg
    cases hmsg
  · intro hfile
    constructor
    · intro i hi
      rw [resolveToInode_of_parse hparse]
      exact (walk_eq_ok htree).mpr (htree.descends_iff.mp hi)
    · intro init rest i hsplit hrest hinit hnode hkind
      obtain ⟨m, rest, rfl⟩ := List.exists_cons_of_ne_nil hrest
      rw [resolveToInode_of_file htree hparse hsplit hinit hkind, if_neg]
      · exact ⟨_, rfl⟩
      · rintro rfl
        exact hfile ⟨init, m, i, hsplit, hinit, hnode, hkind⟩
    · intro msg hmsg
      rw [hmsg] at hends
      obtain ⟨init, m, rest, i, hsplit, hinit, hdir, hlacks⟩ := hends.of_notFound
      refine ⟨init, m, rest, i, hsplit, htree.descends_iff.mpr hinit, ?_, hlacks⟩
      rcases eq_or_ne rest [] with rfl | hrest
      · have hnode := htree.hasNode_of_leads (Db.hasNode_of_kind htree.rootDir) hinit
        by_contra hkind
        exact hfile ⟨init, m, i, hsplit, hinit, hnode, hkind⟩
      · exact hdir hrest
    · exact hends.others

/-- A filesystem with one file. -/
def oneFile : Filesystem := newFsAfter [.create ['/', 'f'] Libc.O_RDWR 0o644]

/-- A directory with a file in it. -/
def fileInDir : Filesystem :=
  newFsAfter [.mkdir ['/', 'd'] 0o755, .create ['/', 'd', '/', 'f'] Libc.O_RDWR 0o644]

theorem reportsRight_iff_fileInDir :
    (ReportsRight fileInDir.conn ['/', 'd', '/', 'f', '/', 'x', '/', 'y'] [['d'], ['f'], ['x'], ['y']] ↔
      ¬ EndsBelowFile fileInDir.conn [['d'], ['f'], ['x'], ['y']]) ∧
    (ReportsRight fileInDir.conn ['/', 'd', '/', 'f', '/', 'x'] [['d'], ['f'], ['x']] ↔
      ¬ EndsBelowFile fileInDir.conn [['d'], ['f'], ['x']]) ∧
    EndsBelowFile fileInDir.conn [['d'], ['f'], ['x']] := by
  refine ⟨reportsRight_iff (reachable_newFsAfter _) (by decide),
    reportsRight_iff (reachable_newFsAfter _) (by decide), [['d'], ['f']], ['x'], 3, rfl, ?_,
    by decide +kernel, by decide +kernel⟩
  exact ⟨⟨ROOT_INODE, ['d'], 2⟩, by decide +kernel, rfl, rfl, ⟨2, ['f'], 3⟩, by decide +kernel, rfl,
    rfl, rfl⟩

/-- Below the file, a name is reported missing. -/
theorem not_reportsRight_oneFile : ¬ ∀ (s : Filesystem) (path : Str) (components : List Str),
    Reachable s → parsePath path = .ok components → ReportsRight s.conn path components := by
  intro h
  have hright := h oneFile ['/', 'f', '/', 'x'] [['f'], ['x']] (reachable_newFsAfter _) (by decide)
  have hleads : oneFile.conn.Leads ROOT_INODE [['f']] 2 :=
    ⟨⟨ROOT_INODE, ['f'], 2⟩, by decide +kernel, rfl, rfl, rfl⟩
  obtain ⟨msg, hmsg⟩ := hright.notADirectory [['f']] [['x']] 2 rfl (List.cons_ne_nil _ _) hleads
    (by decide +kernel) (by decide +kernel)
  have hmissing : resolveToInode oneFile.conn ['/', 'f', '/', 'x'] = err (noEntry 2 ['x']) := by
    decide +kernel
  rw [hmissing] at hmsg
  cases hmsg

end Filesystem

end SqliteFs

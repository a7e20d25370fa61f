import SqliteFs.Filesystem.Resolution

/-!
# From an inode to a path and back

The query of `pathForInode` has a `LIMIT 1` and no order, so for a node with several names any of its
entries may answer it. Only the first entry of the climb is open to choice: the rest are those of
directories, which have one name each.
-/

namespace SqliteFs

namespace Filesystem

variable {d : Db} {e : EntryRow} {i parent : ℕ} {pick : ℕ → Option EntryRow} {path : Str}

/-! ### Any choice of the rows -/

/-- `pick` answers `SELECT parent, name FROM entries WHERE inode = ?1 LIMIT 1`. -/
structure Picks (d : Db) (pick : ℕ → Option EntryRow) : Prop where
  row : ∀ {i e}, pick i = some e → e ∈ d.entries ∧ e.inode = i
  noRow : ∀ {i}, pick i = none → ∀ e ∈ d.entries, e.inode ≠ i

/-- The loop of `pathForInode`, with the rows that `pick` chooses. -/
def pathLoopBy (pick : ℕ → Option EntryRow) : ℕ → ℕ → List Str → Res (Option Str)
  | 0, _, _ => .error .diverge
  | fuel + 1, parent, parts =>
    if parent = ROOT_INODE then .ok (some (joinPath parts))
    else match pick parent with
      | some e => pathLoopBy pick fuel e.parent (e.name :: parts)
      | none => .ok none

/-- `path_for_inode`, with the rows that `pick` chooses. -/
def pathForInodeBy (d : Db) (pick : ℕ → Option EntryRow) (inode : ℕ) : Res (Option Str) :=
  match pick inode with
  | some e => pathLoopBy pick (d.entries.rows.length + 1) e.parent [e.name]
  | none => .ok none

/-- `path_of_inode`, with the rows that `pick` chooses. -/
def pathOfInodeBy (d : Db) (pick : ℕ → Option EntryRow) (inode : ℕ) : Res (Option Str) :=
  if inode = ROOT_INODE then .ok (some ['/']) else pathForInodeBy d pick inode

lemma picks_ofInode (d : Db) : Picks d (Entries.ofInode d) where
  row := Db.ofInode_eq_some
  noRow := by
    rintro i hnone e he rfl
    obtain ⟨e', he'⟩ := Db.ofInode_isSome he
    rw [hnone] at he'
    cases he'

lemma pathLoopBy_ofInode (fuel : ℕ) (parts : List Str) :
    pathLoopBy (Entries.ofInode d) fuel parent parts = pathLoop d fuel parent parts := by
  induction fuel generalizing parent parts with
  | zero => rfl
  | succ fuel ih =>
    rw [pathLoopBy, pathLoop]
    cases Entries.ofInode d parent with
    | none => rfl
    | some e =>
      dsimp only
      rw [ih]

/-- The model takes the first row. -/
lemma pathOfInode_eq (s : Filesystem) (i : ℕ) :
    pathOfInode i s = ⟨pathOfInodeBy s.conn (Entries.ofInode s.conn) i, s, []⟩ := by
  unfold pathOfInode pathOfInodeBy
  split_ifs with hroot
  · rfl
  · unfold pathForInodeBy
    simp only [pathLoopBy_ofInode]
    rfl

/-! ### The climb from a directory -/

/-- For a directory there is no choice. -/
lemma Picks.eq_of_dir (h : d.Tree) (hpick : Picks d pick) (hdir : d.kind i = some .dir) :
    pick i = Entries.ofInode d i := by
  cases hp : pick i with
  | none =>
    cases ho : Entries.ofInode d i with
    | none => rfl
    | some e =>
      obtain ⟨he, hei⟩ := Db.ofInode_eq_some ho
      exact absurd hei (hpick.noRow hp e he)
  | some e =>
    obtain ⟨he, rfl⟩ := hpick.row hp
    obtain ⟨e', ho⟩ := Db.ofInode_isSome he
    obtain ⟨he', hei⟩ := Db.ofInode_eq_some ho
    rw [ho, h.oneName e he e' he' hei.symm hdir]

lemma pathLoopBy_eq (h : d.Tree) (hpick : Picks d pick) (hdir : d.kind parent = some .dir) (fuel : ℕ)
    (parts : List Str) : pathLoopBy pick fuel parent parts = pathLoop d fuel parent parts := by
  induction fuel generalizing parent parts with
  | zero => rfl
  | succ fuel ih =>
    rw [pathLoopBy, pathLoop, hpick.eq_of_dir h hdir]
    cases ho : Entries.ofInode d parent with
    | none => rfl
    | some e =>
      dsimp only
      rw [ih (h.parentDir e (Db.ofInode_eq_some ho).1)]

/-- From a directory, the climb comes to the root along the names that lead there. -/
lemma pathLoop_of_dir (h : d.Tree) (hnamed : d.Named parent) (parts : List Str) :
    ∃ l, d.Leads ROOT_INODE l parent ∧
      pathLoop d (d.entries.rows.length + 1) parent parts = .ok (some (joinPath (l ++ parts))) := by
  obtain ⟨l, hl, hlen⟩ := h.exists_chain parent
  obtain ⟨o, ho⟩ : ∃ o, pathLoop d (d.entries.rows.length + 1) parent parts = .ok o :=
    Db.pathLoop_of_chain hl (Nat.lt_succ_of_le hlen)
  cases o with
  | none => exact absurd ho (pathLoop_ne_none h hnamed)
  | some p =>
    obtain ⟨l, hleads, rfl⟩ := pathLoop_eq_some ho
    exact ⟨l, hleads, ho⟩

lemma pathForInodeBy_of_pick (h : d.Tree) (hpick : Picks d pick) (he : pick i = some e) :
    ∃ l, d.Leads ROOT_INODE l i ∧ pathForInodeBy d pick i = .ok (some (joinPath l)) := by
  obtain ⟨hmem, rfl⟩ := hpick.row he
  obtain ⟨l, hl, hloop⟩ := pathLoop_of_dir h (h.named_parent hmem) [e.name]
  refine ⟨l ++ [e.name], hl.concat hmem, ?_⟩
  rw [pathForInodeBy, he, ← hloop]
  exact pathLoopBy_eq h hpick (h.parentDir e hmem) _ _

/-! ### The round trip -/

lemma resolveToInode_joinPath (h : d.Tree) (hnames : d.ValidNames) {l : List Str}
    (hl : d.Leads ROOT_INODE l i) (hlen : (joinPath l).len ≤ PATH_MAX) :
    resolveToInode d (joinPath l) = .ok i :=
  (resolveToInode_eq_ok h).mpr
    ⟨l, parsePath_joinPath (validName_of_leads hnames hl) hlen, hl⟩

/-- `path_of_inode` has nothing to go by, or returns a path that leads to the inode. -/
lemma pathOfInodeBy_cases (h : d.Tree) (hpick : Picks d pick) (i : ℕ) :
    (i ≠ ROOT_INODE ∧ (∀ e ∈ d.entries, e.inode ≠ i) ∧ pathOfInodeBy d pick i = .ok none) ∨
    ∃ l, (i = ROOT_INODE ∨ ∃ e ∈ d.entries, e.inode = i) ∧ d.Leads ROOT_INODE l i ∧
      pathOfInodeBy d pick i = .ok (some (joinPath l)) := by
  unfold pathOfInodeBy
  split_ifs with hroot
  · exact Or.inr ⟨[], Or.inl hroot, hroot.symm, rfl⟩
  · cases hp : pick i with
    | none =>
      refine Or.inl ⟨hroot, hpick.noRow hp, ?_⟩
      rw [pathForInodeBy, hp]
    | some e =>
      obtain ⟨l, hl, hloop⟩ := pathForInodeBy_of_pick h hpick hp
      exact Or.inr ⟨l, Or.inr ⟨e, hpick.row hp⟩, hl, hloop⟩

/-- Whichever rows the queries pick, `path_of_inode` returns a path exactly for the root and for what
has an entry, and the path resolves to the inode if it is not too long. -/
theorem pathOfInode_resolves {s : Filesystem} (h : Reachable s) (hpick : Picks s.conn pick) (i : ℕ) :
    ∃ o, pathOfInodeBy s.conn pick i = .ok o ∧
      (o.isSome = true ↔ i = ROOT_INODE ∨ ∃ e ∈ s.conn.entries, e.inode = i) ∧
      ∀ path, o = some path → path.len ≤ PATH_MAX → resolveToInode s.conn path = .ok i := by
  have htree : s.conn.Tree := (rooted_runsTo h).tree
  rcases pathOfInodeBy_cases htree hpick i with ⟨hroot, hnone, hpath⟩ | ⟨l, hnamed, hl, hpath⟩
  · refine ⟨none, hpath, iff_of_false Bool.false_ne_true ?_, fun path hpath => nomatch hpath⟩
    rintro (hi | ⟨e, he, hei⟩)
    · exact hroot hi
    · exact hnone e he hei
  · refine ⟨_, hpath, iff_of_true rfl hnamed, ?_⟩
    rintro path hpath hlen
    obtain rfl := Option.some.inj hpath
    exact resolveToInode_joinPath htree (validNames_runsTo h) hl hlen

/-- A file with two names. -/
def twoNames : Filesystem :=
  newFsAfter [.mkdir ['/', 'a'] 0o755, .create ['/', 'a', '/', 'f'] Libc.O_RDWR 0o644,
    .link ['/', 'a', '/', 'f'] ['/', 'g']]

/-- The last row in place of the first. -/
def lastRow (d : Db) (i : ℕ) : Option EntryRow := (d.entries.select fun e => e.inode = i).getLast?

lemma picks_lastRow (d : Db) : Picks d (lastRow d) where
  row := by
    intro i e he
    have hmem := List.mem_of_getLast? he
    rw [KeyTable.mem_select] at hmem
    exact ⟨hmem.1, of_decide_eq_true hmem.2⟩
  noRow := by
    rintro i hnone e he hei
    have hmem : e ∈ d.entries.select fun e => e.inode = i :=
      KeyTable.mem_select.mpr ⟨he, decide_eq_true hei⟩
    rw [List.getLast?_eq_none_iff.mp hnone] at hmem
    exact List.not_mem_nil hmem

theorem pathOfInode_resolves_twoNames :
    ∃ o, pathOfInodeBy twoNames.conn (lastRow twoNames.conn) 3 = .ok o ∧
      (o.isSome = true ↔ 3 = ROOT_INODE ∨ ∃ e ∈ twoNames.conn.entries, e.inode = 3) ∧
      ∀ path, o = some path → path.len ≤ PATH_MAX → resolveToInode twoNames.conn path = .ok 3 :=
  pathOfInode_resolves (reachable_newFsAfter _) (picks_lastRow _) 3

end Filesystem

end SqliteFs

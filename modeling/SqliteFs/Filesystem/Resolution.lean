import SqliteFs.Filesystem.TreeInvariant
import SqliteFs.Filesystem.Rows
import SqliteFs.PathGrammar
import Mathlib.Data.List.Induction

/-!
# Names that lead somewhere

Names lead from a directory down the tree. Path resolution follows them from the root, and
`pathForInode` collects them on the way up; in a tree a directory has one path, so the two agree.
-/

namespace SqliteFs

open ParentForest

namespace Db

variable {d : Db} {e : EntryRow} {i j k : ℕ} {l l' : List Str} {m : Str}

/-- From `i`, the names lead to `j`. -/
def Leads (d : Db) : ℕ → List Str → ℕ → Prop
  | i, [], j => i = j
  | i, m :: l, j => ∃ e ∈ d.entries, e.parent = i ∧ e.name = m ∧ d.Leads e.inode l j

namespace Leads

lemma append_iff : d.Leads i (l ++ l') k ↔ ∃ j, d.Leads i l j ∧ d.Leads j l' k := by
  induction l generalizing i with
  | nil =>
    constructor
    · exact fun h => ⟨i, rfl, h⟩
    · rintro ⟨_, rfl, h⟩
      exact h
  | cons m l ih =>
    constructor
    · rintro ⟨e, he, hp, hm, h⟩
      obtain ⟨j, hj, hk⟩ := ih.mp h
      exact ⟨j, ⟨e, he, hp, hm, hj⟩, hk⟩
    · rintro ⟨j, ⟨e, he, hp, hm, hj⟩, hk⟩
      exact ⟨e, he, hp, hm, ih.mpr ⟨j, hj, hk⟩⟩

lemma concat_iff : d.Leads i (l ++ [m]) j ↔
    ∃ e ∈ d.entries, d.Leads i l e.parent ∧ e.name = m ∧ e.inode = j := by
  rw [append_iff]
  constructor
  · rintro ⟨p, hp, e, he, rfl, hm, hj⟩
    exact ⟨e, he, hp, hm, hj⟩
  · rintro ⟨e, he, hp, hm, hj⟩
    exact ⟨e.parent, hp, e, he, rfl, hm, hj⟩

lemma concat (h : d.Leads i l e.parent) (he : e ∈ d.entries) :
    d.Leads i (l ++ [e.name]) e.inode :=
  concat_iff.mpr ⟨e, he, h, rfl, rfl⟩

/-- Names lead to one place. -/
lemma unique (h : d.Leads i l j) (h' : d.Leads i l k) : j = k := by
  induction l generalizing i with
  | nil => exact h.symm.trans h'
  | cons m l ih =>
    obtain ⟨e, he, rfl, rfl, h⟩ := h
    obtain ⟨e', he', hparent, hname, h'⟩ := h'
    obtain rfl : e' = e := KeyTable.eq_of_key he' he (Prod.ext hparent hname)
    exact ih h h'

/-- Where names lead depends on the entries only. -/
lemma congr {d' : Db} (h : d'.entries = d.entries) : d'.Leads i l j ↔ d.Leads i l j := by
  induction l generalizing i with
  | nil => exact Iff.rfl
  | cons m l ih =>
    unfold Leads
    simp only [h, ih]

end Leads

/-! ### In a tree -/

/-- The root has no name. -/
lemma Shaped.leads_root (h : d.Shaped) (hl : d.Leads i l ROOT_INODE) : l = [] := by
  rcases List.eq_nil_or_concat l with rfl | ⟨init, m, rfl⟩
  · rfl
  · rw [List.concat_eq_append] at hl
    obtain ⟨e, he, -, -, hroot⟩ := Leads.concat_iff.mp hl
    exact absurd hroot (h.rootUnnamed e he)

/-- A directory has one path. -/
lemma Shaped.leads_unique (h : d.Shaped) (hdir : d.kind i = some .dir)
    (hl : d.Leads ROOT_INODE l i) (hl' : d.Leads ROOT_INODE l' i) : l = l' := by
  induction l using List.reverseRecOn generalizing i l' with
  | nil =>
    obtain rfl : ROOT_INODE = i := hl
    exact (h.leads_root hl').symm
  | append_singleton init m ih =>
    obtain ⟨e, he, hinit, rfl, rfl⟩ := Leads.concat_iff.mp hl
    rcases List.eq_nil_or_concat l' with rfl | ⟨init', m', rfl⟩
    · exact absurd hl'.symm (h.rootUnnamed e he)
    · rw [List.concat_eq_append] at hl' ⊢
      obtain ⟨e', he', hinit', rfl, hsame⟩ := Leads.concat_iff.mp hl'
      obtain rfl : e = e' := h.oneName e he e' he' hsame.symm hdir
      rw [ih (h.parentDir e he) hinit hinit']

lemma Tree.leads_unique (h : d.Tree) (hdir : d.kind i = some .dir)
    (hl : d.Leads ROOT_INODE l i) (hl' : d.Leads ROOT_INODE l' i) : l = l' :=
  h.shaped.leads_unique hdir hl hl'

lemma Tree.exists_leads (h : d.Tree) (hi : d.Named i) : ∃ l, d.Leads ROOT_INODE l i := by
  have hrooted := h.rooted_of_named hi
  induction hrooted with
  | base => exact ⟨[], rfl⟩
  | climb hup _ ih =>
    obtain ⟨y, e, he, rfl, rfl⟩ := hup
    obtain ⟨l, hl⟩ := ih e.parent ⟨e, he, rfl, rfl⟩ (h.named_parent he)
    exact ⟨_, hl.concat he⟩

lemma Leads.named (hl : d.Leads ROOT_INODE l i) : d.Named i := by
  rcases List.eq_nil_or_concat l with rfl | ⟨init, m, rfl⟩
  · exact Or.inl hl.symm
  · rw [List.concat_eq_append] at hl
    obtain ⟨e, he, -, -, hei⟩ := Leads.concat_iff.mp hl
    exact Or.inr ⟨e, he, hei⟩

/-- The names that lead to `i` through its first entry. -/
def FirstPath (d : Db) (i : ℕ) (l : List Str) : Prop :=
  ∃ e init, Entries.ofInode d i = some e ∧ d.Leads ROOT_INODE init e.parent ∧ l = init ++ [e.name]

lemma FirstPath.leads (h : d.FirstPath i l) : d.Leads ROOT_INODE l i := by
  obtain ⟨e, init, he, hinit, rfl⟩ := h
  obtain ⟨hmem, rfl⟩ := ofInode_eq_some he
  exact hinit.concat hmem

/-- The names of the entries are valid. -/
def ValidNames (d : Db) : Prop := ∀ e ∈ d.entries, ValidName e.name

end Db

namespace Filesystem

variable {d : Db} {e : EntryRow} {i j parent : ℕ} {l : List Str} {path name : Str}

/-! ### Path resolution -/

lemma bind_eq_ok {ε α β : Type} {r : Except ε α} {f : α → Except ε β} {b : β} :
    (r >>= f) = .ok b ↔ ∃ a, r = .ok a ∧ f a = .ok b := by
  cases r with
  | error x => simp [bind, Except.bind]
  | ok a => simp [bind, Except.bind]

/-- One step of the walk: a lookup that goes through has found an entry, whose parent is a
directory. -/
lemma walk_cons_eq_ok (h : d.Tree) {m : Str} : walk d path i (m :: l) = .ok j ↔
    ∃ e ∈ d.entries, e.parent = i ∧ e.name = m ∧ walk d path e.inode l = .ok j := by
  have hlookup : (Entries.get d i m >>= fun e => walk d path e.inode l) = .ok j ↔
      ∃ e ∈ d.entries, e.parent = i ∧ e.name = m ∧ walk d path e.inode l = .ok j := by
    rw [bind_eq_ok]
    simp only [Entries.get_eq_ok, and_assoc]
  cases l with
  | nil => exact hlookup
  | cons m' l =>
    rw [← hlookup, walk]
    · rw [bind_eq_ok]
      constructor
      · rintro ⟨row, -, heq⟩
        split_ifs at heq with hkind
        · cases heq
        · exact heq
      · intro heq
        obtain ⟨e, he, rfl, -⟩ := hlookup.mp heq
        obtain ⟨row, hrow, hkind⟩ := Nodes.get_of_kind (h.parentDir e he)
        refine ⟨row, hrow, ?_⟩
        rw [if_neg (not_not.mpr hkind)]
        exact heq
    · exact List.cons_ne_nil m' l

lemma walk_eq_ok (h : d.Tree) : walk d path i l = .ok j ↔ d.Leads i l j := by
  induction l generalizing i with
  | nil =>
    rw [walk, Except.ok.injEq]
    exact Iff.rfl
  | cons m l ih =>
    rw [walk_cons_eq_ok h]
    simp only [ih]
    exact Iff.rfl

/-- What a path resolves to. -/
theorem resolveToInode_eq_ok (h : d.Tree) : resolveToInode d path = .ok i ↔
    ∃ l, parsePath path = .ok l ∧ d.Leads ROOT_INODE l i := by
  unfold resolveToInode
  rw [bind_eq_ok]
  simp only [walk_eq_ok h]

/-- What a path resolves to, if its last name need not exist. -/
theorem resolveParentAndName_eq_ok (h : d.Tree) :
    resolveParentAndName d path = .ok (parent, name) ↔
      ∃ l, parsePath path = .ok (l ++ [name]) ∧ d.Leads ROOT_INODE l parent := by
  unfold resolveParentAndName
  rw [bind_eq_ok]
  constructor
  · rintro ⟨components, hparse, heq⟩
    rcases List.eq_nil_or_concat components with rfl | ⟨l, m, rfl⟩
    · cases heq
    · rw [List.concat_eq_append] at hparse heq
      rw [List.getLast?_concat] at heq
      dsimp only at heq
      rw [List.dropLast_concat] at heq
      split_ifs at heq with hnil
      · obtain ⟨p, hp, hpair⟩ := bind_eq_ok.mp heq
        obtain ⟨rfl, rfl⟩ := Prod.mk.inj (Except.ok.inj hpair)
        refine ⟨l, hparse, ?_⟩
        rw [hnil]
        exact Except.ok.inj hp
      · obtain ⟨p, hp, hpair⟩ := bind_eq_ok.mp heq
        obtain ⟨rfl, rfl⟩ := Prod.mk.inj (Except.ok.inj hpair)
        obtain ⟨l', hparse', hl'⟩ := (resolveToInode_eq_ok h).mp hp
        rw [parsePath_init hparse] at hparse'
        obtain rfl := Except.ok.inj hparse'
        exact ⟨l, hparse, hl'⟩
  · rintro ⟨l, hparse, hl⟩
    refine ⟨_, hparse, ?_⟩
    rw [List.getLast?_concat]
    dsimp only
    rw [List.dropLast_concat]
    split_ifs with hnil
    · rw [hnil] at hl
      exact bind_eq_ok.mpr ⟨parent, congrArg Except.ok hl, rfl⟩
    · exact bind_eq_ok.mpr
        ⟨parent, (resolveToInode_eq_ok h).mpr ⟨l, parsePath_init hparse, hl⟩, rfl⟩

/-! ### The path of an inode -/

lemma pathLoop_eq_some {fuel : ℕ} {parts : List Str} {p : Str}
    (h : pathLoop d fuel parent parts = .ok (some p)) :
    ∃ l, d.Leads ROOT_INODE l parent ∧ p = joinPath (l ++ parts) := by
  induction fuel generalizing parent parts with
  | zero => cases h
  | succ fuel ih =>
    rw [pathLoop] at h
    split_ifs at h with hroot
    · obtain rfl := Option.some.inj (Except.ok.inj h)
      exact ⟨[], hroot.symm, rfl⟩
    · cases he : Entries.ofInode d parent with
      | none =>
        rw [he] at h
        cases h
      | some e =>
        rw [he] at h
        obtain ⟨l, hl, rfl⟩ := ih h
        obtain ⟨hmem, rfl⟩ := Db.ofInode_eq_some he
        exact ⟨l ++ [e.name], hl.concat hmem, by rw [List.append_assoc, List.singleton_append]⟩

lemma pathLoop_ne_none (h : d.Tree) {fuel : ℕ} {parts : List Str} (hparent : d.Named parent) :
    pathLoop d fuel parent parts ≠ .ok none := by
  induction fuel generalizing parent parts with
  | zero => exact fun heq => by cases heq
  | succ fuel ih =>
    intro heq
    rw [pathLoop] at heq
    split_ifs at heq with hroot
    · cases heq
    · obtain ⟨e, he, rfl⟩ := hparent.resolve_left hroot
      obtain ⟨e', he'⟩ := Db.ofInode_isSome he
      rw [he'] at heq
      exact ih (h.named_parent (Db.ofInode_eq_some he').1) heq

lemma pathForInode_eq_none (h : d.Tree) (hi : pathForInode d i = .ok none) :
    ∀ e ∈ d.entries, e.inode ≠ i := by
  rintro e he rfl
  obtain ⟨e', he'⟩ := Db.ofInode_isSome he
  rw [pathForInode, he'] at hi
  exact pathLoop_ne_none h (h.named_parent (Db.ofInode_eq_some he').1) hi

/-- `pathForInode` gives the path through the first entry. -/
theorem pathForInode_eq_some (h : d.Tree) {p : Str} : pathForInode d i = .ok (some p) ↔
    ∃ l, d.FirstPath i l ∧ p = joinPath l := by
  constructor
  · intro hp
    unfold pathForInode at hp
    cases he : Entries.ofInode d i with
    | none =>
      rw [he] at hp
      cases hp
    | some e =>
      rw [he] at hp
      obtain ⟨l, hl, rfl⟩ := pathLoop_eq_some hp
      exact ⟨_, ⟨e, l, he, hl, rfl⟩, rfl⟩
  · rintro ⟨_, ⟨e, l, he, hl, rfl⟩, rfl⟩
    obtain ⟨o, ho⟩ := h.pathForInode_ok i
    obtain ⟨hmem, hei⟩ := Db.ofInode_eq_some he
    cases o with
    | none => exact absurd hei (pathForInode_eq_none h ho e hmem)
    | some p =>
      rw [ho]
      rw [pathForInode, he] at ho
      obtain ⟨l', hl', rfl⟩ := pathLoop_eq_some ho
      rw [h.leads_unique (h.parentDir e hmem) hl hl']

/-! ### The names that entries get -/

lemma validName_of_resolveParentAndName (h : resolveParentAndName d path = .ok (parent, name)) :
    ValidName name := by
  unfold resolveParentAndName at h
  obtain ⟨components, hparse, h⟩ := bind_eq_ok.mp h
  rcases List.eq_nil_or_concat components with rfl | ⟨l, m, rfl⟩
  · cases h
  · rw [List.concat_eq_append] at hparse h
    rw [List.getLast?_concat] at h
    obtain rfl : m = name := by
      dsimp only at h
      split_ifs at h
      · obtain ⟨p, -, hpair⟩ := bind_eq_ok.mp h
        exact congrArg Prod.snd (Except.ok.inj hpair)
      · obtain ⟨p, -, hpair⟩ := bind_eq_ok.mp h
        exact congrArg Prod.snd (Except.ok.inj hpair)
    exact (parsePath_eq_ok.mp hparse).1 m (List.mem_append_right _ (List.mem_singleton_self m))

lemma Op.Issues.validName {s : Filesystem} {operation : Op} {st : Statement}
    (h : operation.Issues s st)
    (he : st = .insertEntry e ∨ ∃ p m, st = .moveEntry p m e.parent e.name) : ValidName e.name := by
  have hname : ∃ path, resolveParentAndName s.conn path = .ok (e.parent, e.name) := by
    rcases he with rfl | ⟨p, m, rfl⟩
    · cases operation with
      | mkdir path mode => exact ⟨path, h⟩
      | create path flags mode => exact ⟨path, h⟩
      | symlink target path => exact ⟨path, h⟩
      | link target linkPath => exact ⟨linkPath, h⟩
      | _ => exact absurd h id
    · cases operation with
      | rename src dst => exact ⟨dst, h.2⟩
      | _ => exact absurd h id
  obtain ⟨path, hpath⟩ := hname
  exact validName_of_resolveParentAndName hpath

/-- Along every run, the entries have valid names. -/
theorem validNames_runsTo {Ok : Filesystem → Call → Prop} {s : Filesystem} (h : RunsTo Ok s) :
    s.conn.ValidNames := by
  refine Run.invariant (P := fun s => s.conn.ValidNames) ?_ ?_ h
  · rintro s ⟨chunkSize, ownerUid, ownerGid, now, readonly, uid, gid, rfl⟩ e he
    exact absurd he (KeyTable.not_mem_empty e)
  · intro s call _ _ hs
    cases call with
    | reopen readonly uid gid => exact hs
    | op user clock operation =>
      refine (Call.writes user clock operation s).keeps (fun st d d' hissue hst hd e he => ?_) hs
      rcases hst.mem_entries he with he | he
      · exact hd e he
      · exact hissue.validName he

lemma validName_of_leads (hnames : d.ValidNames) (h : d.Leads i l j) : ∀ c ∈ l, ValidName c := by
  induction l generalizing i with
  | nil => exact fun c hc => absurd hc List.not_mem_nil
  | cons m l ih =>
    obtain ⟨e, he, -, rfl, h⟩ := h
    rw [List.forall_mem_cons]
    exact ⟨hnames e he, ih h⟩

end Filesystem

end SqliteFs

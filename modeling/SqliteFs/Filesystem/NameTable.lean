import SqliteFs.Filesystem.EventLog
import SqliteFs.Filesystem.Success

/-!
# The table of names

What the entries of the database are for: each name in a directory stands for a node. Every operation
that returns adds a name to this table, removes one or moves one, or leaves the table alone, as its
name says.
-/

namespace SqliteFs

open Txn

/-- Which node each name in each directory stands for. -/
abbrev NameTable := ℕ × Str → Option ℕ

namespace NameTable

variable {τ : NameTable} {k k' : ℕ × Str} {i : ℕ}

def add (τ : NameTable) (k : ℕ × Str) (i : ℕ) : NameTable := Function.update τ k (some i)

def remove (τ : NameTable) (k : ℕ × Str) : NameTable := Function.update τ k none

/-- The name `k` becomes `k'`, in the place of what had this name. If both stand for one node, nothing
happens. -/
def move (τ : NameTable) (k k' : ℕ × Str) : NameTable :=
  match τ k with
  | none => τ
  | some i => if τ k' = some i then τ else (τ.remove k).add k' i

lemma move_same (h : τ k = some i) (h' : τ k' = some i) : τ.move k k' = τ := by
  rw [move, h]
  exact if_pos h'

lemma move_other (h : τ k = some i) (h' : τ k' ≠ some i) : τ.move k k' = (τ.remove k).add k' i := by
  rw [move, h]
  exact if_neg h'

@[simp] lemma move_self (τ : NameTable) (k : ℕ × Str) : τ.move k k = τ := by
  unfold move
  split
  · rfl
  · rename_i i hi
    exact if_pos hi

@[simp] lemma add_self : τ.add k i k = some i := Function.update_self _ _ _

lemma add_of_ne (h : k' ≠ k) : τ.add k i k' = τ k' := Function.update_of_ne h _ _

@[simp] lemma remove_self : τ.remove k k = none := Function.update_self _ _ _

lemma remove_of_ne (h : k' ≠ k) : τ.remove k k' = τ k' := Function.update_of_ne h _ _

/-- A name that is new hides no other. -/
lemma add_of_some (hfree : τ k = none) (h : τ k' = some i) (j : ℕ) : τ.add k j k' = some i := by
  rw [add_of_ne, h]
  rintro rfl
  rw [hfree] at h
  cases h

lemma remove_remove_add : ((τ.remove k').remove k).add k' i = (τ.remove k).add k' i := by
  funext j
  by_cases h : j = k'
  · rw [h, add_self, add_self]
  · rw [add_of_ne h, add_of_ne h]
    by_cases hk : j = k
    · rw [hk, remove_self, remove_self]
    · rw [remove_of_ne hk, remove_of_ne hk, remove_of_ne h]

end NameTable

namespace Db

variable {d d' : Db} {e t : EntryRow} {p q i : ℕ} {n m : Str} {k : ℕ × Str}

/-- The names in the database. -/
def nameTable (d : Db) : NameTable := fun k => (d.entries.find? k).map EntryRow.inode

lemma nameTable_eq_some : d.nameTable (p, n) = some i ↔ (⟨p, n, i⟩ : EntryRow) ∈ d.entries := by
  unfold nameTable
  rw [Option.map_eq_some_iff]
  constructor
  · rintro ⟨⟨p', n', i'⟩, he, rfl⟩
    obtain ⟨hmem, hk⟩ := KeyTable.find?_eq_some.mp he
    cases hk
    exact hmem
  · exact fun h => ⟨⟨p, n, i⟩, KeyTable.find?_key h, rfl⟩

lemma nameTable_of_mem (he : e ∈ d.entries) : d.nameTable (e.parent, e.name) = some e.inode :=
  nameTable_eq_some.mpr he

lemma nameTable_eq_none : d.nameTable k = none ↔ d.entries.find? k = none := Option.map_eq_none_iff

lemma nameTable_congr (h : d'.entries = d.entries) : d'.nameTable = d.nameTable := by
  unfold nameTable
  rw [h]

lemma mem_of_nameTable (h : ∀ k i, d.nameTable k = some i → d'.nameTable k = some i)
    (he : e ∈ d.entries) : e ∈ d'.entries :=
  nameTable_eq_some.mp (h _ _ (nameTable_of_mem he))

/-- Tables that have the same names for the same nodes are equal. -/
lemma nameTable_ext {τ : NameTable} (h : ∀ p n i, (⟨p, n, i⟩ : EntryRow) ∈ d.entries ↔ τ (p, n) = some i) :
    d.nameTable = τ := by
  funext ⟨p, n⟩
  refine Option.ext fun i => ?_
  rw [nameTable_eq_some, h]

lemma nameTable_add (hfree : d.nameTable (e.parent, e.name) = none)
    (hmem : ∀ x, x ∈ d'.entries ↔ x ∈ d.entries ∨ x = e) :
    d'.nameTable = d.nameTable.add (e.parent, e.name) e.inode := by
  refine nameTable_ext fun p n i => ?_
  rw [hmem, ← nameTable_eq_some]
  by_cases hk : (p, n) = (e.parent, e.name)
  · rw [hk, NameTable.add_self, hfree]
    obtain ⟨rfl, rfl⟩ := Prod.mk.inj hk
    constructor
    · rintro (h | h)
      · cases h
      · exact congrArg (fun x : EntryRow => some x.inode) h.symm
    · rintro ⟨⟩
      exact Or.inr rfl
  · rw [NameTable.add_of_ne hk, or_iff_left]
    rintro rfl
    exact hk rfl

lemma nameTable_remove (he : e ∈ d.entries) (hmem : ∀ x, x ∈ d'.entries ↔ x ∈ d.entries ∧ x ≠ e) :
    d'.nameTable = d.nameTable.remove (e.parent, e.name) := by
  refine nameTable_ext fun p n i => ?_
  rw [hmem, ← nameTable_eq_some]
  by_cases hk : (p, n) = (e.parent, e.name)
  · rw [hk, NameTable.remove_self, nameTable_of_mem he]
    obtain ⟨rfl, rfl⟩ := Prod.mk.inj hk
    refine iff_of_false ?_ (by simp)
    rintro ⟨⟨⟩, hne⟩
    exact hne rfl
  · rw [NameTable.remove_of_ne hk, and_iff_left]
    rintro rfl
    exact hk rfl

lemma nameTable_move (he : e ∈ d.entries) (hfree : d.nameTable (q, m) = none)
    (hmem : ∀ x, x ∈ d'.entries ↔ (x ∈ d.entries ∧ x ≠ e) ∨ x = ⟨q, m, e.inode⟩) :
    d'.nameTable = (d.nameTable.remove (e.parent, e.name)).add (q, m) e.inode := by
  refine nameTable_ext fun p n i => ?_
  rw [hmem]
  by_cases hk : (p, n) = (q, m)
  · rw [hk, NameTable.add_self]
    obtain ⟨rfl, rfl⟩ := Prod.mk.inj hk
    constructor
    · rintro (⟨h, -⟩ | h)
      · rw [nameTable_eq_some.mpr h] at hfree
        cases hfree
      · exact congrArg (fun x : EntryRow => some x.inode) h.symm
    · rintro ⟨⟩
      exact Or.inr rfl
  · rw [NameTable.add_of_ne hk, or_iff_left (by rintro ⟨⟩; exact hk rfl), ← nameTable_eq_some]
    by_cases hk' : (p, n) = (e.parent, e.name)
    · rw [hk', NameTable.remove_self, nameTable_of_mem he]
      obtain ⟨rfl, rfl⟩ := Prod.mk.inj hk'
      refine iff_of_false ?_ (by simp)
      rintro ⟨⟨⟩, hne⟩
      exact hne rfl
    · rw [NameTable.remove_of_ne hk', and_iff_left]
      rintro rfl
      exact hk' rfl

section Steps
variable {nk : NodeKind}

lemma free_of_insertEntry (h : d.insertEntry e = .ok d') : d.nameTable (e.parent, e.name) = none := by
  obtain ⟨-, -, t, ht, -⟩ := insertEntry_eq_ok.mp h
  exact nameTable_eq_none.mpr (KeyTable.insert?_eq_some.mp ht).1

lemma Attaches.free (h : d.Attaches d' nk e) : d.nameTable (e.parent, e.name) = none := by
  obtain ⟨-, d₁, d₂, hadds, hinsert, -⟩ := h
  rw [← nameTable_congr hadds.entries]
  exact free_of_insertEntry hinsert

lemma Attaches.fresh (h : d.Attaches d' nk e) : d.hasNode e.inode = false := by
  obtain ⟨-, d₁, d₂, hadds, -, -⟩ := h
  rw [hasNode_eq_isSome_kind, Db.kind, hadds.fresh]
  rfl

lemma Attaches.nameTable (h : d.Attaches d' nk e) :
    d'.nameTable = d.nameTable.add (e.parent, e.name) e.inode :=
  nameTable_add h.free fun _ => h.mem_entries

lemma Links.free (h : d.Links d' e) : d.nameTable (e.parent, e.name) = none := by
  obtain ⟨-, -, -, d₁, hinsert, -⟩ := h
  exact free_of_insertEntry hinsert

lemma Links.nameTable (h : d.Links d' e) :
    d'.nameTable = d.nameTable.add (e.parent, e.name) e.inode :=
  nameTable_add h.free fun _ => h.mem_entries

lemma RemovesDir.nameTable (h : d.RemovesDir d' e) :
    d'.nameTable = d.nameTable.remove (e.parent, e.name) :=
  nameTable_remove h.1 fun _ => h.mem_entries

lemma Drops.nameTable {count : ℕ} (h : d.Drops d' e count) :
    d'.nameTable = d.nameTable.remove (e.parent, e.name) :=
  nameTable_remove h.1 fun _ => h.mem_entries

variable {isDir : Prop} [Decidable isDir] {d₁ : Db}

/-- A name that is moved where no name was. -/
lemma Moves.nameTable (he : e ∈ d.entries) (hfree : ∀ x ∈ d.entries, ¬ (x.parent = q ∧ x.name = m))
    (h : d.Moves d' isDir e q m) : d'.nameTable = d.nameTable.move (e.parent, e.name) (q, m) := by
  have hnone : d.nameTable (q, m) = none := by
    rw [Option.eq_none_iff_forall_ne_some]
    exact fun i hi => hfree _ (nameTable_eq_some.mp hi) ⟨rfl, rfl⟩
  rw [NameTable.move_other (nameTable_of_mem he) (by simp [hnone])]
  exact nameTable_move he hnone fun _ => h.mem_entries he

/-- A name that is moved onto another one. -/
lemma Evicts.nameTable_moves (htree : d.Tree) (he : e ∈ d.entries) (hne : t.inode ≠ e.inode)
    (hv : d.Evicts d₁ isDir p t) (h : d₁.Moves d' isDir e t.parent t.name) :
    d'.nameTable = d.nameTable.move (e.parent, e.name) (t.parent, t.name) := by
  have hmem : ∀ x, x ∈ d₁.entries ↔ x ∈ d.entries ∧ x ≠ t := fun x => hv.mem_entries htree
  have he₁ : e ∈ d₁.entries := (hmem e).mpr ⟨he, fun heq => hne (congrArg EntryRow.inode heq).symm⟩
  have hevicted : d₁.nameTable = d.nameTable.remove (t.parent, t.name) := nameTable_remove hv.1 hmem
  have hother : d.nameTable (t.parent, t.name) ≠ some e.inode := by
    rw [nameTable_of_mem hv.1]
    exact fun heq => hne (Option.some.inj heq)
  rw [NameTable.move_other (nameTable_of_mem he) hother,
    nameTable_move he₁ (by rw [hevicted, NameTable.remove_self]) fun _ => h.mem_entries he₁, hevicted,
    NameTable.remove_remove_add]

end Steps

end Db

namespace Filesystem

variable {s : Filesystem} {clock : Clock}

/-- What an operation that returns does to the table of names. -/
def Op.OnNames (s : Filesystem) (τ τ' : NameTable) : Op → Prop
  | .mkdir path _ | .symlink _ path => ∃ k i, resolveParentAndName s.conn path = .ok k ∧ τ k = none ∧
      s.conn.hasNode i = false ∧ τ' = τ.add k i
  | .create path _ _ => ∃ k, resolveParentAndName s.conn path = .ok k ∧
      (τ k ≠ none ∧ τ' = τ ∨ τ k = none ∧ ∃ i, s.conn.hasNode i = false ∧ τ' = τ.add k i)
  | .link target path => ∃ k i, resolveToInode s.conn target = .ok i ∧
      resolveParentAndName s.conn path = .ok k ∧ τ k = none ∧ τ' = τ.add k i
  | .rmdir path | .unlink path => ∃ k, resolveParentAndName s.conn path = .ok k ∧ τ k ≠ none ∧
      τ' = τ.remove k
  | .rename src dst => src = dst ∧ τ' = τ ∨ ∃ k k', resolveParentAndName s.conn src = .ok k ∧
      resolveParentAndName s.conn dst = .ok k' ∧ τ k ≠ none ∧ τ' = τ.move k k'
  | _ => τ' = τ

/-- The names after the outcome are those that the operation leaves. -/
abbrev LeavesNames (s : Filesystem) (operation : Op) {α : Type} (o : Outcome Filesystem Db Halt α) :
    Prop :=
  operation.OnNames s s.conn.nameTable o.state.conn.nameTable

section Operations
variable {path src dst target : Str} {flags : Flags} {mode : UInt32} {bytes : Bytes}

lemma mkdir_names : Prog.RefusesOr (mkdir clock path mode) s
    (LeavesNames s (.mkdir path mode)) := by
  refine (mkdir_outcome s clock path mode).mono ?_
  rintro o ⟨e, d, hresolved, h, rfl⟩
  exact ⟨_, _, hresolved, h.free, h.fresh, h.nameTable⟩

lemma symlink_names : Prog.RefusesOr (symlink clock bytes path) s
    (LeavesNames s (.symlink bytes path)) := by
  refine (symlink_outcome s clock bytes path).mono ?_
  rintro o ⟨e, d, hresolved, h, rfl⟩
  exact ⟨_, _, hresolved, h.free, h.fresh, h.nameTable⟩

lemma createExisting_conn (e : EntryRow) :
    (createExisting path flags e s).state.conn = s.conn := by
  suffices h : Prog.RefusesOr (createExisting path flags e) s fun o => o.state.conn = s.conn by
    rcases h with ⟨x, hx⟩ | h
    · rw [hx]
    · exact h
  apply bind_require
  intro _
  apply bind_getNode
  intro row _
  apply Prog.RefusesOr.bind_query
  intro _ _
  exact .of_run rfl

lemma create_names : Prog.RefusesOr (create clock path flags mode) s
    (LeavesNames s (.create path flags mode)) := by
  apply bind_requireWritable
  intro _
  apply Prog.RefusesOr.bind_query
  rintro ⟨parent, name⟩ hparent
  apply Prog.RefusesOr.bind_query
  intro existing hexisting
  cases hexisting
  cases he : Entries.get s.conn parent name with
  | ok e =>
    obtain ⟨hmem, rfl, rfl⟩ := Entries.get_eq_ok.mp he
    refine .of_run ⟨_, hparent, Or.inl ⟨?_, ?_⟩⟩
    · rw [Db.nameTable_of_mem hmem]
      exact Option.some_ne_none _
    · exact Db.nameTable_congr (congrArg Db.entries (createExisting_conn _))
  | error _ =>
    refine (createNew_outcome s clock path flags mode (resolveParentAndName_named hparent)).mono ?_
    rintro o ⟨e, d, fd, rfl, rfl, h, rfl⟩
    exact ⟨_, hparent, Or.inr ⟨h.free, _, h.fresh, h.nameTable⟩⟩

lemma link_names : Prog.RefusesOr (link clock target path) s (LeavesNames s (.link target path)) := by
  apply bind_requireWritable
  intro _
  apply Prog.RefusesOr.bind_query
  intro ino hino
  apply bind_getNode
  intro targetRow htarget
  apply bind_require
  intro hfile
  apply Prog.RefusesOr.bind_query
  rintro ⟨parent, name⟩ hparent
  apply bind_getNode
  intro parentRow hrow
  apply bind_require
  intro hdir
  apply Prog.RefusesOr.bind_query
  intro _ _
  apply bind_tx_emit
  intro _ d _ hd
  obtain ⟨_, d₁, hent, hd⟩ := Body.bind_eq_ok.mp hd
  obtain ⟨_, d₂, hnlink, htimes⟩ := Body.bind_eq_ok.mp hd
  have hlinks : s.conn.Links d ⟨parent, name, ino⟩ :=
    ⟨placed_of_get (resolveParentAndName_named hparent) hrow hdir, resolveToInode_named hino,
      ⟨_, Nodes.kind_of_get htarget, hfile⟩, d₁, Entries.insert_eq_ok.mp hent,
      ((Nodes.changeNlink_ok hnlink).1.trans (Nodes.updateTimes_ok htimes)).congr (add_zero _)⟩
  exact ⟨_, _, hino, hparent, hlinks.free, hlinks.nameTable⟩

lemma rmdir_names : Prog.RefusesOr (rmdir clock path) s
    (LeavesNames s (.rmdir path)) := by
  refine (rmdir_outcome s clock path).mono ?_
  rintro o ⟨e, d, hmay, h, rfl⟩
  refine ⟨_, hmay.resolved, ?_, h.nameTable⟩
  rw [Db.nameTable_of_mem hmay.entry]
  exact Option.some_ne_none _

lemma unlink_names (h : s.core.Counted (· ≠ .dir)) (htree : s.conn.Tree) :
    Prog.RefusesOr (unlink clock path) s (LeavesNames s (.unlink path)) := by
  have hmay : Prog.RefusesOr (unlink clock path) s fun _ => ∃ e row, MayUnlink s path e row := unlink_may
  rcases hmay with hrefused | ⟨e, row, hmay⟩
  · exact Or.inl hrefused
  · have hleaves {d : Db} (hd : d.nameTable = s.conn.nameTable.remove (e.parent, e.name)) :
        Op.OnNames s s.conn.nameTable d.nameTable (.unlink path) := by
      refine ⟨_, hmay.resolved, ?_, hd⟩
      rw [Db.nameTable_of_mem hmay.entry]
      exact Option.some_ne_none _
    refine .of_run ?_
    generalize hrun : unlink clock path s = o
    have hunlinks := unlink_unlinks clock h hmay
    rw [hrun] at hunlinks
    cases hunlinks with
    | keeps hdrops => exact hleaves hdrops.nameTable
    | deletes hdrops hrem =>
      refine hleaves ((Db.nameTable_congr ?_).trans hdrops.nameTable)
      exact (htree.drops hdrops).entries_of_removesNode (htree.rootUnnamed e hmay.entry) hrem
    | fails hdrops => exact hleaves hdrops.nameTable

lemma rename_names (htree : s.conn.Tree) : Prog.RefusesOr (rename clock src dst) s
    (LeavesNames s (.rename src dst)) := by
  refine rename_rule s clock ?_ ?_ ?_
  · rintro commits (rfl | ⟨e, he, t, ht, hsame, hsrc, hdst⟩) -
    · exact Or.inl ⟨rfl, rfl⟩
    · refine Or.inr ⟨_, _, hsrc, hdst, ?_, ?_⟩
      · rw [Db.nameTable_of_mem he]
        exact Option.some_ne_none _
      · refine (NameTable.move_same (Db.nameTable_of_mem he) ?_).symm
        rw [Db.nameTable_of_mem ht, hsame]
  · intro d e q m k _ hmay hfree hmoves
    refine Or.inr ⟨_, _, hmay.source, hmay.target, ?_, hmoves.nameTable hmay.move.1 hfree⟩
    rw [Db.nameTable_of_mem hmay.move.1]
    exact Option.some_ne_none _
  · intro d₁ d e t k _ hmay hevicts hmoves
    refine Or.inr ⟨_, _, hmay.source, hmay.target, ?_,
      hevicts.nameTable_moves htree hmay.move.1 hmay.other hmoves⟩
    rw [Db.nameTable_of_mem hmay.move.1]
    exact Option.some_ne_none _

lemma closeFd_entries (h : s.core.Rooted) (fd : ℕ) :
    (closeFd fd s).state.conn.entries = s.conn.entries := by
  rcases closeFd_effect s fd with hsame | he
  · rw [hsame]
  · generalize hc : (closeFd fd s).state.core = c at he
    have hconn : (closeFd fd s).state.conn = c.conn := congrArg Core.conn hc
    rw [hconn]
    cases he with
    | closes hf hd =>
      rcases hd with ⟨-, hd⟩ | ⟨m, -, hd⟩
      · exact congrArg Db.entries hd
      · exact hd.entries h.tree (h.rootClosed _ (KeyTable.find?_eq_some.mp hf).1)

end Operations

/-- An operation without a statement about names keeps the entries. -/
lemma entries_of_issues (clock : Clock) {operation : Op} (h : ∀ st, operation.Issues s st → Table.entries ∉ st.tables) :
    (operation.run clock s).state.conn.entries = s.conn.entries := by
  have hwrote : s.conn.Writes (operation.Issues s) (operation.run clock s).state.conn :=
    operation.wrote s clock
  refine Writes.related (R := fun d d' => d'.entries = d.entries) (fun _ => rfl) ?_ ?_ hwrote
  · exact fun _ _ _ h₁ h₂ => h₂.trans h₁
  · exact fun st _ _ hst hdoes => hdoes.same (h st hst)

lemma names_answer {α : Type} {f : α → Reply} {p : Action α} {operation : Op}
    (h : Prog.RefusesOr p s (LeavesNames s operation)) :
    Prog.RefusesOr (answer f p) s (LeavesNames s operation) := by
  unfold Prog.RefusesOr
  rw [answer_apply]
  rcases h with ⟨e, he⟩ | h
  · refine Or.inl ⟨e, ?_⟩
    rw [he]
    rfl
  · exact Or.inr h

/-- An operation refuses, or leaves the names as its name says. -/
theorem Op.names (hrooted : s.core.Rooted) (hcounted : s.core.Counted (· ≠ .dir)) (operation : Op) :
    Prog.RefusesOr (operation.run clock) s (LeavesNames s operation) := by
  have hkeeps (h : ∀ st, operation.Issues s st → Table.entries ∉ st.tables) :=
    Db.nameTable_congr (entries_of_issues clock h)
  have htree := hrooted.tree
  cases operation with
  | mkdir path mode => exact names_answer mkdir_names
  | symlink target path => exact names_answer symlink_names
  | create path flags mode => exact names_answer create_names
  | link target path => exact names_answer link_names
  | rmdir path => exact names_answer rmdir_names
  | unlink path => exact names_answer (unlink_names hcounted htree)
  | rename src dst => exact names_answer (rename_names htree)
  | closeFd fd =>
    refine names_answer (.of_run ?_)
    exact Db.nameTable_congr (closeFd_entries hrooted fd)
  | _ =>
    refine .of_run (hkeeps ?_)
    intro st hst
    cases st with
    | insertEntry | deleteEntry | moveEntry | deleteNode => exact hst.elim
    | _ => simp [Statement.tables]

end Filesystem

end SqliteFs

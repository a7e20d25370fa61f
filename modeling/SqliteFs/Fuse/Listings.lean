import SqliteFs.Fuse.Names
import SqliteFs.Fuse.Readdir

/-!
# What a listing shows

The kernel reads a directory page by page. Every page is cut from one list: the directory itself, the
one above, and then the names that the table of names has in the directory, in their order.
-/

namespace SqliteFs

open Txn

namespace Fuse

open Filesystem

/-! ### The entries of a directory -/

/-- The entries of the directory `ino`, in the order of their names. -/
structure Lists (d : Db) (τ : NameTable) (ino : ℕ) (l : List DirEntry) : Prop where
  sorted : (l.map DirEntry.name).Pairwise (· < ·)
  mem : ∀ de, de ∈ l ↔ τ (ino, de.name) = some de.inode ∧ d.kind de.inode = some de.kind

/-- Everything that there is to list, each entry with the offset behind it. -/
def listed (ino parent : ℕ) (l : List DirEntry) : List ReplyEntry :=
  ((ino, FileType.directory, ['.']) :: (parent, .directory, ['.', '.']) ::
    l.map fun de => (de.inode, kindToFt de.kind, de.name)).zipIdx.map
      fun x => ⟨x.1.1, x.2 + 1, x.1.2.1, x.1.2.2⟩

/-- The directory can be listed by the user of the request. -/
def Listable (s : Filesystem) (req : Request) (ino : ℕ) : Prop :=
  ∃ path row, PathOf s ino path ∧ path.len ≤ PATH_MAX ∧ Nodes.get s.conn ino = .ok row ∧
    row.kind = .dir ∧ Allows (req.view s) row Access.R

section Listing
variable {d : Db} {s : Filesystem} {req : Request} {ino offset : ℕ} {path : Str}
  {buffer reply : ReplyDirectory}

/-- What a row of the table of entries is listed as. -/
def dirEntry (d : Db) (e : EntryRow) : DirEntry := ⟨e.name, (d.kind e.inode).getD .file, e.inode⟩

lemma mapM_dirEntry {l : List EntryRow} {entries : List DirEntry}
    (h : (l.mapM fun e => do
      let child ← Nodes.get d e.inode
      return (⟨e.name, child.kind, e.inode⟩ : DirEntry)) = Except.ok entries) :
    entries = l.map (dirEntry d) := by
  induction l generalizing entries with
  | nil => exact (Except.ok.inj h).symm
  | cons e l ih =>
    rw [List.mapM_cons] at h
    obtain ⟨de, hde, h⟩ := bind_eq_ok.mp h
    obtain ⟨child, hget, hchild⟩ := bind_eq_ok.mp hde
    obtain rfl := Except.ok.inj hchild
    obtain ⟨rest, hrest, h⟩ := bind_eq_ok.mp h
    obtain rfl := Except.ok.inj h
    rw [List.map_cons, ih hrest, dirEntry, Nodes.kind_of_get hget]
    rfl

lemma lists_dirEntry (htree : d.Tree) (ino : ℕ) :
    Lists d d.nameTable ino ((Entries.list d ino).map (dirEntry d)) := by
  have hmem (e : EntryRow) : e ∈ Entries.list d ino ↔ e ∈ d.entries ∧ e.parent = ino := by
    rw [Entries.list, List.mem_insertionSort, KeyTable.mem_select, decide_eq_true_iff]
  refine ⟨?_, fun de => ?_⟩
  · have hsorted := names_sorted d ino
    rw [names] at hsorted
    rwa [List.map_map]
  · rw [List.mem_map]
    constructor
    · rintro ⟨e, he, rfl⟩
      obtain ⟨he', rfl⟩ := (hmem e).mp he
      obtain ⟨info, hinfo⟩ := Db.hasNode_iff.mp (htree.child e he')
      refine ⟨Db.nameTable_of_mem he', ?_⟩
      rw [dirEntry, Db.kind_of_info hinfo]
      rfl
    · rintro ⟨hname, hkind⟩
      refine ⟨⟨ino, de.name, de.inode⟩, (hmem _).mpr ⟨Db.nameTable_eq_some.mp hname, rfl⟩, ?_⟩
      rw [dirEntry, hkind]
      rfl

lemma readdir_lists (htree : s.conn.Tree) : Prog.RefusesOr (Filesystem.readdir path) s fun o =>
    ∃ i row l, Finds s path i row ∧ Lists s.conn s.conn.nameTable i l ∧ o.result = .ok l := by
  apply Prog.RefusesOr.bind_query
  intro i hi
  apply bind_getNode
  intro row hrow
  apply bind_require
  intro _
  apply Prog.RefusesOr.bind_query
  intro _ _
  apply Prog.RefusesOr.query
  intro entries hentries
  obtain rfl := mapM_dirEntry hentries
  exact ⟨i, row, _, ⟨hi, hrow⟩, lists_dirEntry htree i, rfl⟩

/-! ### The answer -/

/-- The steps of the handler that find out what is to be listed. -/
lemma readdir_ok : (Adapter.readdir req ino offset buffer s).result = .ok (.ok reply) ↔
    ∃ path l dots, PathOf s ino path ∧ (Filesystem.readdir path (req.view s)).result = .ok l ∧
      (Adapter.dotDot req ino path s).result = .ok dots ∧
      reply = Adapter.addEntries (((ino, .directory, ['.']) :: dots ++
        l.map fun de => (de.inode, kindToFt de.kind, de.name)).zipIdx.drop offset) buffer := by
  unfold Adapter.readdir
  rw [bind_result_ok]
  constructor
  · rintro ⟨o, hpath, hrun⟩
    cases o with
    | none => cases hrun
    | some path =>
      rw [(pathOfInode_reads ino s).1, bind_result_ok] at hrun
      obtain ⟨x, hx, hrun⟩ := hrun
      cases x with
      | error e => cases hrun
      | ok l =>
        rw [asUserOf_idle (readdir_reads path) req s] at hrun
        dsimp only at hrun
        rw [bind_pure_result, map_eq_ok] at hrun
        obtain ⟨dots, hdots, heq⟩ := hrun
        exact ⟨path, l, dots, hpath, asUserOf_ok.mp hx, hdots, (Except.ok.inj heq).symm⟩
  · rintro ⟨path, l, dots, hpath, hl, hdots, rfl⟩
    refine ⟨some path, hpath, ?_⟩
    rw [(pathOfInode_reads ino s).1, bind_result_ok]
    refine ⟨.ok l, asUserOf_ok.mpr hl, ?_⟩
    rw [asUserOf_idle (readdir_reads path) req s]
    dsimp only
    rw [bind_pure_result, map_eq_ok]
    exact ⟨dots, hdots, rfl⟩

/-- Who may list a directory gets an answer, and nobody else. -/
lemma readdir_answered (h : Reachable s) :
    (∃ reply, (Adapter.readdir req ino offset buffer s).result = .ok (.ok reply)) ↔
      Listable s req ino := by
  have htree : s.conn.Tree := (rooted_runsTo h).tree
  constructor
  · rintro ⟨reply, hreply⟩
    obtain ⟨path, l, dots, hpath, hl, -, -⟩ := readdir_ok.mp hreply
    obtain ⟨i, row, ⟨hi, hrow⟩, hdir, haccess⟩ :=
      (readdir_returns_iff (s := req.view s) htree).mp ⟨l, hl⟩
    obtain ⟨c, hparse, -⟩ := (resolveToInode_eq_ok htree).mp hi
    have hlen := (parsePath_eq_ok.mp hparse).2.1
    obtain rfl : ino = i := Except.ok.inj ((resolve_of_pathOfInode h hpath hlen).symm.trans hi)
    exact ⟨path, row, hpath, hlen, hrow, hdir, haccess⟩
  · rintro ⟨path, row, hpath, hlen, hrow, hdir, haccess⟩
    have hi : resolveToInode s.conn path = .ok ino := resolve_of_pathOfInode h hpath hlen
    obtain ⟨l, hl⟩ := (readdir_returns_iff (s := req.view s) htree).mpr
      ⟨ino, row, ⟨hi, hrow⟩, hdir, haccess⟩
    obtain ⟨c, hc, -, rfl⟩ := leads_of_pathOf h hpath
    obtain ⟨parent, -, hdots⟩ := dotDot_run h req hc hlen
    exact ⟨_, readdir_ok.mpr ⟨_, l, _, hpath, hl, congrArg Outcome.result hdots, rfl⟩⟩

/-- A page of a listing. -/
lemma readdir_cuts (h : Reachable s)
    (hreply : (Adapter.readdir req ino offset buffer s).result = .ok (.ok reply)) :
    ∃ parent l, Above s.conn ino parent ∧ Lists s.conn s.conn.nameTable ino l ∧
      reply.entries = buffer.entries ++ ((listed ino parent l).drop offset).take buffer.room := by
  have htree : s.conn.Tree := (rooted_runsTo h).tree
  obtain ⟨path, l, dots, hpath, hl, hdots, rfl⟩ := readdir_ok.mp hreply
  obtain ⟨i, row, l', ⟨hi, -⟩, hlists, hl'⟩ := (readdir_lists (s := req.view s) htree).of_ok hl
  obtain rfl := Except.ok.inj (hl.symm.trans hl')
  obtain ⟨c, hparse, -⟩ := (resolveToInode_eq_ok htree).mp hi
  have hlen := (parsePath_eq_ok.mp hparse).2.1
  obtain rfl : ino = i := Except.ok.inj ((resolve_of_pathOfInode h hpath hlen).symm.trans hi)
  obtain ⟨c, hc, -, rfl⟩ := leads_of_pathOf h hpath
  obtain ⟨parent, habove, hrun⟩ := dotDot_run h req hc hlen
  obtain rfl := Except.ok.inj (hdots.symm.trans (congrArg Outcome.result hrun))
  refine ⟨parent, l, habove, hlists, ?_⟩
  rw [addEntries_entries, listed, ← List.map_drop, ← List.map_take]
  rfl

end Listing

/-! ### Sessions -/

section Sessions
variable {x : Filesystem × NameTable}

/-- Who may list a directory gets a page of the list that the table put together from the earlier
answers has for it, behind the directory itself and the one above. -/
theorem session_readdir (h : Heard x) (clock : Clock) (req : Request) (ino offset room : ℕ) :
    ((∃ a, ((Message.readdir ino offset room).run clock req x.1).result = .ok (.ok a)) ↔
      Listable x.1 req ino) ∧
    ∀ a, ((Message.readdir ino offset room).run clock req x.1).result = .ok (.ok a) →
      ∃ reply parent l, a = .directory reply ∧
        (ino = ROOT_INODE ∧ parent = ROOT_INODE ∨ ∃ n, x.2 (parent, n) = some ino) ∧
        Lists x.1.conn x.2 ino l ∧
        reply.entries = ((listed ino parent l).drop offset).take room := by
  have hreach := h.reachable
  constructor
  · rw [← readdir_answered hreach]
    constructor
    · rintro ⟨a, ha⟩
      obtain ⟨reply, hreply, -⟩ := reply_ok.mp ha
      exact ⟨reply, hreply⟩
    · rintro ⟨reply, hreply⟩
      exact ⟨.directory reply, reply_ok.mpr ⟨reply, hreply, rfl⟩⟩
  · intro a ha
    obtain ⟨reply, hreply, rfl⟩ := reply_ok.mp ha
    obtain ⟨parent, l, habove, hlists, hentries⟩ := readdir_cuts hreach hreply
    rw [h.names] at hlists
    refine ⟨reply, parent, l, rfl, ?_, hlists, hentries⟩
    rcases habove with hroot | ⟨e, he, rfl, rfl⟩
    · exact Or.inl hroot
    · rw [← h.names]
      exact Or.inr ⟨e.name, Db.nameTable_of_mem he⟩

theorem session_readdir_movedFile :
    ((∃ a, ((Message.readdir 1 0 10).run ⟨4, 4⟩ ⟨0, 0⟩ movedFile.1).result = .ok (.ok a)) ↔
      Listable movedFile.1 ⟨0, 0⟩ 1) ∧
    ∀ a, ((Message.readdir 1 0 10).run ⟨4, 4⟩ ⟨0, 0⟩ movedFile.1).result = .ok (.ok a) →
      ∃ reply parent l, a = .directory reply ∧
        (1 = ROOT_INODE ∧ parent = ROOT_INODE ∨ ∃ n, movedFile.2 (parent, n) = some 1) ∧
        Lists movedFile.1.conn movedFile.2 1 l ∧
        reply.entries = ((listed 1 parent l).drop 0).take 10 :=
  session_readdir heard_movedFile ⟨4, 4⟩ ⟨0, 0⟩ 1 0 10

end Sessions

end Fuse

end SqliteFs

import SqliteFs.Fuse.Getattr
import SqliteFs.Lib.Paging

/-!
# Listing a directory while it changes

Each request for a part of a listing makes the whole list anew and takes up at a position in it. A
name that stays in the directory is returned exactly once if the changes between the requests have
carried it over that position as often in one direction as in the other.
-/

namespace SqliteFs

namespace Fuse

open Filesystem Paging

/-! ### The list that the adapter makes -/

section Names
variable {d : Db} {ino : ℕ} {n : Str}

/-- The directory has the name. -/
def HasName (d : Db) (ino : ℕ) (n : Str) : Prop := ∃ e ∈ d.entries, e.parent = ino ∧ e.name = n

def names (d : Db) (ino : ℕ) : List Str := (Entries.list d ino).map EntryRow.name

/-- What the adapter lists. -/
def listing (d : Db) (ino : ℕ) : List Str := ['.'] :: ['.', '.'] :: names d ino

/-- The number of names in the directory that come before `n`. -/
def rank (d : Db) (ino : ℕ) (n : Str) : ℕ := d.entries.count fun e => e.parent = ino ∧ e.name < n

lemma names_perm (d : Db) (ino : ℕ) : (names d ino).Perm
    ((d.entries.select fun e => e.parent = ino).map EntryRow.name) :=
  (List.perm_insertionSort _ _).map _

lemma mem_names : n ∈ names d ino ↔ HasName d ino n := by
  rw [(names_perm d ino).mem_iff, List.mem_map]
  constructor
  · rintro ⟨e, he, rfl⟩
    obtain ⟨he, hparent⟩ := KeyTable.mem_select.mp he
    exact ⟨e, he, of_decide_eq_true hparent, rfl⟩
  · rintro ⟨e, he, hparent, rfl⟩
    exact ⟨e, KeyTable.mem_select.mpr ⟨he, decide_eq_true hparent⟩, rfl⟩

lemma names_nodup (d : Db) (ino : ℕ) : (names d ino).Nodup := by
  rw [(names_perm d ino).nodup_iff]
  refine List.Nodup.map_on ?_ (d.entries.nodup.of_map.filter _)
  intro e he e' he' hname
  obtain ⟨he, hparent⟩ := KeyTable.mem_select.mp he
  obtain ⟨he', hparent'⟩ := KeyTable.mem_select.mp he'
  refine KeyTable.eq_of_key he he' (Prod.ext ?_ hname)
  exact (of_decide_eq_true hparent).trans (of_decide_eq_true hparent').symm

/-- The order of `ORDER BY name`. -/
abbrev byName (a b : EntryRow) : Prop := a.name ≤ b.name

instance : Std.Total byName := ⟨fun a b => le_total a.name b.name⟩

instance : IsTrans EntryRow byName := ⟨fun _ _ _ h h' => le_trans h h'⟩

lemma names_sorted (d : Db) (ino : ℕ) : (names d ino).Pairwise (· < ·) := by
  have hle : (names d ino).Pairwise (· ≤ ·) :=
    List.pairwise_map.mpr (List.pairwise_insertionSort byName _)
  exact (hle.and (names_nodup d ino)).imp fun h => lt_of_le_of_ne h.1 h.2

lemma countP_names (d : Db) (ino : ℕ) (n : Str) : (names d ino).countP (· < n) = rank d ino n := by
  rw [(names_perm d ino).countP_eq, List.countP_map]
  unfold rank KeyTable.count KeyTable.select
  rw [List.countP_filter]
  refine List.countP_congr fun e _ => ?_
  simp [and_comm]

lemma listing_nodup (hnames : d.ValidNames) (ino : ℕ) : (listing d ino).Nodup := by
  have hdots : ∀ n ∈ names d ino, ¬ (n = ['.'] ∨ n = ['.', '.']) := by
    intro n hn
    obtain ⟨e, he, -, rfl⟩ := mem_names.mp hn
    exact (hnames e he).notDots
  rw [listing, List.nodup_cons, List.nodup_cons]
  refine ⟨fun h => ?_, fun h => hdots _ h (Or.inr rfl), names_nodup d ino⟩
  rcases List.mem_cons.mp h with h | h
  · cases h
  · exact hdots _ h (Or.inl rfl)

/-- A name stands behind the dots and the names before it. -/
lemma idxOf_listing (hnames : d.ValidNames) (hn : HasName d ino n) :
    (listing d ino).idxOf n = rank d ino n + 2 := by
  have hvalid : ¬ (n = ['.'] ∨ n = ['.', '.']) := by
    obtain ⟨e, he, -, rfl⟩ := hn
    exact (hnames e he).notDots
  rw [not_or] at hvalid
  rw [listing, List.idxOf_cons_ne _ (Ne.symm hvalid.1), List.idxOf_cons_ne _ (Ne.symm hvalid.2),
    idxOf_of_sorted (names_sorted d ino) (mem_names.mpr hn), countP_names]

end Names

/-! ### One request -/

section Request
variable {s : Filesystem} {req : Request} {ino offset room : ℕ} {reply : ReplyDirectory}

lemma addEntries_entries (l : List ((ℕ × FileType × Str) × ℕ)) (reply : ReplyDirectory) :
    (Adapter.addEntries l reply).entries = reply.entries ++
      (l.take reply.room).map fun x => ⟨x.1.1, x.2 + 1, x.1.2.1, x.1.2.2⟩ := by
  induction l generalizing reply with
  | nil => simp [Adapter.addEntries]
  | cons x l ih =>
    obtain ⟨⟨inode, kind, name⟩, i⟩ := x
    obtain ⟨room, entries⟩ := reply
    cases room with
    | zero => simp [Adapter.addEntries, ReplyDirectory.add]
    | succ room => simp [Adapter.addEntries, ReplyDirectory.add, ih]

/-- The listed entries keep the names of the rows. -/
lemma mapM_names {d : Db} {l : List EntryRow} {entries : List DirEntry}
    (h : (l.mapM fun e => do
      let child ← Nodes.get d e.inode
      return (⟨e.name, child.kind, e.inode⟩ : DirEntry)) = Except.ok entries) :
    entries.map DirEntry.name = l.map EntryRow.name := by
  induction l generalizing entries with
  | nil =>
    obtain rfl := Except.ok.inj h
    rfl
  | cons e l ih =>
    rw [List.mapM_cons] at h
    obtain ⟨de, hde, h⟩ := bind_eq_ok.mp h
    obtain ⟨child, -, hchild⟩ := bind_eq_ok.mp hde
    obtain rfl := Except.ok.inj hchild
    obtain ⟨rest, hrest, h⟩ := bind_eq_ok.mp h
    obtain rfl := Except.ok.inj h
    rw [List.map_cons, List.map_cons, ih hrest]

lemma parentOfPath_joinPath {init : List Str} {m : Str} (hm : '/' ∉ m) (hne : m ≠ []) :
    Adapter.parentOfPath (joinPath (init ++ [m])) = some (joinPath init) := by
  rw [joinPath_concat]
  split_ifs with hinit
  · rw [hinit, Adapter.parentOfPath, if_neg]
    · have hroot := dropWhile_reverse [] hm
      rw [List.nil_append] at hroot
      rw [hroot]
      rfl
    · exact fun heq => hne (List.cons.inj heq).2
  · rw [Adapter.parentOfPath, if_neg]
    · rw [dropWhile_reverse _ hm]
      cases hrev : (joinPath init).reverse with
      | nil => exact absurd (List.reverse_eq_nil_iff.mp hrev) (joinPath_ne_nil init)
      | cons c rest => exact congrArg some (by rw [← hrev, List.reverse_reverse])
    · intro heq
      exact List.cons_ne_nil _ _ (List.append_eq_nil_iff.mp (List.cons.inj heq).2).2

/-- What `readdir` of the filesystem returns. -/
lemma readdir_returns (s : Filesystem) (path : Str) : Txn.Prog.RefusesOr (Filesystem.readdir path) s
    fun o => ∃ i row entries, resolveToInode s.conn path = .ok i ∧ Nodes.get s.conn i = .ok row ∧
      row.kind = .dir ∧ entries.map DirEntry.name = names s.conn i ∧ o = ⟨.ok entries, s, []⟩ := by
  apply Txn.Prog.RefusesOr.bind_query
  intro i hi
  apply bind_getNode
  intro row hrow
  apply bind_require
  intro hdir
  apply Txn.Prog.RefusesOr.bind_query
  intro _ _
  apply Txn.Prog.RefusesOr.query
  intro entries hentries
  refine ⟨i, row, entries, hi, hrow, hdir, ?_, rfl⟩
  exact mapM_names hentries

/-- The path that the adapter finds leads to the inode. -/
lemma pathOfInode_leads {β : Type} (h : Reachable s) (ino : ℕ) :
    (∃ l, s.conn.Leads ROOT_INODE l ino ∧
      ∀ f : Option Str → Action β, (pathOfInode ino >>= f) s = f (some (joinPath l)) s) ∨
    ∀ f : Option Str → Action β, (pathOfInode ino >>= f) s = f none s := by
  by_cases hroot : ino = ROOT_INODE
  · refine Or.inl ⟨[], hroot.symm, fun f => ?_⟩
    unfold pathOfInode
    rw [if_pos hroot]
    rfl
  · have htree := (rooted_runsTo h).tree
    obtain ⟨o, ho⟩ := htree.pathForInode_ok ino
    cases o with
    | none => exact Or.inr fun f => pathOfInode_bind hroot ho
    | some path =>
      obtain ⟨l, hl, rfl⟩ := (pathForInode_eq_some htree).mp ho
      exact Or.inl ⟨l, hl.leads, fun f => pathOfInode_bind hroot ho⟩

/-- The directory above `ino`, which is the root itself for the root. -/
def Above (d : Db) (ino parent : ℕ) : Prop :=
  ino = ROOT_INODE ∧ parent = ROOT_INODE ∨ ∃ e ∈ d.entries, e.parent = parent ∧ e.inode = ino

/-- There is always an entry for the directory above. -/
lemma dotDot_run {l : List Str} (h : Reachable s) (req : Request)
    (hl : s.conn.Leads ROOT_INODE l ino) (hlen : (joinPath l).len ≤ PATH_MAX) :
    ∃ parent, Above s.conn ino parent ∧ Adapter.dotDot req ino (joinPath l) s =
      ⟨.ok [(parent, .directory, ['.', '.'])], s, []⟩ := by
  have htree := (rooted_runsTo h).tree
  have hvalid := validName_of_leads (validNames_runsTo h) hl
  unfold Adapter.dotDot
  by_cases hroot : ino = ROOT_INODE
  · rw [if_neg (not_not.mpr hroot)]
    exact ⟨ino, Or.inl ⟨hroot, hroot⟩, rfl⟩
  · rw [if_pos hroot]
    rcases List.eq_nil_or_concat l with rfl | ⟨init, m, rfl⟩
    · exact absurd hl.symm hroot
    · rw [List.concat_eq_append] at hl hlen hvalid ⊢
      obtain ⟨e, he, hinit, rfl, hlast⟩ := Db.Leads.concat_iff.mp hl
      have hname := hvalid e.name (List.mem_append_right _ (List.mem_singleton_self _))
      rw [parentOfPath_joinPath hname.noSlash hname.nonempty]
      obtain ⟨row, hrow, -⟩ := Nodes.get_of_kind (htree.parentDir e he)
      have hparse := parsePath_init (parsePath_joinPath hvalid hlen)
      have hresolve : resolveToInode (req.view s).conn (joinPath init) = .ok e.parent :=
        (resolveToInode_eq_ok htree).mpr ⟨init, hparse, hinit⟩
      have hinode : row.stat.inode = e.parent := (Nodes.info_of_get hrow).choose_spec.2.2.2.2
      refine ⟨row.stat.inode, Or.inr ⟨e, he, hinode.symm, hlast⟩, ?_⟩
      dsimp only
      rw [asUserOf_bind (stat_run hresolve hrow)]
      rfl

/-- The names in the reply. -/
def ReplyDirectory.names (reply : ReplyDirectory) : List Str := reply.entries.map ReplyEntry.name

/-- Where the kernel resumes: behind the last entry that the reply has taken. -/
def ReplyDirectory.resume (reply : ReplyDirectory) (offset : ℕ) : ℕ :=
  (reply.entries.getLast?.map ReplyEntry.offset).getD offset

lemma names_addEntries (full : List (ℕ × FileType × Str)) (offset room : ℕ) :
    (Adapter.addEntries (full.zipIdx.drop offset) ⟨room, []⟩).names =
      ((full.map fun x => x.2.2).drop offset).take room := by
  have hfst : (full.zipIdx.map fun x => x.1.2.2) = full.map fun x => x.2.2 := by
    conv_rhs => rw [← List.zipIdx_map_fst 0 full, List.map_map]
    rfl
  rw [ReplyDirectory.names, addEntries_entries, List.nil_append, List.map_map, ← hfst,
    ← List.map_drop, ← List.map_take]
  rfl

lemma resume_addEntries (full : List (ℕ × FileType × Str)) (offset room : ℕ) :
    (Adapter.addEntries (full.zipIdx.drop offset) ⟨room, []⟩).resume offset =
      offset + (Adapter.addEntries (full.zipIdx.drop offset) ⟨room, []⟩).names.length := by
  rw [names_addEntries, ← List.map_drop, ← List.map_take, List.length_map, ← getLast?_page,
    ReplyDirectory.resume, addEntries_entries, List.nil_append, List.getLast?_map, Option.map_map]
  rfl

/-- A request that is answered gets the list from its offset on, as far as there is room. -/
lemma readdir_page (h : Reachable s)
    (hreply : (Adapter.readdir req ino offset ⟨room, []⟩ s).result = .ok (.ok reply)) :
    reply.names = ((listing s.conn ino).drop offset).take room ∧
      reply.resume offset = offset + reply.names.length ∧
      (Adapter.readdir req ino offset ⟨room, []⟩ s).state = s := by
  have htree := (rooted_runsTo h).tree
  have hnames := validNames_runsTo h
  unfold Adapter.readdir at hreply ⊢
  rcases pathOfInode_leads h ino with ⟨l, hl, hpath⟩ | hpath
  · rw [hpath] at hreply ⊢
    dsimp only at hreply ⊢
    rcases readdir_returns (req.view s) (joinPath l) with
      ⟨e, he⟩ | ⟨i, row, entries, hi, -, -, hentries, hrun⟩
    · cases e with
      | error e =>
        rw [asUserOf_bind_error he] at hreply
        cases hreply
      | panic =>
        rw [asUserOf_bind_halt he fun _ hx => by cases hx] at hreply
        cases hreply
      | diverge =>
        rw [asUserOf_bind_halt he fun _ hx => by cases hx] at hreply
        cases hreply
    · obtain ⟨l', hparse, hl'⟩ := (resolveToInode_eq_ok htree).mp hi
      have hlen := (parsePath_eq_ok.mp hparse).2.1
      rw [parsePath_joinPath (validName_of_leads hnames hl) hlen] at hparse
      obtain rfl := Except.ok.inj hparse
      obtain rfl : ino = i := hl.unique hl'
      obtain ⟨parent, -, hdots⟩ := dotDot_run h req hl hlen
      rw [asUserOf_bind hrun] at hreply ⊢
      dsimp only at hreply ⊢
      rw [Txn.Prog.bind_apply_ok hdots] at hreply ⊢
      obtain rfl := Except.ok.inj (Except.ok.inj hreply)
      refine ⟨?_, resume_addEntries _ _ _, rfl⟩
      rw [names_addEntries, List.map_append, List.map_map]
      have hsame : entries.map (fun de => de.name) = names s.conn ino := hentries
      exact congrArg (fun ns => ((['.'] :: ['.', '.'] :: ns).drop offset).take room) hsame
  · rw [hpath] at hreply
    cases hreply

end Request

/-! ### Listings -/

/-- A request that has been answered: the state it found, the offset it came with, the room in its
buffer and the names that it returned. -/
structure Visit where
  fs : Filesystem
  offset : ℕ
  room : ℕ
  names : List Str

/-- A listing of the directory `ino` during which the name `n` stays in it: the requests so far,
the last one first, the offset at which the kernel resumes, and the state. Between the requests
there may be any calls. -/
inductive Listing (ino : ℕ) (n : Str) : List Visit → ℕ → Filesystem → Prop
  | opened {s : Filesystem} : Reachable s → HasName s.conn ino n → Listing ino n [] 0 s
  | changed {vs : List Visit} {offset : ℕ} {s : Filesystem} (call : Call) :
      Listing ino n vs offset s → HasName (call.exec s).conn ino n →
      Listing ino n vs offset (call.exec s)
  | read {vs : List Visit} {offset : ℕ} {s : Filesystem} (req : Request) (room : ℕ)
      {reply : ReplyDirectory} : Listing ino n vs offset s →
      (Adapter.readdir req ino offset ⟨room, []⟩ s).result = .ok (.ok reply) →
      Listing ino n (⟨s, offset, room, reply.names⟩ :: vs) (reply.resume offset)
        (Adapter.readdir req ino offset ⟨room, []⟩ s).state

/-- The listing is complete: there was room, but no name was left. -/
def Complete (vs : List Visit) : Prop := ∀ v ∈ vs.head?, 0 < v.room ∧ v.names = []

/-- How often the listing has returned the name. -/
def times (n : Str) (vs : List Visit) : ℕ := (vs.map fun v => v.names.count n).sum

/-- The request as the name sees it, which stands behind the two dots and the names before it. -/
def Visit.page (ino : ℕ) (n : Str) (v : Visit) : Page :=
  ⟨rank v.fs.conn ino n + 2, v.offset, v.offset + v.names.length⟩

/-- How often changes have carried the name from the part to come into the part already read. -/
def timesSkipped (ino : ℕ) (n : Str) (vs : List Visit) : ℕ :=
  turns Page.Skips (vs.map (Visit.page ino n))

/-- How often changes have carried the name back into the part to come. -/
def timesRepeated (ino : ℕ) (n : Str) (vs : List Visit) : ℕ :=
  turns Page.Repeats (vs.map (Visit.page ino n))

section Listings
variable {ino offset : ℕ} {n : Str} {vs : List Visit} {s : Filesystem}

/-- What a visit returns is a page of the list that it found, where the name has its place. -/
structure Visit.Sound (ino : ℕ) (n : Str) (v : Visit) : Prop where
  names_eq : v.names = ((listing v.fs.conn ino).drop v.offset).take v.room
  nodup : (listing v.fs.conn ino).Nodup
  pos : (listing v.fs.conn ino).idxOf n = (v.page ino n).pos
  mem : n ∈ listing v.fs.conn ino

lemma Visit.Sound.count_eq {v : Visit} (h : v.Sound ino n) :
    v.names.count n = if (v.page ino n).Returns then 1 else 0 := by
  have hpos := h.pos
  have hlt := List.idxOf_lt_length_of_mem h.mem
  have hlen : v.names.length = min v.room ((listing v.fs.conn ino).length - v.offset) := by
    rw [h.names_eq, List.length_take, List.length_drop]
  have hiff : (v.offset ≤ (listing v.fs.conn ino).idxOf n ∧
      (listing v.fs.conn ino).idxOf n < v.offset + v.room) ↔ (v.page ino n).Returns := by
    unfold Page.Returns
    rw [← hpos]
    unfold Visit.page
    dsimp only
    omega
  rw [h.names_eq, count_page h.nodup h.mem]
  exact if_congr hiff rfl rfl

/-- What a listing keeps. -/
structure Kept (ino : ℕ) (n : Str) (vs : List Visit) (offset : ℕ) (s : Filesystem) : Prop where
  reachable : Reachable s
  hasName : HasName s.conn ino n
  sound : ∀ v ∈ vs, v.Sound ino n
  resumes : offset = (vs.head?.map fun v => v.offset + v.names.length).getD 0
  pages : vs = [] ∨ Pages (vs.map (Visit.page ino n))
  counts : times n vs = returns (vs.map (Visit.page ino n))

lemma Listing.kept (h : Listing ino n vs offset s) : Kept ino n vs offset s := by
  induction h with
  | opened hs hn => exact ⟨hs, hn, fun v hv => absurd hv List.not_mem_nil, rfl, Or.inl rfl, rfl⟩
  | changed call _ hn ih => exact { ih with reachable := .next ih.reachable trivial, hasName := hn }
  | @read vs offset s req room reply _ hreply ih =>
    obtain ⟨hnames, hresume, hstate⟩ := readdir_page ih.reachable hreply
    have hvalid := validNames_runsTo ih.reachable
    have hsound : (⟨s, offset, room, reply.names⟩ : Visit).Sound ino n :=
      ⟨hnames, listing_nodup hvalid ino, idxOf_listing hvalid ih.hasName,
        List.mem_cons_of_mem _ (List.mem_cons_of_mem _ (mem_names.mpr ih.hasName))⟩
    rw [hstate]
    refine ⟨ih.reachable, ih.hasName, List.forall_mem_cons.mpr ⟨hsound, ih.sound⟩, hresume,
      Or.inr ?_, ?_⟩
    · have hresumes := ih.resumes
      rcases ih.pages with rfl | hpages
      · exact .first hresumes (Nat.le_add_right _ _)
      · cases vs with
        | nil => exact .first hresumes (Nat.le_add_right _ _)
        | cons v vs => exact .next hpages hresumes (Nat.le_add_right _ _)
    · have hcounts := ih.counts
      unfold times at hcounts ⊢
      rw [List.map_cons, List.sum_cons, hcounts, hsound.count_eq, List.map_cons, returns,
        Nat.add_comm]

/-- At the end of a listing, the reader has passed every name. -/
lemma Kept.passed {v : Visit} (h : Kept ino n (v :: vs) offset s) (hend : Complete (v :: vs)) :
    (v.page ino n).pos < (v.page ino n).stop := by
  obtain ⟨hroom, hempty⟩ := hend v rfl
  have hsound := h.sound v List.mem_cons_self
  have hlen : v.names.length = min v.room ((listing v.fs.conn ino).length - v.offset) := by
    rw [hsound.names_eq, List.length_take, List.length_drop]
  have hlt := List.idxOf_lt_length_of_mem hsound.mem
  rw [hempty, List.length_nil] at hlen
  rw [← hsound.pos]
  unfold Visit.page
  dsimp only
  omega

/-- A complete listing returns a name that has stayed exactly once, if and only if the changes have
carried the name over the resume position as often in one direction as in the other. -/
theorem listed_once_iff (h : Listing ino n vs offset s) (hne : vs ≠ []) (hend : Complete vs) :
    times n vs = 1 ↔ timesSkipped ino n vs = timesRepeated ino n vs := by
  have hkept := h.kept
  cases vs with
  | nil => exact absurd rfl hne
  | cons v vs =>
    rw [hkept.counts]
    exact (hkept.pages.resolve_left (List.cons_ne_nil v vs)).returns_eq_one_iff
      (hkept.passed hend)

end Listings

/-! ### A listing from which a name is missing -/

/-- Two files. -/
def twoFiles : Filesystem :=
  newFsAfter [.create ['/', 'a'] Libc.O_RDWR 0o644, .create ['/', 'b'] Libc.O_RDWR 0o644]

/-- The first file is gone. -/
def secondFile : Filesystem := (Call.byRoot (.unlink ['/', 'a'])).exec twoFiles

/-- The first request ends with the first file, which is then removed; the second one takes up
behind the place to which the other file has moved. -/
def shortListing : List Visit :=
  [⟨secondFile, 3, 3, []⟩, ⟨twoFiles, 0, 3, [['.'], ['.', '.'], ['a']]⟩]

lemma listing_shortListing : Listing ROOT_INODE ['b'] shortListing 3 secondFile := by
  have hstart : Listing ROOT_INODE ['b'] [] 0 twoFiles :=
    .opened (reachable_newFsAfter _) (by unfold HasName; decide +kernel)
  have hfirst : (Adapter.readdir ⟨0, 0⟩ ROOT_INODE 0 ⟨3, []⟩ twoFiles).result = .ok (.ok
      ⟨0, [⟨1, 1, .directory, ['.']⟩, ⟨1, 2, .directory, ['.', '.']⟩,
        ⟨2, 3, .regularFile, ['a']⟩]⟩) := by
    decide +kernel
  have hstate : (Adapter.readdir ⟨0, 0⟩ ROOT_INODE 0 ⟨3, []⟩ twoFiles).state = twoFiles := by
    decide +kernel
  have hread : Listing ROOT_INODE ['b'] [⟨twoFiles, 0, 3, [['.'], ['.', '.'], ['a']]⟩] 3
      twoFiles := by
    have h := hstart.read ⟨0, 0⟩ 3 hfirst
    rw [hstate] at h
    exact h
  have hremoved : Listing ROOT_INODE ['b'] [⟨twoFiles, 0, 3, [['.'], ['.', '.'], ['a']]⟩] 3
      secondFile := hread.changed _ (by unfold HasName; decide +kernel)
  have hsecond : (Adapter.readdir ⟨0, 0⟩ ROOT_INODE 3 ⟨3, []⟩ secondFile).result =
      .ok (.ok ⟨3, []⟩) := by
    decide +kernel
  have hstate' : (Adapter.readdir ⟨0, 0⟩ ROOT_INODE 3 ⟨3, []⟩ secondFile).state = secondFile := by
    decide +kernel
  have h := hremoved.read ⟨0, 0⟩ 3 hsecond
  rw [hstate'] at h
  exact h

lemma complete_shortListing : Complete shortListing := by
  rintro v hv
  obtain rfl := Option.some.inj hv
  exact ⟨by decide, rfl⟩

theorem listed_once_iff_shortListing : times ['b'] shortListing = 1 ↔
    timesSkipped ROOT_INODE ['b'] shortListing = timesRepeated ROOT_INODE ['b'] shortListing :=
  listed_once_iff listing_shortListing (List.cons_ne_nil _ _) complete_shortListing

/-- The second file is there all the time, but is not listed. -/
theorem not_listed_once_shortListing :
    ¬ ∀ (ino : ℕ) (n : Str) (vs : List Visit) (offset : ℕ) (s : Filesystem),
      Listing ino n vs offset s → vs ≠ [] → Complete vs → times n vs = 1 := by
  intro h
  have hone := h _ _ _ _ _ listing_shortListing (List.cons_ne_nil _ _) complete_shortListing
  exact absurd hone (by decide)

end Fuse

end SqliteFs

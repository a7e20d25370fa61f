import SqliteFs.Filesystem.Names
import SqliteFs.Filesystem.OpenFiles
import SqliteFs.Filesystem.Rows

/-!
# Leaked nodes

A node that has lost its last name and its last descriptor should be gone, with all that belongs to
it. Three steps can leave one behind: a rename that replaces a directory, whose link count does not
fall to zero, closing the last descriptor of such a directory, and closing the filesystem while a
nameless node is open. No other step does.
-/

namespace SqliteFs

open Txn

/-- The node `i` is the root, or has a name, or is open. -/
def Core.Held (c : Core) (i : ℕ) : Prop :=
  i = ROOT_INODE ∨ (∃ e ∈ c.conn.entries, e.inode = i) ∨ ∃ f ∈ c.fdtable.entries, f.inode = i

/-- The step collects what it takes the last name or the last descriptor from. -/
def Label.Collects (c : Core) : Label → Prop
  | .replaces _ t => c.conn.kind t.inode = some .dir → c.fdtable.openCount t.inode ≠ 0 ∨
      ∃ n, c.conn.info t.inode = some n ∧ U32.ofI64 (n.nlink + -1) = 0
  | .closes fd => ∀ f ∈ c.fdtable.entries, f.fd = fd → c.conn.kind f.inode = some .dir →
      (∃ e ∈ c.conn.entries, e.inode = f.inode) ∨
      (∃ g ∈ c.fdtable.entries, g.fd ≠ fd ∧ g.inode = f.inode) ∨
      ∃ n, c.conn.info f.inode = some n ∧ U32.ofI64 n.nlink = 0
  | .reopens => ∀ f ∈ c.fdtable.entries, c.conn.hasNode f.inode = true →
      ∃ e ∈ c.conn.entries, e.inode = f.inode
  | _ => True

/-- What a run keeps so that nothing leaks. -/
structure Core.NoLeaks (c : Core) : Prop where
  counted : c.Counted (· ≠ .dir)
  below : ∀ f ∈ c.fdtable.entries, f.fd < c.fdtable.nextFd
  connReadonly : c.connReadonly = true → ∀ f ∈ c.fdtable.entries, ∃ e ∈ c.conn.entries, e.inode = f.inode
  held : ∀ i, c.conn.hasNode i = true → c.Held i

section Effect
variable {c c' : Core} {l : Label}

lemma Effect.below (h : ∀ f ∈ c.fdtable.entries, f.fd < c.fdtable.nextFd) (he : Effect c l c') :
    ∀ f ∈ c'.fdtable.entries, f.fd < c'.fdtable.nextFd := by
  have hopened : ∀ {i : ℕ} {flags : Flags} {uid gid : UInt32},
      ∀ f ∈ (c.fdtable.open_ i flags uid gid).2.entries, f.fd < c.fdtable.nextFd + 1 := by
    intro i flags uid gid f hf
    rcases FdTable.mem_open.mp hf with rfl | ⟨hf, -⟩
    · exact Nat.lt_succ_self _
    · exact Nat.lt_succ_of_lt (h f hf)
  cases he with
  | opens => exact hopened
  | truncates => exact hopened
  | creates => exact hopened
  | closes =>
    intro f hf
    have hlt := h f (FdTable.mem_close.mp hf).1
    rwa [← FdTable.nextFd_close] at hlt
  | reopens => exact fun f hf => absurd hf (KeyTable.not_mem_empty f)
  | _ => exact h

/-- On a read-only connection, what is open has a name. -/
lemma Effect.named_of_connReadonly (hrooted : c.Rooted)
    (h : c.connReadonly = true → ∀ f ∈ c.fdtable.entries, ∃ e ∈ c.conn.entries, e.inode = f.inode)
    (he : Effect c l c') :
    c'.connReadonly = true → ∀ f ∈ c'.fdtable.entries, ∃ e ∈ c'.conn.entries, e.inode = f.inode := by
  intro hw
  cases he with
  | quiet hadj =>
    rw [hadj.entries]
    exact h hw
  | writes hrewrites =>
    rw [hrewrites.names.entries]
    exact h hw
  | truncates hrewrites _ hnamed hdir =>
    rw [hrewrites.names.entries]
    intro f hf
    rcases FdTable.mem_open.mp hf with rfl | ⟨hf, -⟩
    · refine hnamed.resolve_left ?_
      rintro rfl
      exact hdir hrooted.tree.rootDir
    · exact h hw f hf
  | opens _ hnamed hdir =>
    intro f hf
    rcases FdTable.mem_open.mp hf with rfl | ⟨hf, -⟩
    · rcases hnamed with rfl | hnamed
      · exact hdir hrooted.tree.rootDir
      · exact hnamed
    · exact h hw f hf
  | attaches ha =>
    intro f hf
    obtain ⟨e, he, hei⟩ := h hw f hf
    exact ⟨e, ha.mem_entries.mpr (Or.inl he), hei⟩
  | creates ha =>
    intro f hf
    rcases FdTable.mem_open.mp hf with rfl | ⟨hf, -⟩
    · exact ⟨_, ha.mem_entries.mpr (Or.inr rfl), rfl⟩
    · obtain ⟨e, he, hei⟩ := h hw f hf
      exact ⟨e, ha.mem_entries.mpr (Or.inl he), hei⟩
  | links hl =>
    intro f hf
    obtain ⟨e, he, hei⟩ := h hw f hf
    exact ⟨e, hl.mem_entries.mpr (Or.inl he), hei⟩
  | closes hfd hc =>
    intro f hf
    obtain ⟨e, he, hei⟩ := h hw f (FdTable.mem_close.mp hf).1
    rcases hc with ⟨-, rfl⟩ | ⟨n, -, hc⟩
    · exact ⟨e, he, hei⟩
    · refine ⟨e, ?_, hei⟩
      rw [hc.entries hrooted.tree (hrooted.rootClosed _ (KeyTable.find?_eq_some.mp hfd).1)]
      exact he
  | reopens => exact fun f hf => absurd hf (KeyTable.not_mem_empty f)
  | removesDir hr => exact absurd (hw.symm.trans hr) (by decide)
  | unlinks hr => exact absurd (hw.symm.trans hr) (by decide)
  | moves hr => exact absurd (hw.symm.trans hr) (by decide)
  | replaces hr => exact absurd (hw.symm.trans hr) (by decide)

lemma Core.Held.mono {i : ℕ} (h : c.Held i)
    (hentries : ∀ e ∈ c.conn.entries, e.inode = i → ∃ e' ∈ c'.conn.entries, e'.inode = i)
    (hfds : ∀ f ∈ c.fdtable.entries, f.inode = i → ∃ f' ∈ c'.fdtable.entries, f'.inode = i) :
    c'.Held i := by
  rcases h with hroot | ⟨e, he, hei⟩ | ⟨f, hf, hfi⟩
  · exact Or.inl hroot
  · exact Or.inr (Or.inl (hentries e he hei))
  · exact Or.inr (Or.inr (hfds f hf hfi))

/-- A node that is no directory and whose link count does not read as zero has a name. -/
lemma exists_name_of_nlink {d : Db} (hexact : d.Off (· ≠ .dir) 0) {i : ℕ} {n : NodeInfo}
    (hn : d.info i = some n) (hk : n.kind ≠ .dir) (hne : U32.ofI64 n.nlink ≠ 0) :
    ∃ e ∈ d.entries, e.inode = i := by
  by_contra hnone
  refine hne ?_
  rw [hexact.nlink_eq_names hn hk, Filesystem.names_eq_zero.mpr fun e he hei => hnone ⟨e, he, hei⟩]
  rfl

/-- What loses one of its names keeps another one, if its link count does not read as zero then. -/
lemma exists_other_name {d d' : Db} {e : EntryRow} (hexact : d.Off (· ≠ .dir) 0) {n : NodeInfo}
    (he : e ∈ d.entries) (hn : d.info e.inode = some n) (hk : n.kind ≠ .dir)
    (hmem : ∀ x, x ∈ d'.entries ↔ x ∈ d.entries ∧ x ≠ e) (hne : U32.ofI64 (n.nlink + -1) ≠ 0) :
    ∃ x ∈ d'.entries, x.inode = e.inode := by
  by_contra hnone
  refine hne ?_
  have hzero : (d.deleteEntry e.parent e.name).names e.inode = 0 := by
    refine Filesystem.names_eq_zero.mpr fun x hx hxi => hnone ⟨x, ?_, hxi⟩
    exact (hmem x).mpr ((Db.mem_deleteEntry he).mp hx)
  rw [hexact.nlink_eq_names hn hk, Filesystem.names_deleteEntry he, hzero]
  rfl

/-- A node stays held if another node loses a name. -/
lemma Core.Held.of_ne {d : Db} {e : EntryRow} {i : ℕ} (h : c.Held i) (hie : i ≠ e.inode)
    (hmem : ∀ x, x ∈ d.entries ↔ x ∈ c.conn.entries ∧ x ≠ e) :
    Core.Held { c with conn := d } i := by
  refine h.mono (fun x hx hxi => ⟨x, (hmem x).mpr ⟨hx, ?_⟩, hxi⟩) fun f hf hfi => ⟨f, hf, hfi⟩
  rintro rfl
  exact hie hxi.symm

/-- A node stays held if a name becomes another one. -/
lemma Core.Held.moves {d d' : Db} {isDir : Prop} [Decidable isDir] {e : EntryRow} {q : ℕ} {m : Str}
    {i : ℕ} (h : Core.Held { c with conn := d } i) (he : e ∈ d.entries)
    (hm : d.Moves d' isDir e q m) : Core.Held { c with conn := d' } i := by
  refine h.mono (fun x hx hxi => ?_) fun f hf hfi => ⟨f, hf, hfi⟩
  by_cases hxe : x = e
  · exact ⟨_, (hm.mem_entries he).mpr (Or.inr rfl), hxe ▸ hxi⟩
  · exact ⟨x, (hm.mem_entries he).mpr (Or.inl ⟨hx, hxe⟩), hxi⟩

section Held
variable {d₁ d : Db} {e t : EntryRow} {i n : ℕ} (h : c.NoLeaks)
include h

lemma Core.NoLeaks.attaches {k : NodeKind} (ha : c.conn.Attaches c'.conn k e)
    (hi : c'.conn.hasNode i = true)
    (hfds : ∀ f ∈ c.fdtable.entries, f.inode = i → ∃ f' ∈ c'.fdtable.entries, f'.inode = i) :
    c'.Held i := by
  rw [Db.hasNode_eq_isSome_kind, ha.kind] at hi
  split_ifs at hi with hie
  · exact Or.inr (Or.inl ⟨e, ha.mem_entries.mpr (Or.inr rfl), hie.symm⟩)
  · rw [← Db.hasNode_eq_isSome_kind] at hi
    exact (h.held i hi).mono (fun x hx hxi => ⟨x, ha.mem_entries.mpr (Or.inl hx), hxi⟩) hfds

lemma Core.NoLeaks.unlinks (hw : c.connReadonly = false) (hd : c.conn.Drops d₁ e n)
    (hc : d₁.Collects c.connReadonly c.fdtable n e.inode d) (hi : d.hasNode i = true) :
    Core.Held { c with conn := d } i := by
  have htree := h.counted.rooted.tree
  have hentries : d.entries = d₁.entries :=
    hc.entries (htree.drops hd) (htree.rootUnnamed e hd.1)
  by_cases hie : i = e.inode
  · subst hie
    rcases hc.kept_of_hasNode hi with hn | hopen | hro | ⟨x, hx, hxi⟩
    · obtain ⟨he, ⟨k, hk, hkdir⟩, -, m, hm, rfl⟩ := id hd
      have hmdir : m.kind ≠ .dir := by
        rw [Db.kind_of_info hm] at hk
        exact Option.some.inj hk ▸ hkdir
      obtain ⟨x, hx, hxi⟩ :=
        exists_other_name h.counted.exact he hm hmdir (fun _ => hd.mem_entries) hn
      exact Or.inr (Or.inl ⟨x, hentries ▸ hx, hxi⟩)
    · exact Or.inr (Or.inr (FdTable.exists_of_openCount hopen))
    · exact absurd (hro.symm.trans hw) (by decide)
    · exact Or.inr (Or.inl ⟨x, hentries ▸ hx, hxi⟩)
  · rw [Db.hasNode_congr (hc.kind_of_ne hie), Db.hasNode_congr (hd.kind i)] at hi
    refine (h.held i hi).of_ne hie fun x => ?_
    rw [hentries, hd.mem_entries]

lemma Core.NoLeaks.closes {fd : ℕ} {f : FdEntry} (hl : Label.Collects c (.closes fd))
    (hfd : c.fdtable.entries.find? fd = some f)
    (hc : c.conn.hasNode f.inode = false ∧ d = c.conn ∨ ∃ m, c.conn.info f.inode = some m ∧
      c.conn.Collects c.connReadonly (c.fdtable.close fd).2 (U32.ofI64 m.nlink) f.inode d)
    (hi : d.hasNode i = true) :
    Core.Held { c with conn := d, fdtable := (c.fdtable.close fd).2 } i := by
  obtain ⟨hf, hffd⟩ := KeyTable.find?_eq_some.mp hfd
  -- the other descriptors stay open
  have hothers : i ≠ f.inode → ∀ g ∈ c.fdtable.entries, g.inode = i →
      ∃ g' ∈ (c.fdtable.close fd).2.entries, g'.inode = i := by
    intro hif g hg hgi
    refine ⟨g, FdTable.mem_close.mpr ⟨hg, fun hgfd => hif ?_⟩, hgi⟩
    rw [← hgi, KeyTable.eq_of_key hg hf (hgfd.trans hffd.symm)]
  rcases hc with ⟨hnone, rfl⟩ | ⟨n, hn, hc⟩
  · refine (h.held i hi).mono (fun x hx hxi => ⟨x, hx, hxi⟩) (hothers ?_)
    rintro rfl
    rw [hnone] at hi
    cases hi
  have hentries : d.entries = c.conn.entries :=
    hc.entries h.counted.rooted.tree (h.counted.rooted.rootClosed f hf)
  by_cases hif : i = f.inode
  · subst hif
    have hname : (∃ x ∈ c.conn.entries, x.inode = f.inode) →
        Core.Held { c with conn := d, fdtable := (c.fdtable.close fd).2 } f.inode := by
      rintro ⟨x, hx, hxi⟩
      exact Or.inr (Or.inl ⟨x, hentries ▸ hx, hxi⟩)
    rcases hc.kept_of_hasNode hi with hne | hopen | hro | hnamed
    · by_cases hdir : n.kind = .dir
      · have hkind : c.conn.kind f.inode = some .dir := by
          rw [Db.kind_of_info hn, hdir]
        rcases hl f hf hffd hkind with hnamed | ⟨g, hg, hgfd, hgi⟩ | ⟨m, hm, hzero⟩
        · exact hname hnamed
        · exact Or.inr (Or.inr ⟨g, FdTable.mem_close.mpr ⟨hg, hgfd⟩, hgi⟩)
        · obtain rfl : n = m := Option.some.inj (hn.symm.trans hm)
          exact absurd hzero hne
      · exact hname (exists_name_of_nlink h.counted.exact hn hdir hne)
    · exact Or.inr (Or.inr (FdTable.exists_of_openCount hopen))
    · exact hname (h.connReadonly hro f hf)
    · exact hname hnamed
  · rw [Db.hasNode_congr (hc.kind_of_ne hif)] at hi
    exact (h.held i hi).mono (fun x hx hxi => ⟨x, hentries ▸ hx, hxi⟩) (hothers hif)

lemma Core.NoLeaks.replaces (hl : Label.Collects c (.replaces e t))
    (hmay : c.conn.MayMove e t.parent) (hne : t.inode ≠ e.inode)
    (hv : c.conn.Evicts d₁ (c.conn.kind e.inode = some .dir) e.parent t)
    (hm : d₁.Moves d (c.conn.kind e.inode = some .dir) e t.parent t.name)
    (hi : d.hasNode i = true) : Core.Held { c with conn := d } i := by
  have htree := h.counted.rooted.tree
  obtain ⟨he, -, -⟩ := hv.mayMove htree hmay hne
  rw [Db.hasNode_congr (hm.kind he i)] at hi
  refine Core.Held.moves (d := d₁) ?_ he hm
  by_cases hit : i = t.inode
  · subst hit
    obtain ⟨n, hn, hnlink⟩ := hv.nlink_of_hasNode hi
    by_cases hdir : n.kind = .dir
    · have hkind : c.conn.kind t.inode = some .dir := by rw [Db.kind_of_info hn, hdir]
      rcases hl hkind with hopen | ⟨m, hm, hzero⟩
      · exact Or.inr (Or.inr (FdTable.exists_of_openCount hopen))
      · obtain rfl : n = m := Option.some.inj (hn.symm.trans hm)
        exact absurd hzero hnlink
    · exact Or.inr (Or.inl
        (exists_other_name h.counted.exact hv.1 hn hdir (fun _ => hv.mem_entries htree) hnlink))
  · rw [Db.hasNode_congr (hv.kind_eq hit)] at hi
    exact (h.held i hi).of_ne hit fun x => hv.mem_entries htree

end Held

/-- Every step that collects what it may keeps every node held. -/
lemma Effect.held (h : c.NoLeaks) (hl : l.Collects c) (he : Effect c l c') :
    ∀ i, c'.conn.hasNode i = true → c'.Held i := by
  have hopened : ∀ {j : ℕ} {flags : Flags} {uid gid : UInt32} {i : ℕ}, ∀ f ∈ c.fdtable.entries,
      f.inode = i → ∃ f' ∈ (c.fdtable.open_ j flags uid gid).2.entries, f'.inode = i :=
    fun f hf hfi => ⟨f, FdTable.mem_open.mpr (Or.inr ⟨hf, (h.below f hf).ne⟩), hfi⟩
  intro i hi
  cases he with
  | quiet hadj =>
    rw [hadj.hasNode] at hi
    refine (h.held i hi).mono (fun e he hei => ⟨e, ?_, hei⟩) fun f hf hfi => ⟨f, hf, hfi⟩
    rw [hadj.entries]
    exact he
  | writes hrewrites =>
    rw [Db.hasNode_congr (hrewrites.names.kind i)] at hi
    refine (h.held i hi).mono (fun e he hei => ⟨e, ?_, hei⟩) fun f hf hfi => ⟨f, hf, hfi⟩
    rw [hrewrites.names.entries]
    exact he
  | truncates hrewrites =>
    rw [Db.hasNode_congr (hrewrites.names.kind i)] at hi
    refine (h.held i hi).mono (fun e he hei => ⟨e, ?_, hei⟩) hopened
    rw [hrewrites.names.entries]
    exact he
  | opens => exact (h.held i hi).mono (fun e he hei => ⟨e, he, hei⟩) hopened
  | attaches ha => exact h.attaches ha hi fun f hf hfi => ⟨f, hf, hfi⟩
  | creates ha => exact h.attaches ha hi hopened
  | links hlinks =>
    rw [Db.hasNode_congr (hlinks.kind i)] at hi
    exact (h.held i hi).mono (fun e he hei => ⟨e, hlinks.mem_entries.mpr (Or.inl he), hei⟩)
      fun f hf hfi => ⟨f, hf, hfi⟩
  | removesDir _ hr =>
    rw [Db.hasNode_eq_isSome_kind, hr.kind] at hi
    split_ifs at hi with hie
    · cases hi
    · rw [← Db.hasNode_eq_isSome_kind] at hi
      exact (h.held i hi).of_ne hie fun x => hr.mem_entries
  | unlinks hw hd hc => exact h.unlinks hw hd hc hi
  | closes hfd hc => exact h.closes hl hfd hc hi
  | moves _ hmay hm =>
    rw [Db.hasNode_congr (hm.kind hmay.1 i)] at hi
    exact (h.held i hi).moves hmay.1 hm
  | replaces _ hmay hne hv hm => exact h.replaces hl hmay hne hv hm hi
  | reopens =>
    rcases h.held i hi with hroot | hnamed | ⟨f, hf, rfl⟩
    · exact Or.inl hroot
    · exact Or.inr (Or.inl hnamed)
    · exact Or.inr (Or.inl (hl f hf hi))

lemma Core.NoLeaks.effect (h : c.NoLeaks) (hl : l.Collects c) (he : Effect c l c') : c'.NoLeaks :=
  ⟨h.counted.effect (fun hdir => absurd rfl hdir) he, he.below h.below,
    he.named_of_connReadonly h.counted.rooted h.connReadonly, he.held h hl⟩

end Effect

namespace Filesystem

/-- Every node is the root, or has a name, or is open, and everything that belongs to a node
belongs to one that exists. -/
structure NothingLeaks (s : Filesystem) : Prop where
  held : ∀ i, s.conn.hasNode i = true →
    i = ROOT_INODE ∨ (∃ e ∈ s.conn.entries, e.inode = i) ∨ ∃ f ∈ s.fdtable.entries, f.inode = i
  owned : s.conn.Owned

/-- What the call takes the last name or the last descriptor from, it collects. -/
def CollectsAll (s : Filesystem) (call : Call) : Prop := ∀ l, call.Asks s l → l.Collects s.core

lemma noLeaks_fresh {s : Filesystem} (h : Fresh s) : s.core.NoLeaks := by
  have hreach : Reachable s := .start h
  have hcounted : s.core.Counted (· ≠ .dir) := files_counted hreach
  obtain ⟨chunkSize, ownerUid, ownerGid, now, readonly, uid, gid, rfl⟩ := h
  refine ⟨hcounted, fun f hf => absurd hf (KeyTable.not_mem_empty f),
    fun _ f hf => absurd hf (KeyTable.not_mem_empty f), fun i hi => Or.inl ?_⟩
  obtain ⟨r, hr, rfl⟩ := KeyTable.find?_isSome.mp hi
  rcases KeyTable.mem_put.mp hr with rfl | ⟨hr, -⟩
  · rfl
  · exact absurd hr (KeyTable.not_mem_empty r)

/-- Along every run whose steps collect what they take the last reference from, nothing leaks. -/
theorem nothing_leaks {s : Filesystem} (h : RunsTo CollectsAll s) : NothingLeaks s := by
  have hleaks : s.core.NoLeaks :=
    runsTo_core (fun _ => noLeaks_fresh) (fun _ _ l _ hok hl hs he => hs.effect (hok l hl) he) h
  exact ⟨hleaks.held, owned_runsTo h⟩

/-- A file that was unlinked while it was open, and closed after that. -/
def closedAfterUnlink : Filesystem :=
  newFsAfter [.create ['/', 'a'] Libc.O_RDWR 0o644, .unlink ['/', 'a'], .closeFd 1]

theorem nothing_leaks_closedAfterUnlink : NothingLeaks closedAfterUnlink := by
  have hunlinked : RunsTo CollectsAll
      (newFsAfter [.create ['/', 'a'] Libc.O_RDWR 0o644, .unlink ['/', 'a']]) := by
    have hcreate : RunsTo CollectsAll
        ((Call.byRoot (.create ['/', 'a'] Libc.O_RDWR 0o644)).exec newFs) :=
      .next (.start fresh_newFs) fun l hl => by cases l <;> trivial
    refine .next (i := Call.byRoot (.unlink ['/', 'a'])) hcreate fun l hl => ?_
    cases l <;> trivial
  refine nothing_leaks (.next (i := Call.byRoot (.closeFd 1)) hunlinked fun l hl => ?_)
  cases l with
  | closes fd =>
    intro f hf _ hdir
    have hfile : (newFsAfter [.create ['/', 'a'] Libc.O_RDWR 0o644, .unlink ['/', 'a']]).conn.kind 2
        = some .file := by decide +kernel
    have hopen : ∀ f ∈ (newFsAfter [.create ['/', 'a'] Libc.O_RDWR 0o644,
        .unlink ['/', 'a']]).fdtable.entries.rows, f.inode = 2 := by decide +kernel
    rw [hopen f hf] at hdir
    exact absurd (hfile.symm.trans hdir) (by decide)
  | _ => trivial

/-- The directory `/b` is gone, and its node is not. -/
theorem not_nothing_leaks_overDir : Reachable overDir ∧ ¬ NothingLeaks overDir := by
  refine ⟨reachable_newFsAfter _, fun h => ?_⟩
  have hnode : overDir.conn.hasNode 3 = true := by decide +kernel
  have hentries : ∀ e ∈ overDir.conn.entries.rows, e.inode ≠ 3 := by decide +kernel
  have hfds : ∀ f ∈ overDir.fdtable.entries.rows, f.inode ≠ 3 := by decide +kernel
  rcases h.held 3 hnode with hroot | ⟨e, he, hei⟩ | ⟨f, hf, hfi⟩
  · exact absurd hroot (by decide)
  · exact hentries e he hei
  · exact hfds f hf hfi

end Filesystem

end SqliteFs

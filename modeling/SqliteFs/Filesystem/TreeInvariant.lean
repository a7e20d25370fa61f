import SqliteFs.Filesystem.Tree

/-!
# The directory tree in every reachable state

Every effect keeps the tree, and no descriptor is ever opened on the root. So all that any calls
lead to is a tree, in which the loops that climb it end.
-/

namespace SqliteFs

open Relation ParentForest

namespace Db

section Ops
variable {d d' : Db} {e t : EntryRow} {i j q : ℕ} {m : Str} {k : NodeKind}

lemma Tree.attaches (h : d.Tree) (ha : d.Attaches d' k e) : d'.Tree := by
  obtain ⟨⟨hnamed, hdir⟩, d₁, d₂, hadd, hins, hadj⟩ := ha
  have hchild : ∀ x ∈ d₁.entries, x.inode ≠ e.inode :=
    fun x hx => h.shaped.child_ne hadd (hadd.entries ▸ hx)
  have hself : e.parent ≠ e.inode := hadd.ne_of_kind hdir
  have hplaced : d₁.Placed e.parent := by
    refine ⟨?_, ?_⟩
    · unfold Named
      rw [hadd.entries]
      exact hnamed
    · rw [hadd.kind, if_neg hself]
      exact hdir
  refine Tree.adjust ((h.addsNode hadd).insertEntry hins hplaced ?_ ?_ hself fun _ => hchild) hadj
  · exact (hadd.ne_of_kind h.rootDir).symm
  · exact fun x hx => hadd.ne_of_kind (h.parentDir x (hadd.entries ▸ hx))

lemma Tree.links (h : d.Tree) (hl : d.Links d' e) : d'.Tree := by
  obtain ⟨hplaced, hnamed, ⟨k, hk, hkdir⟩, d₁, hins, hadj⟩ := hl
  have hnotDir : d.kind e.inode ≠ some .dir := by
    rw [hk]
    exact fun heq => hkdir (Option.some.inj heq)
  refine Tree.adjust (h.insertEntry hins hplaced ?_ ?_ ?_ fun hdir => absurd hdir hnotDir) hadj
  · intro hroot
    rw [hroot] at hnotDir
    exact hnotDir h.rootDir
  · exact fun x hx => h.parent_ne_of_notDir hnotDir hx
  · intro hself
    rw [← hself] at hnotDir
    exact hnotDir hplaced.2

lemma Tree.removesDir (h : d.Tree) (hr : d.RemovesDir d' e) : d'.Tree := by
  obtain ⟨he, -, hempty, d₁, hadj, hrem⟩ := hr
  exact (Tree.adjust (h.deleteEntry he hempty) hadj).removesNode (h.rootUnnamed e he) hrem

lemma Tree.drops {n : ℕ} (h : d.Tree) (hd : d.Drops d' e n) : d'.Tree :=
  Tree.adjust (h.deleteEntry hd.1 (h.shaped.drops_leaf hd)) hd.2.2.1

lemma Tree.collects {connReadonly : Bool} {tab : FdTable} {n : ℕ} (h : d.Tree) (hi : i ≠ ROOT_INODE)
    (hc : d.Collects connReadonly tab n i d') : d'.Tree := by
  cases hc with
  | removed _ _ _ hrem => exact h.removesNode hi hrem
  | kept _ => exact h

lemma Tree.moves {isDir : Prop} [Decidable isDir] (h : d.Tree) (he : e ∈ d.entries)
    (hq : d.Placed q) (hclear : d.kind e.inode = some .dir → q ≠ e.inode ∧ ¬ TransGen d.Up q e.inode)
    (hm : d.Moves d' isDir e q m) : d'.Tree := by
  obtain ⟨d₁, hmove, hadj⟩ := hm
  exact Tree.adjust (h.moveEntry he hmove hq hclear) hadj

section Evicts
variable {isDir : Prop} [Decidable isDir] {p : ℕ}

lemma Evicts.leaf (h : d.Shaped) (hv : d.Evicts d' isDir p t) :
    ∀ x ∈ d.entries, x.parent ≠ t.inode := by
  obtain ⟨-, hkind, hempty, -⟩ := hv
  by_cases hdir : isDir
  · exact hempty hdir
  · exact fun x hx => h.parent_ne_of_notDir (mt hkind.mp hdir) hx

lemma Tree.evicts (h : d.Tree) (hv : d.Evicts d' isDir p t) : d'.Tree := by
  have hleaf := hv.leaf h.shaped
  obtain ⟨ht, -, -, n, d₁, -, hadj, hlast⟩ := hv
  have h₁ : d₁.Tree := Tree.adjust (h.deleteEntry ht hleaf) hadj
  split_ifs at hlast
  · exact h₁.removesNode (h.rootUnnamed t ht) hlast
  · exact hlast ▸ h₁

/-- Eviction takes the entry `t` away and no other. -/
lemma Evicts.entries (h : d.Tree) (hv : d.Evicts d' isDir p t) :
    d'.entries = (d.deleteEntry t.parent t.name).entries := by
  have hleaf := hv.leaf h.shaped
  obtain ⟨ht, -, -, n, d₁, -, hadj, hlast⟩ := hv
  have h₁ : d₁.Tree := Tree.adjust (h.deleteEntry ht hleaf) hadj
  rw [← hadj.entries]
  split_ifs at hlast
  · exact h₁.entries_of_removesNode (h.rootUnnamed t ht) hlast
  · rw [hlast]

lemma Evicts.mem_entries (h : d.Tree) (hv : d.Evicts d' isDir p t) {x : EntryRow} :
    x ∈ d'.entries ↔ x ∈ d.entries ∧ x ≠ t := by
  rw [hv.entries h, mem_deleteEntry hv.1]

lemma Evicts.kind_eq (hv : d.Evicts d' isDir p t) (hj : j ≠ t.inode) : d'.kind j = d.kind j := by
  obtain ⟨-, -, -, n, d₁, -, hadj, hlast⟩ := hv
  have h₁ : d₁.kind j = d.kind j := hadj.kind j
  split_ifs at hlast
  · rw [hlast.kind, if_neg hj, h₁]
  · rw [hlast, h₁]

/-- After the eviction the move is still a proper one. -/
lemma Evicts.mayMove (h : d.Tree) (hv : d.Evicts d' isDir p t) (hmay : d.MayMove e t.parent)
    (hne : t.inode ≠ e.inode) : e ∈ d'.entries ∧ d'.Placed t.parent ∧
      (d'.kind e.inode = some .dir → t.parent ≠ e.inode ∧ ¬ TransGen d'.Up t.parent e.inode) := by
  have hmem : ∀ {x}, x ∈ d'.entries ↔ x ∈ d.entries ∧ x ≠ t := hv.mem_entries h
  have hself : t.parent ≠ t.inode := (h.inode_ne_parent hv.1).symm
  refine ⟨hmem.mpr ⟨hmay.1, ?_⟩, ⟨?_, ?_⟩, fun hk => ?_⟩
  · rintro rfl
    exact hne rfl
  · rcases hmay.2.2.1.1 with hroot | ⟨x, hx, hxi⟩
    · exact Or.inl hroot
    · refine Or.inr ⟨x, hmem.mpr ⟨hx, ?_⟩, hxi⟩
      rintro rfl
      exact hself hxi.symm
  · rw [hv.kind_eq hself]
    exact hmay.2.2.1.2
  · rw [hv.kind_eq hne.symm] at hk
    obtain ⟨hq, hclear⟩ := h.clear_of_mayMove hmay hk
    have hup : ∀ a b, d'.Up a b → d.Up a b := by
      rintro a b ⟨x, hx, hxa, hxb⟩
      exact ⟨x, (hmem.mp hx).1, hxa, hxb⟩
    exact ⟨hq, fun habove => hclear (TransGen.mono hup _ _ habove)⟩

end Evicts

end Ops

end Db

/-! ### Every effect -/

/-- The tree, and no descriptor on the root. -/
structure Core.Rooted (c : Core) : Prop where
  tree : c.conn.Tree
  rootClosed : ∀ f ∈ c.fdtable.entries, f.inode ≠ ROOT_INODE

lemma Core.Rooted.effect {c c' : Core} {l : Label} (h : c.Rooted) (he : Effect c l c') :
    c'.Rooted := by
  obtain ⟨htree, hroot⟩ := h
  cases he with
  | quiet hadj => exact ⟨htree.adjust hadj, hroot⟩
  | writes hsame => exact ⟨htree.sameNames hsame.names, hroot⟩
  | truncates hsame _ _ hdir =>
    refine ⟨htree.sameNames hsame.names, fun f hf => ?_⟩
    rcases FdTable.mem_open.mp hf with rfl | ⟨hf, -⟩
    · rintro rfl
      exact hdir htree.rootDir
    · exact hroot f hf
  | opens hnode hnamed hdir =>
    refine ⟨htree, fun f hf => ?_⟩
    rcases FdTable.mem_open.mp hf with rfl | ⟨hf, -⟩
    · rintro rfl
      obtain ⟨x, hx, hxi⟩ := hdir htree.rootDir
      exact htree.rootUnnamed x hx hxi
    · exact hroot f hf
  | attaches ha => exact ⟨htree.attaches ha, hroot⟩
  | creates ha =>
    refine ⟨htree.attaches ha, fun f hf => ?_⟩
    rcases FdTable.mem_open.mp hf with rfl | ⟨hf, -⟩
    · obtain ⟨-, d₁, d₂, hadd, -⟩ := ha
      exact (hadd.ne_of_kind htree.rootDir).symm
    · exact hroot f hf
  | links hl => exact ⟨htree.links hl, hroot⟩
  | removesDir _ hr => exact ⟨htree.removesDir hr, hroot⟩
  | unlinks _ hd hc => exact ⟨(htree.drops hd).collects (htree.rootUnnamed _ hd.1) hc, hroot⟩
  | closes hf hc =>
    refine ⟨?_, fun f hf => hroot f (FdTable.mem_close.mp hf).1⟩
    rcases hc with ⟨-, rfl⟩ | ⟨n, -, hc⟩
    · exact htree
    · exact htree.collects (hroot _ (KeyTable.find?_eq_some.mp hf).1) hc
  | moves _ hmay hm =>
    exact ⟨htree.moves hmay.1 hmay.2.2.1 (htree.clear_of_mayMove hmay) hm, hroot⟩
  | replaces _ hmay hne hv hm =>
    obtain ⟨he, hq, hclear⟩ := hv.mayMove htree hmay hne
    exact ⟨(htree.evicts hv).moves he hq hclear hm, hroot⟩
  | reopens => exact ⟨htree, fun f hf => absurd hf (KeyTable.not_mem_empty f)⟩

namespace Filesystem

lemma kind_mkfs (chunkSize : ℤ) (uid gid : UInt32) (now : ℤ) :
    (mkfs chunkSize uid gid now).kind ROOT_INODE = some .dir := by
  rfl

lemma rooted_fresh {s : Filesystem} (h : Fresh s) : s.core.Rooted := by
  obtain ⟨chunkSize, ownerUid, ownerGid, now, readonly, uid, gid, rfl⟩ := h
  have hnone : ∀ {e : EntryRow}, e ∉ (mkfs chunkSize ownerUid ownerGid now).entries :=
    fun he => KeyTable.not_mem_empty _ he
  exact ⟨⟨kind_mkfs _ _ _ _, fun e he => absurd he hnone, fun e he => absurd he hnone,
    fun e he => absurd he hnone, fun e he => absurd he hnone, fun e he => absurd he hnone⟩,
    fun f hf => absurd hf (KeyTable.not_mem_empty f)⟩

/-- The tree stands along every run. -/
theorem rooted_runsTo {Ok : Filesystem → Call → Prop} {s : Filesystem} (h : RunsTo Ok s) :
    s.core.Rooted :=
  runsTo_core (fun _ => rooted_fresh) (fun _ _ _ _ _ _ hs he => hs.effect he) h

/-- Whatever the calls, the entries make a tree, no directory is its own ancestor, and the loops
that climb the tree end. -/
theorem reachable_tree {s : Filesystem} (h : Reachable s) :
    s.conn.Tree ∧ (∀ i, ¬ TransGen s.conn.Up i i) ∧
      (∀ i, ∃ l, Entries.ancestry s.conn i = .ok l) ∧
      ∀ i, ∃ p, pathForInode s.conn i = .ok p := by
  have htree : s.conn.Tree := (rooted_runsTo h).tree
  exact ⟨htree, htree.acyclic, htree.ancestry_ok, htree.pathForInode_ok⟩

/-- A directory that moved out of another one, next to a file with two names. -/
def movedDir : Filesystem :=
  newFsAfter [.mkdir ['/', 'a'] 0o755, .mkdir ['/', 'a', '/', 'b'] 0o755,
    .create ['/', 'a', '/', 'f'] Libc.O_RDWR 0o644, .link ['/', 'a', '/', 'f'] ['/', 'g'],
    .rename ['/', 'a', '/', 'b'] ['/', 'b']]

theorem reachable_tree_movedDir :
    movedDir.conn.Tree ∧ (∀ i, ¬ TransGen movedDir.conn.Up i i) ∧
      (∀ i, ∃ l, Entries.ancestry movedDir.conn i = .ok l) ∧
      ∀ i, ∃ p, pathForInode movedDir.conn i = .ok p :=
  reachable_tree (reachable_newFsAfter _)

end Filesystem

end SqliteFs

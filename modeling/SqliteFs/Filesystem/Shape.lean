import SqliteFs.Filesystem.Calls

/-!
# The shape of the entries

Entries lie in directories and name nodes, a directory has one name, and the root has none. Every
change of the entries keeps this, also where it tears the tree of directories apart.
-/

namespace SqliteFs

namespace Db

structure Shaped (d : Db) : Prop where
  rootUnnamed : ∀ e ∈ d.entries, e.inode ≠ ROOT_INODE
  parentDir : ∀ e ∈ d.entries, d.kind e.parent = some .dir
  child : ∀ e ∈ d.entries, d.hasNode e.inode = true
  oneName : ∀ e ∈ d.entries, ∀ e' ∈ d.entries, e.inode = e'.inode →
    d.kind e.inode = some .dir → e = e'

lemma AddsNode.ne_of_kind {d d' : Db} {i j : ℕ} {k : NodeKind} {n : NodeInfo}
    (ha : d.AddsNode d' i n) (hj : d.kind j = some k) : j ≠ i := by
  rintro rfl
  rw [Db.kind, ha.fresh] at hj
  cases hj

/-- A node with nothing under it goes alone. -/
lemma RemovesNode.entries_eq {d d' : Db} {i : ℕ} (hr : d.RemovesNode d' i)
    (hleaf : ∀ x ∈ d.entries, x.parent ≠ i) : d'.entries = d.entries := by
  rw [hr.entries]
  exact KeyTable.deleteWhere_eq_self fun r hr' => decide_eq_false (hleaf r hr')

namespace Shaped

variable {d d' : Db} {e x : EntryRow} {i q : ℕ} {m : Str}

/-- What is no directory has no entries under it. -/
lemma parent_ne_of_notDir (h : d.Shaped) (hi : d.kind i ≠ some .dir) (hx : x ∈ d.entries) :
    x.parent ≠ i := by
  rintro rfl
  exact hi (h.parentDir x hx)

lemma kind_child (h : d.Shaped) (he : e ∈ d.entries) : ∃ k, d.kind e.inode = some k := by
  obtain ⟨n, hn⟩ := hasNode_iff.mp (h.child e he)
  exact ⟨n.kind, kind_of_info hn⟩

/-- A new node has no name yet. -/
lemma child_ne {n : NodeInfo} (h : d.Shaped) (ha : d.AddsNode d' i n) (he : e ∈ d.entries) :
    e.inode ≠ i := by
  obtain ⟨k, hk⟩ := h.kind_child he
  exact ha.ne_of_kind hk

/-- Only entries and kinds matter. -/
lemma congr (h : d.Shaped) (hentries : d'.entries = d.entries) (hkind : ∀ i, d'.kind i = d.kind i) :
    d'.Shaped := by
  refine ⟨?_, ?_, ?_, ?_⟩
  · rw [hentries]
    exact h.rootUnnamed
  · intro e he
    rw [hkind]
    exact h.parentDir e (hentries ▸ he)
  · intro e he
    rw [hasNode_congr (hkind e.inode)]
    exact h.child e (hentries ▸ he)
  · intro e he e' he' hee hk
    rw [hkind] at hk
    exact h.oneName e (hentries ▸ he) e' (hentries ▸ he') hee hk

lemma adjust {δ : ℕ → ℤ} (h : d.Shaped) (ha : d.Adjust d' δ) : d'.Shaped :=
  h.congr ha.entries ha.kind

lemma sameNames (h : d.Shaped) (hs : d.SameNames d') : d'.Shaped := h.congr hs.entries hs.kind

lemma addsNode {n : NodeInfo} (h : d.Shaped) (ha : d.AddsNode d' i n) : d'.Shaped := by
  have hkind : ∀ {j k}, d.kind j = some k → d'.kind j = some k := by
    intro j k hj
    rw [ha.kind, if_neg (ha.ne_of_kind hj), hj]
  refine ⟨?_, ?_, ?_, ?_⟩
  · rw [ha.entries]
    exact h.rootUnnamed
  · exact fun e he => hkind (h.parentDir e (ha.entries ▸ he))
  · intro e he
    obtain ⟨k, hk⟩ := h.kind_child (ha.entries ▸ he)
    exact hasNode_of_kind (hkind hk)
  · intro e he e' he' hee hk
    obtain ⟨k, hk'⟩ := h.kind_child (ha.entries ▸ he)
    obtain rfl : k = .dir := by
      rw [hkind hk'] at hk
      exact Option.some.inj hk
    exact h.oneName e (ha.entries ▸ he) e' (ha.entries ▸ he') hee hk'

/-- A directory may get its first name, any other node one more. -/
lemma insertEntry (h : d.Shaped) (hins : d.insertEntry e = .ok d')
    (hparent : d.kind e.parent = some .dir) (hroot : e.inode ≠ ROOT_INODE)
    (hfirst : d.kind e.inode = some .dir → ∀ x ∈ d.entries, x.inode ≠ e.inode) : d'.Shaped := by
  have hmem : ∀ {x}, x ∈ d'.entries ↔ x ∈ d.entries ∨ x = e := mem_insertEntry hins
  have hkind : ∀ i, d'.kind i = d.kind i := fun i => by rw [kind, info_insertEntry hins]; rfl
  refine ⟨?_, ?_, ?_, ?_⟩
  · intro x hx
    rcases hmem.mp hx with hx | rfl
    · exact h.rootUnnamed x hx
    · exact hroot
  · intro x hx
    rw [hkind]
    rcases hmem.mp hx with hx | rfl
    · exact h.parentDir x hx
    · exact hparent
  · intro x hx
    rw [hasNode_congr (hkind x.inode)]
    rcases hmem.mp hx with hx | rfl
    · exact h.child x hx
    · exact (insertEntry_eq_ok.mp hins).2.1
  · intro x hx x' hx' hxx hk
    rw [hkind] at hk
    rcases hmem.mp hx with hx | rfl
    · rcases hmem.mp hx' with hx' | rfl
      · exact h.oneName x hx x' hx' hxx hk
      · exact absurd hxx (hfirst (hxx ▸ hk) x hx)
    · rcases hmem.mp hx' with hx' | rfl
      · exact absurd hxx.symm (hfirst hk x' hx')
      · rfl

lemma deleteEntry (h : d.Shaped) (he : e ∈ d.entries) :
    (d.deleteEntry e.parent e.name).Shaped := by
  have hmem : ∀ {x}, x ∈ (d.deleteEntry e.parent e.name).entries → x ∈ d.entries :=
    fun hx => ((mem_deleteEntry he).mp hx).1
  exact ⟨fun x hx => h.rootUnnamed x (hmem hx), fun x hx => h.parentDir x (hmem hx),
    fun x hx => h.child x (hmem hx), fun x hx x' hx' => h.oneName x (hmem hx) x' (hmem hx')⟩

/-- What lies under the node that is removed goes with it. -/
lemma removesNode (h : d.Shaped) (hr : d.RemovesNode d' i) : d'.Shaped := by
  have hmem : ∀ {x}, x ∈ d'.entries → x ∈ d.entries ∧ x.parent ≠ i ∧ x.inode ≠ i := by
    intro x hx
    rw [hr.entries, KeyTable.mem_deleteWhere, decide_eq_false_iff_not] at hx
    exact ⟨hx.1, hx.2, hr.unnamed x hx.1 hx.2⟩
  have hkind : ∀ {j}, j ≠ i → d'.kind j = d.kind j := fun hj => by rw [hr.kind, if_neg hj]
  refine ⟨fun x hx => h.rootUnnamed x (hmem hx).1, ?_, ?_, ?_⟩
  · intro x hx
    obtain ⟨hx, hp, -⟩ := hmem hx
    rw [hkind hp]
    exact h.parentDir x hx
  · intro x hx
    obtain ⟨hx, -, hi⟩ := hmem hx
    rw [hasNode_congr (hkind hi)]
    exact h.child x hx
  · intro x hx x' hx' hxx hk
    obtain ⟨hx, -, hi⟩ := hmem hx
    rw [hkind hi] at hk
    exact h.oneName x hx x' (hmem hx').1 hxx hk

/-- Any entry may move to any directory. -/
lemma moveEntry (h : d.Shaped) (he : e ∈ d.entries)
    (hmove : d.moveEntry e.parent e.name q m = .ok d') (hq : d.kind q = some .dir) : d'.Shaped := by
  have hmem : ∀ {x}, x ∈ d'.entries ↔ (x ∈ d.entries ∧ x ≠ e) ∨ x = ⟨q, m, e.inode⟩ :=
    mem_moveEntry he hmove
  have hkind : ∀ i, d'.kind i = d.kind i := fun i => by rw [kind, info_moveEntry he hmove]; rfl
  refine ⟨?_, ?_, ?_, ?_⟩
  · intro x hx
    rcases hmem.mp hx with ⟨hx, -⟩ | rfl
    · exact h.rootUnnamed x hx
    · exact h.rootUnnamed e he
  · intro x hx
    rw [hkind]
    rcases hmem.mp hx with ⟨hx, -⟩ | rfl
    · exact h.parentDir x hx
    · exact hq
  · intro x hx
    rw [hasNode_congr (hkind x.inode)]
    rcases hmem.mp hx with ⟨hx, -⟩ | rfl
    · exact h.child x hx
    · exact h.child e he
  · intro x hx x' hx' hxx hk
    rw [hkind] at hk
    rcases hmem.mp hx with ⟨hx, hxe⟩ | rfl
    · rcases hmem.mp hx' with ⟨hx', -⟩ | rfl
      · exact h.oneName x hx x' hx' hxx hk
      · exact absurd (h.oneName x hx e he hxx hk) hxe
    · rcases hmem.mp hx' with ⟨hx', hxe'⟩ | rfl
      · exact absurd (h.oneName e he x' hx' hxx hk).symm hxe'
      · rfl

/-! ### The changes that operations make -/

variable {k : NodeKind}

lemma attaches (h : d.Shaped) (hroot : d.kind ROOT_INODE = some .dir) (ha : d.Attaches d' k e) :
    d'.Shaped := by
  obtain ⟨⟨-, hdir⟩, d₁, d₂, hadd, hins, hadj⟩ := ha
  refine adjust ((h.addsNode hadd).insertEntry hins ?_ ?_ fun _ => ?_) hadj
  · rw [hadd.kind, if_neg (hadd.ne_of_kind hdir)]
    exact hdir
  · exact (hadd.ne_of_kind hroot).symm
  · exact fun x hx => h.child_ne hadd (hadd.entries ▸ hx)

lemma links (h : d.Shaped) (hroot : d.kind ROOT_INODE = some .dir) (hl : d.Links d' e) :
    d'.Shaped := by
  obtain ⟨⟨-, hdir⟩, -, ⟨k, hk, hkdir⟩, d₁, hins, hadj⟩ := hl
  have hnotDir : d.kind e.inode ≠ some .dir := by
    rw [hk]
    exact fun heq => hkdir (Option.some.inj heq)
  refine adjust (h.insertEntry hins hdir ?_ fun hd => absurd hd hnotDir) hadj
  intro hi
  rw [hi] at hnotDir
  exact hnotDir hroot

lemma removesDir (h : d.Shaped) (hr : d.RemovesDir d' e) : d'.Shaped := by
  obtain ⟨he, -, -, d₁, hadj, hrem⟩ := hr
  exact (adjust (h.deleteEntry he) hadj).removesNode hrem

/-- A node that loses a name but is no directory has nothing under it. -/
lemma drops_leaf {n : ℕ} (h : d.Shaped) (hd : d.Drops d' e n) :
    ∀ x ∈ d.entries, x.parent ≠ e.inode := by
  obtain ⟨-, ⟨k, hk, hkdir⟩, -⟩ := hd
  refine fun x hx => h.parent_ne_of_notDir ?_ hx
  rw [hk]
  exact fun heq => hkdir (Option.some.inj heq)

lemma drops {n : ℕ} (h : d.Shaped) (hd : d.Drops d' e n) : d'.Shaped :=
  adjust (h.deleteEntry hd.1) hd.2.2.1

lemma moves {isDir : Prop} [Decidable isDir] (h : d.Shaped) (he : e ∈ d.entries)
    (hq : d.kind q = some .dir) (hm : d.Moves d' isDir e q m) : d'.Shaped := by
  obtain ⟨d₁, hmove, hadj⟩ := hm
  exact adjust (h.moveEntry he hmove hq) hadj

end Shaped

end Db

end SqliteFs

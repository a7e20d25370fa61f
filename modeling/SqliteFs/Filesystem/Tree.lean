import SqliteFs.Filesystem.Shape
import SqliteFs.Lib.ParentForest

/-!
# The directory tree

The entries make a tree of the directories, rooted at the root directory, with the other nodes as
its leaves. Each change of the entries keeps this under the conditions that the operations check;
for a directory that moves, this is that its new parent does not lie below it.
-/

namespace SqliteFs

open Relation ParentForest

namespace Db

/-- An entry of `y` names `x`. -/
def Up (d : Db) (x y : ℕ) : Prop := ∃ e ∈ d.entries, e.inode = x ∧ e.parent = y

structure Tree (d : Db) : Prop where
  rootDir : d.kind ROOT_INODE = some .dir
  rootUnnamed : ∀ e ∈ d.entries, e.inode ≠ ROOT_INODE
  parentDir : ∀ e ∈ d.entries, d.kind e.parent = some .dir
  child : ∀ e ∈ d.entries, d.hasNode e.inode = true
  oneName : ∀ e ∈ d.entries, ∀ e' ∈ d.entries, e.inode = e'.inode →
    d.kind e.inode = some .dir → e = e'
  rooted : ∀ e ∈ d.entries, Rooted d.Up ROOT_INODE e.parent

namespace Tree

variable {d d' : Db} {e x : EntryRow} {i j q : ℕ}

lemma shaped (h : d.Tree) : d.Shaped := ⟨h.rootUnnamed, h.parentDir, h.child, h.oneName⟩

/-- A tree is a shape that hangs together. -/
lemma of_shaped (h : d.Shaped) (hroot : d.kind ROOT_INODE = some .dir)
    (hrooted : ∀ e ∈ d.entries, Rooted d.Up ROOT_INODE e.parent) : d.Tree :=
  ⟨hroot, h.rootUnnamed, h.parentDir, h.child, h.oneName, hrooted⟩

lemma not_up_root (h : d.Tree) (y : ℕ) : ¬ d.Up ROOT_INODE y := by
  rintro ⟨e, he, hi, -⟩
  exact h.rootUnnamed e he hi

/-- What path resolution leads to hangs below the root. -/
lemma rooted_of_named (h : d.Tree) (hi : d.Named i) : Rooted d.Up ROOT_INODE i := by
  rcases hi with rfl | ⟨e, he, rfl⟩
  · exact .base
  · refine .climb ⟨e.parent, e, he, rfl, rfl⟩ ?_
    rintro y ⟨e', he', -, rfl⟩
    exact h.rooted e' he'

lemma named_of_rooted (hi : Rooted d.Up ROOT_INODE i) : d.Named i := by
  by_cases hroot : i = ROOT_INODE
  · exact Or.inl hroot
  · obtain ⟨y, e, he, hei, -⟩ := hi.exists_up hroot
    exact Or.inr ⟨e, he, hei⟩

lemma named_parent (h : d.Tree) (he : e ∈ d.entries) : d.Named e.parent :=
  named_of_rooted (h.rooted e he)

/-- No directory is its own ancestor. -/
theorem acyclic (h : d.Tree) (i : ℕ) : ¬ TransGen d.Up i i := by
  intro hc
  obtain ⟨y, ⟨e, he, rfl, -⟩, -⟩ := TransGen.head'_iff.mp hc
  exact (h.rooted_of_named (Or.inr ⟨e, he, rfl⟩)).acyclic h.not_up_root hc

lemma inode_ne_parent (h : d.Tree) (he : e ∈ d.entries) : e.inode ≠ e.parent := by
  intro heq
  exact h.acyclic e.inode (.single ⟨e, he, rfl, heq.symm⟩)

/-- What is no directory has no entries under it. -/
lemma parent_ne_of_notDir (h : d.Tree) (hi : d.kind i ≠ some .dir) (hx : x ∈ d.entries) :
    x.parent ≠ i :=
  h.shaped.parent_ne_of_notDir hi hx

lemma up_congr (hentries : d'.entries = d.entries) : d'.Up = d.Up := by
  unfold Up
  rw [hentries]

/-- Only entries and kinds matter. -/
lemma congr (h : d.Tree) (hentries : d'.entries = d.entries) (hkind : ∀ i, d'.kind i = d.kind i) :
    d'.Tree := by
  refine of_shaped (h.shaped.congr hentries hkind) ?_ fun e he => ?_
  · rw [hkind]
    exact h.rootDir
  · rw [up_congr hentries]
    exact h.rooted e (hentries ▸ he)

lemma adjust {δ : ℕ → ℤ} (h : d.Tree) (ha : d.Adjust d' δ) : d'.Tree := h.congr ha.entries ha.kind

lemma sameNames (h : d.Tree) (hs : d.SameNames d') : d'.Tree := h.congr hs.entries hs.kind

/-- A new node has no place in the tree yet. -/
lemma addsNode {n : NodeInfo} (h : d.Tree) (ha : d.AddsNode d' i n) : d'.Tree := by
  refine of_shaped (h.shaped.addsNode ha) ?_ fun e he => ?_
  · rw [ha.kind, if_neg (ha.ne_of_kind h.rootDir)]
    exact h.rootDir
  · rw [up_congr ha.entries]
    exact h.rooted e (ha.entries ▸ he)

/-- A leaf may get a new name in any directory of the tree; a directory only its first one. -/
lemma insertEntry (h : d.Tree) (hins : d.insertEntry e = .ok d') (hparent : d.Placed e.parent)
    (hroot : e.inode ≠ ROOT_INODE) (hleaf : ∀ x ∈ d.entries, x.parent ≠ e.inode)
    (hself : e.parent ≠ e.inode)
    (hfirst : d.kind e.inode = some .dir → ∀ x ∈ d.entries, x.inode ≠ e.inode) : d'.Tree := by
  have hmem : ∀ {x}, x ∈ d'.entries ↔ x ∈ d.entries ∨ x = e := mem_insertEntry hins
  have hkind : ∀ i, d'.kind i = d.kind i := fun i => by rw [kind, info_insertEntry hins]; rfl
  -- climbing from anywhere but the leaf itself goes as before
  have hrooted : ∀ {i}, Rooted d.Up ROOT_INODE i → i ≠ e.inode → Rooted d'.Up ROOT_INODE i := by
    intro i hi
    refine hi.congr_on (S := (· ≠ e.inode)) ?_ ?_
    · rintro x _ - ⟨e', he', -, rfl⟩
      exact hleaf e' he'
    · intro x y hx
      constructor
      · rintro ⟨e', he', rfl, rfl⟩
        rcases hmem.mp he' with he' | rfl
        · exact ⟨e', he', rfl, rfl⟩
        · exact absurd rfl hx
      · rintro ⟨e', he', rfl, rfl⟩
        exact ⟨e', hmem.mpr (Or.inl he'), rfl, rfl⟩
  refine of_shaped (h.shaped.insertEntry hins hparent.2 hroot hfirst) ?_ fun x hx => ?_
  · rw [hkind]
    exact h.rootDir
  · rcases hmem.mp hx with hx | rfl
    · exact hrooted (h.rooted x hx) (hleaf x hx)
    · exact hrooted (h.rooted_of_named hparent.1) hself

/-- A leaf may lose a name. -/
lemma deleteEntry (h : d.Tree) (he : e ∈ d.entries) (hleaf : ∀ x ∈ d.entries, x.parent ≠ e.inode) :
    (d.deleteEntry e.parent e.name).Tree := by
  have hmem : ∀ {x}, x ∈ (d.deleteEntry e.parent e.name).entries → x ∈ d.entries :=
    fun hx => ((mem_deleteEntry he).mp hx).1
  refine of_shaped (h.shaped.deleteEntry he) h.rootDir fun x hx => ?_
  refine (h.rooted x (hmem hx)).congr_on (S := (· ≠ e.inode)) ?_ ?_ (hleaf x (hmem hx))
  · rintro z _ - ⟨e', he', -, rfl⟩
    exact hleaf e' he'
  · intro z y hz
    constructor
    · rintro ⟨e', he', rfl, rfl⟩
      exact ⟨e', hmem he', rfl, rfl⟩
    · rintro ⟨e', he', rfl, rfl⟩
      refine ⟨e', (mem_deleteEntry he).mpr ⟨he', ?_⟩, rfl, rfl⟩
      rintro rfl
      exact hz rfl

/-- What nothing names has no entries under it, unless it is the root. -/
lemma parent_ne_of_unnamed (h : d.Tree) (hi : i ≠ ROOT_INODE)
    (hunnamed : ∀ e ∈ d.entries, e.parent ≠ i → e.inode ≠ i) : ∀ x ∈ d.entries, x.parent ≠ i := by
  rintro x hx rfl
  rcases h.named_parent hx with hroot | ⟨e, he, hei⟩
  · exact hi hroot
  · by_cases hp : e.parent = x.parent
    · exact h.inode_ne_parent he (hei.trans hp.symm)
    · exact hunnamed e he hp hei

lemma entries_of_removesNode (h : d.Tree) (hi : i ≠ ROOT_INODE) (hr : d.RemovesNode d' i) :
    d'.entries = d.entries :=
  hr.entries_eq (h.parent_ne_of_unnamed hi hr.unnamed)

/-- Removing a node does not touch the tree. -/
lemma removesNode (h : d.Tree) (hi : i ≠ ROOT_INODE) (hr : d.RemovesNode d' i) : d'.Tree := by
  have hentries := h.entries_of_removesNode hi hr
  refine of_shaped (h.shaped.removesNode hr) ?_ fun x hx => ?_
  · rw [hr.kind, if_neg (Ne.symm hi)]
    exact h.rootDir
  · rw [up_congr hentries]
    exact h.rooted x (hentries ▸ hx)

/-- An entry may move to a directory that does not lie below it. -/
lemma moveEntry {m : Str} (h : d.Tree) (he : e ∈ d.entries)
    (hmove : d.moveEntry e.parent e.name q m = .ok d') (hq : d.Placed q)
    (hclear : d.kind e.inode = some .dir → q ≠ e.inode ∧ ¬ TransGen d.Up q e.inode) : d'.Tree := by
  have hmem : ∀ {x}, x ∈ d'.entries ↔ (x ∈ d.entries ∧ x ≠ e) ∨ x = ⟨q, m, e.inode⟩ :=
    mem_moveEntry he hmove
  have hkind : ∀ i, d'.kind i = d.kind i := fun i => by rw [kind, info_moveEntry he hmove]; rfl
  have hup : ∀ z y, z ≠ e.inode → (d'.Up z y ↔ d.Up z y) := by
    intro z y hz
    constructor
    · rintro ⟨x, hx, rfl, rfl⟩
      rcases hmem.mp hx with ⟨hx, -⟩ | rfl
      · exact ⟨x, hx, rfl, rfl⟩
      · exact absurd rfl hz
    · rintro ⟨x, hx, rfl, rfl⟩
      refine ⟨x, hmem.mpr (Or.inl ⟨hx, ?_⟩), rfl, rfl⟩
      rintro rfl
      exact hz rfl
  have hrooted : ∀ {i}, d.kind i = some .dir → Rooted d.Up ROOT_INODE i →
      Rooted d'.Up ROOT_INODE i := by
    intro i hi hr
    by_cases hdir : d.kind e.inode = some .dir
    · obtain ⟨hne, hnot⟩ := hclear hdir
      have hq' : Rooted d'.Up ROOT_INODE q := by
        refine (h.rooted_of_named hq.1).congr_on
          (S := fun z => z ≠ e.inode ∧ ¬ TransGen d.Up z e.inode) ?_ (fun z y hz => hup z y hz.1)
          ⟨hne, hnot⟩
        rintro z y ⟨-, hz⟩ hzy
        refine ⟨?_, fun hy => hz (.head hzy hy)⟩
        rintro rfl
        exact hz (.single hzy)
      -- the directory has no other name, so its only way up is the new one
      have he' : Rooted d'.Up ROOT_INODE e.inode := by
        refine .climb ⟨q, _, hmem.mpr (Or.inr rfl), rfl, rfl⟩ ?_
        rintro y ⟨x, hx, hxi, rfl⟩
        rcases hmem.mp hx with ⟨hx, hxe⟩ | rfl
        · exact absurd (h.oneName x hx e he hxi (hxi ▸ hdir)) hxe
        · exact hq'
      exact Rooted.rewire hup he' hr
    · refine hr.congr_on (S := fun z => d.kind z = some .dir) ?_ ?_ hi
      · rintro z _ - ⟨x, hx, -, rfl⟩
        exact h.parentDir x hx
      · intro z y hz
        refine hup z y ?_
        rintro rfl
        exact hdir hz
  refine of_shaped (h.shaped.moveEntry he hmove hq.2) ?_ fun x hx => ?_
  · rw [hkind]
    exact h.rootDir
  · rcases hmem.mp hx with ⟨hx, -⟩ | rfl
    · exact hrooted (h.parentDir x hx) (h.rooted x hx)
    · exact hrooted hq.2 (h.rooted_of_named hq.1)

end Tree

/-! ### The ways up that the program takes -/

section Climb
variable {d : Db} {i x y : ℕ} {e : EntryRow}

lemma ofInode_eq_some (h : Entries.ofInode d i = some e) : e ∈ d.entries ∧ e.inode = i := by
  have hmem := KeyTable.mem_select.mp (List.mem_of_mem_head? h)
  exact ⟨hmem.1, of_decide_eq_true hmem.2⟩

lemma ofInode_isSome (he : e ∈ d.entries) : ∃ e', Entries.ofInode d e.inode = some e' := by
  have hne : d.entries.select (fun r => decide (r.inode = e.inode)) ≠ [] :=
    List.ne_nil_of_mem (KeyTable.mem_select.mpr ⟨he, decide_eq_true rfl⟩)
  exact ⟨_, List.head?_eq_some_head hne⟩

lemma up_of_parentOf (h : Entries.parentOf d x = some y) : d.Up x y := by
  obtain ⟨e, he, rfl⟩ := Option.map_eq_some_iff.mp h
  exact ⟨e, (ofInode_eq_some he).1, (ofInode_eq_some he).2, rfl⟩

lemma parentOf_of_up (h : d.Tree) (hx : d.kind x = some .dir) (hxy : d.Up x y) :
    Entries.parentOf d x = some y := by
  obtain ⟨e, he, rfl, rfl⟩ := hxy
  obtain ⟨e', he'⟩ := ofInode_isSome he
  obtain ⟨hmem, hei⟩ := ofInode_eq_some he'
  rw [Entries.parentOf, he', h.oneName e he e' hmem hei.symm hx]
  rfl

lemma ancestryLoop_of_chain {l : List ℕ} (hl : Chain (Entries.parentOf d) x l) :
    ∀ {fuel : ℕ} {out : List ℕ}, l.length < fuel →
      Entries.ancestryLoop d fuel x out = .ok (out ++ l) := by
  induction hl with
  | stop hx =>
    intro fuel out hfuel
    cases fuel with
    | zero => exact absurd hfuel (Nat.not_lt_zero _)
    | succ fuel => rw [Entries.ancestryLoop, hx, List.append_nil]
  | @step x y l hxy _ ih =>
    intro fuel out hfuel
    cases fuel with
    | zero => exact absurd hfuel (Nat.not_lt_zero _)
    | succ fuel =>
      rw [Entries.ancestryLoop, hxy]
      dsimp only
      rw [ih (Nat.lt_of_succ_lt_succ hfuel), List.append_assoc, List.singleton_append]

lemma chain_of_ancestryLoop : ∀ {fuel x : ℕ} {out l : List ℕ},
    Entries.ancestryLoop d fuel x out = .ok l →
      ∃ l', l = out ++ l' ∧ Chain (Entries.parentOf d) x l' := by
  intro fuel
  induction fuel with
  | zero =>
    intro x out l h
    cases h
  | succ fuel ih =>
    intro x out l h
    rw [Entries.ancestryLoop] at h
    cases hp : Entries.parentOf d x with
    | none =>
      rw [hp] at h
      cases h
      exact ⟨[], (List.append_nil _).symm, .stop hp⟩
    | some y =>
      rw [hp] at h
      obtain ⟨l', rfl, hl'⟩ := ih h
      exact ⟨y :: l', by rw [List.append_assoc, List.singleton_append], .step hp hl'⟩

/-- From a rooted point, the climb is shorter than the list of entries is long. -/
lemma exists_chain_of_rooted (hunnamed : ∀ e ∈ d.entries, e.inode ≠ ROOT_INODE)
    (hx : Rooted d.Up ROOT_INODE x) :
    ∃ l, Chain (Entries.parentOf d) x l ∧ l.length ≤ d.entries.rows.length := by
  have hup : ∀ y, ¬ d.Up ROOT_INODE y := by
    rintro y ⟨e, he, hi, -⟩
    exact hunnamed e he hi
  have hroot : Entries.parentOf d ROOT_INODE = none := by
    cases hp : Entries.parentOf d ROOT_INODE with
    | none => rfl
    | some y => exact absurd (up_of_parentOf hp) (hup y)
  have hf : ∀ x y, Entries.parentOf d x = some y → d.Up x y := fun _ _ => up_of_parentOf
  obtain ⟨l, hl⟩ := Chain.of_rooted hf hroot hx
  refine ⟨l, hl, ?_⟩
  have hdom : ∀ z, (Entries.parentOf d z).isSome → z ∈ d.entries.rows.map EntryRow.inode := by
    intro z hz
    obtain ⟨w, hw⟩ := Option.isSome_iff_exists.mp hz
    obtain ⟨e, he, rfl, -⟩ := up_of_parentOf hw
    exact List.mem_map_of_mem he
  have hlen := hl.length_le hf hup hdom hx
  rwa [List.length_map] at hlen

/-- In a tree, every climb is shorter than the list of entries is long. -/
lemma Tree.exists_chain (h : d.Tree) (x : ℕ) :
    ∃ l, Chain (Entries.parentOf d) x l ∧ l.length ≤ d.entries.rows.length := by
  cases hx : Entries.parentOf d x with
  | none => exact ⟨[], .stop hx, Nat.zero_le _⟩
  | some y =>
    obtain ⟨e, he, hei, -⟩ := up_of_parentOf hx
    exact exists_chain_of_rooted h.rootUnnamed (h.rooted_of_named (Or.inr ⟨e, he, hei⟩))

/-- The loop of `ancestry` ends. -/
theorem Tree.ancestry_ok (h : d.Tree) (i : ℕ) : ∃ l, Entries.ancestry d i = .ok l := by
  obtain ⟨l, hl, hlen⟩ := h.exists_chain i
  exact ⟨_, ancestryLoop_of_chain hl (Nat.lt_succ_of_le hlen)⟩

lemma pathLoop_of_chain {l : List ℕ} (hl : Chain (Entries.parentOf d) x l) :
    ∀ {fuel : ℕ} {parts : List Str}, l.length < fuel →
      ∃ p, Filesystem.pathLoop d fuel x parts = .ok p := by
  induction hl with
  | @stop x hx =>
    intro fuel parts hfuel
    have hnone : Entries.ofInode d x = none := Option.map_eq_none_iff.mp hx
    cases fuel with
    | zero => exact absurd hfuel (Nat.not_lt_zero _)
    | succ fuel =>
      rw [Filesystem.pathLoop, hnone]
      split_ifs
      · exact ⟨_, rfl⟩
      · exact ⟨_, rfl⟩
  | @step x y l hxy _ ih =>
    intro fuel parts hfuel
    cases fuel with
    | zero => exact absurd hfuel (Nat.not_lt_zero _)
    | succ fuel =>
      obtain ⟨e, he, rfl⟩ := Option.map_eq_some_iff.mp hxy
      rw [Filesystem.pathLoop, he]
      split_ifs
      · exact ⟨_, rfl⟩
      · exact ih (Nat.lt_of_succ_lt_succ hfuel)

/-- The loop of `pathForInode` ends. -/
theorem Tree.pathForInode_ok (h : d.Tree) (i : ℕ) : ∃ p, Filesystem.pathForInode d i = .ok p := by
  unfold Filesystem.pathForInode
  cases Entries.ofInode d i with
  | none => exact ⟨_, rfl⟩
  | some e =>
    obtain ⟨l, hl, hlen⟩ := h.exists_chain e.parent
    exact pathLoop_of_chain hl (Nat.lt_succ_of_le hlen)

/-- The check that `rename` makes keeps a directory out of its own subtree. -/
lemma Tree.clear_of_mayMove (h : d.Tree) {q : ℕ} (hmay : d.MayMove e q)
    (hdir : d.kind e.inode = some .dir) : q ≠ e.inode ∧ ¬ TransGen d.Up q e.inode := by
  obtain ⟨-, -, hq, hcheck⟩ := hmay
  obtain ⟨hne, l, hl, hmem⟩ := hcheck hdir
  refine ⟨hne.symm, fun habove => hmem ?_⟩
  obtain ⟨l', rfl, hl'⟩ := chain_of_ancestryLoop hl
  refine hl'.mem_of_above (S := fun z => d.kind z = some .dir) ?_ ?_ hq.2 _ habove
  · rintro _ _ ⟨x, hx, -, rfl⟩
    exact h.parentDir x hx
  · exact fun _ _ => parentOf_of_up h

end Climb

end Db

end SqliteFs

import SqliteFs.Filesystem.TreeInvariant
import Mathlib.Tactic.Linarith
import Mathlib.Tactic.Ring

/-!
# Link counts

The link count of a directory should be two more than the number of directories in it, and that of
any other node the number of its names. Every change of the entries moves these numbers at one or
two nodes, and the operations correct the stored counts there. One correction is wrong: a rename
that replaces a directory leaves the counts of directories off. The counts of the other nodes
are right in every reachable state.
-/

namespace SqliteFs

open Relation

namespace Db

/-- Does the entry `e` count for the node `i`, if that is of kind `k`? -/
def CountsFor (d : Db) (i : ℕ) (k : NodeKind) (e : EntryRow) : Prop :=
  if k = .dir then e.parent = i ∧ d.kind e.inode = some .dir else e.inode = i

instance (d : Db) (i : ℕ) (k : NodeKind) (e : EntryRow) : Decidable (d.CountsFor i k e) :=
  inferInstanceAs (Decidable (if k = .dir then _ else _))

/-- The link count that a node `i` of kind `k` should have. -/
def linkCount (d : Db) (i : ℕ) (k : NodeKind) : ℤ :=
  (if k = .dir then 2 else 0) + d.entries.count fun e => d.CountsFor i k e

/-- The stored link counts of the nodes whose kind satisfies `P` are off by `δ`. -/
def Off (P : NodeKind → Prop) (δ : ℕ → ℤ) (d : Db) : Prop :=
  ∀ i n, d.info i = some n → P n.kind → n.nlink = d.linkCount i n.kind + δ i

/-- What the entry `e` contributes to the link count of `i`. -/
def weight (d : Db) (e : EntryRow) (i : ℕ) : ℤ :=
  if d.kind i = some .dir then if e.parent = i ∧ d.kind e.inode = some .dir then 1 else 0
  else if e.inode = i then 1 else 0

section Weight
variable {d d' : Db} {e : EntryRow} {i : ℕ}

lemma weight_of_info {n : NodeInfo} (h : d.info i = some n) :
    d.weight e i = if d.CountsFor i n.kind e then 1 else 0 := by
  unfold weight CountsFor
  rw [kind_of_info h]
  by_cases hk : n.kind = .dir
  · simp only [hk, if_true]
  · simp only [hk, Option.some.injEq, if_false]

lemma countsFor_congr (d d' : Db) (h : ∀ j, d'.kind j = d.kind j) (i : ℕ) (k : NodeKind) (e : EntryRow) :
    d'.CountsFor i k e ↔ d.CountsFor i k e := by
  unfold CountsFor
  rw [h]

lemma weight_dir (hi : d.kind i = some .dir) :
    d.weight e i = if e.parent = i ∧ d.kind e.inode = some .dir then 1 else 0 := if_pos hi

lemma weight_notDir (hi : d.kind i ≠ some .dir) :
    d.weight e i = if e.inode = i then 1 else 0 := if_neg hi

/-- Only a directory counts for the directory it is in. -/
lemma weight_dir_of_notDir (hi : d.kind i = some .dir) (he : d.kind e.inode ≠ some .dir) :
    d.weight e i = 0 := by
  rw [weight_dir hi, if_neg fun h => he h.2]

/-- A directory counts for nothing but the directory it is in. -/
lemma weight_notDir_of_dir (hi : d.kind i ≠ some .dir) (he : d.kind e.inode = some .dir) :
    d.weight e i = 0 := by
  rw [weight_notDir hi, if_neg]
  rintro rfl
  exact hi he

end Weight

/-! ### How the changes of a database move the counts -/

namespace Off

variable {P : NodeKind → Prop} {δ δ' : ℕ → ℤ} {d d' : Db} {e : EntryRow} {i q : ℕ} {m : Str}

lemma congr (h : d.Off P δ) (hδ : ∀ i n, d.info i = some n → P n.kind → δ i = δ' i) :
    d.Off P δ' := by
  intro i n hn hP
  rw [← hδ i n hn hP]
  exact h i n hn hP

lemma mono {P' : NodeKind → Prop} (h : d.Off P δ) (hP : ∀ k, P' k → P k) : d.Off P' δ :=
  fun i n hn hk => h i n hn (hP _ hk)

lemma linkCount_congr (hentries : d'.entries = d.entries) (hkind : ∀ j, d'.kind j = d.kind j)
    (i : ℕ) (k : NodeKind) : d'.linkCount i k = d.linkCount i k := by
  unfold linkCount
  rw [hentries]
  simp only [countsFor_congr _ _ hkind]

lemma adjust (h : d.Off P δ) (ha : d.Adjust d' δ') : d'.Off P (δ + δ') := by
  intro i n hn hP
  rw [ha.info] at hn
  obtain ⟨n₀, hn₀, rfl⟩ := Option.map_eq_some_iff.mp hn
  rw [linkCount_congr ha.entries ha.kind, Pi.add_apply, ← add_assoc]
  exact congrArg (· + δ' i) (h i n₀ hn₀ hP)

lemma sameNames (h : d.Off P δ) (hs : d.SameNames d') : d'.Off P δ := by
  intro i n hn hP
  have hlinks := hs.links i
  rw [hn] at hlinks
  obtain ⟨n₀, hn₀, heq⟩ := Option.map_eq_some_iff.mp hlinks.symm
  obtain ⟨hk, hnlink⟩ := Prod.mk.inj heq
  rw [linkCount_congr hs.entries hs.kind, ← hk, ← hnlink]
  exact h i n₀ hn₀ (hk ▸ hP)

lemma insertEntry (h : d.Off P δ) (hins : d.insertEntry e = .ok d') :
    d'.Off P (δ - d.weight e) := by
  intro i n hn hP
  obtain ⟨-, -, t, ht, rfl⟩ := insertEntry_eq_ok.mp hins
  have hcount := KeyTable.count_insert? ht fun x => decide (d.CountsFor i n.kind x)
  rw [h i n hn hP, Pi.sub_apply, weight_of_info (d := d) hn]
  unfold linkCount
  simp only [countsFor_congr d { d with entries := t } (fun _ => rfl)]
  rw [hcount]
  push_cast
  simp only [decide_eq_true_eq]
  ring

lemma deleteEntry (h : d.Off P δ) (he : e ∈ d.entries) :
    (d.deleteEntry e.parent e.name).Off P (δ + d.weight e) := by
  intro i n hn hP
  have hkey : ∀ x ∈ d.entries, decide (x.parent = e.parent ∧ x.name = e.name) = true ↔
      Keyed.key x = Keyed.key e := by
    intro x _
    rw [decide_eq_true_eq, key_entryRow, key_entryRow, Prod.mk.injEq]
  have hcount := KeyTable.count_deleteWhere_key he hkey fun x => decide (d.CountsFor i n.kind x)
  rw [h i n hn hP, Pi.add_apply, weight_of_info (d := d) hn]
  unfold linkCount
  simp only [countsFor_congr d (d.deleteEntry e.parent e.name) (fun _ => rfl)]
  rw [hcount]
  unfold Db.deleteEntry
  push_cast
  simp only [decide_eq_true_eq]
  ring

lemma moveEntry (h : d.Off P δ) (he : e ∈ d.entries)
    (hmove : d.moveEntry e.parent e.name q m = .ok d') :
    d'.Off P (δ + d.weight e - d.weight ⟨q, m, e.inode⟩) := by
  intro i n hn hP
  obtain ⟨-, t, ht, rfl⟩ := (moveEntry_eq_ok_of_mem he).mp hmove
  have hcount := KeyTable.count_rekey? ht he rfl fun x => decide (d.CountsFor i n.kind x)
  rw [h i n hn hP, Pi.sub_apply, Pi.add_apply, weight_of_info (d := d) hn,
    weight_of_info (d := d) hn]
  unfold linkCount
  simp only [countsFor_congr d { d with entries := t } (fun _ => rfl)]
  simp only [decide_eq_true_eq] at hcount
  have hcast := congrArg (fun k : ℕ => (k : ℤ)) hcount
  push_cast at hcast
  linarith only [hcast]

/-- A node counts for nothing before it has a name. -/
lemma addsNode {n : NodeInfo} (h : d.Off P 0) (hshape : d.Shaped) (ha : d.AddsNode d' i n)
    (hn : n.nlink = if n.kind = .dir then 2 else 1) :
    d'.Off P (Pi.single i (if n.kind = .dir then 0 else 1)) := by
  have hchild : ∀ x ∈ d.entries, x.inode ≠ i := fun x hx => hshape.child_ne ha hx
  intro j nj hnj hP
  have hcount : d'.entries.count (fun x => decide (d'.CountsFor j nj.kind x))
      = d.entries.count fun x => decide (d.CountsFor j nj.kind x) := by
    rw [ha.entries]
    refine KeyTable.count_congr fun x hx => decide_eq_decide.mpr ?_
    unfold CountsFor
    rw [ha.kind, if_neg (hchild x hx)]
  unfold linkCount
  rw [hcount]
  rw [ha.info] at hnj
  split_ifs at hnj with hj
  · obtain rfl : n = nj := Option.some.inj hnj
    subst hj
    -- nothing lies under the new node, and nothing names it
    have hzero : d.entries.count (fun x => decide (d.CountsFor j n.kind x)) = 0 := by
      refine KeyTable.count_eq_zero.mpr fun x hx => decide_eq_false fun hc => ?_
      unfold CountsFor at hc
      split_ifs at hc
      · exact ha.ne_of_kind (hshape.parentDir x hx) hc.1
      · exact hchild x hx hc
    rw [hzero, hn, Pi.single_eq_same]
    split_ifs <;> rfl
  · rw [Pi.single_eq_of_ne hj, h j nj hnj hP]
    rfl

/-- A node without names counts for nothing. -/
lemma removesNode (h : d.Off P δ) (hleaf : ∀ x ∈ d.entries, x.parent ≠ i)
    (hr : d.RemovesNode d' i) : d'.Off P δ := by
  intro j n hn hP
  rw [hr.info] at hn
  split_ifs at hn
  rw [h j n hn hP]
  unfold linkCount
  rw [hr.entries_eq hleaf]
  congr 3
  refine KeyTable.count_congr fun x hx => decide_eq_decide.mpr ?_
  unfold CountsFor
  rw [hr.kind, if_neg (hr.unnamed x hx (hleaf x hx))]

end Off

/-! ### How the operations correct them -/

namespace Off

variable {P : NodeKind → Prop} {d d' : Db} {e t : EntryRow} {i q : ℕ} {m : Str} {k : NodeKind}

lemma single_of_ne {i j : ℕ} {c : ℤ} (h : j ≠ i) : (Pi.single i c : ℕ → ℤ) j = 0 :=
  Pi.single_eq_of_ne (M := fun _ => ℤ) h c

lemma single_eq_ite {i j : ℕ} {c : ℤ} : (Pi.single i c : ℕ → ℤ) j = if i = j then c else 0 := by
  by_cases h : j = i
  · rw [if_pos h.symm, h, Pi.single_eq_same]
  · rw [if_neg (Ne.symm h), single_of_ne h]

lemma attaches (h : d.Off P 0) (hshape : d.Shaped) (ha : d.Attaches d' k e) : d'.Off P 0 := by
  obtain ⟨⟨-, hdir⟩, d₁, d₂, hadd, hins, hadj⟩ := ha
  have hself : e.parent ≠ e.inode := hadd.ne_of_kind hdir
  have hparent : d₁.kind e.parent = some .dir := by rw [hadd.kind, if_neg hself, hdir]
  have hchild : d₁.kind e.inode = some k := by rw [hadd.kind, if_pos rfl]
  have hkind : ∀ j, d'.kind j = d₁.kind j := fun j => by
    rw [hadj.kind, kind, info_insertEntry hins]
    rfl
  refine (((addsNode h hshape hadd rfl).insertEntry hins).adjust hadj).congr fun j n hn _ => ?_
  simp only [Pi.add_apply, Pi.sub_apply, Pi.zero_apply]
  by_cases hj : d₁.kind j = some .dir
  · by_cases hk : k = .dir
    · subst hk
      rw [weight_dir hj, if_pos rfl, if_pos rfl, Pi.single_zero, Pi.zero_apply, hchild]
      by_cases hjp : j = e.parent
      · subst hjp
        simp
      · rw [single_of_ne hjp, if_neg fun hc => hjp hc.1.symm]
        rfl
    · have hji : j ≠ e.inode := by
        rintro rfl
        rw [hchild] at hj
        exact hk (Option.some.inj hj)
      have hnot : d₁.kind e.inode ≠ some .dir := by
        rw [hchild]
        exact fun hc => hk (Option.some.inj hc)
      rw [weight_dir_of_notDir hj hnot, single_of_ne hji, if_neg hk]
      rfl
  · have hjp : j ≠ e.parent := by
      rintro rfl
      exact hj hparent
    by_cases hk : k = .dir
    · subst hk
      rw [weight_notDir_of_dir hj hchild, if_pos rfl, if_pos rfl, Pi.single_zero, single_of_ne hjp]
      rfl
    · rw [weight_notDir hj, if_neg hk, if_neg hk]
      by_cases hji : j = e.inode
      · subst hji
        simp
      · rw [single_of_ne hji, if_neg (Ne.symm hji)]
        rfl

lemma links (h : d.Off P 0) (hl : d.Links d' e) : d'.Off P 0 := by
  obtain ⟨-, -, ⟨k, hk, hkdir⟩, d₁, hins, hadj⟩ := hl
  have hnot : d.kind e.inode ≠ some .dir := by
    rw [hk]
    exact fun hc => hkdir (Option.some.inj hc)
  refine ((h.insertEntry hins).adjust hadj).congr fun j n hn _ => ?_
  simp only [Pi.add_apply, Pi.sub_apply, Pi.zero_apply]
  by_cases hj : d.kind j = some .dir
  · rw [weight_dir_of_notDir hj hnot, single_of_ne]
    · rfl
    · rintro rfl
      exact hnot hj
  · rw [weight_notDir hj]
    by_cases hji : j = e.inode
    · subst hji
      simp
    · rw [single_of_ne hji, if_neg (Ne.symm hji)]
      rfl

lemma removesDir (h : d.Off P 0) (hshape : d.Shaped) (hr : d.RemovesDir d' e) : d'.Off P 0 := by
  obtain ⟨he, hdir, hempty, d₁, hadj, hrem⟩ := hr
  have h₁ : d₁.Off P 0 := by
    refine ((h.deleteEntry he).adjust hadj).congr fun j n hn _ => ?_
    simp only [Pi.add_apply, Pi.zero_apply]
    by_cases hj : d.kind j = some .dir
    · rw [weight_dir hj, hdir]
      by_cases hjp : j = e.parent
      · subst hjp
        simp
      · rw [single_of_ne hjp, if_neg fun hc => hjp hc.1.symm]
        rfl
    · rw [weight_notDir_of_dir hj hdir, single_of_ne]
      · rfl
      · rintro rfl
        exact hj (hshape.parentDir e he)
  refine h₁.removesNode (fun x hx => ?_) hrem
  rw [hadj.entries, mem_deleteEntry he] at hx
  exact hempty x hx.1

/-- Dropping the name `e` of a node that is no directory is made up for by one. -/
lemma single_add_weight {j : ℕ} (he : d.kind e.inode ≠ some .dir) :
    d.weight e j + (Pi.single e.inode (-1) : ℕ → ℤ) j = 0 := by
  by_cases hj : d.kind j = some .dir
  · rw [weight_dir_of_notDir hj he, single_of_ne]
    · rfl
    · rintro rfl
      exact he hj
  · rw [weight_notDir hj]
    by_cases hji : j = e.inode
    · subst hji
      simp
    · rw [single_of_ne hji, if_neg (Ne.symm hji)]
      rfl

lemma drops {n : ℕ} (h : d.Off P 0) (hd : d.Drops d' e n) : d'.Off P 0 := by
  obtain ⟨he, ⟨k, hk, hkdir⟩, hadj, -⟩ := hd
  have hnot : d.kind e.inode ≠ some .dir := by
    rw [hk]
    exact fun hc => hkdir (Option.some.inj hc)
  refine ((h.deleteEntry he).adjust hadj).congr fun j n _ _ => ?_
  rw [Pi.add_apply, Pi.add_apply, Pi.zero_apply, zero_add]
  exact single_add_weight hnot

lemma collects {connReadonly : Bool} {tab : FdTable} {n : ℕ} (h : d.Off P 0)
    (hleaf : d.RemovesNode d' i → ∀ x ∈ d.entries, x.parent ≠ i) (hc : d.Collects connReadonly tab n i d') : d'.Off P 0 := by
  cases hc with
  | removed _ _ _ hrem => exact h.removesNode (hleaf hrem) hrem
  | kept _ => exact h

lemma moves {isDir : Prop} [Decidable isDir] (h : d.Off P 0) (hshape : d.Shaped) (he : e ∈ d.entries)
    (hq : d.kind q = some .dir) (hdir : d.kind e.inode = some .dir ↔ isDir)
    (hm : d.Moves d' isDir e q m) : d'.Off P 0 := by
  obtain ⟨d₁, hmove, hadj⟩ := hm
  refine ((h.moveEntry he hmove).adjust hadj).congr fun j n _ _ => ?_
  simp only [Pi.add_apply, Pi.sub_apply, Pi.zero_apply, zero_add]
  by_cases hj : d.kind j = some .dir
  · by_cases hk : isDir
    · rw [weight_dir hj, weight_dir hj]
      simp only [hdir.mpr hk, and_true, hk, true_and]
      by_cases hpq : e.parent = q
      · rw [if_neg (not_not.mpr hpq), hpq, sub_self]
        rfl
      · rw [if_pos hpq, Pi.add_apply, single_eq_ite, single_eq_ite]
        split_ifs <;> rfl
    · have hnot : d.kind e.inode ≠ some .dir := mt hdir.mp hk
      rw [weight_dir_of_notDir hj hnot, weight_dir_of_notDir (e := ⟨q, m, e.inode⟩) hj hnot,
        if_neg fun hc => hk hc.1]
      rfl
  · have hjp : j ≠ e.parent := by
      rintro rfl
      exact hj (hshape.parentDir e he)
    have hjq : j ≠ q := by
      rintro rfl
      exact hj hq
    rw [weight_notDir hj, weight_notDir hj, sub_self, zero_add]
    split_ifs
    · rw [Pi.add_apply, single_of_ne hjp, single_of_ne hjq]
      rfl
    · rfl

/-- The correction for a replaced entry is right, but not for directories that are replaced. -/
lemma evicts {isDir : Prop} [Decidable isDir] {p : ℕ} (h : d.Off P 0) (hshape : d.Shaped)
    (hP : isDir → ¬ P .dir) (hv : d.Evicts d' isDir p t) : d'.Off P 0 := by
  have hleaf := hv.leaf hshape
  obtain ⟨ht, hdir, -, n, d₁, -, hadj, hlast⟩ := hv
  have h₁ : d₁.Off P 0 := by
    refine ((h.deleteEntry ht).adjust hadj).congr fun j n hn hPn => ?_
    simp only [Pi.add_apply, Pi.zero_apply, zero_add]
    by_cases hk : isDir
    · have hj : d.kind j ≠ some .dir := by
        intro hj
        have hj₁ : d₁.kind j = some .dir := (hadj.kind j).trans hj
        rw [kind_of_info hn] at hj₁
        exact hP hk (Option.some.inj hj₁ ▸ hPn)
      have hjt : j ≠ t.inode := by
        rintro rfl
        exact hj (hdir.mpr hk)
      have hjp : j ≠ t.parent := by
        rintro rfl
        exact hj (hshape.parentDir t ht)
      rw [weight_notDir_of_dir hj (hdir.mpr hk), single_of_ne hjt]
      split_ifs
      · rw [single_of_ne hjp]
        rfl
      · rfl
    · rw [if_neg fun hc => hk hc.1, Pi.zero_apply, add_zero]
      exact single_add_weight (mt hdir.mp hk)
  split_ifs at hlast
  · refine h₁.removesNode (fun x hx => ?_) hlast
    rw [hadj.entries, mem_deleteEntry ht] at hx
    exact hleaf x hx.1
  · exact hlast ▸ h₁

end Off

end Db

/-! ### Every effect -/

/-- The tree, with link counts that are right for the nodes whose kind satisfies `P`. -/
structure Core.Counted (P : NodeKind → Prop) (c : Core) : Prop where
  rooted : c.Rooted
  exact : c.conn.Off P 0

/-- The label is not that of a rename that replaces a directory. -/
def Label.KeepsDirs (d : Db) (l : Label) : Prop :=
  ∀ e t, l = .replaces e t → d.kind t.inode ≠ some .dir

lemma Core.Counted.effect {P : NodeKind → Prop} {c c' : Core} {l : Label} (h : c.Counted P)
    (hl : P .dir → l.KeepsDirs c.conn) (he : Effect c l c') : c'.Counted P := by
  refine ⟨h.rooted.effect he, ?_⟩
  obtain ⟨⟨htree, hroot⟩, hexact⟩ := h
  cases he with
  | quiet hadj => exact hexact.sameNames hadj.sameNames
  | writes hsame => exact hexact.sameNames hsame.names
  | truncates hsame => exact hexact.sameNames hsame.names
  | opens => exact hexact
  | attaches ha => exact hexact.attaches htree.shaped ha
  | creates ha => exact hexact.attaches htree.shaped ha
  | links hlinks => exact hexact.links hlinks
  | removesDir _ hr => exact hexact.removesDir htree.shaped hr
  | unlinks _ hd hc =>
    refine (hexact.drops hd).collects (fun _ x hx => ?_) hc
    have hleaf := htree.shaped.drops_leaf hd
    obtain ⟨he, -, hadj, -⟩ := hd
    rw [hadj.entries, Db.mem_deleteEntry he] at hx
    exact hleaf x hx.1
  | closes hf hc =>
    rcases hc with ⟨-, rfl⟩ | ⟨n, -, hc⟩
    · exact hexact
    · exact hexact.collects (fun hr => htree.parent_ne_of_unnamed
        (hroot _ (KeyTable.find?_eq_some.mp hf).1) hr.unnamed) hc
  | moves _ hmay hm => exact hexact.moves htree.shaped hmay.1 hmay.2.2.1.2 Iff.rfl hm
  | @replaces d₁ _ e t _ hmay hne hv hm =>
    obtain ⟨he, hq, -⟩ := hv.mayMove htree hmay hne
    have hdirs : c.conn.kind e.inode = some .dir → ¬ P .dir :=
      fun hk hP => hl hP e t rfl (hv.2.1.mpr hk)
    refine (hexact.evicts htree.shaped hdirs hv).moves (htree.evicts hv).shaped he hq.2 ?_ hm
    rw [hv.kind_eq hne.symm]
  | reopens => exact hexact

namespace Filesystem

lemma off_mkfs (P : NodeKind → Prop) (chunkSize : ℤ) (uid gid : UInt32) (now : ℤ) :
    (mkfs chunkSize uid gid now).Off P 0 := by
  intro i n hn _
  by_cases hi : i = ROOT_INODE
  · subst hi
    obtain rfl : ⟨.dir, 0, 2⟩ = n := Option.some.inj hn
    rfl
  · unfold Db.info mkfs at hn
    have hkey : Keyed.key (rootRow uid gid now) ≠ i := Ne.symm hi
    rw [KeyTable.find?_put, if_neg hkey] at hn
    cases hn

/-- Link counts are right along every run, if no rename replaces a directory or only the counts
of other nodes matter. -/
theorem counted_runsTo {P : NodeKind → Prop} {Ok : Filesystem → Call → Prop} {s : Filesystem}
    (hOk : ∀ s call, Ok s call → P .dir → ∀ l, call.Asks s l → l.KeepsDirs s.conn)
    (h : RunsTo Ok s) : s.core.Counted P := by
  refine runsTo_core ?_ (fun s call l _ hok hl hs he => hs.effect (fun hP => hOk s call hok hP l hl) he) h
  intro s hfresh
  refine ⟨rooted_fresh hfresh, ?_⟩
  obtain ⟨chunkSize, ownerUid, ownerGid, now, readonly, uid, gid, rfl⟩ := hfresh
  exact off_mkfs P _ _ _ _

/-- The call is no rename that replaces a directory. -/
def ReplacesNoDir (s : Filesystem) (call : Call) : Prop :=
  ∀ e t, call.Asks s (.replaces e t) → s.conn.kind t.inode ≠ some .dir

/-- The link count of each directory is two more than the number of directories in it, and that
of any other node the number of its names. -/
def LinksExact (d : Db) : Prop :=
  ∀ i n, d.info i = some n → n.nlink =
    if n.kind = .dir then
      2 + (d.entries.count fun e => e.parent = i ∧ d.kind e.inode = some .dir : ℤ)
    else d.entries.count fun e => e.inode = i

lemma linksExact_iff {d : Db} : LinksExact d ↔ d.Off (fun _ => True) 0 := by
  refine forall_congr' fun i => forall_congr' fun n => forall_congr' fun hn => ?_
  rw [Pi.zero_apply, add_zero, forall_const]
  unfold Db.linkCount Db.CountsFor
  split_ifs with hk
  · rfl
  · rw [zero_add]

lemma counted_of_replacesNoDir {s : Filesystem} (h : RunsTo ReplacesNoDir s) :
    s.core.Counted fun _ => True := by
  refine counted_runsTo (fun s call hok _ l hl e t hlabel => ?_) h
  subst hlabel
  exact hok e t hl

/-- Along every run in which no rename replaces a directory, link counts are exact. -/
theorem links_exact {s : Filesystem} (h : RunsTo ReplacesNoDir s) : LinksExact s.conn :=
  linksExact_iff.mpr (counted_of_replacesNoDir h).exact

/-- The directory `/a` goes away once `/a/c` has become `/b/c`. -/
def removedDir : Filesystem :=
  newFsAfter [.mkdir ['/', 'a'] 0o755, .mkdir ['/', 'b'] 0o755, .mkdir ['/', 'a', '/', 'c'] 0o755,
    .rename ['/', 'a', '/', 'c'] ['/', 'b', '/', 'c'], .rmdir ['/', 'a']]

lemma runsTo_removedDir : RunsTo ReplacesNoDir removedDir := by
  refine .next (.next (.next (.next (.next (.start fresh_newFs) ?_) ?_) ?_) ?_) ?_
  · exact fun _ _ hasks => hasks.elim
  · exact fun _ _ hasks => hasks.elim
  · exact fun _ _ hasks => hasks.elim
  · intro e t hmay
    -- There is no entry with the name that the directory gets.
    have hfree : ∀ x ∈ (newFsAfter [.mkdir ['/', 'a'] 0o755, .mkdir ['/', 'b'] 0o755,
        .mkdir ['/', 'a', '/', 'c'] 0o755]).conn.entries.rows,
        Except.ok (x.parent, x.name) ≠ resolveParentAndName (newFsAfter [.mkdir ['/', 'a'] 0o755,
          .mkdir ['/', 'b'] 0o755, .mkdir ['/', 'a', '/', 'c'] 0o755]).conn ['/', 'b', '/', 'c'] := by
      decide +kernel
    exact absurd hmay.target.symm (hfree t hmay.entry)
  · exact fun _ _ hasks => hasks.elim

theorem links_exact_removedDir : LinksExact removedDir.conn ∧
    removedDir.conn.entries.rows = [⟨ROOT_INODE, ['b'], 3⟩, ⟨3, ['c'], 4⟩] :=
  ⟨links_exact runsTo_removedDir, by decide +kernel⟩

/-- The directory `/b` after `/a` was renamed to it. -/
def overDir : Filesystem :=
  newFsAfter [.mkdir ['/', 'a'] 0o755, .mkdir ['/', 'b'] 0o755, .rename ['/', 'a'] ['/', 'b']]

/-- The root keeps a link count of four, with one directory left in it. -/
theorem not_links_exact_overDir : Reachable overDir ∧ ¬ LinksExact overDir.conn := by
  refine ⟨reachable_newFsAfter _, fun h => ?_⟩
  have hroot : overDir.conn.info ROOT_INODE = some ⟨.dir, 0, 4⟩ := by decide +kernel
  have hcount : (overDir.conn.entries.count fun e =>
      e.parent = ROOT_INODE ∧ overDir.conn.kind e.inode = some .dir) = 1 := by decide +kernel
  have hlinks := h ROOT_INODE _ hroot
  rw [if_pos rfl, hcount] at hlinks
  exact absurd hlinks (by decide)

end Filesystem

end SqliteFs

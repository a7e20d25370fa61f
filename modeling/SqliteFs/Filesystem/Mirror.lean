import SqliteFs.Filesystem.Resolution
import SqliteFs.Lib.PathMap

/-!
# The map from paths to nodes

What is at each path of the tree, and how the effects of the operations change this map.
-/

namespace SqliteFs

open PathMap

/-- What is at each path: the kind and the number of a node. -/
abbrev Mirror := List Str → Option (NodeKind × ℕ)

namespace Db

variable {d d' d₀ : Db} {e t : EntryRow} {i j p q : ℕ} {l l' : List Str} {m n : Str} {k : NodeKind}

/-- The entries as edges. -/
def Edge (d : Db) (i : ℕ) (n : Str) (j : ℕ) : Prop := (⟨i, n, j⟩ : EntryRow) ∈ d.entries

lemma det_edge (d : Db) : Det d.Edge := by
  intro i n j k hj hk
  exact congrArg EntryRow.inode (KeyTable.eq_of_key hj hk rfl)

lemma walk_edge : Walk d.Edge i l j ↔ d.Leads i l j := by
  induction l generalizing i with
  | nil => exact Iff.rfl
  | cons n l ih =>
    constructor
    · rintro ⟨c, hc, h⟩
      exact ⟨_, hc, rfl, rfl, ih.mp h⟩
    · rintro ⟨e, he, rfl, rfl, h⟩
      exact ⟨e.inode, he, ih.mpr h⟩

/-- The node that the names lead to. -/
def follow (d : Db) : ℕ → List Str → Option ℕ
  | i, [] => some i
  | i, n :: l => (d.entries.find? (i, n)).bind fun e => d.follow e.inode l

lemma follow_eq_some : d.follow i l = some j ↔ d.Leads i l j := by
  induction l generalizing i with
  | nil => exact Option.some_inj
  | cons n l ih =>
    rw [follow, Option.bind_eq_some_iff]
    simp only [ih, KeyTable.find?_eq_some, key_entryRow, Prod.mk.injEq]
    constructor
    · rintro ⟨e, ⟨he, hp, hn⟩, h⟩
      exact ⟨e, he, hp, hn, h⟩
    · rintro ⟨e, he, hp, hn, h⟩
      exact ⟨e, ⟨he, hp, hn⟩, h⟩

lemma shows_follow (d : Db) (i : ℕ) : Shows d.Edge i (d.follow i) :=
  fun _ _ => follow_eq_some.trans walk_edge.symm

/-- The kind and the number of a node that exists. -/
def shown (d : Db) (i : ℕ) : Option (NodeKind × ℕ) := (d.kind i).map fun k => (k, i)

/-- The kind and the number of the node at each path. -/
def view (d : Db) : Mirror := fun l => (d.follow ROOT_INODE l).bind d.shown

lemma named_of_follow (h : d.follow ROOT_INODE l = some i) : d.Named i := (follow_eq_some.mp h).named

/-! ### Views and the maps to numbers -/

lemma bind_shown {o : Option ℕ} (h : ∀ j, o = some j → d'.kind j = d.kind j) :
    o.bind d'.shown = o.bind d.shown := by
  cases o with
  | none => rfl
  | some j =>
    rw [Option.bind_some, Option.bind_some]
    unfold shown
    rw [h j rfl]

lemma view_same (hf : d'.follow ROOT_INODE = d.follow ROOT_INODE)
    (hkind : ∀ j, d.Named j → d'.kind j = d.kind j) : d'.view = d.view := by
  funext l
  unfold view
  rw [hf]
  exact bind_shown fun j hj => hkind j (named_of_follow hj)

lemma view_put (hf : d'.follow ROOT_INODE = put (d.follow ROOT_INODE) l i) (hi : d'.kind i = some k)
    (hkind : ∀ j, d.Named j → d'.kind j = d.kind j) : d'.view = put d.view l (k, i) := by
  funext l'
  unfold view
  rw [hf]
  unfold put
  split_ifs with hl
  · rw [Option.bind_some, shown, hi, Option.map_some]
  · exact bind_shown fun j hj => hkind j (named_of_follow hj)

lemma view_erase (hf : d'.follow ROOT_INODE = erase (d.follow ROOT_INODE) l)
    (hkind : ∀ j, d'.Named j → d'.kind j = d.kind j) : d'.view = erase d.view l := by
  funext l'
  have hl' := congrFun hf l'
  unfold erase at hl'
  unfold view erase
  split_ifs at hl' ⊢
  · rw [hl', Option.bind_none]
  · change _ = (d.follow ROOT_INODE l').bind d.shown
    rw [← hl']
    exact bind_shown fun j hj => hkind j (named_of_follow hj)

lemma view_move (hf : d'.follow ROOT_INODE = move (d.follow ROOT_INODE) l l')
    (hkind : ∀ j, d.Named j → d'.kind j = d.kind j) : d'.view = move d.view l l' := by
  funext x
  unfold view
  rw [hf]
  unfold move
  split_ifs
  · exact bind_shown fun j hj => hkind j (named_of_follow hj)
  · exact Option.bind_none _
  · exact bind_shown fun j hj => hkind j (named_of_follow hj)

/-! ### An entry more, less, or elsewhere -/

lemma Leads.mono (hsub : ∀ x ∈ d.entries, x ∈ d'.entries) (h : d.Leads i l j) : d'.Leads i l j :=
  walk_edge.mp ((walk_edge.mpr h).mono fun _ _ _ => hsub _)

lemma not_edge_of_leaf (hleaf : ∀ x ∈ d.entries, x.parent ≠ i) (n : Str) (b : ℕ) : ¬ d.Edge i n b :=
  fun hb => hleaf _ hb rfl

/-- In a tree, an entry is an edge that leads nowhere back. -/
lemma Tree.adds (h : d'.Tree) (hmem : ∀ x, x ∈ d'.entries ↔ x ∈ d.entries ∨ x = e)
    (hnew : e ∉ d.entries) (hl : d'.Leads ROOT_INODE l e.parent) :
    Adds d.Edge d'.Edge ROOT_INODE l e.parent e.name e.inode := by
  refine .of_walk (fun a n b => ?_) d'.det_edge hnew (walk_edge.mpr hl) fun r hr => ?_
  · refine (hmem _).trans (or_congr_right ?_)
    rw [EntryRow.mk.injEq]
  · have hdir := h.parentDir e ((hmem e).mpr (Or.inr rfl))
    exact h.leads_unique hdir (walk_edge.mp hr) hl

/-- An entry more for a leaf. -/
lemma follow_put (h : d'.Tree) (hmem : ∀ x, x ∈ d'.entries ↔ x ∈ d.entries ∨ x = e)
    (hnew : e ∉ d.entries) (hleaf : ∀ x ∈ d.entries, x.parent ≠ e.inode)
    (hl : d.Leads ROOT_INODE l e.parent) :
    d'.follow ROOT_INODE = put (d.follow ROOT_INODE) (l ++ [e.name]) e.inode := by
  have hadds := h.adds hmem hnew (hl.mono fun x hx => (hmem x).mpr (Or.inl hx))
  exact (shows_follow _ _).eq (hadds.put d.det_edge (not_edge_of_leaf hleaf) (shows_follow _ _))

/-- An entry less for a leaf. -/
lemma follow_erase (h : d.Tree) (he : e ∈ d.entries)
    (hmem : ∀ x, x ∈ d'.entries ↔ x ∈ d.entries ∧ x ≠ e)
    (hleaf : ∀ x ∈ d.entries, x.parent ≠ e.inode) (hl : d.Leads ROOT_INODE l e.parent) :
    d'.follow ROOT_INODE = erase (d.follow ROOT_INODE) (l ++ [e.name]) := by
  have hadds : Adds d'.Edge d.Edge ROOT_INODE l e.parent e.name e.inode := by
    refine h.adds (fun x => ?_) (fun hx => ((hmem e).mp hx).2 rfl) hl
    rw [hmem]
    by_cases hx : x = e
    · rw [hx]
      exact iff_of_true he (Or.inr rfl)
    · simp [hx]
  have hleaf' : ∀ x ∈ d'.entries, x.parent ≠ e.inode := fun x hx => hleaf x ((hmem x).mp hx).1
  exact (shows_follow _ _).eq
    (hadds.erase d'.det_edge (not_edge_of_leaf hleaf') (shows_follow _ _))

/-- An entry elsewhere. -/
lemma follow_move (h : d.Tree) (h' : d'.Tree) (he : e ∈ d.entries)
    (hmem : ∀ x, x ∈ d'.entries ↔ (x ∈ d.entries ∧ x ≠ e) ∨ x = ⟨q, m, e.inode⟩)
    (hfree : ∀ x ∈ d.entries, ¬ (x.parent = q ∧ x.name = m)) (hq : d.Placed q)
    (hne : q ≠ e.inode) (hl : d.Leads ROOT_INODE l e.parent) (hl' : d.Leads ROOT_INODE l' q) :
    d'.follow ROOT_INODE = move (d.follow ROOT_INODE) (l ++ [e.name]) (l' ++ [m]) := by
  have hmem₀ : ∀ x, x ∈ (d.deleteEntry e.parent e.name).entries ↔ x ∈ d.entries ∧ x ≠ e :=
    fun x => mem_deleteEntry he
  have hadds : Adds (d.deleteEntry e.parent e.name).Edge d.Edge ROOT_INODE l e.parent e.name
      e.inode := by
    refine h.adds (fun x => ?_) (fun hx => ((hmem₀ e).mp hx).2 rfl) hl
    rw [hmem₀]
    by_cases hx : x = e
    · rw [hx]
      exact iff_of_true he (Or.inr rfl)
    · simp [hx]
  have hnamed : d'.Named q := by
    refine hq.1.imp_right ?_
    rintro ⟨x, hx, rfl⟩
    refine ⟨x, (hmem x).mpr (Or.inl ⟨hx, ?_⟩), rfl⟩
    rintro rfl
    exact hne rfl
  obtain ⟨r, hr⟩ := h'.exists_leads hnamed
  have hadds' : Adds (d.deleteEntry e.parent e.name).Edge d'.Edge ROOT_INODE r q m e.inode := by
    refine h'.adds (e := ⟨q, m, e.inode⟩) (fun x => ?_) (fun hx => ?_) hr
    · rw [hmem₀]
      exact hmem x
    · exact hfree _ ((hmem₀ _).mp hx).1 ⟨rfl, rfl⟩
  have hsame : r = l' := by
    have hr₀ : d.Leads ROOT_INODE r q := Leads.mono (fun x hx => ((hmem₀ x).mp hx).1)
      (walk_edge.mp hadds'.leads)
    exact h.leads_unique hq.2 hr₀ hl'
  rw [hsame] at hadds'
  exact (shows_follow _ _).eq
    (hadds.move hadds' (d.deleteEntry e.parent e.name).det_edge (shows_follow _ _))

/-! ### The effects -/

lemma follow_congr (h : d'.entries = d.entries) : d'.follow i = d.follow i := by
  have hedge : d'.Edge = d.Edge := by
    unfold Edge
    rw [h]
  exact (shows_follow d' i).eq (hedge ▸ shows_follow d i)

lemma view_congr (h : d'.entries = d.entries) (hkind : ∀ j, d'.kind j = d.kind j) :
    d'.view = d.view :=
  view_same (follow_congr h) fun j _ => hkind j

lemma Adjust.view {δ : ℕ → ℤ} (h : d.Adjust d' δ) : d'.view = d.view := view_congr h.entries h.kind

lemma SameNames.view (h : d.SameNames d') : d'.view = d.view := view_congr h.entries h.kind

lemma Tree.hasNode_of_named (h : d.Tree) (hi : d.Named i) : d.hasNode i = true := by
  rcases hi with rfl | ⟨e, he, rfl⟩
  · exact hasNode_of_kind h.rootDir
  · exact h.child e he

/-- A node that is removed is at no path. -/
lemma RemovesNode.view (h : d.Tree) (hi : i ≠ ROOT_INODE) (hr : d.RemovesNode d' i) :
    d'.view = d.view := by
  refine view_same (follow_congr (h.entries_of_removesNode hi hr)) fun j hj => ?_
  rw [hr.kind, if_neg]
  rintro rfl
  obtain ⟨x, hx, rfl⟩ := hj.resolve_left hi
  exact hr.unnamed x hx (h.parent_ne_of_unnamed hi hr.unnamed x hx) rfl

lemma Attaches.view (h : d.Tree) (ha : d.Attaches d' k e) (hl : d.Leads ROOT_INODE l e.parent) :
    d'.view = put d.view (l ++ [e.name]) (k, e.inode) := by
  have h' := h.attaches ha
  obtain ⟨-, d₁, d₂, hadd, hins, hadj⟩ := ha
  have hother : ∀ {j}, d.hasNode j = true → j ≠ e.inode := by
    intro j hj
    obtain ⟨n, hn⟩ := hasNode_iff.mp hj
    exact hadd.ne_of_kind (kind_of_info hn)
  have hmem : ∀ x, x ∈ d'.entries ↔ x ∈ d.entries ∨ x = e := by
    intro x
    rw [hadj.entries, mem_insertEntry hins, hadd.entries]
  have hkind : ∀ j, d'.kind j = if j = e.inode then some k else d.kind j := by
    intro j
    rw [hadj.kind, Db.kind, info_insertEntry hins]
    exact hadd.kind j
  refine view_put (follow_put h' hmem (fun he => hother (h.child e he) rfl) (fun x hx => ?_) hl) ?_
    fun j hj => ?_
  · exact hother (hasNode_of_kind (h.parentDir x hx))
  · rw [hkind, if_pos rfl]
  · rw [hkind, if_neg (hother (h.hasNode_of_named hj))]

lemma Links.view (h : d.Tree) (hlink : d.Links d' e) (hk : d.kind e.inode = some k)
    (hl : d.Leads ROOT_INODE l e.parent) : d'.view = put d.view (l ++ [e.name]) (k, e.inode) := by
  have h' := h.links hlink
  obtain ⟨-, -, ⟨k', hk', hdir⟩, d₁, hins, hadj⟩ := hlink
  have hleaf : ∀ x ∈ d.entries, x.parent ≠ e.inode := by
    refine fun x hx => h.parent_ne_of_notDir ?_ hx
    rw [hk']
    exact fun heq => hdir (Option.some.inj heq)
  have hmem : ∀ x, x ∈ d'.entries ↔ x ∈ d.entries ∨ x = e := by
    intro x
    rw [hadj.entries, mem_insertEntry hins]
  have hkind : ∀ j, d'.kind j = d.kind j := by
    intro j
    rw [hadj.kind, Db.kind, info_insertEntry hins]
    rfl
  refine view_put (follow_put h' hmem ?_ hleaf hl) ((hkind _).trans hk) fun j _ => hkind j
  intro he
  obtain ⟨-, -, t, ht, -⟩ := insertEntry_eq_ok.mp hins
  exact KeyTable.find?_eq_none.mp (KeyTable.insert?_eq_some.mp ht).1 e he rfl

/-- A leaf is gone, and every node that has a name keeps its kind. -/
lemma view_erase_leaf (h : d.Tree) (he : e ∈ d.entries)
    (hmem : ∀ x, x ∈ d'.entries ↔ x ∈ d.entries ∧ x ≠ e)
    (hleaf : ∀ x ∈ d.entries, x.parent ≠ e.inode) (hl : d.Leads ROOT_INODE l e.parent)
    (hkind : ∀ j, d'.Named j → d'.kind j = d.kind j) :
    d'.view = erase d.view (l ++ [e.name]) :=
  view_erase (follow_erase h he hmem hleaf hl) hkind

lemma RemovesDir.view (h : d.Tree) (hr : d.RemovesDir d' e) (hl : d.Leads ROOT_INODE l e.parent) :
    d'.view = erase d.view (l ++ [e.name]) := by
  obtain ⟨he, -, hempty, d₁, hadj, hrem⟩ := hr
  have htree₁ : d₁.Tree := Tree.adjust (h.deleteEntry he hempty) hadj
  rw [RemovesNode.view htree₁ (h.rootUnnamed e he) hrem, hadj.view]
  exact view_erase_leaf h he (fun x => mem_deleteEntry he) hempty hl fun _ _ => rfl

lemma Drops.view {n : ℕ} (h : d.Tree) (hd : d.Drops d' e n) (hl : d.Leads ROOT_INODE l e.parent) :
    d'.view = erase d.view (l ++ [e.name]) := by
  have hleaf := h.shaped.drops_leaf hd
  obtain ⟨he, -, hadj, -⟩ := hd
  rw [hadj.view]
  exact view_erase_leaf h he (fun x => mem_deleteEntry he) hleaf hl fun _ _ => rfl

section Moves
variable {isDir : Prop} [Decidable isDir]

lemma Evicts.view (h : d.Tree) (hv : d.Evicts d' isDir p t) (hl : d.Leads ROOT_INODE l t.parent) :
    d'.view = erase d.view (l ++ [t.name]) := by
  have hleaf := hv.leaf h.shaped
  obtain ⟨ht, -, -, n, d₁, -, hadj, hlast⟩ := hv
  have hview : d₁.view = erase d.view (l ++ [t.name]) := by
    rw [hadj.view]
    exact view_erase_leaf h ht (fun x => mem_deleteEntry ht) hleaf hl fun _ _ => rfl
  rw [← hview]
  split_ifs at hlast
  · have htree₁ : d₁.Tree := Tree.adjust (h.deleteEntry ht hleaf) hadj
    exact RemovesNode.view htree₁ (h.rootUnnamed t ht) hlast
  · rw [hlast]

lemma Moves.view (h : d.Tree) (he : e ∈ d.entries) (hq : d.Placed q)
    (hclear : d.kind e.inode = some .dir → q ≠ e.inode ∧ ¬ Relation.TransGen d.Up q e.inode)
    (hmove : d.Moves d' isDir e q m) (hfree : ∀ x ∈ d.entries, ¬ (x.parent = q ∧ x.name = m))
    (hl : d.Leads ROOT_INODE l e.parent) (hl' : d.Leads ROOT_INODE l' q) :
    d'.view = move d.view (l ++ [e.name]) (l' ++ [m]) := by
  have h' := h.moves he hq hclear hmove
  obtain ⟨d₁, hrun, hadj⟩ := hmove
  have hmem : ∀ x, x ∈ d'.entries ↔ (x ∈ d.entries ∧ x ≠ e) ∨ x = ⟨q, m, e.inode⟩ := by
    intro x
    rw [hadj.entries, mem_moveEntry he hrun]
  have hkind : ∀ j, d'.kind j = d.kind j := by
    intro j
    rw [hadj.kind, Db.kind, info_moveEntry he hrun]
    rfl
  have hne : q ≠ e.inode := by
    intro heq
    rw [← heq] at hclear
    exact (hclear hq.2).1 rfl
  exact view_move (follow_move h h' he hmem hfree hq hne hl hl') fun j _ => hkind j

lemma Leads.up (h : d.Leads i l j) : j = i ∨ Relation.TransGen d.Up j i := by
  induction l using List.reverseRecOn generalizing j with
  | nil => exact Or.inl h.symm
  | append_singleton init n ih =>
    obtain ⟨e, he, hinit, -, rfl⟩ := Leads.concat_iff.mp h
    have hup : d.Up e.inode e.parent := ⟨e, he, rfl, rfl⟩
    rcases ih hinit with heq | habove
    · exact Or.inr (.single (heq ▸ hup))
    · exact Or.inr (.head hup habove)

/-- Nothing moves below itself. -/
lemma MayMove.not_prefix (h : d.Tree) (hmay : d.MayMove e t.parent) (ht : t ∈ d.entries)
    (hne : t.inode ≠ e.inode) (hl : d.Leads ROOT_INODE l e.parent)
    (hl' : d.Leads ROOT_INODE l' t.parent) : ¬ l ++ [e.name] <+: l' ++ [t.name] := by
  rintro ⟨r, hr⟩
  have he : d.Leads ROOT_INODE (l ++ [e.name]) e.inode := hl.concat hmay.1
  rcases List.eq_nil_or_concat r with rfl | ⟨r, n, rfl⟩
  · rw [List.append_nil] at hr
    refine hne ((hl'.concat ht).unique ?_)
    rw [← hr]
    exact he
  · rw [List.concat_eq_append, ← List.append_assoc] at hr
    obtain ⟨hr, -⟩ := List.append_inj' hr rfl
    rw [← hr] at hl'
    obtain ⟨j, hj, hbelow⟩ := Leads.append_iff.mp hl'
    obtain rfl := hj.unique he
    have hdir : d.kind e.inode = some .dir := by
      cases r with
      | nil =>
        rw [show e.inode = t.parent from hbelow]
        exact hmay.2.2.1.2
      | cons c r =>
        obtain ⟨x, hx, hparent, -⟩ := hbelow
        rw [← hparent]
        exact h.parentDir x hx
    obtain ⟨hself, hclear⟩ := h.clear_of_mayMove hmay hdir
    rcases hbelow.up with heq | habove
    · exact hself heq
    · exact hclear habove

/-- The entry `e` takes the place of `t`. -/
lemma Evicts.view_moves {isDir' : Prop} [Decidable isDir'] {d₁ : Db} (h : d.Tree)
    (hv : d.Evicts d₁ isDir p t) (hmay : d.MayMove e t.parent) (hne : t.inode ≠ e.inode)
    (hmove : d₁.Moves d' isDir' e t.parent t.name) (hl : d.Leads ROOT_INODE l e.parent)
    (hl' : d.Leads ROOT_INODE l' t.parent) :
    d'.view = move d.view (l ++ [e.name]) (l' ++ [t.name]) := by
  have hleaf := hv.leaf h.shaped
  have ht := hv.1
  obtain ⟨he₁, hq₁, hclear₁⟩ := hv.mayMove h hmay hne
  have hmem : ∀ x, x ∈ d₁.entries ↔ x ∈ d.entries ∧ x ≠ t := fun x => hv.mem_entries h
  have hfollow := follow_erase h ht hmem hleaf hl'
  have hkeeps : ∀ {r j}, j ≠ t.inode → d.Leads ROOT_INODE r j → d₁.Leads ROOT_INODE r j := by
    intro r j hj hr
    rw [← follow_eq_some, hfollow, erase, if_neg]
    · exact follow_eq_some.mpr hr
    · rintro rfl
      exact hj (hr.unique (hl'.concat ht))
  have hfree : ∀ x ∈ d₁.entries, ¬ (x.parent = t.parent ∧ x.name = t.name) := by
    intro x hx hkey
    exact ((hmem x).mp hx).2 ((key_eq_iff ht ((hmem x).mp hx).1).mp hkey)
  rw [hmove.view (h.evicts hv) he₁ hq₁ hclear₁ hfree (hkeeps (hleaf e hmay.1) hl)
    (hkeeps (hleaf t ht) hl'), hv.view h hl']
  exact move_erase (MayMove.not_prefix h hmay ht hne hl hl')

end Moves

end Db

end SqliteFs

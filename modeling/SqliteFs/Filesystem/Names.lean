import SqliteFs.Filesystem.TreeInvariant

/-!
# What becomes of the entries and the nodes

For each way in which a call may change the tree: which entries there are afterwards, and of which
kind the nodes are.
-/

namespace SqliteFs

namespace Db

variable {d d' : Db} {e t x : EntryRow} {i j q : ℕ} {m : Str} {k : NodeKind}

lemma hasNode_eq_isSome_kind : d.hasNode i = (d.kind i).isSome := by
  rw [hasNode, kind, info, Option.isSome_map, Option.isSome_map]

/-! ### Adding a name -/

lemma Attaches.mem_entries (h : d.Attaches d' k e) : x ∈ d'.entries ↔ x ∈ d.entries ∨ x = e := by
  obtain ⟨-, d₁, d₂, hadd, hins, hadj⟩ := h
  rw [hadj.entries, mem_insertEntry hins, hadd.entries]

lemma Attaches.kind (h : d.Attaches d' k e) (j : ℕ) :
    d'.kind j = if j = e.inode then some k else d.kind j := by
  obtain ⟨-, d₁, d₂, hadd, hins, hadj⟩ := h
  rw [hadj.kind, Db.kind, info_insertEntry hins, ← Db.kind, hadd.kind]

lemma Links.mem_entries (h : d.Links d' e) : x ∈ d'.entries ↔ x ∈ d.entries ∨ x = e := by
  obtain ⟨-, -, -, d₁, hins, hadj⟩ := h
  rw [hadj.entries, mem_insertEntry hins]

lemma Links.kind (h : d.Links d' e) (j : ℕ) : d'.kind j = d.kind j := by
  obtain ⟨-, -, -, d₁, hins, hadj⟩ := h
  rw [hadj.kind, Db.kind, info_insertEntry hins]
  rfl

/-! ### Taking a name away -/

lemma RemovesDir.mem_entries (h : d.RemovesDir d' e) :
    x ∈ d'.entries ↔ x ∈ d.entries ∧ x ≠ e := by
  obtain ⟨he, -, hempty, d₁, hadj, hrem⟩ := h
  have hmem : ∀ {x}, x ∈ d₁.entries ↔ x ∈ d.entries ∧ x ≠ e := by
    intro x
    rw [hadj.entries, mem_deleteEntry he]
  rw [hrem.entries_eq fun y hy => hempty y (hmem.mp hy).1, hmem]

lemma RemovesDir.kind (h : d.RemovesDir d' e) (j : ℕ) :
    d'.kind j = if j = e.inode then none else d.kind j := by
  obtain ⟨-, -, -, d₁, hadj, hrem⟩ := h
  rw [hrem.kind, hadj.kind]
  rfl

lemma Drops.mem_entries {n : ℕ} (h : d.Drops d' e n) : x ∈ d'.entries ↔ x ∈ d.entries ∧ x ≠ e := by
  rw [h.2.2.1.entries, mem_deleteEntry h.1]

lemma Drops.kind {n : ℕ} (h : d.Drops d' e n) (j : ℕ) : d'.kind j = d.kind j := by
  rw [h.2.2.1.kind]
  rfl

section Collects
variable {connReadonly : Bool} {tab : FdTable} {n : ℕ}

lemma Collects.entries (htree : d.Tree) (hi : i ≠ ROOT_INODE) (h : d.Collects connReadonly tab n i d') :
    d'.entries = d.entries := by
  cases h with
  | removed _ _ _ hrem => exact htree.entries_of_removesNode hi hrem
  | kept _ => rfl

lemma Collects.kind_of_ne (h : d.Collects connReadonly tab n i d') (hj : j ≠ i) :
    d'.kind j = d.kind j := by
  cases h with
  | removed _ _ _ hrem => rw [hrem.kind, if_neg hj]
  | kept _ => rfl

/-- If the node is still there, something has kept it. -/
lemma Collects.kept_of_hasNode (h : d.Collects connReadonly tab n i d') (hi : d'.hasNode i = true) :
    n ≠ 0 ∨ tab.openCount i ≠ 0 ∨ connReadonly = true ∨ ∃ e ∈ d.entries, e.inode = i := by
  cases h with
  | removed _ _ _ hrem =>
    rw [hasNode_eq_isSome_kind, hrem.kind, if_pos rfl] at hi
    cases hi
  | kept h => exact h

end Collects

/-! ### Moving a name -/

section Moves
variable {isDir : Prop} [Decidable isDir]

lemma Moves.mem_entries (he : e ∈ d.entries) (h : d.Moves d' isDir e q m) :
    x ∈ d'.entries ↔ (x ∈ d.entries ∧ x ≠ e) ∨ x = ⟨q, m, e.inode⟩ := by
  obtain ⟨d₁, hmove, hadj⟩ := h
  rw [hadj.entries, mem_moveEntry he hmove]

lemma Moves.kind (he : e ∈ d.entries) (h : d.Moves d' isDir e q m) (j : ℕ) :
    d'.kind j = d.kind j := by
  obtain ⟨d₁, hmove, hadj⟩ := h
  rw [hadj.kind, Db.kind, info_moveEntry he hmove]
  rfl

/-- If the node of a replaced entry is still there, its link count does not read as one. -/
lemma Evicts.nlink_of_hasNode {p : ℕ} (h : d.Evicts d' isDir p t) (hi : d'.hasNode t.inode = true) :
    ∃ n, d.info t.inode = some n ∧ U32.ofI64 (n.nlink + -1) ≠ 0 := by
  obtain ⟨-, -, -, n, d₁, hn, -, hlast⟩ := h
  refine ⟨n, hn, fun hzero => ?_⟩
  rw [if_pos hzero] at hlast
  rw [hasNode_eq_isSome_kind, hlast.kind, if_pos rfl] at hi
  cases hi

end Moves

end Db

end SqliteFs

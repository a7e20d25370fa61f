import SqliteFs.Python.Calls
import SqliteFs.Filesystem.LinkCounts

/-!
# How the changes of a Python database keep its shape

An entry that goes, with or without its node, and two entries that change places leave the shape
of the entries as it is. A change is described by the entries it leaves and the kinds it keeps.
-/

namespace SqliteFs

open Relation

namespace Python

variable {d d' : SqliteFs.Db} {e t x : EntryRow} {i j q : ℕ} {m : Str}

/-! ### An entry that goes -/

namespace LosesName

lemma mem (h : LosesName d d' e) : e ∈ d.entries := by
  obtain ⟨n, d₁, hdrops, -⟩ := h
  exact hdrops.1

lemma notDir (h : LosesName d d' e) : d.kind e.inode ≠ some .dir := by
  obtain ⟨n, d₁, ⟨-, ⟨k, hk, hne⟩, -⟩, -⟩ := h
  rw [hk]
  exact fun hdir => hne (Option.some.inj hdir)

lemma mem_entries (hshape : d.Shaped) (h : LosesName d d' e) :
    x ∈ d'.entries ↔ x ∈ d.entries ∧ x ≠ e := by
  have hnot := h.notDir
  obtain ⟨n, d₁, ⟨he, -, hadj, -⟩, hlast⟩ := h
  have hmem : ∀ {x}, x ∈ d₁.entries ↔ x ∈ d.entries ∧ x ≠ e := by
    intro x
    rw [hadj.entries, SqliteFs.Db.mem_deleteEntry he]
  rcases hlast with rfl | hrem
  · exact hmem
  · rw [hrem.entries_eq fun y hy => hshape.parent_ne_of_notDir hnot (hmem.mp hy).1, hmem]

/-- Directories stay, and there are no new ones. -/
lemma dir_iff (h : LosesName d d' e) : d'.kind j = some .dir ↔ d.kind j = some .dir := by
  have hnot := h.notDir
  obtain ⟨n, d₁, ⟨-, -, hadj, -⟩, hlast⟩ := h
  have hkind : d₁.kind j = d.kind j := hadj.kind j
  rcases hlast with rfl | hrem
  · rw [hkind]
  · rw [hrem.kind, hkind]
    split_ifs with hj
    · rw [hj]
      exact iff_of_false (fun h => nomatch h) hnot
    · rfl

lemma shaped (hshape : d.Shaped) (h : LosesName d d' e) : d'.Shaped := by
  obtain ⟨n, d₁, hdrops, hlast⟩ := h
  rcases hlast with rfl | hrem
  · exact hshape.drops hdrops
  · exact (hshape.drops hdrops).removesNode hrem

end LosesName

namespace LosesDir

lemma mem_entries (h : LosesDir d d' e) : x ∈ d'.entries ↔ x ∈ d.entries ∧ x ≠ e := by
  obtain ⟨he, -, hempty, hrem⟩ := h
  have hmem : ∀ {x}, x ∈ (d.deleteEntry e.parent e.name).entries ↔ x ∈ d.entries ∧ x ≠ e :=
    SqliteFs.Db.mem_deleteEntry he
  rw [hrem.entries_eq fun y hy => hempty y (hmem.mp hy).1, hmem]

lemma kind_eq (h : LosesDir d d' e) (hj : j ≠ e.inode) : d'.kind j = d.kind j := by
  obtain ⟨-, -, -, hrem⟩ := h
  rw [hrem.kind, if_neg hj]
  rfl

lemma shaped (hshape : d.Shaped) (h : LosesDir d d' e) : d'.Shaped :=
  (hshape.deleteEntry h.1).removesNode h.2.2.2

end LosesDir

/-! ### The destination of a rename -/

namespace Clears

variable {o : Option EntryRow}

lemma mem_entries (hshape : d.Shaped) (h : Clears d d' o) :
    x ∈ d'.entries ↔ x ∈ d.entries ∧ o ≠ some x := by
  cases o with
  | none =>
    obtain rfl : d' = d := h
    simp
  | some t =>
    rw [ne_eq, Option.some.injEq, eq_comm (a := t)]
    rcases h with h | h
    · exact h.mem_entries
    · exact h.mem_entries hshape

lemma shaped (hshape : d.Shaped) (h : Clears d d' o) : d'.Shaped := by
  cases o with
  | none =>
    obtain rfl : d' = d := h
    exact hshape
  | some t =>
    rcases h with h | h
    · exact h.shaped hshape
    · exact h.shaped hshape

/-- What another entry names, or nothing, is a directory as it was before. -/
lemma dir_iff (h : Clears d d' o)
    (hj : ∀ t, o = some t → d.kind t.inode = some .dir → j ≠ t.inode) :
    d'.kind j = some .dir ↔ d.kind j = some .dir := by
  cases o with
  | none =>
    obtain rfl : d' = d := h
    rfl
  | some t =>
    rcases h with h | h
    · rw [h.kind_eq (hj t rfl h.2.1)]
    · exact h.dir_iff

/-- The directory in which room is made stays one. -/
lemma dir_parent (h : Clears d d' o) (hfound : d.entries.find? (q, m) = o) :
    d'.kind q = some .dir ↔ d.kind q = some .dir := by
  refine h.dir_iff ?_
  rintro t rfl hdir rfl
  obtain ⟨ht, hkey⟩ := KeyTable.find?_eq_some.mp hfound
  rcases h with h | h
  · exact h.2.2.1 t ht (Prod.mk.inj hkey).1
  · exact h.notDir hdir

/-- The entry that moves is not the one that makes room for it. -/
lemma mem_source (hshape : d.Shaped) (h : Clears d d' o) (hfound : d.entries.find? (q, m) = o)
    (he : e ∈ d.entries) (hne : ¬ (e.parent = q ∧ e.name = m)) : e ∈ d'.entries := by
  refine (h.mem_entries hshape).mpr ⟨he, ?_⟩
  rintro rfl
  exact hne (Prod.mk.inj (KeyTable.find?_eq_some.mp hfound).2)

/-- No directory is in the way of itself. -/
lemma ne_of_source (hshape : d.Shaped) (hfound : d.entries.find? (q, m) = some t)
    (he : e ∈ d.entries) (hne : ¬ (e.parent = q ∧ e.name = m))
    (hdir : d.kind t.inode = some .dir) : e.inode ≠ t.inode := by
  obtain ⟨ht, hkey⟩ := KeyTable.find?_eq_some.mp hfound
  intro heq
  obtain rfl := hshape.oneName t ht e he heq.symm hdir
  exact hne (Prod.mk.inj hkey)

end Clears

/-! ### An exchange -/

/-- The steps of an exchange, with the entries that they leave. -/
lemma Exchanges.steps (h : Exchanges d d' e t) (he : e ∈ d.entries) (ht : t ∈ d.entries)
    (hne : ¬ (e.parent = t.parent ∧ e.name = t.name))
    (hfree : d.entries.find? (t.parent, Filesystem.swapTmp) = none) :
    ∃ d₁ d₂ d₃, d.moveEntry e.parent e.name t.parent Filesystem.swapTmp = .ok d₁ ∧
      t ∈ d₁.entries ∧ d₁.moveEntry t.parent t.name e.parent e.name = .ok d₂ ∧
      (⟨t.parent, Filesystem.swapTmp, e.inode⟩ : EntryRow) ∈ d₂.entries ∧
      d₂.moveEntry t.parent Filesystem.swapTmp t.parent t.name = .ok d₃ ∧ d₃.Adjust d' 0 ∧
      (∀ x, x ∈ d₁.entries ↔ (x ∈ d.entries ∧ x ≠ e) ∨
        x = ⟨t.parent, Filesystem.swapTmp, e.inode⟩) ∧
      ∀ x, x ∈ d₃.entries ↔ (x ∈ d.entries ∧ x ≠ e ∧ x ≠ t) ∨ x = ⟨e.parent, e.name, t.inode⟩ ∨
        x = ⟨t.parent, t.name, e.inode⟩ := by
  obtain ⟨d₁, d₂, d₃, h₁, h₂, h₃, hadj⟩ := h
  have hte : t ≠ e := by
    rintro rfl
    exact hne ⟨rfl, rfl⟩
  have hmem₁ : ∀ x, x ∈ d₁.entries ↔ (x ∈ d.entries ∧ x ≠ e) ∨
      x = ⟨t.parent, Filesystem.swapTmp, e.inode⟩ := fun x => SqliteFs.Db.mem_moveEntry he h₁
  have ht₁ : t ∈ d₁.entries := (hmem₁ t).mpr (Or.inl ⟨ht, hte⟩)
  have hmem₂ : ∀ x, x ∈ d₂.entries ↔ (x ∈ d₁.entries ∧ x ≠ t) ∨ x = ⟨e.parent, e.name, t.inode⟩ :=
    fun x => SqliteFs.Db.mem_moveEntry ht₁ h₂
  have hold : ∀ x ∈ d.entries, x ≠ ⟨t.parent, Filesystem.swapTmp, e.inode⟩ := by
    rintro x hx rfl
    exact KeyTable.find?_eq_none.mp hfree _ hx rfl
  have htmp₂ : (⟨t.parent, Filesystem.swapTmp, e.inode⟩ : EntryRow) ∈ d₂.entries :=
    (hmem₂ _).mpr (Or.inl ⟨(hmem₁ _).mpr (Or.inr rfl), (hold t ht).symm⟩)
  refine ⟨d₁, d₂, d₃, h₁, ht₁, h₂, htmp₂, h₃, hadj, hmem₁, fun x => ?_⟩
  rw [SqliteFs.Db.mem_moveEntry htmp₂ h₃, hmem₂, hmem₁]
  constructor
  · rintro (⟨⟨⟨hx, hxe⟩ | rfl, hxt⟩ | rfl, hne'⟩ | rfl)
    · exact Or.inl ⟨hx, hxe, hxt⟩
    · exact absurd rfl hne'
    · exact Or.inr (Or.inl rfl)
    · exact Or.inr (Or.inr rfl)
  · rintro (⟨hx, hxe, hxt⟩ | rfl | rfl)
    · exact Or.inl ⟨Or.inl ⟨Or.inl ⟨hx, hxe⟩, hxt⟩, hold x hx⟩
    · refine Or.inl ⟨Or.inr rfl, fun heq => ?_⟩
      -- the old place of `e` is not the temporary one, which was free
      obtain ⟨hp, hn, -⟩ := EntryRow.mk.inj heq
      exact KeyTable.find?_eq_none.mp hfree e he (Prod.ext hp hn)
    · exact Or.inr rfl

section Exchanges
variable (he : e ∈ d.entries) (ht : t ∈ d.entries)
  (hne : ¬ (e.parent = t.parent ∧ e.name = t.name))
  (hfree : d.entries.find? (t.parent, Filesystem.swapTmp) = none)
include he ht hne hfree

lemma Exchanges.mem_entries (h : Exchanges d d' e t) : x ∈ d'.entries ↔
    (x ∈ d.entries ∧ x ≠ e ∧ x ≠ t) ∨ x = ⟨e.parent, e.name, t.inode⟩ ∨
      x = ⟨t.parent, t.name, e.inode⟩ := by
  obtain ⟨d₁, d₂, d₃, -, -, -, -, -, hadj, -, hmem⟩ := h.steps he ht hne hfree
  rw [hadj.entries]
  exact hmem x

lemma Exchanges.kind_eq (h : Exchanges d d' e t) (j : ℕ) : d'.kind j = d.kind j := by
  obtain ⟨d₁, d₂, d₃, h₁, ht₁, h₂, htmp₂, h₃, hadj, -, -⟩ := h.steps he ht hne hfree
  rw [hadj.kind]
  unfold SqliteFs.Db.kind
  rw [SqliteFs.Db.info_moveEntry htmp₂ h₃, SqliteFs.Db.info_moveEntry ht₁ h₂,
    SqliteFs.Db.info_moveEntry he h₁]

lemma Exchanges.shaped (hshape : d.Shaped) (h : Exchanges d d' e t) : d'.Shaped := by
  have hp := hshape.parentDir e he
  have hq := hshape.parentDir t ht
  obtain ⟨d₁, d₂, d₃, h₁, ht₁, h₂, htmp₂, h₃, hadj, -, -⟩ := h.steps he ht hne hfree
  have hkind₁ : ∀ j, d₁.kind j = d.kind j := fun j => by
    rw [SqliteFs.Db.kind, SqliteFs.Db.info_moveEntry he h₁]
    rfl
  have hkind₂ : ∀ j, d₂.kind j = d.kind j := fun j => by
    rw [SqliteFs.Db.kind, SqliteFs.Db.info_moveEntry ht₁ h₂]
    exact hkind₁ j
  have hshape₂ := (hshape.moveEntry he h₁ hq).moveEntry ht₁ h₂ ((hkind₁ _).trans hp)
  exact (hshape₂.moveEntry htmp₂ h₃ ((hkind₂ _).trans hq)).adjust hadj

end Exchanges

/-! ### Every effect -/

/-- The move of a plain rename keeps the shape. -/
lemma shaped_replaces {d₁ : SqliteFs.Db} {o : Option EntryRow} (hshape : d.Shaped)
    (hmay : d.MayMove e q) (hne : ¬ (e.parent = q ∧ e.name = m))
    (hfound : d.entries.find? (q, m) = o) (hclears : Clears d d₁ o)
    (hmoves : d₁.Moves d' False e q m) : d'.Shaped :=
  (hclears.shaped hshape).moves (hclears.mem_source hshape hfound hmay.1 hne)
    ((hclears.dir_parent hfound).mpr hmay.2.2.1.2) hmoves

/-- The entries keep their shape, whatever the calls. -/
lemma Core.shaped_effect {c c' : Core} {l : Label} (h : c.names.Shaped) (he : Effect c l c') :
    c'.names.Shaped := by
  cases he with
  | quiet hsame _ => exact h.sameNames hsame
  | opens hsame => exact h.sameNames hsame
  | attaches hroot _ ha => exact h.attaches hroot ha
  | creates hroot _ ha => exact h.attaches hroot ha
  | links hroot _ hl => exact h.links hroot hl
  | removesDir hr => exact h.removesDir hr
  | unlinks hl => exact hl.shaped h
  | closes _ hc =>
    rcases hc with rfl | ⟨-, -, -, hrem⟩
    · exact h
    · exact h.removesNode hrem
  | replaces hmay _ hne hfound _ hclears hmoves =>
    exact shaped_replaces h hmay hne hfound hclears hmoves
  | swaps hmay ht hne hfree _ hex => exact hex.shaped hmay.1 ht hne hfree h
  | reopens => exact h

namespace Filesystem

/-- What a new filesystem consists of. -/
lemma fresh_tables {s : Filesystem} (h : Fresh s) : (∀ e, e ∉ s.conn.entries) ∧
    (∃ uid gid now, s.conn.nodes = KeyTable.empty.put (rootRow uid gid now)) ∧
    s.fdTable = .new ∧ s.pathCache = .empty := by
  obtain ⟨chunkSize, ownerUid, ownerGid, now, d, readonly, uid, gid, hd, rfl⟩ := h
  obtain ⟨_, -, h₁⟩ := bind_res_eq_ok.mp hd
  obtain ⟨_, -, h₂⟩ := bind_res_eq_ok.mp h₁
  obtain rfl := Except.ok.inj h₂
  exact ⟨fun e => KeyTable.not_mem_empty e, ⟨ownerUid, ownerGid, now, rfl⟩, rfl, rfl⟩

/-- The root directory is the only node of a new filesystem. -/
lemma info_fresh {s : Filesystem} (h : Fresh s) (i : ℕ) :
    s.conn.skeleton.info i = if i = ROOT_INODE then some ⟨.dir, 0, 2⟩ else none := by
  obtain ⟨-, ⟨uid, gid, now, hnodes⟩, -⟩ := fresh_tables h
  rw [Db.info_skeleton, hnodes, KeyTable.find?_put]
  by_cases hi : i = ROOT_INODE
  · subst hi
    rfl
  · have hkey : Keyed.key (rootRow uid gid now) ≠ i := Ne.symm hi
    rw [if_neg hkey, if_neg hi]
    rfl

lemma shaped_fresh {s : Filesystem} (h : Fresh s) : s.conn.skeleton.Shaped := by
  obtain ⟨hnone, -⟩ := fresh_tables h
  exact ⟨fun e he => absurd he (hnone e), fun e he => absurd he (hnone e),
    fun e he => absurd he (hnone e), fun e he => absurd he (hnone e)⟩

/-- The entries keep their shape along every run. -/
lemma shaped_runsTo {Ok : Filesystem → Call → Prop} {s : Filesystem} (h : RunsTo Ok s) :
    s.conn.skeleton.Shaped := by
  refine Run.invariant (P := fun s => s.conn.skeleton.Shaped) (fun _ => shaped_fresh)
    (fun s call _ _ hs => ?_) h
  obtain ⟨l, -, he⟩ := call.effect s
  exact Core.shaped_effect (c := s.core) hs he

end Filesystem

end Python

end SqliteFs

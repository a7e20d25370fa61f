import SqliteFs.Filesystem.FailedCalls
import SqliteFs.Filesystem.Kinds
import SqliteFs.Filesystem.WritePermission
import SqliteFs.Lib.Success

/-!
# When a path operation returns

For each operation that takes a path: what it has to find for it to return `Ok`. The transactions
that the operations make do not fail by themselves: what could violate a constraint has been
checked before, except that a name may be taken, and that a count may have wrapped around.
-/

namespace SqliteFs

open Txn

namespace Filesystem

variable {s : Filesystem} {clock : Clock} {path name : Str} {i p : ℕ} {row : NodeRow}

/-! ### Rules -/

section Rules
variable {α β : Type} {f : β → Action α}

lemma returns_ask {q : Filesystem → Res β} :
    Prog.Returns (ask q >>= f) s ↔ ∃ b, q s = .ok b ∧ Prog.Returns (f b) s :=
  Prog.returns_bind_query

lemma returns_require {f : PUnit → Action α} {c : Prop} [Decidable c] {e : Error} :
    Prog.Returns (require c e >>= f) s ↔ c ∧ Prog.Returns (f ⟨⟩) s :=
  Prog.returns_bind_ensure

lemma returns_requireWritable {f : PUnit → Action α} :
    Prog.Returns (requireWritable >>= f) s ↔ s.readonly = false ∧ Prog.Returns (f ⟨⟩) s := by
  by_cases hw : s.readonly = false
  · rw [Prog.returns_congr (requireWritable_bind hw)]
    exact (and_iff_right hw).symm
  · have hrun : (requireWritable >>= f) s = ⟨.error (.error .readOnlyFilesystem), s, []⟩ := by
      refine ask_bind_error ?_
      rw [Bool.not_eq_false] at hw
      rw [hw]
      rfl
    exact iff_of_false (Prog.not_returns_of_error hrun) fun h => hw h.1

/-- The path leads to the node `i`, with the row `row`. -/
def Finds (s : Filesystem) (path : Str) (i : ℕ) (row : NodeRow) : Prop :=
  resolveToInode s.conn path = .ok i ∧ Nodes.get s.conn i = .ok row

/-- The caller has the access to a node with this row. -/
def Allows (s : Filesystem) (row : NodeRow) (access : Access) : Prop :=
  checkAccess row.mode row.uid row.gid s.callerUid s.callerGid access = true

lemma returns_find {f : ℕ → NodeRow → Action α} :
    Prog.Returns (resolve path >>= fun i => getNode i >>= f i) s ↔
      ∃ i row, Finds s path i row ∧ Prog.Returns (f i row) s := by
  unfold resolve getNode Finds
  rw [returns_ask]
  constructor
  · rintro ⟨i, hi, h⟩
    obtain ⟨row, hrow, h⟩ := returns_ask.mp h
    exact ⟨i, row, ⟨hi, hrow⟩, h⟩
  · rintro ⟨i, row, ⟨hi, hrow⟩, h⟩
    exact ⟨i, hi, returns_ask.mpr ⟨row, hrow, h⟩⟩

lemma returns_access {f : Unit → Action α} {access : Access} :
    Prog.Returns (requireAccessTo row access >>= f) s ↔
      Allows s row access ∧ Prog.Returns (f ()) s := by
  unfold requireAccessTo
  rw [returns_ask]
  simp only [requireAccess_eq_ok, exists_and_left]
  exact and_congr_right fun _ => Unique.exists_iff

lemma returns_caller {f : UInt32 × UInt32 → Action α} :
    Prog.Returns (caller >>= f) s ↔ Prog.Returns (f (s.callerUid, s.callerGid)) s := by
  unfold caller
  rw [returns_ask]
  simp only [Except.ok.injEq, exists_eq_left']

lemma returns_tx {b : Sql β} (hw : s.readonly = false) : Prog.Returns (tx b >>= f) s ↔
    ∃ a d, b s.conn = .ok (a, d) ∧ Prog.Returns (f a) { s with conn := d } := by
  rw [Prog.returns_congr (Prog.bind_congr (tx_apply hw))]
  exact Prog.returns_bind_transaction

/-- A transaction after which nothing fails any more. -/
lemma returns_tx_of {b : Sql β} (hw : s.readonly = false) (hf : ∀ a s', Prog.Returns (f a) s') :
    Prog.Returns (tx b >>= f) s ↔ Body.Returns b s.conn := by
  rw [returns_tx hw]
  refine exists_congr fun a => exists_congr fun d => ?_
  exact and_iff_left (hf a _)

lemma returns_answer {α : Type} {f : α → Reply} {p : Action α} :
    Prog.Returns (answer f p) s ↔ Prog.Returns p s := by
  unfold Prog.Returns
  rw [answer_apply]
  cases (p s).result with
  | ok a => exact iff_of_true ⟨_, rfl⟩ ⟨_, rfl⟩
  | error e =>
    refine iff_of_false ?_ ?_
    · rintro ⟨_, h⟩
      cases h
    · rintro ⟨_, h⟩
      cases h

lemma returns_emit {clock : Clock} {kind : EventKind} {nodeKind : NodeKind} {src dst : Option Str} :
    Prog.Returns (emit clock kind path nodeKind i src dst) s := ⟨⟨⟩, rfl⟩

end Rules

/-! ### Operations that only read -/

lemma mapM_isOk {α β : Type} {l : List α} {f : α → Res β} (h : ∀ a ∈ l, ∃ b, f a = .ok b) :
    ∃ bs, l.mapM f = .ok bs := by
  induction l with
  | nil => exact ⟨[], rfl⟩
  | cons a l ih =>
    obtain ⟨ha, hl⟩ := List.forall_mem_cons.mp h
    obtain ⟨b, hb⟩ := ha
    obtain ⟨bs, hbs⟩ := ih hl
    refine ⟨b :: bs, ?_⟩
    rw [List.mapM_cons, hb, hbs]
    rfl

lemma stat_returns : Prog.Returns (stat path) s ↔ ∃ i row, Finds s path i row := by
  unfold stat
  rw [returns_find]
  simp only [Prog.returns_pure, and_true]

lemma readdir_returns_iff (htree : s.conn.Tree) : Prog.Returns (readdir path) s ↔
    ∃ i row, Finds s path i row ∧ row.kind = .dir ∧ Allows s row Access.R := by
  unfold readdir
  rw [returns_find]
  simp only [returns_require, returns_access]
  refine exists_congr fun i => exists_congr fun row => and_congr_right fun _ =>
    and_congr_right fun _ => and_iff_left ?_
  refine mapM_isOk fun e he => ?_
  have hmem : e ∈ s.conn.entries :=
    (KeyTable.mem_select.mp ((List.perm_insertionSort _ _).mem_iff.mp he)).1
  obtain ⟨n, hn⟩ := Db.hasNode_iff.mp (htree.child e hmem)
  obtain ⟨child, hchild, -⟩ := Nodes.get_of_kind (Db.kind_of_info hn)
  refine ⟨⟨e.name, child.kind, e.inode⟩, ?_⟩
  rw [hchild]
  rfl

lemma fsyncdir_returns : Prog.Returns (fsyncdir path) s ↔
    ∃ i row, Finds s path i row ∧ row.kind = .dir := by
  unfold fsyncdir
  rw [returns_find]
  refine exists_congr fun i => exists_congr fun row => and_congr_right fun _ => ?_
  refine Prog.returns_query.trans ?_
  split_ifs with hdir
  · exact iff_of_true ⟨⟨⟩, rfl⟩ hdir
  · refine iff_of_false ?_ hdir
    rintro ⟨_, h⟩
    cases h

lemma watch_returns {recursive : Bool} : Prog.Returns (watch path recursive) s ↔
    ∃ i row, Finds s path i row ∧ row.kind = .dir ∧ Allows s row Access.R := by
  unfold watch
  rw [returns_find]
  simp only [returns_require, returns_access]
  exact exists_congr fun i => exists_congr fun row => and_congr_right fun _ =>
    and_congr_right fun _ => and_iff_left ⟨_, rfl⟩

lemma readlink_returns : Prog.Returns (readlink path) s ↔
    ∃ i row, Finds s path i row ∧ row.kind = .symlink ∧ ∃ target, Symlinks.get s.conn i = .ok target := by
  unfold readlink
  rw [returns_find]
  simp only [returns_require]
  exact Iff.rfl

lemma getxattr_returns : Prog.Returns (getxattr path name) s ↔
    ∃ i row, Finds s path i row ∧ Allows s row Access.R ∧
      ∃ value, Xattrs.get s.conn i name = .ok value := by
  unfold getxattr
  rw [returns_find]
  simp only [returns_access]
  exact Iff.rfl

lemma listxattr_returns : Prog.Returns (listxattr path) s ↔
    ∃ i row, Finds s path i row ∧ Allows s row Access.R := by
  unfold listxattr
  rw [returns_find]
  simp only [returns_access]
  exact exists_congr fun i => exists_congr fun row => and_congr_right fun _ =>
    and_iff_left ⟨_, rfl⟩

/-! ### Opening files -/

lemma returns_checkOpenAccess {α : Type} {f : PUnit → Action α} {flags : Flags} :
    Prog.Returns (checkOpenAccess row flags >>= f) s ↔
      (checkOpenAccess row flags s).result = .ok ⟨⟩ ∧ Prog.Returns (f ⟨⟩) s := by
  unfold checkOpenAccess
  rw [returns_access]
  refine and_congr_left fun _ => ?_
  exact requireAccess_eq_ok.symm

lemma emptyFile_returns {size chunkSize : ℕ} {d : Db} :
    Body.Returns (emptyFile clock i size chunkSize) d ↔ size = 0 ∨ chunkSize ≠ 0 := by
  constructor
  · intro h
    by_contra hnot
    rw [not_or, not_not] at hnot
    obtain ⟨hsize, rfl⟩ := hnot
    obtain ⟨a, d', hrun⟩ := h
    rw [emptyFile_panics hsize] at hrun
    cases hrun
  · intro h
    by_cases hsize : size = 0
    · rw [hsize]
      exact ⟨⟨⟩, _, rfl⟩
    · obtain ⟨d', hd'⟩ := truncateTo_empties hsize (h.resolve_left hsize)
      exact ⟨⟨⟩, _, Body.bind_eq_ok.mpr ⟨⟨⟩, d', hd', update_eq_ok.mpr rfl⟩⟩

lemma open_returns {flags : Flags} : Prog.Returns (open_ clock path flags) s ↔
    ∃ i row, MayOpen s path flags i row ∧
      (flags &&& Libc.O_TRUNC ≠ 0 → row.size = 0 ∨ s.chunkSize ≠ 0) := by
  unfold open_
  rw [returns_find]
  simp only [returns_require, returns_checkOpenAccess]
  refine exists_congr fun i => exists_congr fun row => ?_
  by_cases htrunc : flags &&& Libc.O_TRUNC = 0
  · rw [if_pos htrunc]
    constructor
    · rintro ⟨⟨hi, hrow⟩, hfile, haccess, -⟩
      exact ⟨⟨hi, hrow, hfile, haccess, fun h => absurd htrunc h⟩, fun h => absurd htrunc h⟩
    · rintro ⟨hmay, -⟩
      exact ⟨⟨hmay.resolved, hmay.node⟩, hmay.notDir, hmay.access, ⟨_, rfl⟩⟩
  · rw [if_neg htrunc]
    have htx (hw : s.readonly = false) : Prog.Returns (tx (emptyFile clock i row.size s.chunkSize)
        >>= fun _ => openFd i flags) s ↔ row.size = 0 ∨ s.chunkSize ≠ 0 := by
      rw [returns_tx_of hw fun _ _ => ⟨_, rfl⟩, emptyFile_returns]
    have hrest : Prog.Returns (do
        requireWritable
        let chunkSize ← ask fun s => .ok s.chunkSize
        tx (emptyFile clock i row.size chunkSize)
        openFd i flags) s ↔ s.readonly = false ∧ (row.size = 0 ∨ s.chunkSize ≠ 0) := by
      rw [returns_requireWritable, returns_ask]
      simp only [Except.ok.injEq, exists_eq_left']
      exact and_congr_right htx
    constructor
    · rintro ⟨⟨hi, hrow⟩, hfile, haccess, h⟩
      obtain ⟨hw, hsize⟩ := hrest.mp h
      exact ⟨⟨hi, hrow, hfile, haccess, fun _ => hw⟩, fun _ => hsize⟩
    · rintro ⟨hmay, hsize⟩
      exact ⟨⟨hmay.resolved, hmay.node⟩, hmay.notDir, hmay.access,
        hrest.mpr ⟨hmay.writable htrunc, hsize htrunc⟩⟩

/-! ### Adding names -/

/-- The path names a place for a new entry, and the caller may add it. -/
structure MayAdd (s : Filesystem) (path : Str) (p : ℕ) (n : Str) : Prop where
  writable : s.readonly = false
  resolved : resolveParentAndName s.conn path = .ok (p, n)
  parentDir : s.conn.kind p = some .dir
  access : MayChange s p
  free : s.conn.entries.find? (p, n) = none

/-- The checks of a new entry's parent. -/
lemma returns_parent {α : Type} {k : Action α} {e : Error} :
    Prog.Returns (getNode p >>= fun row => require (row.kind = .dir) e >>= fun _ =>
      requireAccessTo row (Access.W ||| Access.X) >>= fun _ => k) s ↔
      s.conn.kind p = some .dir ∧ MayChange s p ∧ Prog.Returns k s := by
  unfold getNode MayChange
  rw [returns_ask]
  simp only [returns_require, returns_access, requireAccess_eq_ok]
  constructor
  · rintro ⟨row, hrow, hdir, haccess, hk⟩
    exact ⟨(Nodes.kind_of_get hrow).trans (congrArg some hdir), ⟨row, hrow, haccess⟩, hk⟩
  · rintro ⟨hkind, ⟨row, hrow, haccess⟩, hk⟩
    rw [Nodes.kind_of_get hrow] at hkind
    exact ⟨row, hrow, Option.some.inj hkind, haccess, hk⟩

section Attach
variable {β : Type} {d : Db} {kind : NodeKind} {mode uid gid : UInt32} {now : ℤ} {n : Str}

lemma Nodes.insert_isOk (d : Db) (kind : NodeKind) (mode uid gid : UInt32) (now : ℤ) :
    ∃ i d', Nodes.insert kind mode uid gid now d = .ok (i, d') := by
  obtain ⟨t, ht⟩ := KeyTable.insert?_isSome (t := d.nodes) (r := ⟨d.nextInode, kind, mode, uid, gid,
    0, now, now, now, if kind = .dir then 2 else 1⟩) |>.mpr d.find?_nextInode
  exact ⟨_, _, Body.ask_bind_eq_ok.mpr ⟨_, rfl, stmt_bind_eq_ok.mpr
    ⟨_, Db.insertNode_eq_ok.mpr ⟨t, ht, rfl⟩, Body.pure_eq_ok.mpr ⟨rfl, rfl⟩⟩⟩⟩

lemma Nodes.insert_symlinks {d' : Db} (h : Nodes.insert kind mode uid gid now d = .ok (i, d')) :
    d'.symlinks = d.symlinks := by
  obtain ⟨j, -, h⟩ := Body.ask_bind_eq_ok.mp h
  obtain ⟨d₁, hins, h⟩ := stmt_bind_eq_ok.mp h
  obtain ⟨-, rfl⟩ := Body.pure_eq_ok.mp h
  obtain ⟨t, -, rfl⟩ := Db.insertNode_eq_ok.mp hins
  rfl

lemma Nodes.updateTimes_returns (i : ℕ) (a m c : Option ℤ) (d : Db) :
    Body.Returns (Nodes.updateTimes i a m c) d := by
  unfold Nodes.updateTimes
  split_ifs
  · exact Body.returns_pure _ d
  · exact ⟨_, _, rfl⟩

lemma Nodes.changeNlink_returns {delta now : ℤ} {f : ℕ → Sql β} (hi : d.hasNode i = true)
    (hf : ∀ n d', d.Adjust d' (Pi.single i delta) → Body.Returns (f n) d') :
    Body.Returns (Nodes.changeNlink i delta now >>= f) d := by
  obtain ⟨n, d', hd'⟩ := Nodes.changeNlink_isOk hi delta now
  exact .bind hd' (hf n d' (Nodes.changeNlink_ok hd').1)

/-- A new node gets its name if the name is free. -/
lemma attach_returns {rest : ℕ → Sql β} (hp : d.hasNode p = true)
    (hrest : ∀ i d₁ d₂, Nodes.insert kind mode uid gid now d = .ok (i, d₁) →
      d₁.insertEntry ⟨p, n, i⟩ = .ok d₂ → Body.Returns (rest i) d₂) :
    Body.Returns (do
      let i ← Nodes.insert kind mode uid gid now
      Entries.insert p n i
      rest i) d ↔ d.entries.find? (p, n) = none := by
  rw [Body.returns_bind]
  constructor
  · rintro ⟨i, d₁, hins, h⟩
    obtain ⟨_, d₂, hent, -⟩ := Body.returns_bind.mp h
    obtain ⟨-, -, t, ht, -⟩ := Db.insertEntry_eq_ok.mp (Entries.insert_eq_ok.mp hent)
    rw [← (Nodes.insert_ok hins).entries]
    exact (KeyTable.insert?_eq_some.mp ht).1
  · intro hfree
    obtain ⟨i, d₁, hins⟩ := Nodes.insert_isOk d kind mode uid gid now
    have hadd := Nodes.insert_ok hins
    rw [← hadd.entries] at hfree
    obtain ⟨t, ht⟩ := KeyTable.insert?_isSome (r := (⟨p, n, i⟩ : EntryRow)) |>.mpr hfree
    have hent : d₁.insertEntry ⟨p, n, i⟩ = .ok { d₁ with entries := t } :=
      Db.insertEntry_eq_ok.mpr ⟨hadd.hasNode_of_hasNode hp, hadd.hasNode, t, ht, rfl⟩
    exact ⟨i, d₁, hins, .bind (Entries.insert_eq_ok (u := ⟨⟩) |>.mpr hent) (hrest i d₁ _ hins hent)⟩

lemma hasNode_of_attach {d₁ d₂ : Db} (hent : d₁.insertEntry ⟨p, n, i⟩ = .ok d₂) : d₂.hasNode i = true ∧ d₂.hasNode p = true := by
  obtain ⟨hp, hi, t, -, rfl⟩ := Db.insertEntry_eq_ok.mp hent
  exact ⟨hi, hp⟩

end Attach

/-- An operation that adds an entry, where all that can fail after the checks is that the name is
taken. -/
lemma returns_addEntry {α : Type} {f : ℕ × Str → Action α}
    (hf : ∀ p n, s.readonly = false → (Prog.Returns (f (p, n)) s ↔
      s.conn.kind p = some .dir ∧ MayChange s p ∧ s.conn.entries.find? (p, n) = none)) :
    Prog.Returns (requireWritable >>= fun _ => resolveParent path >>= f) s ↔
      ∃ p n, MayAdd s path p n := by
  rw [returns_requireWritable]
  unfold resolveParent
  rw [returns_ask]
  constructor
  · rintro ⟨hw, ⟨p, n⟩, hresolved, h⟩
    obtain ⟨hdir, haccess, hfree⟩ := (hf p n hw).mp h
    exact ⟨p, n, hw, hresolved, hdir, haccess, hfree⟩
  · rintro ⟨p, n, h⟩
    exact ⟨h.writable, (p, n), h.resolved,
      (hf p n h.writable).mpr ⟨h.parentDir, h.access, h.free⟩⟩

lemma mkdir_returns {mode : UInt32} :
    Prog.Returns (mkdir clock path mode) s ↔ ∃ p n, MayAdd s path p n := by
  refine returns_addEntry fun p n hw => ?_
  refine returns_parent.trans (and_congr_right fun hdir => and_congr_right fun _ => ?_)
  rw [returns_caller, returns_tx_of hw fun _ _ => returns_emit]
  refine attach_returns (Db.hasNode_of_kind hdir) fun i d₁ d₂ hins hent => ?_
  refine Nodes.changeNlink_returns (hasNode_of_attach hent).2 fun _ d₃ _ => ?_
  obtain ⟨u, d₄, hd₄⟩ := Nodes.updateTimes_returns p none (some clock.now) (some clock.now) d₃
  exact .bind hd₄ (Body.returns_pure i d₄)

lemma symlink_returns {target : Bytes} (howned : s.conn.Owned) :
    Prog.Returns (symlink clock target path) s ↔ ∃ p n, MayAdd s path p n := by
  refine returns_addEntry fun p n hw => ?_
  refine returns_parent.trans (and_congr_right fun hdir => and_congr_right fun _ => ?_)
  rw [returns_caller, returns_tx_of hw fun _ _ => returns_emit]
  refine attach_returns (Db.hasNode_of_kind hdir) fun i d₁ d₂ hins hent => ?_
  have hnode := (hasNode_of_attach hent).1
  obtain ⟨-, -, t, -, rfl⟩ := Db.insertEntry_eq_ok.mp hent
  have hfree : d₁.symlinks.find? i = none := by
    rw [Nodes.insert_symlinks hins, KeyTable.find?_eq_none]
    intro l hl hkey
    have hi := howned.symlinks l hl
    obtain ⟨m, hm⟩ := Db.hasNode_iff.mp hi
    rw [show l.inode = i from hkey, (Nodes.insert_ok hins).fresh] at hm
    cases hm
  obtain ⟨t', ht'⟩ := KeyTable.insert?_isSome (r := (⟨i, target⟩ : SymlinksRow)) |>.mpr hfree
  have hins' : Symlinks.insert i target { d₁ with entries := t } = .ok (⟨⟩, _) :=
    stmt_eq_ok.mpr (Db.insertSymlink_eq_ok.mpr ⟨hnode, t', ht', rfl⟩)
  obtain ⟨u, d₄, hd₄⟩ := Nodes.updateTimes_returns p none (some clock.now) (some clock.now)
    { d₁ with entries := t, symlinks := t' }
  exact .bind hins' (.bind hd₄ (Body.returns_pure i d₄))

lemma linkEntry_returns {d : Db} {n : Str} (hp : d.hasNode p = true) (hi : d.hasNode i = true) :
    Body.Returns (do
      Entries.insert p n i
      let _ ← Nodes.changeNlink i 1 clock.now
      Nodes.updateTimes p none (some clock.now) (some clock.now)) d ↔
      d.entries.find? (p, n) = none := by
  rw [Body.returns_bind]
  constructor
  · rintro ⟨_, d₁, hent, -⟩
    obtain ⟨-, -, t, ht, -⟩ := Db.insertEntry_eq_ok.mp (Entries.insert_eq_ok.mp hent)
    exact (KeyTable.insert?_eq_some.mp ht).1
  · intro hfree
    obtain ⟨t, ht⟩ := KeyTable.insert?_isSome (r := (⟨p, n, i⟩ : EntryRow)) |>.mpr hfree
    have hent : d.insertEntry ⟨p, n, i⟩ = .ok { d with entries := t } :=
      Db.insertEntry_eq_ok.mpr ⟨hp, hi, t, ht, rfl⟩
    refine ⟨⟨⟩, _, Entries.insert_eq_ok.mpr hent, ?_⟩
    refine Nodes.changeNlink_returns (hasNode_of_attach hent).1 fun _ d₂ _ => ?_
    exact Nodes.updateTimes_returns _ _ _ _ d₂

lemma link_returns {target linkPath : Str} : Prog.Returns (link clock target linkPath) s ↔
    (∃ i row, Finds s target i row ∧ row.kind ≠ .dir) ∧ ∃ p n, MayAdd s linkPath p n := by
  have hrest (hw : s.readonly = false) : ∀ i row, Nodes.get s.conn i = .ok row → ∀ p n,
      s.conn.kind p = some .dir → (Prog.Returns (do
        tx do
          Entries.insert p n i
          let _ ← Nodes.changeNlink i 1 clock.now
          Nodes.updateTimes p none (some clock.now) (some clock.now)
        emit clock .create linkPath row.kind i none none) s ↔
        s.conn.entries.find? (p, n) = none) := by
    intro i row hrow p n hdir
    rw [returns_tx_of hw fun _ _ => returns_emit, linkEntry_returns (Db.hasNode_of_kind hdir)
      (Db.hasNode_of_kind (Nodes.kind_of_get hrow))]
  unfold link
  rw [returns_requireWritable, returns_find]
  simp only [returns_require]
  unfold resolveParent
  simp only [returns_ask]
  constructor
  · rintro ⟨hw, i, row, hfinds, hfile, ⟨p, n⟩, hresolved, h⟩
    obtain ⟨hdir, haccess, h⟩ := returns_parent.mp h
    exact ⟨⟨i, row, hfinds, hfile⟩, p, n, hw, hresolved, hdir, haccess,
      (hrest hw i row hfinds.2 p n hdir).mp h⟩
  · rintro ⟨⟨i, row, hfinds, hfile⟩, p, n, h⟩
    refine ⟨h.writable, i, row, hfinds, hfile, (p, n), h.resolved, ?_⟩
    exact returns_parent.mpr ⟨h.parentDir, h.access,
      (hrest h.writable i row hfinds.2 p n h.parentDir).mpr h.free⟩

lemma createNew_returns {flags : Flags} {mode : UInt32} {n : Str} (hw : s.readonly = false) :
    Prog.Returns (createNew clock path flags mode p n) s ↔
      s.conn.kind p = some .dir ∧ MayChange s p ∧ s.conn.entries.find? (p, n) = none := by
  unfold createNew
  refine returns_parent.trans (and_congr_right fun hdir => and_congr_right fun _ => ?_)
  rw [returns_caller, returns_tx_of hw fun _ _ => ⟨_, rfl⟩]
  refine attach_returns (Db.hasNode_of_kind hdir) fun i d₁ d₂ _ _ => ?_
  obtain ⟨u, d₃, hd₃⟩ := Nodes.updateTimes_returns p none (some clock.now) (some clock.now) d₂
  exact .bind hd₃ (Body.returns_pure i d₃)

lemma createExisting_returns {flags : Flags} {e : EntryRow} :
    Prog.Returns (createExisting path flags e) s ↔ flags &&& Libc.O_EXCL = 0 ∧
      ∃ row, Nodes.get s.conn e.inode = .ok row ∧ (checkOpenAccess row flags s).result = .ok ⟨⟩ := by
  unfold createExisting getNode
  rw [returns_require, returns_ask]
  simp only [returns_checkOpenAccess]
  refine and_congr_right fun _ => exists_congr fun row => and_congr_right fun _ => ?_
  exact and_iff_left ⟨_, rfl⟩

lemma create_returns {flags : Flags} {mode : UInt32} :
    Prog.Returns (create clock path flags mode) s ↔
      (∃ i row, MayOpenExisting s path flags i row) ∨ ∃ p n, MayAdd s path p n := by
  unfold create
  rw [returns_requireWritable]
  unfold resolveParent
  simp only [returns_ask, Except.ok.injEq, exists_eq_left']
  constructor
  · rintro ⟨hw, ⟨p, n⟩, hresolved, h⟩
    dsimp only at h
    cases he : Entries.get s.conn p n with
    | ok e =>
      rw [he] at h
      obtain ⟨hexcl, row, hrow, haccess⟩ := createExisting_returns.mp h
      obtain ⟨-, rfl, rfl⟩ := Entries.get_eq_ok.mp he
      exact Or.inl ⟨e.inode, row, hw, ⟨_, _, hresolved, he⟩, hexcl, hrow, haccess⟩
    | error x =>
      rw [he] at h
      obtain ⟨hdir, haccess, hfree⟩ := (createNew_returns hw).mp h
      exact Or.inr ⟨p, n, hw, hresolved, hdir, haccess, hfree⟩
  · rintro (⟨i, row, h⟩ | ⟨p, n, h⟩)
    · obtain ⟨p, n, hresolved, he⟩ := h.named
      refine ⟨h.writable, (p, n), hresolved, ?_⟩
      dsimp only
      rw [he]
      exact createExisting_returns.mpr ⟨h.notExcl, row, h.node, h.access⟩
    · refine ⟨h.writable, (p, n), h.resolved, ?_⟩
      obtain ⟨x, hx⟩ : ∃ x, Entries.get s.conn p n = .error x := by
        unfold Entries.get
        rw [h.free]
        exact ⟨_, rfl⟩
      dsimp only
      rw [hx]
      exact (createNew_returns h.writable).mpr ⟨h.parentDir, h.access, h.free⟩

/-! ### Taking names away -/

lemma rmdir_returns (htree : s.conn.Tree) :
    Prog.Returns (rmdir clock path) s ↔ ∃ e, MayRmdir s path e := by
  refine Prog.returns_iff_of_refusesOr ?_ ?_
  · refine (rmdir_settles s clock path).mono ?_
    rintro o ⟨-, -, l, ⟨e, -, he⟩, -⟩
    exact ⟨e, he⟩
  · rintro ⟨e, h⟩
    obtain ⟨row, hrow, hdir⟩ := Nodes.get_of_kind h.dir
    obtain ⟨prow, hprow, haccess⟩ := h.access
    unfold rmdir resolveParent getEntry getNode requireAccessTo
    rw [returns_requireWritable, returns_require, returns_ask]
    refine ⟨h.writable, h.notRoot, (e.parent, e.name), h.resolved, ?_⟩
    refine returns_ask.mpr ⟨e, Entries.get_eq_ok.mpr ⟨h.entry, rfl, rfl⟩, ?_⟩
    refine returns_ask.mpr ⟨row, hrow, returns_require.mpr ⟨hdir, returns_ask.mpr ⟨(), ?_, ?_⟩⟩⟩
    · rw [if_neg]
      intro hcount
      obtain ⟨x, hx, hpx⟩ := KeyTable.count_pos.mp hcount
      exact h.empty x hx (of_decide_eq_true hpx)
    refine returns_ask.mpr ⟨prow, hprow, returns_ask.mpr ⟨(), haccess, ?_⟩⟩
    rw [returns_tx_of h.writable fun _ _ => returns_emit]
    have hparent : (s.conn.deleteEntry e.parent e.name).hasNode e.parent = true :=
      Db.hasNode_of_kind (d := s.conn) (htree.parentDir e h.entry)
    refine .bind (update_eq_ok (u := ⟨⟩) |>.mpr rfl) ?_
    refine Nodes.changeNlink_returns hparent fun _ d₂ h₂ => ?_
    obtain ⟨u, d₃, hd₃⟩ := Nodes.updateTimes_returns e.parent none (some clock.now)
      (some clock.now) d₂
    refine .bind hd₃ ?_
    obtain ⟨d₄, hd₄⟩ : ∃ d₄, d₃.deleteNode e.inode = .ok d₄ := by
      refine Db.deleteNode_isOk fun x hx _ hxi => ?_
      rw [(Nodes.updateTimes_ok hd₃).entries, h₂.entries, Db.mem_deleteEntry h.entry] at hx
      refine hx.2 (htree.oneName x hx.1 e h.entry hxi ?_)
      rw [hxi]
      exact h.dir
    exact ⟨⟨⟩, d₄, stmt_eq_ok.mpr hd₄⟩

lemma MayUnlink.returns_iff (h : s.core.Counted (· ≠ .dir)) {e : EntryRow}
    (hmay : MayUnlink s path e row) :
    Prog.Returns (unlink clock path) s ↔ ¬ WrapsAround s (.unlink path) := by
  have hrun := unlink_unlinks clock h hmay
  unfold Prog.Returns
  cases ho : unlink clock path s with
  | mk r s' l =>
  rw [ho] at hrun
  cases hrun with
  | keeps hdrops hkeeps =>
    refine iff_of_true ⟨_, rfl⟩ ?_
    rintro ⟨e', row', hmay', hopen, hnames, -⟩
    obtain rfl := hmay.unique hmay'
    exact hkeeps ⟨hnames, hopen⟩
  | deletes hdrops hrem hone hopen =>
    refine iff_of_true ⟨_, rfl⟩ ?_
    rintro ⟨e', row', hmay', -, -, hnot⟩
    obtain rfl := hmay.unique hmay'
    exact hnot hone
  | fails hdrops hnames hnot hopen =>
    refine iff_of_false ?_ (not_not.mpr ⟨e, row, hmay, hopen, hnames, hnot⟩)
    rintro ⟨a, ha⟩
    cases ha

lemma unlink_returns (h : s.core.Counted (· ≠ .dir)) : Prog.Returns (unlink clock path) s ↔
    (∃ e row, MayUnlink s path e row) ∧ ¬ WrapsAround s (.unlink path) := by
  constructor
  · intro hr
    rcases unlink_may with ⟨x, hx⟩ | ⟨e, row, hmay⟩
    · exact absurd hr (Prog.not_returns_of_error hx)
    · exact ⟨⟨e, row, hmay⟩, (hmay.returns_iff h).mp hr⟩
  · rintro ⟨⟨e, row, hmay⟩, hnot⟩
    exact (hmay.returns_iff h).mpr hnot

/-! ### Attributes -/

lemma updateModeUidGid_returns (i : ℕ) (mode uid gid : Option UInt32) (now : ℤ) (d : Db) :
    Body.Returns (Nodes.updateModeUidGid i mode uid gid now) d := ⟨⟨⟩, _, update_eq_ok.mpr rfl⟩

/-- An operation on a node that the path finds, and that checks the row before it goes on to its
transaction. -/
lemma returns_attributes {α : Type} {f : ℕ → NodeRow → Action α} {may : NodeRow → Prop}
    (hf : ∀ i row, s.readonly = false → (Prog.Returns (f i row) s ↔ may row)) :
    Prog.Returns (requireWritable >>= fun _ => resolve path >>= fun i => getNode i >>= f i) s ↔
      s.readonly = false ∧ ∃ i row, Finds s path i row ∧ may row := by
  rw [returns_requireWritable, returns_find]
  exact and_congr_right fun hw => exists_congr fun i => exists_congr fun row =>
    and_congr_right fun _ => hf i row hw

/-- The caller is root or owns a node with this row. -/
def IsOwner (s : Filesystem) (row : NodeRow) : Prop := ¬ (s.callerUid ≠ 0 ∧ s.callerUid ≠ row.uid)

lemma chmod_returns {mode : UInt32} : Prog.Returns (chmod clock path mode) s ↔
    s.readonly = false ∧ ∃ i row, Finds s path i row ∧ IsOwner s row := by
  refine returns_attributes fun i row hw => ?_
  rw [returns_caller, returns_require, returns_tx_of hw fun _ _ => returns_emit]
  exact and_iff_left (updateModeUidGid_returns i _ _ _ _ _)

lemma utimes_returns {atimeNs mtimeNs : Option ℤ} :
    Prog.Returns (utimes clock path atimeNs mtimeNs) s ↔
      s.readonly = false ∧ ∃ i row, Finds s path i row ∧ IsOwner s row := by
  refine returns_attributes fun i row hw => ?_
  rw [returns_caller, returns_require, returns_tx_of hw fun _ _ => returns_emit]
  exact and_iff_left (Nodes.updateTimes_returns i _ _ _ _)

/-- The caller may give a node with this row these owners. -/
def MayGive (s : Filesystem) (row : NodeRow) (uid gid : Option UInt32) : Prop :=
  ¬ ((uid.any (· ≠ row.uid)) = true ∧ s.callerUid ≠ 0) ∧
    ¬ (gid.isSome ∧ s.callerUid ≠ 0 ∧ s.callerUid ≠ row.uid)

lemma chown_returns {uid gid : Option UInt32} : Prog.Returns (chown clock path uid gid) s ↔
    s.readonly = false ∧ ∃ i row, Finds s path i row ∧ MayGive s row uid gid := by
  refine returns_attributes fun i row hw => ?_
  rw [returns_caller, returns_require, returns_require, returns_tx_of hw fun _ _ => returns_emit]
  exact and_congr_right fun _ => and_iff_left (updateModeUidGid_returns i _ _ _ _ _)

lemma setxattr_returns {value : Bytes} {flags : Xattrs.XattrFlags} :
    Prog.Returns (setxattr clock path name value flags) s ↔
      ∃ i row, MaySetxattr s path name value flags i row := by
  refine Prog.returns_iff_of_refusesOr setxattr_may ?_
  rintro ⟨i, row, h⟩
  obtain ⟨d, -, hrun⟩ := setxattr_run clock h
  exact Prog.returns_of_run hrun rfl

lemma removexattr_returns : Prog.Returns (removexattr clock path name) s ↔
    ∃ i row, MayRemovexattr s path name i row := by
  refine Prog.returns_iff_of_refusesOr removexattr_may ?_
  rintro ⟨i, row, h⟩
  exact Prog.returns_of_run (removexattr_run h) rfl

end Filesystem

end SqliteFs

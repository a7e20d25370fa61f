import SqliteFs.Fuse.Setattr
import SqliteFs.Filesystem.Passes

/-!
# Requests that are not to overwrite

The kernel asks by flags that a rename should not replace what stands at its destination, or should
exchange the two, and that an extended attribute should be new. The adapter passes none of these
flags on.
-/

namespace SqliteFs

open Txn

namespace Db

variable {d d' : Db} {e t : EntryRow} {q p : ℕ} {m : Str} {isDir : Prop} [Decidable isDir]

lemma Moves.names (he : e ∈ d.entries) (h : d.Moves d' isDir e q m) (i : ℕ) :
    d'.names i = d.names i := by
  obtain ⟨d₁, hmove, hadj⟩ := h
  obtain ⟨-, rows, hrows, rfl⟩ := (moveEntry_eq_ok_of_mem he).mp hmove
  rw [Filesystem.names_congr hadj.entries]
  unfold Db.names
  have hcount := KeyTable.count_rekey? hrows he rfl fun x => decide (x.inode = i)
  exact Nat.add_right_cancel hcount

lemma Evicts.names (h : d.Tree) (hv : d.Evicts d' isDir p t) :
    d.names t.inode = d'.names t.inode + 1 := by
  rw [Filesystem.names_deleteEntry hv.1, Filesystem.names_congr (hv.entries h)]

end Db

namespace Fuse

open Filesystem

def RENAME_NOREPLACE : UInt32 := 1
def RENAME_EXCHANGE : UInt32 := 2
def XATTR_CREATE : Flags := 1

/-! ### Renaming -/

/-- What stands at the path `dst` is left there. -/
def KeepsDestination (s : Filesystem) (dst : Str) (d' : Db) : Prop :=
  ∀ q m, resolveParentAndName s.conn dst = .ok (q, m) → ∀ t, s.conn.entries.find? (q, m) = some t →
    d'.entries.find? (q, m) = some t

/-- No inode has lost a name, and no node is gone. -/
structure DeletesNothing (d d' : Db) : Prop where
  names : ∀ i, d.names i ≤ d'.names i
  nodes : ∀ i, d.hasNode i = true → d'.hasNode i = true

lemma DeletesNothing.refl {d : Db} : DeletesNothing d d := ⟨fun _ => le_rfl, fun _ h => h⟩

/-- `rename` gets past its checks, and finds at its destination the entry of another inode, which can
make room. -/
def Replaces (s : Filesystem) (src dst : Str) : Prop :=
  ∃ e t, MayRename s src dst e t.parent t.name ∧ t ∈ s.conn.entries ∧ t.inode ≠ e.inode ∧
    MayEvict s e t

section Rename
variable {s : Filesystem} {clock : Clock} {src dst : Str} {e t : EntryRow}

lemma unique_of_mayRename {q q' : ℕ} {m m' : Str} {e' : EntryRow} (h : MayRename s src dst e q m)
    (h' : MayRename s src dst e' q' m') : e = e' ∧ q = q' ∧ m = m' := by
  obtain ⟨hp, hn⟩ := Prod.mk.inj (Except.ok.inj (h.source.symm.trans h'.source))
  obtain ⟨hq, hm⟩ := Prod.mk.inj (Except.ok.inj (h.target.symm.trans h'.target))
  exact ⟨KeyTable.eq_of_key h.move.1 h'.move.1 (Prod.ext hp hn), hq, hm⟩

lemma Replaces.not_namesSame (h : Replaces s src dst) : ¬ NamesSame s src dst := by
  obtain ⟨e, t, hmay, ht, hother, -⟩ := h
  rintro (heq | ⟨e', he', t', ht', hsame, hsource, htarget⟩)
  · exact hmay.different heq
  · obtain ⟨hp, hn⟩ := Prod.mk.inj (Except.ok.inj (hmay.source.symm.trans hsource))
    obtain ⟨hq, hm⟩ := Prod.mk.inj (Except.ok.inj (hmay.target.symm.trans htarget))
    obtain rfl : e = e' := KeyTable.eq_of_key hmay.move.1 he' (Prod.ext hp hn)
    obtain rfl : t = t' := KeyTable.eq_of_key ht ht' (Prod.ext hq hm)
    exact hother hsame

lemma Replaces.returns (h : Replaces s src dst) (hc : s.core.Counted (· ≠ .dir)) (clock : Clock) :
    Prog.Returns (Filesystem.rename clock src dst) s := by
  obtain ⟨e, t, hmay, ht, hother, hevict⟩ := h
  refine (rename_returns hc).mpr ⟨hmay.writable, Or.inr ⟨e, _, _, hmay, fun t' ht' hp hn _ => ?_⟩⟩
  obtain rfl : t' = t := KeyTable.eq_of_key ht' ht (Prod.ext hp hn)
  exact hevict

/-- What `rename` replaces is not at the destination any more, and its inode has lost a name. -/
lemma clobbers_of_replaces {d₁ d : Db} (htree : s.conn.Tree) (hmay : MayReplace s src dst e t)
    (hevicts : s.conn.Evicts d₁ (s.conn.kind e.inode = some .dir) e.parent t)
    (hmoves : d₁.Moves d (s.conn.kind e.inode = some .dir) e t.parent t.name) :
    ¬ KeepsDestination s dst d ∧ ¬ DeletesNothing s.conn d := by
  have he₁ : e ∈ d₁.entries := by
    refine (hevicts.mem_entries htree).mpr ⟨hmay.move.1, ?_⟩
    rintro rfl
    exact hmay.other rfl
  constructor
  · intro hkeeps
    have hfind := hkeeps _ _ hmay.target t (KeyTable.find?_key hmay.entry)
    have hnew : (⟨t.parent, t.name, e.inode⟩ : EntryRow) ∈ d.entries :=
      (hmoves.mem_entries he₁).mpr (Or.inr rfl)
    have heq := KeyTable.eq_of_key (KeyTable.find?_eq_some.mp hfind).1 hnew rfl
    have hinode := congrArg EntryRow.inode heq
    exact hmay.other hinode
  · intro hdeletes
    have hle := hdeletes.names t.inode
    rw [hmoves.names he₁, hevicts.names htree] at hle
    exact absurd hle (by omega)

/-- `rename` overwrites something exactly if it replaces an entry. -/
lemma rename_clobbers (hc : s.core.Counted (· ≠ .dir)) (clock : Clock) (src dst : Str) :
    (Replaces s src dst ∧ ¬ KeepsDestination s dst (Filesystem.rename clock src dst s).state.conn ∧
      ¬ DeletesNothing s.conn (Filesystem.rename clock src dst s).state.conn) ∨
    (¬ Replaces s src dst ∧ KeepsDestination s dst (Filesystem.rename clock src dst s).state.conn ∧
      DeletesNothing s.conn (Filesystem.rename clock src dst s).state.conn) := by
  have htree : s.conn.Tree := hc.rooted.tree
  have hrule : Prog.RefusesOr (Filesystem.rename clock src dst) s fun o =>
      (Replaces s src dst ∧ ¬ KeepsDestination s dst o.state.conn ∧
        ¬ DeletesNothing s.conn o.state.conn) ∨
      (¬ Replaces s src dst ∧ KeepsDestination s dst o.state.conn ∧
        DeletesNothing s.conn o.state.conn) := by
    refine rename_rule s clock (fun _ hsame _ => ?_) (fun d e q m _ _ hmay hfree hmoves => ?_)
      fun d₁ d e t _ _ hmay hevicts hmoves => ?_
    · exact Or.inr ⟨fun h => h.not_namesSame hsame, fun _ _ _ _ hfind => hfind, .refl⟩
    · refine Or.inr ⟨?_, fun q' m' hdst t ht => ?_, fun i => (hmoves.names hmay.move.1 i).ge,
        fun i hi => ?_⟩
      · rintro ⟨e', t, hmay', ht, -⟩
        obtain ⟨-, hq, hm⟩ := unique_of_mayRename hmay hmay'
        exact hfree t ht ⟨hq.symm, hm.symm⟩
      · obtain ⟨rfl, rfl⟩ := Prod.mk.inj (Except.ok.inj (hmay.target.symm.trans hdst))
        obtain ⟨hmem, hkey⟩ := KeyTable.find?_eq_some.mp ht
        exact absurd (Prod.mk.inj hkey) (hfree t hmem)
      · change d.hasNode i = true
        rw [Db.hasNode_congr (hmoves.kind hmay.move.1 i)]
        exact hi
    · refine Or.inl ⟨⟨e, t, hmay.toMayRename, hmay.entry, hmay.other, mayEvict_of_evicts hc hevicts⟩,
        clobbers_of_replaces htree hmay hevicts hmoves⟩
  rcases hrule with ⟨x, hx⟩ | h
  · rw [hx]
    refine Or.inr ⟨fun h => ?_, fun _ _ _ _ hfind => hfind, .refl⟩
    exact Prog.not_returns_of_error hx (h.returns hc clock)
  · exact h

end Rename

/-! ### Extended attributes -/

/-- The attributes that are set still have their values. -/
def KeepsValues (d d' : Db) : Prop := ∀ k x, d.xattrs.find? k = some x → d'.xattrs.find? k = some x

/-- `setxattr` gets past its checks, and the attribute is set to something else. -/
def Overwrites (s : Filesystem) (path name : Str) (value : Bytes) : Prop :=
  ∃ i row x, MaySetxattr s path name value 0 i row ∧ s.conn.xattrs.find? (i, name) = some x ∧
    x.value ≠ value

section Setxattr
variable {d d' : Db} {s : Filesystem} {clock : Clock} {path name : Str} {value : Bytes}
  {flags : Xattrs.XattrFlags} {i : ℕ}

lemma find?_set (h : Xattrs.set i name value flags d = .ok (⟨⟩, d')) (k : ℕ × Str) :
    d'.xattrs.find? k = if k = (i, name) then some ⟨i, name, value⟩ else d.xattrs.find? k := by
  obtain ⟨b, hb, h⟩ := Body.ask_bind_eq_ok.mp h
  split_ifs at h with hset
  · subst hset
    obtain ⟨r, hr⟩ := Option.isSome_iff_exists.mp (Xattrs.checkFlags_eq hb).symm
    obtain ⟨rfl, rfl⟩ := Prod.mk.inj (KeyTable.find?_eq_some.mp hr).2
    rw [update_eq_ok.mp h]
    unfold Db.updateXattr
    rw [KeyTable.find?_updateAt]
    split_ifs with hk
    · rw [hk, hr]
      rfl
    · rfl
  · obtain ⟨-, t, ht, rfl⟩ := Db.insertXattr_eq_ok.mp (stmt_eq_ok.mp h)
    rw [KeyTable.find?_insert? ht, key_xattrsRow]
    exact if_congr eq_comm rfl rfl

lemma keepsValues_iff_of_set (h : Xattrs.set i name value flags d = .ok (⟨⟩, d')) :
    KeepsValues d d' ↔ ∀ x, d.xattrs.find? (i, name) = some x → x.value = value := by
  constructor
  · intro hkeeps x hx
    have hx' := hkeeps _ x hx
    rw [find?_set h, if_pos rfl] at hx'
    exact (congrArg XattrsRow.value (Option.some.inj hx')).symm
  · rintro hsame ⟨j, m⟩ x hx
    rw [find?_set h]
    split_ifs with hk
    · have hvalue := hsame x (hk ▸ hx)
      obtain ⟨rfl, rfl⟩ := Prod.mk.inj ((KeyTable.find?_eq_some.mp hx).2.trans hk)
      rw [← hvalue]
    · exact hx

/-- `setxattr` without flags changes a value exactly if it overwrites one. -/
lemma setxattr_keepsValues_iff :
    KeepsValues s.conn (Filesystem.setxattr clock path name value 0 s).state.conn ↔
      ¬ Overwrites s path name value := by
  by_cases hmay : ∃ i row, MaySetxattr s path name value 0 i row
  · obtain ⟨i, row, hmay⟩ := hmay
    obtain ⟨d, hset, hrun⟩ := setxattr_run clock hmay
    rw [hrun]
    refine (keepsValues_iff_of_set hset).trans ?_
    unfold Overwrites
    push Not
    constructor
    · rintro hsame i' row' x hmay' hx
      obtain rfl : i = i' := Except.ok.inj (hmay.resolved.symm.trans hmay'.resolved)
      exact hsame x hx
    · exact fun hall x hx => hall i row x hmay hx
  · obtain ⟨x, hx⟩ := setxattr_may.resolve_right hmay
    rw [hx]
    refine iff_of_true (fun _ _ hfind => hfind) ?_
    rintro ⟨i, row, -, hmay', -⟩
    exact hmay ⟨i, row, hmay'⟩

end Setxattr

/-! ### The requests -/

/-- The path that the adapter makes of a directory and a name in it. -/
def Names (s : Filesystem) (parent : ℕ) (name : OsStr) (path : Str) : Prop :=
  ∃ n parentPath, name = some n ∧ (pathOfInode parent s).result = .ok (some parentPath) ∧
    path = Adapter.childPath parentPath n

section Request
variable {s : Filesystem} {req : Request} {clock : Clock} {parent newparent ino : ℕ}
  {name newname : OsStr} {src dst : Str}

lemma Names.unique {path path' : Str} (h : Names s parent name path)
    (h' : Names s parent name path') : path = path' := by
  obtain ⟨n, pp, hn, hpp, rfl⟩ := h
  obtain ⟨n', pp', hn', hpp', rfl⟩ := h'
  obtain rfl := Option.some.inj (hn.symm.trans hn')
  obtain rfl := Option.some.inj (Except.ok.inj (hpp.symm.trans hpp'))
  rfl

lemma attempt_conn {α : Type} {p : Action α} : (attempt p s).state.conn = (p s).state.conn := by
  unfold attempt
  split <;> simp only [*]

lemma asUserOf_conn {α β : Type} {p : Action α} {f : Except Error α → Action β}
    (hf : ∀ x t, (f x t).state.conn = t.conn) :
    ((asUserOf req p >>= f) s).state.conn = (p (req.view s)).state.conn := by
  rw [bind_conn hf]
  unfold asUserOf
  rw [attempt_conn, asUser_conn]

lemma rename_named {flags : UInt32} (hsrc : Names s parent name src)
    (hdst : Names s newparent newname dst) :
    (Adapter.rename clock req parent name newparent newname flags s).state.conn
      = (Filesystem.rename clock src dst (req.view s)).state.conn := by
  obtain ⟨n, pp, rfl, hpp, rfl⟩ := hsrc
  obtain ⟨n', pp', rfl, hpp', rfl⟩ := hdst
  unfold Adapter.rename
  dsimp only
  rw [pathOfInode_run hpp]
  dsimp only
  rw [pathOfInode_run hpp']
  exact asUserOf_conn fun _ _ => rfl

lemma pathOfInode_ok (htree : s.conn.Tree) (ino : ℕ) : ∃ o, (pathOfInode ino s).result = .ok o := by
  rcases pathOfInode_cases htree ino with ⟨-, -, hnone⟩ | ⟨l, -, -, hsome⟩
  · exact ⟨none, hnone⟩
  · exact ⟨_, hsome⟩

/-- Without two paths, nothing happens. -/
lemma rename_unnamed (htree : s.conn.Tree) (flags : UInt32)
    (hunnamed : ¬ ∃ src dst, Names s parent name src ∧ Names s newparent newname dst) :
    (Adapter.rename clock req parent name newparent newname flags s).state.conn = s.conn := by
  obtain ⟨o, ho⟩ := pathOfInode_ok htree parent
  obtain ⟨o', ho'⟩ := pathOfInode_ok htree newparent
  unfold Adapter.rename
  split
  case h_1 n n' =>
    rw [pathOfInode_run ho]
    cases o with
    | none => rfl
    | some pp =>
      dsimp only
      rw [pathOfInode_run ho']
      cases o' with
      | none => rfl
      | some pp' => exact absurd ⟨_, _, ⟨n, pp, rfl, ho, rfl⟩, ⟨n', pp', rfl, ho', rfl⟩⟩ hunnamed
  case h_2 => rfl

/-- The paths of the request name two entries, of which `rename` replaces one by the other. -/
def RequestReplaces (s : Filesystem) (req : Request) (parent : ℕ) (name : OsStr) (newparent : ℕ)
    (newname : OsStr) : Prop :=
  ∃ src dst, Names s parent name src ∧ Names s newparent newname dst ∧ Replaces (req.view s) src dst

/-- The flags do not matter for what the request overwrites. -/
lemma rename_request_clobbers (h : Reachable s) (flags : UInt32) :
    (RequestReplaces s req parent name newparent newname ∧
      ¬ (∀ dst, Names s newparent newname dst → KeepsDestination s dst
        (Adapter.rename clock req parent name newparent newname flags s).state.conn) ∧
      ¬ DeletesNothing s.conn
        (Adapter.rename clock req parent name newparent newname flags s).state.conn) ∨
    (¬ RequestReplaces s req parent name newparent newname ∧
      (∀ dst, Names s newparent newname dst → KeepsDestination s dst
        (Adapter.rename clock req parent name newparent newname flags s).state.conn) ∧
      DeletesNothing s.conn
        (Adapter.rename clock req parent name newparent newname flags s).state.conn) := by
  have htree : s.conn.Tree := (rooted_runsTo h).tree
  by_cases hnamed : ∃ src dst, Names s parent name src ∧ Names s newparent newname dst
  · obtain ⟨src, dst, hsrc, hdst⟩ := hnamed
    have hc : (req.view s).core.Counted (· ≠ .dir) := by
      rw [actAs_core]
      exact files_counted h
    rw [rename_named hsrc hdst]
    rcases rename_clobbers hc clock src dst with ⟨hreplaces, hkeeps, hdeletes⟩ |
      ⟨hreplaces, hkeeps, hdeletes⟩
    · exact Or.inl ⟨⟨src, dst, hsrc, hdst, hreplaces⟩, fun hall => hkeeps (hall dst hdst), hdeletes⟩
    · refine Or.inr ⟨?_, fun dst' hdst' => ?_, hdeletes⟩
      · rintro ⟨src', dst', hsrc', hdst', hreplaces'⟩
        rw [hsrc.unique hsrc', hdst.unique hdst'] at hreplaces
        exact hreplaces hreplaces'
      · obtain rfl := hdst.unique hdst'
        exact hkeeps
  · rw [rename_unnamed htree flags hnamed]
    refine Or.inr ⟨?_, fun _ _ _ _ _ _ hfind => hfind, .refl⟩
    rintro ⟨src, dst, hsrc, hdst, -⟩
    exact hnamed ⟨src, dst, hsrc, hdst⟩

/-- The path of the request is the one of a file with the attribute, and `setxattr` overwrites it. -/
def RequestOverwrites (s : Filesystem) (req : Request) (ino : ℕ) (name : OsStr) (value : Bytes) : Prop :=
  ∃ n path, name = some n ∧ (pathOfInode ino s).result = .ok (some path) ∧
    Overwrites (req.view s) path n value

lemma setxattr_request_keepsValues_iff (h : Reachable s) (value : Bytes) (flags : Flags) :
    KeepsValues s.conn (Adapter.setxattr clock req ino name value flags s).state.conn ↔
      ¬ RequestOverwrites s req ino name value := by
  have hrefused : ¬ RequestOverwrites s req ino name value →
      (KeepsValues s.conn s.conn ↔ ¬ RequestOverwrites s req ino name value) :=
    iff_of_true fun _ _ hfind => hfind
  obtain ⟨o, ho⟩ := pathOfInode_ok (rooted_runsTo h).tree ino
  unfold Adapter.setxattr
  cases name with
  | none => exact hrefused fun ⟨_, _, hn, _⟩ => nomatch hn
  | some n =>
    dsimp only
    rw [pathOfInode_run ho]
    cases o with
    | none =>
      refine hrefused fun ⟨_, _, _, hpath, _⟩ => ?_
      rw [ho] at hpath
      cases hpath
    | some path =>
      dsimp only
      rw [asUserOf_conn (s := s) fun _ _ => rfl]
      refine (setxattr_keepsValues_iff (s := req.view s)).trans (not_congr ⟨?_, ?_⟩)
      · exact fun hover => ⟨n, path, rfl, ho, hover⟩
      · rintro ⟨n', path', hn, hpath, hover⟩
        obtain rfl := Option.some.inj hn
        obtain rfl := Option.some.inj (Except.ok.inj (ho.symm.trans hpath))
        exact hover

/-- A request with a flag against overwriting is safe exactly if it would not overwrite anything
without the flag. -/
theorem noClobber_iff (h : Reachable s) (flags : UInt32) (value : Bytes) (xflags : Flags) :
    ((flags &&& RENAME_NOREPLACE ≠ 0 → ∀ dst, Names s newparent newname dst → KeepsDestination s dst
        (Adapter.rename clock req parent name newparent newname flags s).state.conn) ↔
      flags &&& RENAME_NOREPLACE = 0 ∨ ¬ RequestReplaces s req parent name newparent newname) ∧
    ((flags &&& RENAME_EXCHANGE ≠ 0 → DeletesNothing s.conn
        (Adapter.rename clock req parent name newparent newname flags s).state.conn) ↔
      flags &&& RENAME_EXCHANGE = 0 ∨ ¬ RequestReplaces s req parent name newparent newname) ∧
    ((xflags &&& XATTR_CREATE ≠ 0 → KeepsValues s.conn
        (Adapter.setxattr clock req ino name value xflags s).state.conn) ↔
      xflags &&& XATTR_CREATE = 0 ∨ ¬ RequestOverwrites s req ino name value) := by
  refine ⟨?_, ?_, ?_⟩
  · rw [or_iff_not_imp_left]
    refine imp_congr_right fun _ => ?_
    rcases rename_request_clobbers h flags with ⟨hreplaces, hkeeps, -⟩ | ⟨hreplaces, hkeeps, -⟩
    · exact iff_of_false hkeeps (not_not_intro hreplaces)
    · exact iff_of_true hkeeps hreplaces
  · rw [or_iff_not_imp_left]
    refine imp_congr_right fun _ => ?_
    rcases rename_request_clobbers h flags with ⟨hreplaces, -, hdeletes⟩ | ⟨hreplaces, -, hdeletes⟩
    · exact iff_of_false hdeletes (not_not_intro hreplaces)
    · exact iff_of_true hdeletes hreplaces
  · rw [or_iff_not_imp_left]
    exact imp_congr_right fun _ => setxattr_request_keepsValues_iff h value xflags

end Request

/-- `"user.x"` -/
def userX : Str := ['u', 's', 'e', 'r', '.', 'x']

/-- Two files of root's; the second has an attribute. -/
def markedSecond : Filesystem :=
  newFsAfter [.create ['/', 'a'] Libc.O_RDWR 0o644, .create ['/', 'b'] Libc.O_RDWR 0o644,
    .closeFd 1, .closeFd 2, .setxattr ['/', 'b'] userX [1] 0]

/-- The first file is renamed to the second. -/
abbrev renameOntoSecond (flags : UInt32) : Action (Except Errno PUnit) :=
  Adapter.rename ⟨1, 1⟩ ⟨0, 0⟩ 1 (some ['a']) 1 (some ['b']) flags

theorem noClobber_iff_markedSecond :
    ((RENAME_NOREPLACE &&& RENAME_NOREPLACE ≠ 0 →
      ∀ dst, Names markedSecond 1 (some ['b']) dst → KeepsDestination markedSecond dst
        (renameOntoSecond RENAME_NOREPLACE markedSecond).state.conn) ↔
      RENAME_NOREPLACE &&& RENAME_NOREPLACE = 0 ∨
        ¬ RequestReplaces markedSecond ⟨0, 0⟩ 1 (some ['a']) 1 (some ['b'])) ∧
    ((RENAME_EXCHANGE &&& RENAME_EXCHANGE ≠ 0 → DeletesNothing markedSecond.conn
        (renameOntoSecond RENAME_EXCHANGE markedSecond).state.conn) ↔
      RENAME_EXCHANGE &&& RENAME_EXCHANGE = 0 ∨
        ¬ RequestReplaces markedSecond ⟨0, 0⟩ 1 (some ['a']) 1 (some ['b'])) ∧
    ((XATTR_CREATE &&& XATTR_CREATE ≠ 0 → KeepsValues markedSecond.conn
        (Adapter.setxattr ⟨1, 1⟩ ⟨0, 0⟩ 3 (some userX) [2] XATTR_CREATE markedSecond).state.conn) ↔
      XATTR_CREATE &&& XATTR_CREATE = 0 ∨
        ¬ RequestOverwrites markedSecond ⟨0, 0⟩ 3 (some userX) [2]) := by
  obtain ⟨hnoreplace, -⟩ := @noClobber_iff markedSecond ⟨0, 0⟩ ⟨1, 1⟩ 1 1 3 (some ['a']) (some ['b'])
    (reachable_newFsAfter _) RENAME_NOREPLACE [2] XATTR_CREATE
  obtain ⟨-, hexchange, -⟩ := @noClobber_iff markedSecond ⟨0, 0⟩ ⟨1, 1⟩ 1 1 3 (some ['a']) (some ['b'])
    (reachable_newFsAfter _) RENAME_EXCHANGE [2] XATTR_CREATE
  obtain ⟨-, -, hcreate⟩ := @noClobber_iff markedSecond ⟨0, 0⟩ ⟨1, 1⟩ 1 1 3 (some userX) none
    (reachable_newFsAfter _) 0 [2] XATTR_CREATE
  exact ⟨hnoreplace, hexchange, hcreate⟩

/-- The second file is replaced by a rename that is not to replace anything, and deleted by one that
is to exchange the two; its attribute is overwritten by a request to create it. -/
theorem not_noClobber_markedSecond : Reachable markedSecond ∧
    ¬ (∀ dst, Names markedSecond 1 (some ['b']) dst → KeepsDestination markedSecond dst
      (renameOntoSecond RENAME_NOREPLACE markedSecond).state.conn) ∧
    ¬ DeletesNothing markedSecond.conn (renameOntoSecond RENAME_EXCHANGE markedSecond).state.conn ∧
    ¬ KeepsValues markedSecond.conn
      (Adapter.setxattr ⟨1, 1⟩ ⟨0, 0⟩ 3 (some userX) [2] XATTR_CREATE markedSecond).state.conn := by
  refine ⟨reachable_newFsAfter _, fun hkeeps => ?_, fun hdeletes => ?_, fun hkeeps => ?_⟩
  · have hnames : Names markedSecond 1 (some ['b']) ['/', 'b'] := ⟨['b'], ['/'], rfl, rfl, rfl⟩
    have hfind := hkeeps _ hnames 1 ['b'] (by decide +kernel) ⟨1, ['b'], 3⟩ (by decide +kernel)
    have hlost : (renameOntoSecond RENAME_NOREPLACE markedSecond).state.conn.entries.find? (1, ['b'])
        ≠ some ⟨1, ['b'], 3⟩ := by decide +kernel
    exact hlost hfind
  · have hnode := hdeletes.nodes 3 (by decide +kernel)
    have hgone : (renameOntoSecond RENAME_EXCHANGE markedSecond).state.conn.hasNode 3 = false := by
      decide +kernel
    rw [hgone] at hnode
    cases hnode
  · have hfind := hkeeps (3, userX) ⟨3, userX, [1]⟩ (by decide +kernel)
    have hlost : (Adapter.setxattr ⟨1, 1⟩ ⟨0, 0⟩ 3 (some userX) [2] XATTR_CREATE markedSecond).state.conn.xattrs.find?
        (3, userX) ≠ some ⟨3, userX, [1]⟩ := by decide +kernel
    exact hlost hfind

end Fuse

end SqliteFs

import SqliteFs.Filesystem.Effects
import SqliteFs.Locks.Exclusion

/-!
# The outcome of each operation

Every operation of this file either refuses, with the state untouched and nothing committed, or
returns after at most one commit with the effect that the lemma about it says.
-/

namespace SqliteFs

open Txn

namespace Filesystem

/-! ### Resolving paths -/

section Resolve
variable {d : Db}

lemma walk_named {path : Str} {i : ℕ} (l : List Str) :
    ∀ {cur : ℕ}, d.Named cur → walk d path cur l = .ok i → d.Named i := by
  induction l with
  | nil =>
    intro cur hcur h
    cases h
    exact hcur
  | cons name rest ih =>
    intro cur hcur h
    have hentry : ∀ {e : EntryRow}, Entries.get d cur name = .ok e → d.Named e.inode :=
      fun he => Or.inr ⟨_, (Entries.get_eq_ok.mp he).1, rfl⟩
    cases rest with
    | nil =>
      simp only [walk] at h
      cases he : Entries.get d cur name with
      | error x => rw [he] at h; cases h
      | ok e =>
        rw [he] at h
        cases h
        exact hentry he
    | cons name' rest =>
      simp only [walk] at h
      cases hr : Nodes.get d cur with
      | error x => rw [hr] at h; cases h
      | ok row =>
        rw [hr] at h
        simp only [bind, Except.bind] at h
        split_ifs at h
        · cases h
        · cases he : Entries.get d cur name with
          | error x => rw [he] at h; cases h
          | ok e =>
            rw [he] at h
            exact ih (hentry he) h

lemma resolveToInode_named {path : Str} {i : ℕ} (h : resolveToInode d path = .ok i) :
    d.Named i := by
  unfold resolveToInode at h
  cases hp : parsePath path with
  | error x => rw [hp] at h; cases h
  | ok components =>
    rw [hp] at h
    exact walk_named components (Or.inl rfl) h

lemma resolveParentAndName_named {path name : Str} {parent : ℕ}
    (h : resolveParentAndName d path = .ok (parent, name)) : d.Named parent := by
  unfold resolveParentAndName at h
  cases hp : parsePath path with
  | error x => rw [hp] at h; cases h
  | ok components =>
    rw [hp] at h
    simp only [bind, Except.bind] at h
    cases hl : components.getLast? with
    | none => rw [hl] at h; cases h
    | some last =>
      rw [hl] at h
      simp only at h
      split_ifs at h
      · cases h
        exact Or.inl rfl
      · cases hq : resolveToInode d (joinPath components.dropLast) with
        | error x => rw [hq] at h; cases h
        | ok q =>
          rw [hq] at h
          cases h
          exact resolveToInode_named hq

end Resolve

/-! ### Operations that only read -/

/-- `p` leaves the state alone. -/
def Reads {α : Type} (p : Action α) : Prop := ∀ s, (p s).state = s ∧ (p s).commits = []

namespace Reads

variable {α β : Type}

lemma ask (q : Filesystem → Res α) : Reads (Filesystem.ask q) := fun _ => ⟨rfl, rfl⟩

lemma pure (a : α) : Reads (Pure.pure a : Action α) := fun _ => ⟨rfl, rfl⟩

lemma bind {p : Action α} {f : α → Action β} (hp : Reads p) (hf : ∀ a, Reads (f a)) :
    Reads (p >>= f) := by
  intro s
  obtain ⟨hs, hc⟩ := hp s
  cases hr : p s with
  | mk r s' l =>
    rw [hr] at hs hc
    obtain rfl : s' = s := hs
    obtain rfl : l = [] := hc
    cases r with
    | error e => rw [Prog.bind_apply_error hr]; exact ⟨rfl, rfl⟩
    | ok a => rw [Prog.bind_apply_ok hr]; exact hf a s'

lemma settles {p : Action α} (h : Reads p) (s : Filesystem) : Prog.RefusesOr p s (SettlesPlain s) := by
  obtain ⟨hs, hc⟩ := h s
  cases hr : p s with
  | mk r s' l =>
    rw [hr] at hs hc
    obtain rfl : s' = s := hs
    obtain rfl : l = [] := hc
    cases r with
    | error e => exact Or.inl ⟨e, hr⟩
    | ok a =>
      refine Or.inr ?_
      rw [hr]
      exact ⟨⟨a, rfl⟩, fun d hd => absurd hd List.not_mem_nil, _, rfl, effect_refl _⟩

end Reads

lemma pathOfInode_reads (inode : ℕ) : Reads (pathOfInode inode) := by
  unfold pathOfInode
  split_ifs
  · exact .pure _
  · exact .ask _

lemma stat_reads (path : Str) : Reads (stat path) :=
  .bind (.ask _) fun _ => .bind (.ask _) fun _ => .pure _

lemma readdir_reads (path : Str) : Reads (readdir path) :=
  .bind (.ask _) fun _ => .bind (.ask _) fun _ => .bind (.ask _) fun _ => .bind (.ask _) fun _ =>
    .ask _

lemma readFd_reads (fd offset size : ℕ) : Reads (readFd fd offset size) :=
  .bind (.ask _) fun _ => .bind (.ask _) fun _ => .bind (.ask _) fun _ => .ask _

lemma readlink_reads (path : Str) : Reads (readlink path) :=
  .bind (.ask _) fun _ => .bind (.ask _) fun _ => .bind (.ask _) fun _ => .ask _

lemma getxattr_reads (path name : Str) : Reads (getxattr path name) :=
  .bind (.ask _) fun _ => .bind (.ask _) fun _ => .bind (.ask _) fun _ => .ask _

lemma listxattr_reads (path : Str) : Reads (listxattr path) :=
  .bind (.ask _) fun _ => .bind (.ask _) fun _ => .bind (.ask _) fun _ => .ask _

lemma posixGetlk_reads (fd : ℕ) (pid : ℤ) (start length : ℕ) :
    Reads (posixGetlk fd pid start length) :=
  .bind (.ask _) fun _ => .ask _

lemma ofdGetlk_reads (fd start length : ℕ) : Reads (ofdGetlk fd start length) :=
  .bind (.ask _) fun _ => .ask _

lemma flush_reads (fd : ℕ) : Reads (flush fd) := .bind (.ask _) fun _ => .pure _

lemma fsync_reads (fd : ℕ) : Reads (fsync fd) := .bind (.ask _) fun _ => .pure _

lemma fsyncdir_reads (path : Str) : Reads (fsyncdir path) :=
  .bind (.ask _) fun _ => .bind (.ask _) fun _ => .ask _

/-! ### Operations with one transaction -/

/-- The state with the database `d` once the event has been sent. -/
def announce (s : Filesystem) (d : Db) (ev : Event) : Filesystem :=
  { s with conn := d, watchers := s.watchers.emit ev }

/-- A transaction that is followed by the operation's event only. -/
lemma bind_tx_emit {β : Type} {s : Filesystem} {b : Sql β} {clock : Clock}
    {kind : β → EventKind} {path : β → Str} {nodeKind : β → NodeKind} {inode : β → ℕ}
    {src dst : β → Option Str} {Q : Outcome Filesystem Db Halt PUnit → Prop}
    (h : ∀ a d, s.connReadonly = false → b s.conn = .ok (a, d) → Q ⟨.ok ⟨⟩, s.announce d
      ⟨kind a, path a, src a, dst a, nodeKind a, inode a, clock.event⟩, [d]⟩) :
    Prog.RefusesOr (tx b >>= fun a =>
      emit clock (kind a) (path a) (nodeKind a) (inode a) (src a) (dst a)) s Q :=
  bind_tx h

/-- An operation that commits once and sends an event. -/
lemma settles_announce {s : Filesystem} {d : Db} {ev : Event} {labels : Label → Prop}
    (h : ∃ l, labels l ∧ Effect s.core l { s.core with conn := d }) :
    Settles s labels (⟨.ok PUnit.unit, s.announce d ev, [d]⟩ : Outcome Filesystem Db Halt PUnit) :=
  ⟨⟨_, rfl⟩, fun _ hmem => List.mem_singleton.mp hmem, h⟩

section Settle
variable (s : Filesystem) (clock : Clock)

/-- The caller may change the entries of the directory `p`. -/
def MayChange (s : Filesystem) (p : ℕ) : Prop :=
  ∃ row, Nodes.get s.conn p = .ok row ∧ requireAccess row.mode row.uid row.gid s.callerUid
    s.callerGid (Access.W ||| Access.X) = .ok ()

/-- `rmdir` gets past its checks, with the entry `e`. -/
structure MayRmdir (s : Filesystem) (path : Str) (e : EntryRow) : Prop where
  writable : s.readonly = false
  notRoot : path ≠ ['/']
  resolved : resolveParentAndName s.conn path = .ok (e.parent, e.name)
  entry : e ∈ s.conn.entries
  dir : s.conn.kind e.inode = some .dir
  empty : ∀ x ∈ s.conn.entries, x.parent ≠ e.inode
  access : MayChange s e.parent

/-- `rename` gets past its checks, with the entry `e` that is to become `(q, m)`. -/
structure MayRename (s : Filesystem) (src dst : Str) (e : EntryRow) (q : ℕ) (m : Str) : Prop where
  writable : s.readonly = false
  different : src ≠ dst
  source : resolveParentAndName s.conn src = .ok (e.parent, e.name)
  target : resolveParentAndName s.conn dst = .ok (q, m)
  move : s.conn.MayMove e q
  srcAccess : MayChange s e.parent
  dstAccess : MayChange s q

/-- `rename` gets past its checks, and finds at its destination the entry `t` of another inode,
which it may replace. -/
structure MayReplace (s : Filesystem) (src dst : Str) (e t : EntryRow) : Prop extends
    MayRename s src dst e t.parent t.name where
  entry : t ∈ s.conn.entries
  other : t.inode ≠ e.inode
  sameKind : s.conn.kind t.inode = some .dir ↔ s.conn.kind e.inode = some .dir
  empty : s.conn.kind e.inode = some .dir → ∀ x ∈ s.conn.entries, x.parent ≠ t.inode

lemma placed_of_get {d : Db} {parent : ℕ} {row : NodeRow} (hparent : d.Named parent)
    (hrow : Nodes.get d parent = .ok row) (hdir : row.kind = .dir) : d.Placed parent :=
  ⟨hparent, (Nodes.kind_of_get hrow).trans (congrArg some hdir)⟩

lemma mkdir_outcome (path : Str) (mode : UInt32) : Prog.RefusesOr (mkdir clock path mode) s fun o =>
    ∃ e d, resolveParentAndName s.conn path = .ok (e.parent, e.name) ∧ s.conn.Attaches d .dir e ∧
      o = ⟨.ok ⟨⟩, s.announce d ⟨.create, path, none, none, .dir, e.inode, clock.event⟩, [d]⟩ := by
  apply bind_requireWritable
  intro _
  apply Prog.RefusesOr.bind_query
  rintro ⟨parent, name⟩ hparent
  apply bind_getNode
  intro parentRow hrow
  apply bind_require
  intro hdir
  apply Prog.RefusesOr.bind_query
  intro _ _
  apply Prog.RefusesOr.bind_query
  rintro ⟨uid, gid⟩ _
  apply bind_tx_emit
  intro newIno d _ hd
  obtain ⟨i, d₁, hins, hd⟩ := Body.bind_eq_ok.mp hd
  obtain ⟨_, d₂, hent, hd⟩ := Body.bind_eq_ok.mp hd
  obtain ⟨_, d₃, hnlink, hd⟩ := Body.bind_eq_ok.mp hd
  obtain ⟨_, d₄, htimes, hd⟩ := Body.bind_eq_ok.mp hd
  obtain ⟨rfl, rfl⟩ := Body.pure_eq_ok.mp hd
  refine ⟨⟨parent, name, newIno⟩, d, hparent,
    ⟨placed_of_get (resolveParentAndName_named hparent) hrow hdir, d₁, d₂, Nodes.insert_ok hins,
      Entries.insert_eq_ok.mp hent, ?_⟩, rfl⟩
  rw [if_pos rfl]
  exact ((Nodes.changeNlink_ok hnlink).1.trans (Nodes.updateTimes_ok htimes)).congr (add_zero _)

lemma mkdir_settles (path : Str) (mode : UInt32) :
    Prog.RefusesOr (mkdir clock path mode) s (SettlesPlain s) := by
  refine (mkdir_outcome s clock path mode).mono ?_
  rintro o ⟨e, d, -, h, rfl⟩
  exact settles_announce ⟨_, rfl, .attaches h⟩

lemma rmdir_outcome (path : Str) : Prog.RefusesOr (rmdir clock path) s fun o =>
    ∃ e d, MayRmdir s path e ∧ s.conn.RemovesDir d e ∧
      o = ⟨.ok ⟨⟩, s.announce d ⟨.remove, path, none, none, .dir, e.inode, clock.event⟩, [d]⟩ := by
  apply bind_requireWritable
  intro hw
  apply bind_require
  intro hroot
  apply Prog.RefusesOr.bind_query
  rintro ⟨parent, name⟩ hparent
  apply Prog.RefusesOr.bind_query
  intro entry hentry
  obtain ⟨hmem, rfl, rfl⟩ := Entries.get_eq_ok.mp hentry
  apply bind_getNode
  intro row hrow
  apply bind_require
  intro hdir
  apply Prog.RefusesOr.bind_query
  intro _ hcount
  apply bind_getNode
  intro parentRow hprow
  apply Prog.RefusesOr.bind_query
  intro _ haccess
  apply bind_tx_emit
  intro _ d _ hd
  obtain ⟨_, d₁, hdel, hd⟩ := Body.bind_eq_ok.mp hd
  obtain ⟨_, d₂, hnlink, hd⟩ := Body.bind_eq_ok.mp hd
  obtain ⟨_, d₃, htimes, hd⟩ := Body.bind_eq_ok.mp hd
  have hkind : s.conn.kind entry.inode = some .dir :=
    (Nodes.kind_of_get hrow).trans (congrArg some hdir)
  have hadj := ((Nodes.changeNlink_ok hnlink).1.trans (Nodes.updateTimes_ok htimes)).congr
    (add_zero _)
  rw [update_eq_ok.mp hdel] at hadj
  have hempty : ∀ x ∈ s.conn.entries, x.parent ≠ entry.inode := by
    intro x hx hpx
    split_ifs at hcount with hpos
    · cases hcount
    · exact hpos (KeyTable.count_pos.mpr ⟨x, hx, decide_eq_true hpx⟩)
  refine ⟨entry, d, ⟨hw, hroot, hparent, hmem, hkind, hempty, parentRow, hprow, haccess⟩,
    ⟨hmem, hkind, hempty, d₃, hadj, Nodes.delete_ok ?_ hd⟩, rfl⟩
  rw [hadj.hasNode]
  exact Db.hasNode_of_kind hkind

lemma rmdir_settles (path : Str) : Prog.RefusesOr (rmdir clock path) s
    (Settles s fun l => ∃ e, l = .removesDir e ∧ MayRmdir s path e) := by
  refine (rmdir_outcome s clock path).mono ?_
  rintro o ⟨e, d, hmay, h, rfl⟩
  exact settles_announce ⟨_, ⟨e, rfl, hmay⟩, .removesDir (connReadonly_eq_false hmay.writable) h⟩

lemma createExisting_settles (path : Str) (flags : Flags) {existing : EntryRow}
    (hmem : existing ∈ s.conn.entries) :
    Prog.RefusesOr (createExisting path flags existing) s (SettlesPlain s) := by
  apply bind_require
  intro _
  apply bind_getNode
  intro row hrow
  apply Prog.RefusesOr.bind_query
  intro _ _
  refine .of_run ⟨⟨_, rfl⟩, fun _ hd => absurd hd List.not_mem_nil, ?_⟩
  exact ⟨_, rfl, .opens (Db.hasNode_of_kind (Nodes.kind_of_get hrow)) (Or.inr ⟨existing, hmem, rfl⟩)
    fun _ => ⟨existing, hmem, rfl⟩⟩

lemma createNew_outcome (path : Str) (flags : Flags) (mode : UInt32) {parent : ℕ} {name : Str}
    (hparent : s.conn.Named parent) :
    Prog.RefusesOr (createNew clock path flags mode parent name) s fun o =>
      ∃ e d fd, e.parent = parent ∧ e.name = name ∧ s.conn.Attaches d .file e ∧
        o = ⟨.ok fd, { s.announce d ⟨.create, path, none, none, .file, e.inode, clock.event⟩ with
          fdtable := (s.fdtable.open_ e.inode flags s.callerUid s.callerGid).2 }, [d]⟩ := by
  apply bind_getNode
  intro parentRow hrow
  apply bind_require
  intro hdir
  apply Prog.RefusesOr.bind_query
  intro _ _
  apply Prog.RefusesOr.bind_query
  rintro ⟨uid, gid⟩ _
  apply bind_tx
  intro newIno d _ hd
  obtain ⟨i, d₁, hins, hd⟩ := Body.bind_eq_ok.mp hd
  obtain ⟨_, d₂, hent, hd⟩ := Body.bind_eq_ok.mp hd
  obtain ⟨_, d₃, htimes, hd⟩ := Body.bind_eq_ok.mp hd
  obtain ⟨rfl, rfl⟩ := Body.pure_eq_ok.mp hd
  exact ⟨⟨parent, name, newIno⟩, d, _, rfl, rfl,
    ⟨placed_of_get hparent hrow hdir, d₁, d₂, Nodes.insert_ok hins, Entries.insert_eq_ok.mp hent,
      Nodes.updateTimes_ok htimes⟩, rfl⟩

lemma createNew_settles (path : Str) (flags : Flags) (mode : UInt32) {parent : ℕ} {name : Str}
    (hparent : s.conn.Named parent) :
    Prog.RefusesOr (createNew clock path flags mode parent name) s (SettlesPlain s) := by
  refine (createNew_outcome s clock path flags mode hparent).mono ?_
  rintro o ⟨e, d, fd, -, -, h, rfl⟩
  exact ⟨⟨_, rfl⟩, fun _ hmem => List.mem_singleton.mp hmem, _, rfl, .creates h⟩

lemma create_settles (path : Str) (flags : Flags) (mode : UInt32) :
    Prog.RefusesOr (create clock path flags mode) s (SettlesPlain s) := by
  apply bind_requireWritable
  intro _
  apply Prog.RefusesOr.bind_query
  rintro ⟨parent, name⟩ hparent
  apply Prog.RefusesOr.bind_query
  intro existing hexisting
  cases hexisting
  cases he : Entries.get s.conn parent name with
  | ok existing => exact createExisting_settles s path flags (Entries.get_eq_ok.mp he).1
  | error _ => exact createNew_settles s clock path flags mode (resolveParentAndName_named hparent)

lemma open_settles (path : Str) (flags : Flags) :
    Prog.RefusesOr (open_ clock path flags) s (Settles s fun l => l = .plain ∨
      ∃ ino, l = .writes ino ∧ flags &&& Libc.O_TRUNC ≠ 0 ∧ resolveToInode s.conn path = .ok ino) := by
  apply Prog.RefusesOr.bind_query
  intro ino hino
  apply bind_getNode
  intro row hrow
  apply bind_require
  intro hfile
  apply Prog.RefusesOr.bind_query
  intro _ _
  have hnode : s.conn.hasNode ino = true := Db.hasNode_of_kind (Nodes.kind_of_get hrow)
  have hnotDir : s.conn.kind ino ≠ some .dir := by
    rw [Nodes.kind_of_get hrow]
    exact fun hk => hfile (Option.some.inj hk)
  split_ifs with htrunc
  · refine .of_run ⟨⟨_, rfl⟩, fun _ hd => absurd hd List.not_mem_nil, ?_⟩
    exact ⟨_, Or.inl rfl, .opens hnode (resolveToInode_named hino) fun hk => absurd hk hnotDir⟩
  · apply bind_requireWritable
    intro _
    apply Prog.RefusesOr.bind_query
    intro chunkSize _
    apply bind_tx
    intro _ d _ hd
    refine ⟨⟨_, rfl⟩, fun _ hmem => List.mem_singleton.mp hmem, ?_⟩
    obtain ⟨_, d₁, hcut, hd⟩ := Body.bind_eq_ok.mp hd
    refine ⟨_, Or.inr ⟨ino, rfl, htrunc, hino⟩, .truncates ?_ hnode (resolveToInode_named hino) hnotDir⟩
    exact (Blobs.truncateTo_changes hcut).rewrites.trans (Nodes.updateSize_ok hd)

lemma symlink_outcome (target : Bytes) (path : Str) :
    Prog.RefusesOr (symlink clock target path) s fun o =>
      ∃ e d, resolveParentAndName s.conn path = .ok (e.parent, e.name) ∧
        s.conn.Attaches d .symlink e ∧ o = ⟨.ok ⟨⟩,
          s.announce d ⟨.create, path, none, none, .symlink, e.inode, clock.event⟩, [d]⟩ := by
  apply bind_requireWritable
  intro _
  apply Prog.RefusesOr.bind_query
  rintro ⟨parent, name⟩ hparent
  apply bind_getNode
  intro parentRow hrow
  apply bind_require
  intro hdir
  apply Prog.RefusesOr.bind_query
  intro _ _
  apply Prog.RefusesOr.bind_query
  rintro ⟨uid, gid⟩ _
  apply bind_tx_emit
  intro newIno d _ hd
  obtain ⟨i, d₁, hins, hd⟩ := Body.bind_eq_ok.mp hd
  obtain ⟨_, d₂, hent, hd⟩ := Body.bind_eq_ok.mp hd
  obtain ⟨_, d₃, hsym, hd⟩ := Body.bind_eq_ok.mp hd
  obtain ⟨_, d₄, htimes, hd⟩ := Body.bind_eq_ok.mp hd
  obtain ⟨rfl, rfl⟩ := Body.pure_eq_ok.mp hd
  exact ⟨⟨parent, name, newIno⟩, d, hparent,
    ⟨placed_of_get (resolveParentAndName_named hparent) hrow hdir, d₁, d₂, Nodes.insert_ok hins,
      Entries.insert_eq_ok.mp hent,
      ((Symlinks.insert_ok hsym).trans (Nodes.updateTimes_ok htimes)).congr (add_zero _)⟩, rfl⟩

lemma symlink_settles (target : Bytes) (path : Str) :
    Prog.RefusesOr (symlink clock target path) s (SettlesPlain s) := by
  refine (symlink_outcome s clock target path).mono ?_
  rintro o ⟨e, d, -, h, rfl⟩
  exact settles_announce ⟨_, rfl, .attaches h⟩

lemma link_outcome (target linkPath : Str) : Prog.RefusesOr (link clock target linkPath) s fun o =>
    ∃ e d k, resolveParentAndName s.conn linkPath = .ok (e.parent, e.name) ∧ s.conn.Links d e ∧
      s.conn.kind e.inode = some k ∧ o = ⟨.ok ⟨⟩,
        s.announce d ⟨.create, linkPath, none, none, k, e.inode, clock.event⟩, [d]⟩ := by
  apply bind_requireWritable
  intro _
  apply Prog.RefusesOr.bind_query
  intro ino hino
  apply bind_getNode
  intro targetRow htarget
  apply bind_require
  intro hfile
  apply Prog.RefusesOr.bind_query
  rintro ⟨parent, name⟩ hparent
  apply bind_getNode
  intro parentRow hrow
  apply bind_require
  intro hdir
  apply Prog.RefusesOr.bind_query
  intro _ _
  apply bind_tx_emit
  intro _ d _ hd
  obtain ⟨_, d₁, hent, hd⟩ := Body.bind_eq_ok.mp hd
  obtain ⟨_, d₂, hnlink, htimes⟩ := Body.bind_eq_ok.mp hd
  have hkind := Nodes.kind_of_get htarget
  exact ⟨⟨parent, name, ino⟩, d, targetRow.kind, hparent,
    ⟨placed_of_get (resolveParentAndName_named hparent) hrow hdir, resolveToInode_named hino,
      ⟨_, hkind, hfile⟩, d₁, Entries.insert_eq_ok.mp hent,
      ((Nodes.changeNlink_ok hnlink).1.trans (Nodes.updateTimes_ok htimes)).congr (add_zero _)⟩,
    hkind, rfl⟩

lemma link_settles (target linkPath : Str) :
    Prog.RefusesOr (link clock target linkPath) s (SettlesPlain s) := by
  refine (link_outcome s clock target linkPath).mono ?_
  rintro o ⟨e, d, k, -, h, -, rfl⟩
  exact settles_announce ⟨_, rfl, .links h⟩

/-! ### rename -/

section Rename
variable {clock} {d d' : Db} {srcRow : NodeRow} {e : EntryRow}

lemma moveSource_moves {q : ℕ} {m : Str}
    (h : moveSource clock srcRow e e.parent e.name q m d = .ok (⟨⟩, d')) :
    d.Moves d' (srcRow.kind = .dir) e q m := by
  obtain ⟨_, d₁, hren, h⟩ := Body.bind_eq_ok.mp h
  obtain ⟨_, d₂, hnlink, h⟩ := Body.bind_eq_ok.mp h
  obtain ⟨_, d₃, htimes, h⟩ := Body.bind_eq_ok.mp h
  obtain ⟨_, d₄, htimes', h⟩ := Body.bind_eq_ok.mp h
  refine ⟨d₁, Entries.rename_eq_ok.mp hren, ?_⟩
  have h3 := Nodes.updateTimes_ok htimes
  have h4 : d₃.Adjust d₄ 0 := by
    split_ifs at htimes'
    · exact Nodes.updateTimes_ok htimes'
    · rw [(Body.pure_eq_ok.mp htimes').2]
      exact .refl
  have h5 := Nodes.updateTimes_ok h
  have h2 : d₁.Adjust d₂ (if srcRow.kind = .dir ∧ e.parent ≠ q
      then Pi.single e.parent (-1) + Pi.single q 1 else 0) := by
    split_ifs at hnlink ⊢
    · obtain ⟨_, d₅, h6, h7⟩ := Body.bind_eq_ok.mp hnlink
      exact (Nodes.changeNlink_ok h6).1.trans (Nodes.changeNlink_ok h7).1
    · rw [(Body.pure_eq_ok.mp hnlink).2]
      exact .refl
  exact (((h2.trans h3).trans h4).trans h5).congr (by simp only [add_zero])

lemma overwriteTarget_evicts {p : ℕ} {dst : Str} {t : EntryRow} (ht : t ∈ d.entries)
    (h : overwriteTarget clock srcRow p t.parent t.name dst t d = .ok (⟨⟩, d')) :
    d.Evicts d' (srcRow.kind = .dir) p t := by
  obtain ⟨dstRow, hget, h⟩ := Body.ask_bind_eq_ok.mp h
  obtain ⟨_, hcheck, h⟩ := Body.ask_bind_eq_ok.mp h
  replace h := update_bind_eq_ok.mp h
  obtain ⟨n, d₁, hnlink, h⟩ := Body.bind_eq_ok.mp h
  obtain ⟨_, d₂, hparent, h⟩ := Body.bind_eq_ok.mp h
  obtain ⟨m, hm, hmkind, -, -, -⟩ := Nodes.info_of_get hget
  obtain ⟨h1, m', hm', rfl⟩ := Nodes.changeNlink_ok hnlink
  obtain rfl : m = m' := Option.some.inj (hm.symm.trans hm')
  have hkind : d.kind t.inode = some dstRow.kind := Nodes.kind_of_get hget
  have hiff : dstRow.kind = .dir ↔ srcRow.kind = .dir := by
    split_ifs at hcheck with hc1 hc2 hc3 hc4
    · cases hcheck
    · exact iff_of_true hc1.2 hc1.1
    · cases hcheck
    · cases hcheck
    · exact iff_of_false hc4 hc3
  have h2 : d₁.Adjust d₂ (if srcRow.kind = .dir ∧ p ≠ t.parent
      then Pi.single t.parent (-1) else 0) := by
    simp only [hiff] at hparent
    split_ifs at hparent ⊢
    · exact (Nodes.changeNlink_ok hparent).1
    · rw [(Body.pure_eq_ok.mp hparent).2]
      exact .refl
  have hadj := h1.trans h2
  refine ⟨ht, ?_, fun hdir x hx hpx => ?_, m, d₂, hm, hadj, ?_⟩
  · rw [hkind, Option.some.injEq, hiff]
  · rw [if_pos ⟨hdir, hiff.mpr hdir⟩] at hcheck
    split_ifs at hcheck with hpos
    · cases hcheck
    · exact hpos (KeyTable.count_pos.mpr ⟨x, hx, decide_eq_true hpx⟩)
  · split_ifs at h ⊢
    · refine Nodes.delete_ok ?_ h
      rw [hadj.hasNode]
      exact Db.hasNode_of_kind hkind
    · exact (Body.pure_eq_ok.mp h).2

lemma checkSubtree_ok {q : ℕ} {u : Unit} (h : checkSubtree d srcRow e q = .ok u)
    (hdir : srcRow.kind = .dir) :
    e.inode ≠ q ∧ ∃ l, Entries.ancestry d q = .ok l ∧ e.inode ∉ l := by
  unfold checkSubtree at h
  rw [if_pos hdir] at h
  split_ifs at h with hq
  · cases h
  · cases hl : Entries.ancestry d q with
    | error x => rw [hl] at h; cases h
    | ok l =>
      rw [hl] at h
      simp only [bind, Except.bind] at h
      split_ifs at h with hmem
      · cases h
      · exact ⟨hq, l, rfl, hmem⟩

end Rename

/-- What `rename` does where it does not refuse. -/
inductive Renames (s : Filesystem) (clock : Clock) (src dst : Str) :
    Outcome Filesystem Db Halt PUnit → Prop
  | stays {commits : List Db} : (∀ d ∈ commits, d = s.conn) →
      Renames s clock src dst ⟨.ok ⟨⟩, s, commits⟩
  | moves {d : Db} {e : EntryRow} {q : ℕ} {m : Str} {k : NodeKind} : MayRename s src dst e q m →
      (∀ x ∈ s.conn.entries, ¬ (x.parent = q ∧ x.name = m)) →
      s.conn.Moves d (s.conn.kind e.inode = some .dir) e q m →
      Renames s clock src dst ⟨.ok ⟨⟩,
        s.announce d ⟨.move, dst, some src, some dst, k, e.inode, clock.event⟩, [d]⟩
  | replaces {d₁ d : Db} {e t : EntryRow} {k : NodeKind} : MayReplace s src dst e t →
      s.conn.Evicts d₁ (s.conn.kind e.inode = some .dir) e.parent t →
      d₁.Moves d (s.conn.kind e.inode = some .dir) e t.parent t.name →
      Renames s clock src dst ⟨.ok ⟨⟩,
        s.announce d ⟨.move, dst, some src, some dst, k, e.inode, clock.event⟩, [d]⟩

/-- `src` and `dst` are one string, or the names of two entries of one node. -/
def NamesSame (s : Filesystem) (src dst : Str) : Prop :=
  src = dst ∨ ∃ e ∈ s.conn.entries, ∃ t ∈ s.conn.entries, t.inode = e.inode ∧
    resolveParentAndName s.conn src = .ok (e.parent, e.name) ∧
    resolveParentAndName s.conn dst = .ok (t.parent, t.name)

/-- Where `rename` does not refuse: both paths have named one node, the entry moves to a free place,
or it takes the place of another. -/
lemma rename_rule {src dst : Str} {Q : Outcome Filesystem Db Halt PUnit → Prop}
    (hstays : ∀ commits, NamesSame s src dst → (∀ d ∈ commits, d = s.conn) →
      Q ⟨.ok ⟨⟩, s, commits⟩)
    (hmoves : ∀ (d : Db) (e : EntryRow) (q : ℕ) (m : Str) (k : NodeKind),
      s.conn.kind e.inode = some k → MayRename s src dst e q m →
      (∀ x ∈ s.conn.entries, ¬ (x.parent = q ∧ x.name = m)) →
      s.conn.Moves d (s.conn.kind e.inode = some .dir) e q m →
      Q ⟨.ok ⟨⟩, s.announce d ⟨.move, dst, some src, some dst, k, e.inode, clock.event⟩, [d]⟩)
    (hreplaces : ∀ (d₁ d : Db) (e t : EntryRow) (k : NodeKind),
      s.conn.kind e.inode = some k → MayReplace s src dst e t →
      s.conn.Evicts d₁ (s.conn.kind e.inode = some .dir) e.parent t →
      d₁.Moves d (s.conn.kind e.inode = some .dir) e t.parent t.name →
      Q ⟨.ok ⟨⟩, s.announce d ⟨.move, dst, some src, some dst, k, e.inode, clock.event⟩, [d]⟩) :
    Prog.RefusesOr (rename clock src dst) s Q := by
  apply bind_requireWritable
  intro hw
  split_ifs with hne
  · exact .of_run (hstays [] (Or.inl hne) fun _ hd => absurd hd List.not_mem_nil)
  apply Prog.RefusesOr.bind_query
  rintro ⟨srcParent, srcName⟩ hsource
  apply Prog.RefusesOr.bind_query
  intro e he
  obtain ⟨hmem, rfl, rfl⟩ := Entries.get_eq_ok.mp he
  apply bind_getNode
  intro srcRow hsrc
  apply Prog.RefusesOr.bind_query
  rintro ⟨q, m⟩ hparent
  apply bind_getNode
  intro dstParentRow hrow
  apply bind_require
  intro hdir
  apply bind_getNode
  intro srcParentRow hsrow
  apply Prog.RefusesOr.bind_query
  intro _ hsaccess
  apply Prog.RefusesOr.bind_query
  intro _ hdaccess
  apply Prog.RefusesOr.bind_query
  intro _ hcheck
  apply Prog.RefusesOr.bind_query
  intro existing hexisting
  cases hexisting
  have hkind : s.conn.kind e.inode = some srcRow.kind := Nodes.kind_of_get hsrc
  have hiff : s.conn.kind e.inode = some .dir ↔ srcRow.kind = .dir := by
    rw [hkind, Option.some.injEq]
  have hmay : s.conn.MayMove e q :=
    ⟨hmem, Db.hasNode_of_kind hkind,
      placed_of_get (resolveParentAndName_named hparent) hrow hdir,
      fun hk => checkSubtree_ok hcheck (hiff.mp hk)⟩
  have hrename : MayRename s src dst e q m :=
    ⟨hw, hne, hsource, hparent, hmay, ⟨_, hsrow, hsaccess⟩, ⟨_, hrow, hdaccess⟩⟩
  apply bind_tx
  intro moved d _ hd
  cases ht : Entries.get s.conn q m with
  | error _ =>
    rw [ht] at hd
    obtain ⟨_, d₁, hmove, hd⟩ := Body.bind_eq_ok.mp hd
    obtain ⟨rfl, rfl⟩ := Body.pure_eq_ok.mp hd
    refine hmoves _ _ _ _ _ hkind hrename (fun x hx hkey => ?_) ?_
    · rw [Entries.get_eq_ok.mpr ⟨hx, hkey⟩] at ht
      cases ht
    · simp only [hiff]
      exact moveSource_moves hmove
  | ok t =>
    obtain ⟨htmem, rfl, rfl⟩ := Entries.get_eq_ok.mp ht
    rw [ht] at hd
    dsimp only at hd
    split_ifs at hd with hsame
    · obtain ⟨rfl, rfl⟩ := Body.pure_eq_ok.mp hd
      exact hstays _ (Or.inr ⟨e, hmem, t, htmem, hsame, hsource, hparent⟩)
        fun _ hmem => List.mem_singleton.mp hmem
    · obtain ⟨_, d₁, hevict, hd⟩ := Body.bind_eq_ok.mp hd
      obtain ⟨_, d₂, hmove, hd⟩ := Body.bind_eq_ok.mp hd
      obtain ⟨rfl, rfl⟩ := Body.pure_eq_ok.mp hd
      have hevicts : s.conn.Evicts d₁ (s.conn.kind e.inode = some .dir) e.parent t := by
        simp only [hiff]
        exact overwriteTarget_evicts htmem hevict
      have hmoved : d₁.Moves d (s.conn.kind e.inode = some .dir) e t.parent t.name := by
        simp only [hiff]
        exact moveSource_moves hmove
      exact hreplaces _ _ _ _ _ hkind ⟨hrename, htmem, hsame, hevicts.2.1, hevicts.2.2.1⟩ hevicts hmoved

lemma rename_outcome (src dst : Str) :
    Prog.RefusesOr (rename clock src dst) s (Renames s clock src dst) :=
  rename_rule s clock (fun _ _ hcommits => .stays hcommits)
    (fun _ _ _ _ _ _ hmay hfree hmoves => .moves hmay hfree hmoves)
    fun _ _ _ _ _ _ hmay hevicts hmoves => .replaces hmay hevicts hmoves

lemma rename_settles (src dst : Str) : Prog.RefusesOr (rename clock src dst) s
    (Settles s fun l => l = .plain ∨ ∃ e t, l = .replaces e t ∧ MayReplace s src dst e t) := by
  refine (rename_outcome s clock src dst).mono fun o h => ?_
  cases h with
  | stays hcommits => exact ⟨⟨_, rfl⟩, hcommits, _, Or.inl rfl, effect_refl s⟩
  | moves hmay _ hmoves =>
    exact settles_announce ⟨_, Or.inl rfl,
      .moves (connReadonly_eq_false hmay.writable) hmay.move hmoves⟩
  | replaces hmay hevicts hmoves =>
    exact settles_announce ⟨_, Or.inr ⟨_, _, rfl, hmay⟩,
      .replaces (connReadonly_eq_false hmay.writable) hmay.move hmay.other hevicts hmoves⟩

/-! ### Attributes -/

lemma chmod_settles (path : Str) (mode : UInt32) :
    Prog.RefusesOr (chmod clock path mode) s (SettlesPlain s) := by
  apply bind_requireWritable
  intro _
  apply Prog.RefusesOr.bind_query
  intro ino _
  apply bind_getNode
  intro row _
  apply Prog.RefusesOr.bind_query
  rintro ⟨uid, _⟩ _
  apply bind_require
  intro _
  apply bind_tx_emit
  intro _ d _ hd
  exact settles_announce ⟨_, rfl, .quiet (Nodes.updateModeUidGid_ok hd)⟩

lemma chown_settles (path : Str) (uid gid : Option UInt32) :
    Prog.RefusesOr (chown clock path uid gid) s (SettlesPlain s) := by
  apply bind_requireWritable
  intro _
  apply Prog.RefusesOr.bind_query
  intro ino _
  apply bind_getNode
  intro row _
  apply Prog.RefusesOr.bind_query
  rintro ⟨callerUid, _⟩ _
  apply bind_require
  intro _
  apply bind_require
  intro _
  apply bind_tx_emit
  intro _ d _ hd
  exact settles_announce ⟨_, rfl, .quiet (Nodes.updateModeUidGid_ok hd)⟩

lemma utimes_settles (path : Str) (atimeNs mtimeNs : Option ℤ) :
    Prog.RefusesOr (utimes clock path atimeNs mtimeNs) s (SettlesPlain s) := by
  apply bind_requireWritable
  intro _
  apply Prog.RefusesOr.bind_query
  intro ino _
  apply bind_getNode
  intro row _
  apply Prog.RefusesOr.bind_query
  rintro ⟨uid, _⟩ _
  apply bind_require
  intro _
  apply bind_tx_emit
  intro _ d _ hd
  exact settles_announce ⟨_, rfl, .quiet (Nodes.updateTimes_ok hd)⟩

/-! ### Locks and watchers -/

/-- A request that refuses leaves the lock manager alone. -/
lemma lockRequest_settles (fd : ℕ) {f : LockManager → ℕ → Res Unit × LockManager}
    (hf : ∀ m i e, (f m i).1 = .error e → (f m i).2 = m) :
    Prog.RefusesOr (lockRequest fd f) s (SettlesPlain s) := by
  apply Prog.RefusesOr.bind_query
  intro entry _
  apply Prog.RefusesOr.volatile
  · intro e he
    cases hr : (f s.locks entry.inode).1 with
    | ok _ => simp only [hr, Except.map] at he; cases he
    | error x =>
      dsimp only
      rw [hf _ _ x hr]
  · intro a ha
    exact ⟨⟨a, rfl⟩, fun _ hd => absurd hd List.not_mem_nil, _, rfl, effect_refl s⟩

lemma namespaceLock_refuses {m : LockManager} {ns : Namespace} {inode : ℕ} {owner : ℤ} {op : LockOp}
    {start length : ℕ} {e : Halt} (h : (m.namespaceLock ns inode owner op start length).1 = .error e) :
    (m.namespaceLock ns inode owner op start length).2 = m := by
  by_cases hop : op = .unlock
  · subst hop
    rw [LockManager.namespaceLock_unlock] at h
    cases h
  · rcases LockManager.namespaceLock_acquire m ns inode owner start length hop
      with ⟨r, -, hrun⟩ | ⟨-, hrun⟩
    · rw [hrun]
    · rw [hrun] at h
      cases h

lemma posixLock_settles (fd : ℕ) (pid : ℤ) (op : LockOp) (start length : ℕ) (wait : Bool) :
    Prog.RefusesOr (posixLock fd pid op start length wait) s (SettlesPlain s) :=
  lockRequest_settles s fd fun _ _ _ => namespaceLock_refuses

lemma ofdLock_settles (fd : ℕ) (op : LockOp) (start length : ℕ) (wait : Bool) :
    Prog.RefusesOr (ofdLock fd op start length wait) s (SettlesPlain s) :=
  lockRequest_settles s fd fun _ _ _ => namespaceLock_refuses

lemma flock_settles (fd : ℕ) (op : FlockOp) (wait : Bool) :
    Prog.RefusesOr (flock fd op wait) s (SettlesPlain s) :=
  lockRequest_settles s fd fun _ _ _ => namespaceLock_refuses

lemma watch_settles (path : Str) (recursive : Bool) :
    Prog.RefusesOr (watch path recursive) s (SettlesPlain s) := by
  apply Prog.RefusesOr.bind_query
  intro ino _
  apply bind_getNode
  intro row _
  apply bind_require
  intro _
  apply Prog.RefusesOr.bind_query
  intro _ _
  exact .of_run ⟨⟨_, rfl⟩, fun _ hd => absurd hd List.not_mem_nil, _, rfl, effect_refl s⟩

lemma unwatch_settles (slotId : ℕ) : Prog.RefusesOr (unwatch slotId) s (SettlesPlain s) :=
  .of_run ⟨⟨_, rfl⟩, fun _ hd => absurd hd List.not_mem_nil, _, rfl, effect_refl s⟩

end Settle

end Filesystem

end SqliteFs

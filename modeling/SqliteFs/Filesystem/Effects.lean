import SqliteFs.Filesystem.Updates
import SqliteFs.Filesystem.Machine
import SqliteFs.Blobs.Frame
import Mathlib.Logic.Relation

/-!
# The effect of a call

A call refuses, or it has one of the effects listed here: it leaves names and links alone, opens
or closes a descriptor, or changes the entries in one of six ways. An effect says all that the
call does to the entries, to the kinds and link counts of the nodes, and to the descriptors.
-/

namespace SqliteFs

open Txn

/-- What the structure of a mounted filesystem consists of. -/
structure Core where
  conn : Db
  connReadonly : Bool
  chunkSize : ℕ
  fdtable : FdTable

def Filesystem.core (s : Filesystem) : Core := ⟨s.conn, s.connReadonly, s.chunkSize, s.fdtable⟩

namespace Db

/-- Path resolution leads to `i`. -/
def Named (d : Db) (i : ℕ) : Prop := i = ROOT_INODE ∨ ∃ e ∈ d.entries, e.inode = i

/-- New entries may go under `p`. -/
def Placed (d : Db) (p : ℕ) : Prop := d.Named p ∧ d.kind p = some .dir

/-- A new node of kind `k` gets the name `e`. -/
def Attaches (d d' : Db) (k : NodeKind) (e : EntryRow) : Prop :=
  d.Placed e.parent ∧ ∃ d₁ d₂,
    d.AddsNode d₁ e.inode ⟨k, 0, if k = .dir then 2 else 1⟩ ∧
    d₁.insertEntry e = .ok d₂ ∧
    d₂.Adjust d' (if k = .dir then Pi.single e.parent 1 else 0)

/-- A node that is no directory gets one more name `e`. -/
def Links (d d' : Db) (e : EntryRow) : Prop :=
  d.Placed e.parent ∧ d.Named e.inode ∧ (∃ k, d.kind e.inode = some k ∧ k ≠ .dir) ∧ ∃ d₁,
    d.insertEntry e = .ok d₁ ∧ d₁.Adjust d' (Pi.single e.inode 1)

/-- The empty directory `e` goes. -/
def RemovesDir (d d' : Db) (e : EntryRow) : Prop :=
  e ∈ d.entries ∧ d.kind e.inode = some .dir ∧ (∀ x ∈ d.entries, x.parent ≠ e.inode) ∧ ∃ d₁,
    (d.deleteEntry e.parent e.name).Adjust d₁ (Pi.single e.parent (-1)) ∧
    d₁.RemovesNode d' e.inode

/-- The name `e` of a node that is no directory goes; `n` is the link count it leaves, as a
`u32`. -/
def Drops (d d' : Db) (e : EntryRow) (n : ℕ) : Prop :=
  e ∈ d.entries ∧ (∃ k, d.kind e.inode = some k ∧ k ≠ .dir) ∧
    (d.deleteEntry e.parent e.name).Adjust d' (Pi.single e.inode (-1)) ∧
    ∃ m, d.info e.inode = some m ∧ n = U32.ofI64 (m.nlink + -1)

lemma Drops.hasNode {d d' : Db} {e : EntryRow} {n : ℕ} (h : d.Drops d' e n) :
    d'.hasNode e.inode = true := by
  obtain ⟨-, ⟨k, hk, -⟩, hadj, -⟩ := h
  rw [hadj.hasNode]
  exact hasNode_of_kind (d := d) hk

/-- What the collector does about `i`, whose link count it reads as `n`. -/
inductive Collects (connReadonly : Bool) (t : FdTable) (n i : ℕ) (d : Db) : Db → Prop
  | removed {d' : Db} : connReadonly = false → n = 0 → t.openCount i = 0 → d.RemovesNode d' i →
      Collects connReadonly t n i d d'
  | kept : (n ≠ 0 ∨ t.openCount i ≠ 0 ∨ connReadonly = true ∨ ∃ e ∈ d.entries, e.inode = i) →
      Collects connReadonly t n i d d

/-- The entry `e` may go under the directory `q`. -/
def MayMove (d : Db) (e : EntryRow) (q : ℕ) : Prop :=
  e ∈ d.entries ∧ d.hasNode e.inode = true ∧ d.Placed q ∧
    (d.kind e.inode = some .dir → e.inode ≠ q ∧ ∃ l, Entries.ancestry d q = .ok l ∧ e.inode ∉ l)

/-- The entry `e` becomes the entry `(q, m)`; `isDir` says whether it is a directory's. -/
def Moves (d d' : Db) (isDir : Prop) [Decidable isDir] (e : EntryRow) (q : ℕ) (m : Str) : Prop :=
  ∃ d₁, d.moveEntry e.parent e.name q m = .ok d₁ ∧
    d₁.Adjust d' (if isDir ∧ e.parent ≠ q then Pi.single e.parent (-1) + Pi.single q 1 else 0)

/-- The entry `t` makes room for an entry from the directory `p`: a directory has to be empty,
and the node goes if its link count now reads as zero. -/
def Evicts (d d' : Db) (isDir : Prop) [Decidable isDir] (p : ℕ) (t : EntryRow) : Prop :=
  t ∈ d.entries ∧ (d.kind t.inode = some .dir ↔ isDir) ∧
    (isDir → ∀ x ∈ d.entries, x.parent ≠ t.inode) ∧ ∃ m d₁,
    d.info t.inode = some m ∧
    (d.deleteEntry t.parent t.name).Adjust d₁
      (Pi.single t.inode (-1) + if isDir ∧ p ≠ t.parent then Pi.single t.parent (-1) else 0) ∧
    (if U32.ofI64 (m.nlink + -1) = 0 then d₁.RemovesNode d' t.inode else d' = d₁)

end Db

lemma Blobs.ChangesChunks.rewrites {d d' : Db} {inode : ℕ} (h : Blobs.ChangesChunks d d' inode) :
    d.Rewrites d' inode := by
  have hinfo : ∀ i, d'.info i = d.info i := fun i => by rw [Db.info, Db.info, h.nodes]
  exact ⟨⟨h.entries, fun i => by rw [hinfo]⟩, fun i hi => ⟨by rw [hinfo], h.others i hi⟩⟩

/-- A label for the effects that not every operation can have. -/
inductive Label
  | plain
  | writes (i : ℕ)
  | removesDir (e : EntryRow)
  | closes (fd : ℕ)
  | replaces (e t : EntryRow)
  | reopens

/-- What a call may do, where it does not refuse. -/
inductive Effect (s : Core) : Label → Core → Prop
  | quiet {d : Db} : s.conn.Adjust d 0 → Effect s .plain { s with conn := d }
  | writes {d : Db} {i : ℕ} : s.conn.Rewrites d i → Effect s (.writes i) { s with conn := d }
  | opens {i : ℕ} {flags : Flags} {uid gid : UInt32} : s.conn.hasNode i = true →
      s.conn.Named i → (s.conn.kind i = some .dir → ∃ e ∈ s.conn.entries, e.inode = i) →
      Effect s .plain { s with fdtable := (s.fdtable.open_ i flags uid gid).2 }
  | truncates {d : Db} {i : ℕ} {flags : Flags} {uid gid : UInt32} : s.conn.Rewrites d i →
      s.conn.hasNode i = true → s.conn.Named i → s.conn.kind i ≠ some .dir →
      Effect s (.writes i) { s with conn := d, fdtable := (s.fdtable.open_ i flags uid gid).2 }
  | attaches {d : Db} {k : NodeKind} {e : EntryRow} : s.conn.Attaches d k e →
      Effect s .plain { s with conn := d }
  | creates {d : Db} {e : EntryRow} {flags : Flags} {uid gid : UInt32} :
      s.conn.Attaches d .file e →
      Effect s .plain { s with conn := d, fdtable := (s.fdtable.open_ e.inode flags uid gid).2 }
  | links {d : Db} {e : EntryRow} : s.conn.Links d e → Effect s .plain { s with conn := d }
  | removesDir {d : Db} {e : EntryRow} : s.connReadonly = false → s.conn.RemovesDir d e →
      Effect s (.removesDir e) { s with conn := d }
  | unlinks {d₁ d : Db} {e : EntryRow} {n : ℕ} : s.connReadonly = false → s.conn.Drops d₁ e n →
      d₁.Collects s.connReadonly s.fdtable n e.inode d → Effect s .plain { s with conn := d }
  | closes {d : Db} {fd : ℕ} {e : FdEntry} : s.fdtable.entries.find? fd = some e →
      (s.conn.hasNode e.inode = false ∧ d = s.conn ∨ ∃ m, s.conn.info e.inode = some m ∧
        s.conn.Collects s.connReadonly (s.fdtable.close fd).2 (U32.ofI64 m.nlink) e.inode d) →
      Effect s (.closes fd) { s with conn := d, fdtable := (s.fdtable.close fd).2 }
  | moves {d : Db} {e : EntryRow} {q : ℕ} {m : Str} : s.connReadonly = false →
      s.conn.MayMove e q →
      s.conn.Moves d (s.conn.kind e.inode = some .dir) e q m → Effect s .plain { s with conn := d }
  | replaces {d₁ d : Db} {e t : EntryRow} : s.connReadonly = false → s.conn.MayMove e t.parent →
      t.inode ≠ e.inode → s.conn.Evicts d₁ (s.conn.kind e.inode = some .dir) e.parent t →
      d₁.Moves d (s.conn.kind e.inode = some .dir) e t.parent t.name →
      Effect s (.replaces e t) { s with conn := d }
  | reopens {connReadonly : Bool} : Effect s .reopens
      ⟨s.conn, connReadonly, U64.ofI64 s.conn.chunkSize, .new⟩

namespace Filesystem

lemma effect_refl (s : Filesystem) : Effect s.core .plain s.core := .quiet .refl

/-- The call returns a value, commits its final database only, and has an effect among `labels`. -/
structure Settles {α : Type} (s : Filesystem) (labels : Label → Prop)
    (o : Outcome Filesystem Db Halt α) : Prop where
  returns : ∃ a, o.result = .ok a
  commits : ∀ d ∈ o.commits, d = o.state.conn
  effect : ∃ l, labels l ∧ Effect s.core l o.state.core

/-- What an operation does that asks for nothing special. -/
abbrev SettlesPlain {α : Type} (s : Filesystem) : Outcome Filesystem Db Halt α → Prop :=
  Settles s (· = .plain)

/-! ### Rules for programs -/

section Rules
variable {α β : Type} {s : Filesystem} {Q : Outcome Filesystem Db Halt α → Prop}

lemma bind_requireWritable {f : PUnit → Action α}
    (h : s.readonly = false → Prog.RefusesOr (f ⟨⟩) s Q) :
    Prog.RefusesOr (requireWritable >>= f) s Q := by
  refine .bind_query fun _ hq => h ?_
  cases hr : s.readonly with
  | false => rfl
  | true => rw [hr] at hq; cases hq

lemma bind_require {c : Prop} [Decidable c] {e : Error} {f : PUnit → Action α}
    (h : c → Prog.RefusesOr (f ⟨⟩) s Q) : Prog.RefusesOr (require c e >>= f) s Q :=
  .bind_ensure h

lemma bind_getNode {i : ℕ} {f : NodeRow → Action α}
    (h : ∀ row, Nodes.get s.conn i = .ok row → Prog.RefusesOr (f row) s Q) :
    Prog.RefusesOr (getNode i >>= f) s Q :=
  .bind_query h

lemma connReadonly_eq_false (hw : s.readonly = false) : s.connReadonly = false := by
  by_contra hc
  rw [s.guarded (Bool.eq_true_of_not_eq_false hc)] at hw
  cases hw

lemma tx_of_connReadonly {b : Sql β} (hc : s.connReadonly = false) :
    tx b s = Prog.transaction b s := by
  refine Prog.query_bind_ok (a := ()) ?_
  rw [hc]; rfl

lemma tx_apply {b : Sql β} (hw : s.readonly = false) : tx b s = Prog.transaction b s :=
  tx_of_connReadonly (connReadonly_eq_false hw)

/-- A transaction that fails leaves no trace. -/
lemma bind_tx {b : Sql β} {f : β → Action α}
    (h : ∀ a d, s.connReadonly = false → b s.conn = .ok (a, d) →
      Q ⟨(f a { s with conn := d }).result, (f a { s with conn := d }).state,
        d :: (f a { s with conn := d }).commits⟩) :
    Prog.RefusesOr (tx b >>= f) s Q := by
  cases hc : s.connReadonly with
  | true =>
    refine Or.inl ⟨.error (.sqlite .readOnly), Prog.bind_apply_error (Prog.query_bind_error ?_)⟩
    rw [hc]; rfl
  | false =>
    unfold Prog.RefusesOr
    rw [Prog.bind_congr (tx_of_connReadonly hc)]
    exact Prog.RefusesOr.bind_transaction (s := s) fun a d hd => h a d hc hd

end Rules

/-! ### Running a step that goes through -/

section Run
variable {α β : Type} {s : Filesystem}

lemma ask_bind {q : Filesystem → Res β} {f : β → Action α} {b : β} (h : q s = .ok b) :
    (ask q >>= f) s = f b s :=
  Prog.query_bind_ok h

lemma ask_bind_error {q : Filesystem → Res β} {f : β → Action α} {e : Halt} (h : q s = .error e) :
    (ask q >>= f) s = ⟨.error e, s, []⟩ :=
  Prog.query_bind_error h

lemma requireWritable_bind {f : PUnit → Action α} (h : s.readonly = false) :
    (requireWritable >>= f) s = f ⟨⟩ s := by
  refine ask_bind (b := PUnit.unit) ?_
  rw [h]; rfl

lemma require_bind {c : Prop} [Decidable c] {e : Error} {f : PUnit → Action α} (h : c) :
    (require c e >>= f) s = f ⟨⟩ s :=
  Prog.query_bind_ok (if_pos h)

lemma require_bind_error {c : Prop} [Decidable c] {e : Error} {f : PUnit → Action α} (h : ¬ c) :
    (require c e >>= f) s = ⟨err e, s, []⟩ :=
  Prog.query_bind_error (if_neg h)

lemma getNode_bind {i : ℕ} {f : NodeRow → Action α} {row : NodeRow}
    (h : Nodes.get s.conn i = .ok row) : (getNode i >>= f) s = f row s :=
  Prog.query_bind_ok h

lemma resolve_bind {path : Str} {f : ℕ → Action α} {i : ℕ}
    (h : resolveToInode s.conn path = .ok i) : (resolve path >>= f) s = f i s :=
  Prog.query_bind_ok h

lemma resolveParent_bind {path name : Str} {f : ℕ × Str → Action α} {parent : ℕ}
    (h : resolveParentAndName s.conn path = .ok (parent, name)) :
    (resolveParent path >>= f) s = f (parent, name) s :=
  Prog.query_bind_ok h

lemma requireAccessTo_bind {row : NodeRow} {access : Access} {f : Unit → Action α}
    (h : requireAccess row.mode row.uid row.gid s.callerUid s.callerGid access = .ok ()) :
    (requireAccessTo row access >>= f) s = f () s :=
  Prog.query_bind_ok h

lemma tx_run_of_connReadonly {b : Sql α} {a : α} {d : Db} (hc : s.connReadonly = false)
    (h : b s.conn = .ok (a, d)) : tx b s = ⟨.ok a, { s with conn := d }, [d]⟩ := by
  have hb : b (disk s) = .ok (a, d) := h
  rw [tx_of_connReadonly hc, Prog.transaction, hb]
  rfl

lemma tx_run {b : Sql α} {a : α} {d : Db} (hw : s.readonly = false)
    (h : b s.conn = .ok (a, d)) : tx b s = ⟨.ok a, { s with conn := d }, [d]⟩ :=
  tx_run_of_connReadonly (connReadonly_eq_false hw) h

lemma tx_bind {b : Sql β} {f : β → Action α} {a : β} {d : Db} (hw : s.readonly = false)
    (h : b s.conn = .ok (a, d)) :
    (tx b >>= f) s = ⟨(f a { s with conn := d }).result, (f a { s with conn := d }).state,
      d :: (f a { s with conn := d }).commits⟩ :=
  Prog.bind_apply_ok (tx_run hw h)

end Run

end Filesystem

end SqliteFs

import SqliteFs.Python.Resolution
import SqliteFs.Filesystem.Resolution

/-!
# The effect of a call in the Python library

A call leaves the structure of the filesystem alone, or it changes it in one of the ways listed
here. An effect says all that the call does to the skeleton of the database, to the descriptors
and to the cache of paths.
-/

namespace SqliteFs

open Txn

namespace Python

/-- What the structure of a mounted filesystem consists of, with the cache of paths. -/
structure Core where
  names : SqliteFs.Db
  readonly : Bool
  fds : FdTable
  cache : KeyTable CachedPath

def Filesystem.core (s : Filesystem) : Core :=
  ⟨s.conn.skeleton, s.readonly, s.fdTable, s.pathCache⟩

/-- A name of a node that is no directory goes, and perhaps the node with it. -/
def LosesName (d d' : SqliteFs.Db) (e : EntryRow) : Prop :=
  ∃ n d₁, d.Drops d₁ e n ∧ (d' = d₁ ∨ d₁.RemovesNode d' e.inode)

/-- An empty directory goes, and its parent takes no note of it. -/
def LosesDir (d d' : SqliteFs.Db) (e : EntryRow) : Prop :=
  e ∈ d.entries ∧ d.kind e.inode = some .dir ∧ (∀ x ∈ d.entries, x.parent ≠ e.inode) ∧
    (d.deleteEntry e.parent e.name).RemovesNode d' e.inode

/-- What stands at the destination of a rename goes. -/
def Clears (d d' : SqliteFs.Db) : Option EntryRow → Prop
  | none => d' = d
  | some t => LosesDir d d' t ∨ LosesName d d' t

/-- Two entries change places. -/
def Exchanges (d d' : SqliteFs.Db) (e t : EntryRow) : Prop :=
  ∃ d₁ d₂ d₃, d.moveEntry e.parent e.name t.parent Filesystem.swapTmp = .ok d₁ ∧
    d₁.moveEntry t.parent t.name e.parent e.name = .ok d₂ ∧
    d₂.moveEntry t.parent Filesystem.swapTmp t.parent t.name = .ok d₃ ∧ d₃.Adjust d' 0

/-- The cache may have got the path of one more inode. -/
inductive Fills (d : SqliteFs.Db) (c : KeyTable CachedPath) : KeyTable CachedPath → Prop
  | same : Fills d c c
  | filled {i : ℕ} {l : List Str} : d.Leads ROOT_INODE l i → Fills d c (c.put ⟨i, joinPath l⟩)

/-- The cache without the path of `i`. -/
def without (c : KeyTable CachedPath) (i : ℕ) : KeyTable CachedPath :=
  c.deleteWhere fun r => r.inode = i

/-- A label for the effects that not every operation can have. -/
inductive Label
  | plain
  | closes (fd : ℕ)
  | replaces (e : EntryRow) (q : ℕ) (m : Str) (t : Option EntryRow)
  | swaps (e t : EntryRow)
  | reopens

/-- What a call may do, where it does not refuse. -/
inductive Effect (s : Core) : Label → Core → Prop
  | quiet {d : SqliteFs.Db} {c : KeyTable CachedPath} : s.names.SameNames d → Fills d s.cache c →
      Effect s .plain { s with names := d, cache := c }
  | opens {d : SqliteFs.Db} {i : ℕ} {flags uid gid : ℤ} : s.names.SameNames d →
      Effect s .plain { s with names := d, fds := (s.fds.open_ i flags uid gid).2 }
  | attaches {d : SqliteFs.Db} {k : NodeKind} {e : EntryRow} :
      s.names.kind ROOT_INODE = some .dir → ValidName e.name → s.names.Attaches d k e →
      Effect s .plain { s with names := d }
  | creates {d : SqliteFs.Db} {e : EntryRow} {flags uid gid : ℤ} :
      s.names.kind ROOT_INODE = some .dir → ValidName e.name → s.names.Attaches d .file e →
      Effect s .plain { s with names := d, fds := (s.fds.open_ e.inode flags uid gid).2 }
  | links {d : SqliteFs.Db} {e : EntryRow} : s.names.kind ROOT_INODE = some .dir →
      ValidName e.name → s.names.Links d e → Effect s .plain { s with names := d }
  | removesDir {d : SqliteFs.Db} {e : EntryRow} : s.names.RemovesDir d e →
      Effect s .plain { s with names := d, cache := without s.cache e.inode }
  | unlinks {d : SqliteFs.Db} {e : EntryRow} : LosesName s.names d e →
      Effect s .plain { s with names := d, cache := without s.cache e.inode }
  | closes {d : SqliteFs.Db} {fd : ℕ} {f : FdEntry} : s.fds.entries.find? fd = some f →
      (d = s.names ∨ s.readonly = false ∧ (s.fds.close fd).openCount f.inode = 0 ∧
        (∃ n, s.names.info f.inode = some n ∧ n.nlink = 0) ∧ s.names.RemovesNode d f.inode) →
      Effect s (.closes fd) { s with names := d, fds := s.fds.close fd }
  | replaces {d₁ d : SqliteFs.Db} {e : EntryRow} {q : ℕ} {m : Str} {t : Option EntryRow}
      {c : KeyTable CachedPath} : s.names.MayMove e q → ValidName m →
      ¬ (e.parent = q ∧ e.name = m) → s.names.entries.find? (q, m) = t →
      c = (if s.names.kind e.inode = some .dir then .empty else without s.cache e.inode) →
      Clears s.names d₁ t → d₁.Moves d False e q m →
      Effect s (.replaces e q m t) { s with names := d, cache := c }
  | swaps {d : SqliteFs.Db} {e t : EntryRow} {c : KeyTable CachedPath} :
      s.names.MayMove e t.parent → t ∈ s.names.entries →
      ¬ (e.parent = t.parent ∧ e.name = t.name) →
      s.names.entries.find? (t.parent, Filesystem.swapTmp) = none →
      c = (if s.names.kind e.inode = some .dir then .empty
        else without (without s.cache e.inode) t.inode) →
      Exchanges s.names d e t → Effect s (.swaps e t) { s with names := d, cache := c }
  | reopens {readonly : Bool} : Effect s .reopens ⟨s.names, readonly, .new, .empty⟩

namespace Filesystem

variable {α β : Type} {s : Filesystem} {env : Env} {path src dst : Str} {labels : Label → Prop}

lemma effect_refl (s : Filesystem) : Effect s.core .plain s.core := .quiet .refl .same

/-- The state that the program leaves has an effect with one of the labels behind it. -/
def Changes (s : Filesystem) (labels : Label → Prop) (o : Outcome Filesystem Db Halt α) : Prop :=
  ∃ l, labels l ∧ Effect s.core l o.state.core

/-- Where the program does not refuse, it changes the structure in a way that `labels` allows. -/
abbrev Does (s : Filesystem) (labels : Label → Prop) (p : Action α) : Prop :=
  Prog.RefusesOr p s (Changes s labels)

/-- The program asks for nothing special. -/
abbrev DoesPlain (s : Filesystem) (p : Action α) : Prop := Does s (· = .plain) p

/-! ### Rules for programs -/

section Rules
variable {Q : Outcome Filesystem Db Halt α → Prop}

lemma bind_requireWritable {f : PUnit → Action α}
    (h : s.readonly = false → Prog.RefusesOr (f ⟨⟩) s Q) :
    Prog.RefusesOr (requireWritable >>= f) s Q :=
  .bind_query fun _ hq => h (check_eq_ok.mp hq)

lemma bind_ask {q : Filesystem → Res β} {f : β → Action α}
    (h : ∀ b, q s = .ok b → Prog.RefusesOr (f b) s Q) : Prog.RefusesOr (ask q >>= f) s Q :=
  .bind_query h

lemma bind_requireAccessTo {node : NodesRow} {access : Access} {f : PUnit → Action α}
    (h : checkAccess node.mode node.uid node.gid s.uid s.gid access = true →
      Prog.RefusesOr (f ⟨⟩) s Q) : Prog.RefusesOr (requireAccessTo node access >>= f) s Q :=
  .bind_query fun _ hq => h (requireAccess_eq_ok.mp hq)

lemma bind_requireAbsent {parent : ℕ} {name : Str} {f : PUnit → Action α}
    (h : s.conn.entries.find? (parent, name) = none → Prog.RefusesOr (f ⟨⟩) s Q) :
    Prog.RefusesOr (requireAbsent parent name path >>= f) s Q :=
  .bind_query fun _ hq => h (Option.isNone_iff_eq_none.mp (check_eq_ok.mp hq))

lemma bind_require {c : Prop} [Decidable c] {e : Exc} {f : PUnit → Action α}
    (h : c → Prog.RefusesOr (f ⟨⟩) s Q) : Prog.RefusesOr (require c e >>= f) s Q :=
  .bind_ensure h

lemma bind_resolvePath {follow : Bool} {f : ℕ → Action α}
    (h : ∀ i, resolvePathAs s.conn s.uid s.gid path follow = .ok i → Prog.RefusesOr (f i) s Q) :
    Prog.RefusesOr (resolvePath path follow >>= f) s Q :=
  .bind_query h

lemma bind_resolveParent {f : ℕ × Str → Action α}
    (h : ∀ parent name, resolveParentAs s.conn s.uid s.gid path = .ok (parent, name) →
      Prog.RefusesOr (f (parent, name)) s Q) :
    Prog.RefusesOr (resolveParent path >>= f) s Q :=
  .bind_query fun _ hq => h _ _ hq

lemma bind_getNode {i : ℕ} {f : NodesRow → Action α}
    (h : ∀ row, Nodes.get s.conn i = .ok row → Prog.RefusesOr (f row) s Q) :
    Prog.RefusesOr (getNode i >>= f) s Q :=
  .bind_query h

lemma bind_getEntry {parent : ℕ} {name : Str} {f : EntryRow → Action α}
    (h : ∀ e ∈ s.conn.entries, e.parent = parent → e.name = name → Prog.RefusesOr (f e) s Q) :
    Prog.RefusesOr (getEntry parent name >>= f) s Q := by
  refine .bind_query fun e hq => ?_
  obtain ⟨he, hp, hn⟩ := Entries.get_eq_ok.mp hq
  exact h e he hp hn

/-- A transaction that fails leaves no trace. -/
lemma bind_withConn {b : Sql β} {f : β → Action α}
    (h : ∀ a d, b s.conn = .ok (a, d) → Changes s labels (f a { s with conn := d })) :
    Does s labels (withConn b >>= f) :=
  .bind_transaction fun a d hd => h a d hd

lemma does_query {q : Filesystem → Res α} : DoesPlain s (Prog.query q : Action α) :=
  .query fun _ _ => ⟨_, rfl, effect_refl s⟩

lemma does_pure (a : α) : DoesPlain s (pure a : Action α) := .of_run ⟨_, rfl, effect_refl s⟩

end Rules

/-! ### Running a step -/

section Run

lemma ask_bind {q : Filesystem → Res β} {f : β → Action α} {b : β} (h : q s = .ok b) :
    (ask q >>= f) s = f b s :=
  Prog.query_bind_ok h

lemma ask_bind_error {q : Filesystem → Res β} {f : β → Action α} {e : Halt} (h : q s = .error e) :
    (ask q >>= f) s = ⟨.error e, s, []⟩ :=
  Prog.query_bind_error h

lemma requireWritable_bind {f : PUnit → Action α} (h : s.readonly = false) :
    (requireWritable >>= f) s = f ⟨⟩ s :=
  ask_bind (check_eq_ok.mpr h)

lemma require_bind {c : Prop} [Decidable c] {e : Exc} {f : PUnit → Action α} (h : c) :
    (require c e >>= f) s = f ⟨⟩ s :=
  Prog.query_bind_ok (if_pos h)

lemma require_bind_error {c : Prop} [Decidable c] {e : Exc} {f : PUnit → Action α} (h : ¬ c) :
    (require c e >>= f) s = ⟨raise e, s, []⟩ :=
  Prog.query_bind_error (if_neg h)

lemma resolvePath_bind {follow : Bool} {i : ℕ} {f : ℕ → Action α}
    (h : resolvePathAs s.conn s.uid s.gid path follow = .ok i) :
    (resolvePath path follow >>= f) s = f i s :=
  ask_bind h

lemma resolveParent_bind {x : ℕ × Str} {f : ℕ × Str → Action α}
    (h : resolveParentAs s.conn s.uid s.gid path = .ok x) : (resolveParent path >>= f) s = f x s :=
  ask_bind h

lemma getNode_bind {i : ℕ} {row : NodesRow} {f : NodesRow → Action α}
    (h : Nodes.get s.conn i = .ok row) : (getNode i >>= f) s = f row s :=
  ask_bind h

lemma getEntry_bind {parent : ℕ} {name : Str} {e : EntryRow} {f : EntryRow → Action α}
    (h : Entries.get s.conn parent name = .ok e) : (getEntry parent name >>= f) s = f e s :=
  ask_bind h

lemma requireAccessTo_bind {node : NodesRow} {access : Access} {f : PUnit → Action α}
    (h : checkAccess node.mode node.uid node.gid s.uid s.gid access = true) :
    (requireAccessTo node access >>= f) s = f ⟨⟩ s :=
  ask_bind (requireAccess_eq_ok.mpr h)

end Run

end Filesystem

end Python

end SqliteFs

import SqliteFs.Types
import Mathlib.Data.Int.Bitwise

/-!
# Types and exceptions of the Python library

The integers of the Python library are unbounded. SQLite stores 64 bits of them: `sqlite3` refuses
to pass on one that does not fit. What the two libraries share (text, bytes, the kinds of nodes,
the records of events) has the types of the Rust model.
-/

namespace SqliteFs

namespace Python

/-! ### Flags -/

/-- The `enum.Flag` of access rights. -/
abbrev Access := BitVec 3

def Access.R : Access := 4
def Access.W : Access := 2
def Access.X : Access := 1

/-- `b in a`. -/
def Access.contains (a b : Access) : Bool := a &&& b = b

/-- `Access.value`. -/
def Access.value (a : Access) : ℤ := a.toNat

namespace Os

def O_RDONLY : ℤ := 0
def O_WRONLY : ℤ := 1
def O_RDWR : ℤ := 2
def O_CREAT : ℤ := 0x40
def O_EXCL : ℤ := 0x80
def O_TRUNC : ℤ := 0x200
def O_NOFOLLOW : ℤ := 0x20000
def XATTR_CREATE : ℤ := 1
def XATTR_REPLACE : ℤ := 2

end Os

/-- `bool(flags & bits)`. -/
def hasBits (flags bits : ℤ) : Bool := flags.land bits ≠ 0

/-! ### Records -/

structure Stat where
  kind : NodeKind
  size : ℤ
  mode : ℤ
  uid : ℤ
  gid : ℤ
  atimeNs : ℤ
  mtimeNs : ℤ
  ctimeNs : ℤ
  nlink : ℤ
  inode : ℕ
  deriving DecidableEq

structure LockQuery where
  type : LockType
  pid : ℤ
  start : ℤ
  length : ℤ
  deriving DecidableEq

/-! ### Exceptions -/

/-- A piece of an f-string: literal text, or an argument with its format. -/
inductive Frag
  | lit (s : String)
  | repr (s : Str)
  | bytes (b : Bytes)
  | num (n : ℤ)
  | octal (n : ℤ)
  | access (a : Access)
  | lockType (t : LockType)
  deriving DecidableEq

/-- A message, as the f-string puts it together. -/
abbrev Msg := List Frag

/-- The exceptions of `errors.py`, and those that `sqlite3` and the interpreter raise. -/
inductive Exc
  | pathSyntaxError (msg : Msg)
  | nameTooLong (msg : Msg)
  | notFound (msg : Msg)
  | alreadyExists (msg : Msg)
  | notADirectory (msg : Msg)
  | isADirectory (msg : Msg)
  | directoryNotEmpty (msg : Msg)
  | permissionDenied (msg : Msg)
  | readOnlyFilesystem (msg : Msg)
  | invalidXattr (msg : Msg)
  | lockConflict (msg : Msg)
  | badFileDescriptor (msg : Msg)
  | symlinkLoop (msg : Msg)
  | invalidArgument (msg : Msg)
  | integrityError
  | operationalError
  | overflowError
  | zeroDivisionError
  | typeError
  | assertionError (msg : Msg)
  | stopIteration
  deriving DecidableEq

/-- How a computation can end without a value: it raises, or it never returns. -/
inductive Halt
  | raised (e : Exc)
  | diverge
  deriving DecidableEq

/-- What a Python function with a result of type `α` does. -/
abbrev Res := Except Halt

/-- Raise `e`. -/
def raise {α : Type} (e : Exc) : Res α := .error (.raised e)

/-- The row of a query that may find none, or else `e`. -/
def rowOr {α : Type} (o : Option α) (e : Exc) : Res α :=
  match o with
  | some a => .ok a
  | none => raise e

@[simp] lemma rowOr_eq_ok {α : Type} {o : Option α} {e : Exc} {a : α} :
    rowOr o e = .ok a ↔ o = some a := by
  cases o <;> simp [rowOr, raise]

/-- `raise e` unless `c` holds. -/
def check (c : Prop) [Decidable c] (e : Exc) : Res PUnit := if c then .ok ⟨⟩ else raise e

@[simp] lemma check_eq_ok {c : Prop} [Decidable c] {e : Exc} {u : PUnit} :
    check c e = .ok u ↔ c := by
  unfold check raise
  split_ifs with h <;> simp [h]

/-- SQLite can store `n`. -/
def Storable (n : ℤ) : Prop := -2 ^ 63 ≤ n ∧ n < 2 ^ 63

instance (n : ℤ) : Decidable (Storable n) := inferInstanceAs (Decidable (_ ∧ _))

lemma storable_zero : Storable 0 := by decide

/-- What a call reads from its surroundings: `time.time_ns()` and `os.getpid()`. -/
structure Env where
  now : ℤ
  pid : ℤ
  storable : Storable now

/-- Bind the integers as parameters of a statement. -/
def bindParams (ns : List ℤ) : Res PUnit := check (∀ n ∈ ns, Storable n) .overflowError

@[simp] lemma bindParams_eq_ok {ns : List ℤ} {u : PUnit} :
    bindParams ns = .ok u ↔ ∀ n ∈ ns, Storable n :=
  check_eq_ok

end Python

end SqliteFs

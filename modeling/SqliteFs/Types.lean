import Mathlib.Data.Char
import Mathlib.Data.List.Lex
import Mathlib.Algebra.Order.Group.Nat
import Mathlib.Algebra.GroupWithZero.Nat
import Mathlib.Algebra.Ring.Int.Defs

/-!
# Types and errors

Text (`&str`, `String`) is a list of characters, and its `len` is the size of its UTF-8 form.
The unsigned 64-bit integers of the source are natural numbers; where a step can leave their
range, the model computes with the functions of `U64`, which wrap around as the release build
does. The identifiers that SQLite and the tables hand out in sequence (inodes, descriptors,
watch slots) are plain natural numbers.
-/

namespace SqliteFs

/-- Text. -/
abbrev Str := List Char

/-- `str::len`: the number of bytes of the UTF-8 form. -/
def Str.len (s : Str) : ℕ := (s.map Char.utf8Size).sum

/-- The bytes of a file. -/
abbrev Bytes := List UInt8

/-! ### Machine integers -/

namespace U64

def add (a b : ℕ) : ℕ := (a + b) % 2 ^ 64

def sub (a b : ℕ) : ℕ := (a + 2 ^ 64 - b) % 2 ^ 64

def mul (a b : ℕ) : ℕ := (a * b) % 2 ^ 64

/-- `as i64`. -/
def toI64 (n : ℕ) : ℤ := if n < 2 ^ 63 then n else (n : ℤ) - 2 ^ 64

/-- `as u64`, from an `i64`. -/
def ofI64 (n : ℤ) : ℕ := (n % 2 ^ 64).toNat

@[simp] lemma add_of_lt {a b : ℕ} (h : a + b < 2 ^ 64) : add a b = a + b := Nat.mod_eq_of_lt h

lemma sub_of_le {a b : ℕ} (h : b ≤ a) (ha : a < 2 ^ 64) : sub a b = a - b := by
  unfold sub; omega

lemma mul_of_lt {a b : ℕ} (h : a * b < 2 ^ 64) : mul a b = a * b := Nat.mod_eq_of_lt h

lemma toI64_of_lt {n : ℕ} (h : n < 2 ^ 63) : toI64 n = n := if_pos h

lemma ofI64_toI64 {n : ℕ} (h : n < 2 ^ 64) : ofI64 (toI64 n) = n := by
  unfold ofI64 toI64; split_ifs <;> omega

end U64

/-- `as u32`, from an `i64`. -/
def U32.ofI64 (n : ℤ) : ℕ := (n % 2 ^ 32).toNat

/-! ### Types -/

inductive NodeKind
  | file | dir | symlink
  deriving DecidableEq, Repr

inductive LockOp
  | shared | exclusive | unlock
  deriving DecidableEq, Repr

inductive FlockOp
  | shared | exclusive | unlock
  deriving DecidableEq, Repr

inductive LockType
  | shared | exclusive
  deriving DecidableEq, Repr

/-- The `bitflags` set of access rights. -/
abbrev Access := UInt32

def Access.R : Access := 4
def Access.W : Access := 2
def Access.X : Access := 1

/-- `Access::contains`. -/
def Access.contains (a b : Access) : Bool := a &&& b = b

/-- The bits of the `i32` flags of `open` and `create`. -/
abbrev Flags := BitVec 32

namespace Libc

def O_RDONLY : Flags := 0
def O_WRONLY : Flags := 1
def O_RDWR : Flags := 2
def O_ACCMODE : Flags := 3
def O_EXCL : Flags := 0x80
def O_TRUNC : Flags := 0x200

end Libc

structure Stat where
  kind : NodeKind
  size : ℕ
  mode : UInt32
  uid : UInt32
  gid : UInt32
  atimeNs : ℤ
  mtimeNs : ℤ
  ctimeNs : ℤ
  nlink : ℕ
  inode : ℕ
  deriving DecidableEq

structure DirEntry where
  name : Str
  kind : NodeKind
  inode : ℕ
  deriving DecidableEq

structure LockQuery where
  type : LockType
  pid : ℤ
  start : ℤ
  length : ℤ
  deriving DecidableEq

inductive EventKind
  | create | remove | modify | move | metadata
  deriving DecidableEq, Repr

structure Event where
  kind : EventKind
  path : Str
  srcPath : Option Str
  dstPath : Option Str
  nodeKind : NodeKind
  inode : ℕ
  timestampNs : ℤ
  deriving DecidableEq

/-- The clock readings of one call: `now_ns()` for the rows, and the one that stamps the event. -/
structure Clock where
  now : ℤ
  event : ℤ
  deriving DecidableEq

/-! ### Errors -/

/-- A piece of a formatted message: literal text, or an argument with its format. -/
inductive Frag
  | lit (s : String)
  | debug (s : Str)
  | num (n : ℤ)
  | octal (n : UInt32)
  | access (a : Access)
  | lockType (t : LockType)
  deriving DecidableEq

/-- A message, as `format!` receives it. -/
abbrev Msg := List Frag

/-- What SQLite reports: a violated constraint, a query without a row, a write to a read-only
database. -/
inductive SqliteError
  | constraintViolation | queryReturnedNoRows | readOnly
  deriving DecidableEq, Repr

inductive Error
  | pathSyntax (msg : Msg)
  | nameTooLong (msg : Msg)
  | notFound (msg : Msg)
  | alreadyExists (msg : Msg)
  | notADirectory (msg : Msg)
  | isADirectory (msg : Msg)
  | directoryNotEmpty (msg : Msg)
  | permissionDenied (msg : Msg)
  | readOnlyFilesystem
  | invalidXattr (msg : Msg)
  | lockConflict (msg : Msg)
  | badFileDescriptor (msg : Msg)
  | symlinkLoop (msg : Msg)
  | invalidArgument (msg : Msg)
  | sqlite (e : SqliteError)
  deriving DecidableEq

/-- How a computation can end without a value: it returns `Err`, it panics, or it never
returns. -/
inductive Halt
  | error (e : Error)
  | panic
  | diverge
  deriving DecidableEq

/-- What a Rust function with result type `Result<α>` does. -/
abbrev Res := Except Halt

/-- Return `Err e`. -/
def err {α : Type} (e : Error) : Res α := .error (.error e)

/-- `res?` on a query that may find no row. -/
def okOr {α : Type} (o : Option α) (e : Error) : Res α :=
  match o with
  | some a => .ok a
  | none => err e

@[simp] lemma okOr_eq_ok {α : Type} {o : Option α} {e : Error} {a : α} :
    okOr o e = .ok a ↔ o = some a := by
  cases o <;> simp [okOr, err]

end SqliteFs

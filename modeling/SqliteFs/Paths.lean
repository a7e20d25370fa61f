import SqliteFs.Types
import Mathlib.Data.List.Basic

/-!
# Path grammar and access checks
-/

namespace SqliteFs

def PATH_MAX : ℕ := 4096
def NAME_MAX : ℕ := 255

/-- `str::strip_suffix('/')`, with the string itself where there is nothing to strip. -/
def stripSlash (s : Str) : Str := if s.getLast? = some '/' then s.dropLast else s

/-- The checks that `parsePath` makes on one component. -/
def checkComponent (path part : Str) : Res Str :=
  if part = [] then
    err (.pathSyntax [.lit "empty component in path ", .debug path])
  else if part = ['.'] ∨ part = ['.', '.'] then
    err (.pathSyntax [.lit "'.' and '..' are not permitted: ", .debug path])
  else if '\x00' ∈ part then
    err (.pathSyntax [.lit "embedded NUL in path ", .debug path])
  else if part.len > NAME_MAX then
    err (.nameTooLong [.lit "component ", .debug part, .lit " exceeds NAME_MAX (",
      .num NAME_MAX, .lit ")"])
  else .ok part

def parsePath (path : Str) : Res (List Str) :=
  if path = [] then
    err (.pathSyntax [.lit "path is empty"])
  else if path.len > PATH_MAX then
    err (.pathSyntax [.lit "path exceeds PATH_MAX (", .num PATH_MAX, .lit ")"])
  else if path.head? ≠ some '/' then
    err (.pathSyntax [.lit "path must be absolute, got ", .debug path])
  else if path = ['/'] then .ok []
  else ((stripSlash path.tail).splitOn '/').mapM (checkComponent path)

/-- `format!("/{}", components.join("/"))`. -/
def joinPath (components : List Str) : Str := '/' :: List.intercalate ['/'] components

example : parsePath ['/', 'a', '/', 'b', '/'] = .ok [['a'], ['b']] := by decide

/-! ### Access checks -/

def checkAccess (nodeMode nodeUid nodeGid callerUid callerGid : UInt32) (access : Access) : Bool :=
  if callerUid = 0 then
    if access.contains Access.X then nodeMode &&& 0o111 != 0 else true
  else
    let bits :=
      if callerUid = nodeUid then (nodeMode >>> 6) &&& 0o7
      else if callerGid = nodeGid then (nodeMode >>> 3) &&& 0o7
      else nodeMode &&& 0o7
    bits &&& access == access

def requireAccess (nodeMode nodeUid nodeGid callerUid callerGid : UInt32) (access : Access) :
    Res Unit :=
  if checkAccess nodeMode nodeUid nodeGid callerUid callerGid access then .ok ()
  else err (.permissionDenied
    [.lit "access ", .access access, .lit " denied: caller=(", .num callerUid.toNat, .lit ",",
      .num callerGid.toNat, .lit "), node=(", .num nodeUid.toNat, .lit ",", .num nodeGid.toNat,
      .lit ",0o", .octal nodeMode, .lit ")"])

@[simp] lemma requireAccess_eq_ok {m u g cu cg : UInt32} {a : Access} {r : Unit} :
    requireAccess m u g cu cg a = .ok r ↔ checkAccess m u g cu cg a = true := by
  unfold requireAccess
  split_ifs with h <;> simp [h, err]

/-- Who has an access has every part of it. -/
lemma checkAccess_mono {m u g cu cg : UInt32} {a b : Access} (hab : a.contains b = true)
    (h : checkAccess m u g cu cg a = true) : checkAccess m u g cu cg b = true := by
  replace hab : a &&& b = b := of_decide_eq_true hab
  unfold checkAccess at h ⊢
  by_cases hroot : cu = 0
  · rw [if_pos hroot] at h ⊢
    by_cases hX : b.contains Access.X = true
    · have hbX : b &&& Access.X = Access.X := of_decide_eq_true hX
      have haX : a.contains Access.X = true := by
        refine decide_eq_true ?_
        rw [← hbX, ← UInt32.and_assoc, hab]
      rw [if_pos haX] at h
      rwa [if_pos hX]
    · rw [if_neg hX]
  · rw [if_neg hroot] at h ⊢
    dsimp only at h ⊢
    rw [beq_iff_eq] at h ⊢
    rw [← hab, ← UInt32.and_assoc, h]

end SqliteFs

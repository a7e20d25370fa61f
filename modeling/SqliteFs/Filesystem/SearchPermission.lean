import SqliteFs.Filesystem.Passes
import SqliteFs.Filesystem.Resolution

/-!
# Search permission

A path is looked up one component after the other, each in the directory that the components before
it lead to. `Filesystem` does not ask whether the caller may search these directories: the only ones
for which it does are those that an operation changes the entries of.
-/

namespace SqliteFs

open Txn

namespace Filesystem

variable {s : Filesystem} {user : Option (UInt32 × UInt32)} {clock : Clock} {path : Str} {i : ℕ}

/-- The caller may search the directory `i`. -/
def CanSearch (s : Filesystem) (i : ℕ) : Prop :=
  ∃ row, Nodes.get s.conn i = .ok row ∧ Allows s row Access.X

/-- A component of the path is looked up in the directory `i`. -/
def Searched (d : Db) (path : Str) (i : ℕ) : Prop :=
  ∃ init m rest, parsePath path = .ok (init ++ m :: rest) ∧ d.Leads ROOT_INODE init i

/-- If the call returns `Ok`, then the caller may search every directory in which a component of a
path was looked up. -/
def SearchEnforced (s : Filesystem) (user : Option (UInt32 × UInt32)) (clock : Clock)
    (operation : Op) : Prop :=
  (∃ reply, ((Call.op user clock operation).outcome s).result = .ok reply) →
    ∀ path, operation.LooksUp path → ∀ i, Searched s.conn path i → CanSearch (s.actAs user) i

/-- The operation asks for the right to change the entries of the directory that has, or is to have,
the last component of the path. -/
def Op.ChecksParent (s : Filesystem) : Op → Str → Prop
  | .mkdir .., _ | .rmdir _, _ | .unlink _, _ | .symlink .., _ | .rename .., _ => True
  | .link _ linkPath, path => path = linkPath
  -- `create` opens what has the name already without asking
  | .create .., path => ∃ p n, resolveParentAndName s.conn path = .ok (p, n) ∧
      s.conn.entries.find? (p, n) = none
  | _, _ => False

/-- The operation looks a component up in the directory `i`, and not as the last one of a path whose
parent it checks. -/
def Op.Unchecked (s : Filesystem) (operation : Op) (i : ℕ) : Prop :=
  ∃ path init m rest, operation.LooksUp path ∧ parsePath path = .ok (init ++ m :: rest) ∧
    s.conn.Leads ROOT_INODE init i ∧ ¬ (rest = [] ∧ operation.ChecksParent s path)

lemma canSearch_of_mayChange (h : MayChange s i) : CanSearch s i := by
  obtain ⟨row, hrow, haccess⟩ := h
  exact ⟨row, hrow, checkAccess_mono rfl (requireAccess_eq_ok.mp haccess)⟩

/-- Where an operation checks the parent of a path, it does so before it returns. -/
lemma Op.Passes.mayChange {operation : Op} (h : operation.Passes s) (hpath : operation.LooksUp path)
    (hcheck : operation.ChecksParent s path) :
    ∃ p n, resolveParentAndName s.conn path = .ok (p, n) ∧ MayChange s p := by
  cases operation with
  | mkdir path' mode =>
    obtain rfl := hpath
    obtain ⟨p, n, hmay⟩ := h
    exact ⟨p, n, hmay.resolved, hmay.access⟩
  | symlink target path' =>
    obtain rfl := hpath
    obtain ⟨p, n, hmay⟩ := h
    exact ⟨p, n, hmay.resolved, hmay.access⟩
  | rmdir path' =>
    obtain rfl := hpath
    obtain ⟨e, hmay⟩ := h
    exact ⟨e.parent, e.name, hmay.resolved, hmay.access⟩
  | unlink path' =>
    obtain rfl := hpath
    obtain ⟨⟨e, row, hmay⟩, -⟩ := h
    exact ⟨e.parent, e.name, hmay.resolved, hmay.access⟩
  | link target linkPath =>
    obtain rfl := hcheck
    obtain ⟨-, p, n, hmay⟩ := h
    exact ⟨p, n, hmay.resolved, hmay.access⟩
  | create path' flags mode =>
    obtain rfl := hpath
    obtain ⟨p, n, hresolved, hfree⟩ := hcheck
    rcases h with ⟨j, row, hmay⟩ | ⟨p', n', hmay⟩
    · obtain ⟨p', n', hresolved', he⟩ := hmay.named
      cases hresolved.symm.trans hresolved'
      unfold Entries.get at he
      rw [hfree] at he
      cases he
    · exact ⟨p', n', hmay.resolved, hmay.access⟩
  | rename src dst =>
    obtain ⟨hne, rfl | rfl⟩ := hpath
    · obtain ⟨e, q, m, hmay, -⟩ := h.2.resolve_left hne
      exact ⟨e.parent, e.name, hmay.source, hmay.srcAccess⟩
    · obtain ⟨e, q, m, hmay, -⟩ := h.2.resolve_left hne
      exact ⟨q, m, hmay.target, hmay.dstAccess⟩
  | _ => exact hcheck.elim

/-- In every reachable state, a call returns `Ok` only where its caller may search every directory
that it looks something up in, unless it passes all its checks and there is a directory among these
that is not checked and that the caller may not search. -/
theorem searchEnforced_iff (h : Reachable s) (operation : Op) :
    SearchEnforced s user clock operation ↔ ¬ (operation.Passes (s.actAs user) ∧
      ∃ i, operation.Unchecked (s.actAs user) i ∧ ¬ CanSearch (s.actAs user) i) := by
  have hcounted : (s.actAs user).core.Counted (· ≠ .dir) := by
    rw [actAs_core]
    exact files_counted h
  have howned : (s.actAs user).conn.Owned := by
    rw [actAs_conn]
    exact owned_runsTo h
  have hok : ∀ {path}, operation.LooksUp path →
      ((∃ reply, ((Call.op user clock operation).outcome s).result = .ok reply) ↔
        operation.Passes (s.actAs user)) := by
    intro path hpath
    rw [outcome_op, asUser_result]
    exact Op.returns_iff hcounted howned hpath
  constructor
  · rintro henforced ⟨hpasses, i, ⟨path, init, m, rest, hpath, hparse, hleads, -⟩, hnot⟩
    rw [actAs_conn] at hleads
    exact hnot (henforced ((hok hpath).mpr hpasses) path hpath i ⟨init, m, rest, hparse, hleads⟩)
  · rintro hnot hreply path hpath i ⟨init, m, rest, hparse, hleads⟩
    have hpasses := (hok hpath).mp hreply
    rw [← actAs_conn s user] at hleads
    by_cases hlast : rest = [] ∧ operation.ChecksParent (s.actAs user) path
    · obtain ⟨rfl, hcheck⟩ := hlast
      obtain ⟨p, n, hresolved, hmay⟩ := hpasses.mayChange hpath hcheck
      obtain ⟨l, hparse', hleads'⟩ := (resolveParentAndName_eq_ok hcounted.rooted.tree).mp hresolved
      obtain ⟨rfl, -⟩ := List.append_inj' (Except.ok.inj (hparse.symm.trans hparse')) rfl
      rw [hleads.unique hleads']
      exact canSearch_of_mayChange hmay
    · by_contra hsearch
      exact hnot ⟨hpasses, i, ⟨path, init, m, rest, hpath, hparse, hleads, hlast⟩, hsearch⟩

/-- A directory of root's that nobody else may search, with a file in it. -/
def closedDir : Filesystem :=
  newFsAfter [.mkdir ['/', 'd'] 0o700, .create ['/', 'd', '/', 'f'] Libc.O_RDWR 0o644]

theorem searchEnforced_iff_closedDir :
    (SearchEnforced closedDir (some (5, 5)) ⟨1, 1⟩ (.stat ['/', 'd', '/', 'f']) ↔
      ¬ (Op.Passes (closedDir.actAs (some (5, 5))) (.stat ['/', 'd', '/', 'f']) ∧
        ∃ i, Op.Unchecked (closedDir.actAs (some (5, 5))) (.stat ['/', 'd', '/', 'f']) i ∧
          ¬ CanSearch (closedDir.actAs (some (5, 5))) i)) ∧
    Op.Passes (closedDir.actAs (some (5, 5))) (.stat ['/', 'd', '/', 'f']) ∧
    Op.Unchecked (closedDir.actAs (some (5, 5))) (.stat ['/', 'd', '/', 'f']) 2 ∧
    ¬ CanSearch (closedDir.actAs (some (5, 5))) 2 := by
  refine ⟨searchEnforced_iff (reachable_newFsAfter _) _, ?_, ?_, ?_⟩
  · exact ⟨3, ⟨3, .file, 0o644, 0, 0, 0, 0, 0, 0, 1⟩, by decide +kernel, by decide +kernel⟩
  · refine ⟨['/', 'd', '/', 'f'], [['d']], ['f'], [], rfl, by decide,
      ⟨⟨ROOT_INODE, ['d'], 2⟩, ?_, rfl, rfl, rfl⟩, And.right⟩
    decide +kernel
  · rintro ⟨row, hrow, hallowed⟩
    have hnode : Nodes.get (closedDir.actAs (some (5, 5))).conn 2
        = .ok ⟨2, .dir, 0o700, 0, 0, 0, 0, 0, 0, 2⟩ := by decide +kernel
    cases hnode.symm.trans hrow
    rw [show Allows (closedDir.actAs (some (5, 5))) ⟨2, .dir, 0o700, 0, 0, 0, 0, 0, 0, 2⟩ Access.X ↔
      checkAccess 0o700 0 0 5 5 Access.X = true from Iff.rfl] at hallowed
    exact absurd hallowed (by decide)

/-- The user 5 gets the attributes of the file. -/
theorem not_searchEnforced_closedDir : Reachable closedDir ∧
    ¬ SearchEnforced closedDir (some (5, 5)) ⟨1, 1⟩ (.stat ['/', 'd', '/', 'f']) := by
  refine ⟨reachable_newFsAfter _, fun h => ?_⟩
  have hreply : (((Call.op (some (5, 5)) ⟨1, 1⟩ (.stat ['/', 'd', '/', 'f'])).outcome
      closedDir).result.toOption).isSome = true := by decide +kernel
  have hsearched : Searched closedDir.conn ['/', 'd', '/', 'f'] 2 := by
    refine ⟨[['d']], ['f'], [], by decide, ⟨ROOT_INODE, ['d'], 2⟩, ?_, rfl, rfl, rfl⟩
    decide +kernel
  have hrow : ∃ row, Nodes.get closedDir.conn 2 = .ok row ∧
      checkAccess row.mode row.uid row.gid 5 5 Access.X = false := by
    have hget : ((Nodes.get closedDir.conn 2).toOption.map fun row =>
        checkAccess row.mode row.uid row.gid 5 5 Access.X) = some false := by decide +kernel
    cases hrow : Nodes.get closedDir.conn 2 with
    | ok row =>
      rw [hrow] at hget
      exact ⟨row, rfl, Option.some.inj hget⟩
    | error x =>
      rw [hrow] at hget
      cases hget
  obtain ⟨row, hrow, hdenied⟩ := hrow
  cases hresult : ((Call.op (some (5, 5)) ⟨1, 1⟩ (.stat ['/', 'd', '/', 'f'])).outcome
      closedDir).result with
  | error x =>
    rw [hresult] at hreply
    cases hreply
  | ok reply =>
    obtain ⟨row', hrow', hallowed⟩ := h ⟨reply, hresult⟩ _ rfl 2 hsearched
    obtain rfl : row = row' := Except.ok.inj (hrow.symm.trans hrow')
    rw [show Allows _ row Access.X ↔ checkAccess row.mode row.uid row.gid 5 5 Access.X = true
      from Iff.rfl, hdenied] at hallowed
    cases hallowed

end Filesystem

end SqliteFs

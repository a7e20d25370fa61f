import SqliteFs.Types
import SqliteFs.Lib.KeyTable
import SqliteFs.Lib.RecursiveQuery
import Mathlib.Data.List.Dedup

/-!
# The consistency check

`runFsck` reads the tables as SQLite holds them: the primary keys are unique, and the rest may be
anything. Only the columns that the queries read are here; as inodes and link counts stand any
integers.
-/

namespace SqliteFs

namespace Fsck

/-! ### The tables -/

structure NodeCols where
  inode : ℤ
  kind : NodeKind
  nlink : ℤ
  deriving DecidableEq

structure EntryCols where
  parent : ℤ
  name : Str
  inode : ℤ
  deriving DecidableEq

structure BlobCols where
  inode : ℤ
  chunkId : ℤ
  deriving DecidableEq

structure XattrCols where
  inode : ℤ
  name : Str
  deriving DecidableEq

structure SymlinkCols where
  inode : ℤ
  deriving DecidableEq

instance : Keyed NodeCols ℤ := ⟨NodeCols.inode⟩
instance : Keyed EntryCols (ℤ × Str) := ⟨fun r => (r.parent, r.name)⟩
instance : Keyed BlobCols (ℤ × ℤ) := ⟨fun r => (r.inode, r.chunkId)⟩
instance : Keyed XattrCols (ℤ × Str) := ⟨fun r => (r.inode, r.name)⟩
instance : Keyed SymlinkCols ℤ := ⟨SymlinkCols.inode⟩

structure Contents where
  nodes : KeyTable NodeCols
  entries : KeyTable EntryCols
  blobs : KeyTable BlobCols
  xattrs : KeyTable XattrCols
  symlinks : KeyTable SymlinkCols
  deriving DecidableEq

/-! ### The report -/

inductive IntegrityResult
  | ok | corrupted
  deriving DecidableEq, Repr

inductive FsckKind
  | orphanBlob | orphanXattr | orphanSymlink | cycle | nlinkMismatch | danglingParent
  deriving DecidableEq, Repr

structure FsckIssue where
  kind : FsckKind
  inode : Option ℕ
  detail : Msg
  deriving DecidableEq

structure FsckReport where
  integrityCheckResult : IntegrityResult
  issues : List FsckIssue
  deriving DecidableEq

/-! ### The checks -/

/-- `LEFT JOIN nodes n ON n.inode = ?` finds no row. -/
def Contents.missing (t : Contents) (inode : ℤ) : Bool := (t.nodes.find? inode).isNone

/-- The issues of a `SELECT DISTINCT` for the rows that refer to a missing inode. -/
def orphans (t : Contents) (inodes : List ℤ) (kind : FsckKind) (rows : String) : List FsckIssue :=
  ((inodes.filter t.missing).dedup.map U64.ofI64).map fun ino =>
    ⟨kind, some ino, [.lit rows, .lit " row for missing inode ", .num ino]⟩

def checkOrphanBlobs (t : Contents) : List FsckIssue :=
  orphans t (t.blobs.rows.map BlobCols.inode) .orphanBlob "blobs"

def checkOrphanXattrs (t : Contents) : List FsckIssue :=
  orphans t (t.xattrs.rows.map XattrCols.inode) .orphanXattr "xattrs"

def checkOrphanSymlinks (t : Contents) : List FsckIssue :=
  orphans t (t.symlinks.rows.map SymlinkCols.inode) .orphanSymlink "symlinks" ++
    ((t.nodes.select fun n => n.kind = .symlink ∧ (t.symlinks.find? n.inode).isNone).map fun n =>
      U64.ofI64 n.inode).map fun ino => ⟨.orphanSymlink, some ino,
        [.lit "nodes says symlink but no symlinks row for inode ", .num ino]⟩

def checkDanglingEntries (t : Contents) : List FsckIssue :=
  (t.entries.select fun e => t.missing e.parent).map (fun e =>
    let parent := U64.ofI64 e.parent
    let child := U64.ofI64 e.inode
    ⟨.danglingParent, some parent, [.lit "entry ", .debug e.name, .lit " -> ", .num child,
      .lit " references missing parent ", .num parent]⟩) ++
  (t.entries.select fun e => t.missing e.inode).map fun e =>
    let parent := U64.ofI64 e.parent
    let child := U64.ofI64 e.inode
    ⟨.danglingParent, some child, [.lit "entry ", .debug e.name, .lit " under ", .num parent,
      .lit " points at missing inode ", .num child]⟩

/-- A row of `walk`: `depth` parent links lead from `inode` to `ancestor`. -/
structure WalkRow where
  inode : ℤ
  ancestor : ℤ
  depth : ℕ
  deriving DecidableEq

def MAX_DEPTH : ℕ := 4096

/-- The rows that `walk` starts from. -/
def walkStart (t : Contents) : List WalkRow := t.entries.rows.map fun e => ⟨e.inode, e.parent, 1⟩

/-- The rows that `walk` joins to `w`. -/
def walkNext (t : Contents) (w : WalkRow) : List WalkRow :=
  if w.depth < MAX_DEPTH then
    (t.entries.select fun e => e.inode = w.ancestor).map fun e => ⟨w.inode, e.parent, w.depth + 1⟩
  else []

/-- `WITH RECURSIVE walk`. After `MAX_DEPTH` rounds no row leads on. -/
def walk (t : Contents) : List WalkRow :=
  RecursiveQuery.rounds (walkNext t) MAX_DEPTH (walkStart t)

def checkCycles (t : Contents) : List FsckIssue :=
  ((((walk t).filter fun w => w.inode = w.ancestor).map WalkRow.inode).dedup.map U64.ofI64).map
    fun ino => ⟨.cycle, some ino, [.lit "inode ", .num ino, .lit " is its own ancestor"]⟩

/-- The entries under `inode` whose child is a directory. -/
def subdirs (t : Contents) (inode : ℤ) : ℕ :=
  t.entries.count fun e =>
    e.parent = inode ∧ (t.nodes.find? e.inode).map NodeCols.kind = some .dir

/-- `subdirs + 2`, as `u32`. -/
def expected (count : ℕ) : ℕ := (U32.ofI64 count + 2) % 2 ^ 32

def checkNlink (t : Contents) : List FsckIssue :=
  (t.nodes.select fun n =>
    n.kind = .dir ∧ U32.ofI64 n.nlink ≠ expected (subdirs t n.inode)).map fun n =>
      let inode := U64.ofI64 n.inode
      ⟨.nlinkMismatch, some inode, [.lit "dir ", .num inode, .lit " has nlink=",
        .num (U32.ofI64 n.nlink), .lit " but ", .num (U32.ofI64 (subdirs t n.inode)),
        .lit " subdirs (expected ", .num (expected (subdirs t n.inode)), .lit ")"]⟩

/-- `run_fsck`; `integ` is what `PRAGMA integrity_check` answers. -/
def runFsck (integ : Str) (t : Contents) : FsckReport where
  integrityCheckResult := if integ = ['o', 'k'] then .ok else .corrupted
  issues := checkOrphanBlobs t ++ checkOrphanXattrs t ++ checkOrphanSymlinks t ++
    checkDanglingEntries t ++ checkCycles t ++ checkNlink t

/-! ### Consistency -/

section
variable {t : Contents} {i a : ℤ} {k : ℕ} {e : EntryCols} {n : NodeCols}

def HasNode (t : Contents) (i : ℤ) : Prop := ∃ n ∈ t.nodes, n.inode = i

/-- From `i`, `k` parent links lead to `a`. -/
def Above (t : Contents) : ℕ → ℤ → ℤ → Prop
  | 0, i, a => i = a
  | k + 1, i, a => ∃ e ∈ t.entries, e.inode = i ∧ Above t k e.parent a

/-- The tables fit together, as far as `runFsck` looks. -/
structure Consistent (t : Contents) : Prop where
  blobs : ∀ b ∈ t.blobs, HasNode t b.inode
  xattrs : ∀ x ∈ t.xattrs, HasNode t x.inode
  symlinks : ∀ l ∈ t.symlinks, HasNode t l.inode
  targets : ∀ n ∈ t.nodes, n.kind = .symlink → ∃ l ∈ t.symlinks, l.inode = n.inode
  parents : ∀ e ∈ t.entries, HasNode t e.parent
  children : ∀ e ∈ t.entries, HasNode t e.inode
  acyclic : ∀ i k, 0 < k → k ≤ MAX_DEPTH → ¬ Above t k i i
  dirLinks : ∀ n ∈ t.nodes, n.kind = .dir → n.nlink = 2 + subdirs t n.inode

/-- The link counts of files and symbolic links fit as well. -/
structure FullyConsistent (t : Contents) : Prop extends Consistent t where
  otherLinks : ∀ n ∈ t.nodes, n.kind ≠ .dir → n.nlink = t.entries.count fun e => e.inode = n.inode

/-- The link counts of directories are 32-bit numbers, the stored ones and the expected ones. -/
def LinksFit (t : Contents) : Prop :=
  ∀ n ∈ t.nodes, n.kind = .dir → 0 ≤ n.nlink ∧ n.nlink < 2 ^ 32 ∧ subdirs t n.inode + 2 < 2 ^ 32

lemma not_missing : t.missing i = false ↔ HasNode t i := by
  unfold Contents.missing HasNode
  rw [Option.isNone_eq_false_iff, KeyTable.find?_isSome]
  exact Iff.rfl

lemma missing_eq_true : t.missing i = true ↔ ¬ HasNode t i := by
  rw [← not_missing, Bool.not_eq_false]

/-! ### The orphans -/

lemma map_eq_nil_of_forall {α β : Type} {f : α → β} {l : List α} : l.map f = [] ↔ ∀ x, x ∉ l := by
  rw [List.map_eq_nil_iff, List.eq_nil_iff_forall_not_mem]

lemma orphans_eq_nil {inodes : List ℤ} {kind : FsckKind} {rows : String} :
    orphans t inodes kind rows = [] ↔ ∀ i ∈ inodes, HasNode t i := by
  unfold orphans
  rw [List.map_eq_nil_iff, map_eq_nil_of_forall]
  refine forall_congr' fun i => ?_
  rw [List.mem_dedup, List.mem_filter, missing_eq_true, not_and, not_not]

lemma checkOrphanBlobs_eq_nil : checkOrphanBlobs t = [] ↔ ∀ b ∈ t.blobs, HasNode t b.inode :=
  orphans_eq_nil.trans List.forall_mem_map

lemma checkOrphanXattrs_eq_nil : checkOrphanXattrs t = [] ↔ ∀ x ∈ t.xattrs, HasNode t x.inode :=
  orphans_eq_nil.trans List.forall_mem_map

lemma checkOrphanSymlinks_eq_nil : checkOrphanSymlinks t = [] ↔
    (∀ l ∈ t.symlinks, HasNode t l.inode) ∧
      ∀ n ∈ t.nodes, n.kind = .symlink → ∃ l ∈ t.symlinks, l.inode = n.inode := by
  unfold checkOrphanSymlinks
  rw [List.append_eq_nil_iff, orphans_eq_nil, List.forall_mem_map, List.map_eq_nil_iff,
    map_eq_nil_of_forall]
  refine and_congr_right fun _ => forall_congr' fun n => ?_
  rw [KeyTable.mem_select, decide_eq_true_iff, not_and, not_and]
  refine imp_congr_right fun _ => imp_congr_right fun _ => ?_
  rw [Bool.not_eq_true, Option.isNone_eq_false_iff, KeyTable.find?_isSome]
  exact Iff.rfl

lemma checkDanglingEntries_eq_nil : checkDanglingEntries t = [] ↔
    (∀ e ∈ t.entries, HasNode t e.parent) ∧ ∀ e ∈ t.entries, HasNode t e.inode := by
  unfold checkDanglingEntries
  rw [List.append_eq_nil_iff, map_eq_nil_of_forall, map_eq_nil_of_forall]
  simp only [KeyTable.mem_select, missing_eq_true, not_and, not_not]

/-! ### The cycles -/

/-- What the recursion reaches from a row. -/
lemma steps_iff {d j : ℕ} {w : WalkRow} : RecursiveQuery.Steps (walkNext t) j ⟨i, a, d⟩ w ↔
    w.inode = i ∧ w.depth = d + j ∧ (j = 0 ∨ d + j ≤ MAX_DEPTH) ∧ Above t j a w.ancestor := by
  induction j generalizing a d with
  | zero =>
    obtain ⟨inode, ancestor, depth⟩ := w
    rw [RecursiveQuery.Steps, Above, WalkRow.mk.injEq]
    constructor
    · rintro ⟨rfl, rfl, rfl⟩
      exact ⟨rfl, rfl, Or.inl rfl, rfl⟩
    · rintro ⟨rfl, rfl, -, rfl⟩
      exact ⟨rfl, rfl, rfl⟩
  | succ j ih =>
    rw [RecursiveQuery.Steps]
    constructor
    · rintro ⟨z, hz, hsteps⟩
      unfold walkNext at hz
      split_ifs at hz with hd
      · obtain ⟨e, he, rfl⟩ := List.mem_map.mp hz
        obtain ⟨he, hei⟩ := KeyTable.mem_select.mp he
        obtain ⟨hi, hdepth, hbound, habove⟩ := ih.mp hsteps
        replace hd : d + 1 ≤ MAX_DEPTH := hd
        refine ⟨hi, hdepth.trans (Nat.succ_add_eq_add_succ d j), Or.inr ?_, e, he,
          of_decide_eq_true hei, habove⟩
        rcases hbound with rfl | hbound
        · exact hd
        · rwa [Nat.add_right_comm] at hbound
      · exact absurd hz List.not_mem_nil
    · rintro ⟨hi, hdepth, hbound, e, he, hei, habove⟩
      replace hbound : d + 1 + j ≤ MAX_DEPTH := by
        rw [Nat.add_right_comm]
        exact hbound.resolve_left (Nat.succ_ne_zero j)
      refine ⟨⟨i, e.parent, d + 1⟩, ?_, ih.mpr ⟨hi, ?_, Or.inr hbound, habove⟩⟩
      · rw [walkNext, if_pos (Nat.lt_of_lt_of_le (Nat.lt_succ_self d) (le_of_add_le_left hbound))]
        exact List.mem_map.mpr ⟨e, KeyTable.mem_select.mpr ⟨he, decide_eq_true hei⟩, rfl⟩
      · exact hdepth.trans (Nat.succ_add_eq_add_succ d j).symm

/-- The rows of `walk` are the chains of parent links of bounded length. -/
theorem mem_walk : (⟨i, a, k⟩ : WalkRow) ∈ walk t ↔ 0 < k ∧ k ≤ MAX_DEPTH ∧ Above t k i a := by
  unfold walk
  rw [RecursiveQuery.mem_rounds]
  constructor
  · rintro ⟨j, hj, x, hx, hsteps⟩
    obtain ⟨e, he, rfl⟩ := List.mem_map.mp hx
    obtain ⟨rfl, rfl, -, habove⟩ := steps_iff.mp hsteps
    rw [Nat.add_comm]
    exact ⟨Nat.succ_pos j, hj, e, he, rfl, habove⟩
  · rintro ⟨hpos, hk, habove⟩
    obtain ⟨j, rfl⟩ := Nat.exists_eq_succ_of_ne_zero hpos.ne'
    obtain ⟨e, he, rfl, habove⟩ := habove
    exact ⟨j, hk, _, List.mem_map.mpr ⟨e, he, rfl⟩,
      steps_iff.mpr ⟨rfl, Nat.add_comm j 1, Or.inr (by omega), habove⟩⟩

/-- The guard on the depth ends the recursion: more rounds find no more rows. -/
theorem walk_ends (m : ℕ) :
    RecursiveQuery.rounds (walkNext t) (MAX_DEPTH + m) (walkStart t) = walk t := by
  refine RecursiveQuery.rounds_add (fun x hx w hsteps => ?_) m
  obtain ⟨e, -, rfl⟩ := List.mem_map.mp hx
  obtain ⟨-, -, hbound, -⟩ := steps_iff.mp hsteps
  unfold MAX_DEPTH at hbound
  omega

lemma checkCycles_eq_nil :
    checkCycles t = [] ↔ ∀ i k, 0 < k → k ≤ MAX_DEPTH → ¬ Above t k i i := by
  unfold checkCycles
  rw [List.map_eq_nil_iff, map_eq_nil_of_forall]
  refine forall_congr' fun i => ?_
  rw [List.mem_dedup, List.mem_map]
  constructor
  · intro h k hpos hk habove
    refine h ⟨⟨i, i, k⟩, List.mem_filter.mpr ⟨mem_walk.mpr ⟨hpos, hk, habove⟩, ?_⟩, rfl⟩
    exact decide_eq_true rfl
  · rintro h ⟨⟨inode, ancestor, k⟩, hw, rfl⟩
    obtain ⟨hw, hsame⟩ := List.mem_filter.mp hw
    obtain rfl : inode = ancestor := of_decide_eq_true hsame
    obtain ⟨hpos, hk, habove⟩ := mem_walk.mp hw
    exact h k hpos hk habove

/-! ### The link counts -/

lemma U32.ofI64_of_lt {z : ℤ} (h : 0 ≤ z) (h' : z < 2 ^ 32) : (U32.ofI64 z : ℤ) = z := by
  unfold U32.ofI64
  omega

lemma expected_of_lt {count : ℕ} (h : count + 2 < 2 ^ 32) : expected count = count + 2 := by
  unfold expected U32.ofI64
  omega

lemma checkNlink_eq_nil (hfit : LinksFit t) : checkNlink t = [] ↔
    ∀ n ∈ t.nodes, n.kind = .dir → n.nlink = 2 + subdirs t n.inode := by
  unfold checkNlink
  rw [map_eq_nil_of_forall]
  refine forall_congr' fun n => ?_
  rw [KeyTable.mem_select, decide_eq_true_iff, not_and, not_and, not_not]
  refine forall_congr' fun hn => forall_congr' fun hdir => ?_
  obtain ⟨hpos, hlt, hcount⟩ := hfit n hn hdir
  rw [expected_of_lt hcount]
  have hnlink := U32.ofI64_of_lt hpos hlt
  omega

/-- `runFsck` finds nothing exactly if the tables fit together. -/
theorem runFsck_clean_iff (integ : Str) (t : Contents) (hfit : LinksFit t) :
    (runFsck integ t).issues = [] ↔ Consistent t := by
  unfold runFsck
  simp only [List.append_eq_nil_iff]
  rw [checkOrphanBlobs_eq_nil, checkOrphanXattrs_eq_nil, checkOrphanSymlinks_eq_nil,
    checkDanglingEntries_eq_nil, checkCycles_eq_nil, checkNlink_eq_nil hfit]
  constructor
  · rintro ⟨⟨⟨⟨⟨hblobs, hxattrs⟩, hsymlinks, htargets⟩, hparents, hchildren⟩, hcycles⟩, hlinks⟩
    exact ⟨hblobs, hxattrs, hsymlinks, htargets, hparents, hchildren, hcycles, hlinks⟩
  · intro h
    exact ⟨⟨⟨⟨⟨h.blobs, h.xattrs⟩, h.symlinks, h.targets⟩, h.parents, h.children⟩, h.acyclic⟩,
      h.dirLinks⟩

end

/-- The root, and a file with one name and a link count of five. -/
def wrongFile : Contents where
  nodes := ⟨[⟨1, .dir, 2⟩, ⟨2, .file, 5⟩], by decide⟩
  entries := ⟨[⟨1, ['f'], 2⟩], by decide⟩
  blobs := .empty
  xattrs := .empty
  symlinks := .empty

lemma linksFit_wrongFile : LinksFit wrongFile := by
  intro n hn hdir
  rcases List.mem_pair.mp hn with rfl | rfl
  · exact ⟨by decide, by decide, by decide⟩
  · cases hdir

theorem runFsck_clean_iff_wrongFile :
    (runFsck ['o', 'k'] wrongFile).issues = [] ↔ Consistent wrongFile :=
  runFsck_clean_iff ['o', 'k'] wrongFile linksFit_wrongFile

/-- The link counts of files are not checked. -/
theorem not_runFsck_fullyConsistent : ¬ ∀ (integ : Str) (t : Contents),
    (runFsck integ t).issues = [] ↔ FullyConsistent t := by
  intro h
  have hclean : (runFsck ['o', 'k'] wrongFile).issues = [] := by decide +kernel
  have hlinks := ((h ['o', 'k'] wrongFile).mp hclean).otherLinks ⟨2, .file, 5⟩
    (List.mem_cons_of_mem _ List.mem_cons_self) (by decide)
  exact absurd hlinks (by decide)

end Fsck

end SqliteFs

import SqliteFs.Filesystem.Calls
import SqliteFs.Lib.Frames

/-!
# What the operations leave alone

Most operations change the database and send events, and nothing else: they leave the descriptors
and the locks alone. `create` and `open` add to the descriptors, and `close_fd` and the lock
requests work on the rest.
-/

namespace SqliteFs

open Txn

namespace Filesystem

/-- The operations that open or close descriptors. -/
def Op.TouchesFds : Op → Prop
  | .create .. | .open_ .. | .closeFd _ => True
  | _ => False

/-- The operations that take or release locks. -/
def Op.TouchesLocks : Op → Prop
  | .closeFd _ | .posixLock .. | .ofdLock .. | .flock .. => True
  | _ => False

/-- The program leaves what `v` shows of the state as it is. -/
abbrev Frames {τ α : Type} (v : Filesystem → τ) (p : Action α) : Prop := Prog.Frames v p

/-- What `v` shows has nothing to do with the database and the watchers. -/
structure Beside {τ : Type} (v : Filesystem → τ) : Prop where
  conn : ∀ s d, v { s with conn := d } = v s
  watchers : ∀ s w, v { s with watchers := w } = v s

/-- What `v` shows has nothing to do with the database, the caller and the watchers. -/
structure Aside {τ : Type} (v : Filesystem → τ) : Prop where
  conn : ∀ s d, v { s with conn := d } = v s
  caller : ∀ s uid gid, v { s with callerUid := uid, callerGid := gid } = v s
  watchers : ∀ s w, v { s with watchers := w } = v s

lemma Aside.beside {τ : Type} {v : Filesystem → τ} (hv : Aside v) : Beside v := ⟨hv.conn, hv.watchers⟩

section Steps
variable {τ α β : Type} {v : Filesystem → τ}

lemma Frames.andThen {p : Action β} {f : β → Action α} (hp : Frames v p) (hf : ∀ b, Frames v (f b)) :
    Frames v (p >>= f) :=
  Prog.Frames.bind hp hf

lemma Frames.ask {q : Filesystem → Res β} {f : β → Action α} (hf : ∀ b, Frames v (f b)) :
    Frames v (Filesystem.ask q >>= f) :=
  Prog.Frames.bind (.query _) hf

lemma Frames.require {c : Prop} [Decidable c] {e : Error} {f : PUnit → Action α}
    (hf : Frames v (f ⟨⟩)) : Frames v (Filesystem.require c e >>= f) :=
  Prog.Frames.bind (.ensure _ _) fun _ => hf

lemma Frames.branch {c : Prop} [Decidable c] {p p' : Action α} (h : Frames v p) (h' : Frames v p') :
    Frames v (if c then p else p') :=
  Prog.Frames.ite h h'

lemma Frames.tx (hv : Beside v) (b : Sql α) : Frames v (Filesystem.tx b) :=
  .ask fun _ => .transaction hv.conn b

lemma Frames.emit (hv : Beside v) (clock : Clock) (kind : EventKind) (path : Str)
    (nodeKind : NodeKind) (inode : ℕ) (srcPath dstPath : Option Str) :
    Frames v (Filesystem.emit clock kind path nodeKind inode srcPath dstPath) :=
  .volatile fun s => hv.watchers s _

lemma Frames.collect (hv : Beside v) (n i : ℕ) : Frames v (Filesystem.collect n i) :=
  .ask fun _ => Frames.branch (.tx hv _) (.pure _)

lemma Frames.answer {f : α → Reply} {p : Action α} (hp : Frames v p) :
    Frames v (Filesystem.answer f p) :=
  .andThen hp fun _ => .pure _

lemma Reads.frames {p : Action α} (h : Reads p) : Frames v p := fun s => congrArg v (h s).1

end Steps

section Operations
variable {τ : Type} {v : Filesystem → τ} (hv : Beside v) (clock : Clock)
include hv

lemma mkdir_frames (path : Str) (mode : UInt32) : Frames v (mkdir clock path mode) := by
  unfold mkdir
  refine .andThen (Prog.Frames.query _) fun _ => ?_
  refine .andThen (Prog.Frames.query _) fun _ => ?_
  refine .andThen (Prog.Frames.query _) fun _ => ?_
  refine .andThen (Prog.Frames.ensure _ _) fun _ => ?_
  refine .andThen (Prog.Frames.query _) fun _ => ?_
  refine .andThen (Prog.Frames.query _) fun _ => ?_
  exact .andThen (.tx hv _) fun _ => .emit hv _ _ _ _ _ _ _

lemma rmdir_frames (path : Str) : Frames v (rmdir clock path) := by
  unfold rmdir
  refine .andThen (Prog.Frames.query _) fun _ => ?_
  refine .andThen (Prog.Frames.ensure _ _) fun _ => ?_
  refine .andThen (Prog.Frames.query _) fun _ => ?_
  refine .andThen (Prog.Frames.query _) fun _ => ?_
  refine .andThen (Prog.Frames.query _) fun _ => ?_
  refine .andThen (Prog.Frames.ensure _ _) fun _ => ?_
  refine .andThen (Prog.Frames.query _) fun _ => ?_
  refine .andThen (Prog.Frames.query _) fun _ => ?_
  refine .andThen (Prog.Frames.query _) fun _ => ?_
  exact .andThen (.tx hv _) fun _ => .emit hv _ _ _ _ _ _ _

lemma createNew_frames {path name : Str} {flags : Flags} {mode : UInt32} {parent : ℕ}
    (hfd : ∀ s t, v { s with fdtable := t } = v s) :
    Frames v (createNew clock path flags mode parent name) := by
  unfold createNew
  refine .andThen (Prog.Frames.query _) fun _ => ?_
  refine .andThen (Prog.Frames.ensure _ _) fun _ => ?_
  refine .andThen (Prog.Frames.query _) fun _ => ?_
  refine .andThen (Prog.Frames.query _) fun _ => ?_
  refine .andThen (.tx hv _) fun _ => .andThen (.emit hv _ _ _ _ _ _ _) fun _ => ?_
  exact Prog.Frames.volatile fun s => hfd s _

lemma create_frames (path : Str) (flags : Flags) (mode : UInt32)
    (hfd : ∀ s t, v { s with fdtable := t } = v s) : Frames v (create clock path flags mode) := by
  unfold create
  refine .andThen (Prog.Frames.query _) fun _ => ?_
  refine .andThen (Prog.Frames.query _) fun _ => ?_
  refine .andThen (Prog.Frames.query _) fun existing => ?_
  cases existing with
  | error _ => exact createNew_frames hv clock hfd
  | ok existing =>
    refine .andThen (Prog.Frames.ensure _ _) fun _ => ?_
    refine .andThen (Prog.Frames.query _) fun _ => ?_
    refine .andThen (Prog.Frames.query _) fun _ => ?_
    exact Prog.Frames.volatile fun s => hfd s _

lemma open_frames (path : Str) (flags : Flags) (hfd : ∀ s t, v { s with fdtable := t } = v s) :
    Frames v (open_ clock path flags) := by
  unfold open_
  refine .andThen (Prog.Frames.query _) fun _ => ?_
  refine .andThen (Prog.Frames.query _) fun _ => ?_
  refine .andThen (Prog.Frames.ensure _ _) fun _ => ?_
  refine .andThen (Prog.Frames.query _) fun _ => ?_
  refine .branch (Prog.Frames.volatile fun s => hfd s _) ?_
  refine .andThen (Prog.Frames.query _) fun _ => ?_
  refine .andThen (Prog.Frames.query _) fun _ => ?_
  exact .andThen (.tx hv _) fun _ => Prog.Frames.volatile fun s => hfd s _

lemma writeFd_frames (fd offset : ℕ) (data : Bytes) : Frames v (writeFd clock fd offset data) := by
  unfold writeFd
  refine .andThen (Prog.Frames.query _) fun _ => ?_
  refine .andThen (Prog.Frames.query _) fun _ => ?_
  refine .andThen (Prog.Frames.ensure _ _) fun _ => ?_
  refine .andThen (Prog.Frames.query _) fun _ => ?_
  refine .andThen (Prog.Frames.query _) fun _ => ?_
  refine .andThen (.tx hv _) fun _ => .ask fun path => ?_
  cases path with
  | none => exact Prog.Frames.pure _
  | some path => exact .andThen (.emit hv _ _ _ _ _ _ _) fun _ => Prog.Frames.pure _

lemma unlink_frames (path : Str) : Frames v (unlink clock path) := by
  unfold unlink
  refine .andThen (Prog.Frames.query _) fun _ => ?_
  refine .andThen (Prog.Frames.query _) fun _ => ?_
  refine .andThen (Prog.Frames.query _) fun _ => ?_
  refine .andThen (Prog.Frames.query _) fun _ => ?_
  refine .andThen (Prog.Frames.ensure _ _) fun _ => ?_
  refine .andThen (Prog.Frames.query _) fun _ => ?_
  refine .andThen (Prog.Frames.query _) fun _ => ?_
  exact .andThen (.tx hv _) fun _ => .andThen (.collect hv _ _) fun _ => .emit hv _ _ _ _ _ _ _

lemma symlink_frames (target : Bytes) (path : Str) : Frames v (symlink clock target path) := by
  unfold symlink
  refine .andThen (Prog.Frames.query _) fun _ => ?_
  refine .andThen (Prog.Frames.query _) fun _ => ?_
  refine .andThen (Prog.Frames.query _) fun _ => ?_
  refine .andThen (Prog.Frames.ensure _ _) fun _ => ?_
  refine .andThen (Prog.Frames.query _) fun _ => ?_
  refine .andThen (Prog.Frames.query _) fun _ => ?_
  exact .andThen (.tx hv _) fun _ => .emit hv _ _ _ _ _ _ _

lemma link_frames (target linkPath : Str) : Frames v (link clock target linkPath) := by
  unfold link
  refine .andThen (Prog.Frames.query _) fun _ => ?_
  refine .andThen (Prog.Frames.query _) fun _ => ?_
  refine .andThen (Prog.Frames.query _) fun _ => ?_
  refine .andThen (Prog.Frames.ensure _ _) fun _ => ?_
  refine .andThen (Prog.Frames.query _) fun _ => ?_
  refine .andThen (Prog.Frames.query _) fun _ => ?_
  refine .andThen (Prog.Frames.ensure _ _) fun _ => ?_
  refine .andThen (Prog.Frames.query _) fun _ => ?_
  exact .andThen (.tx hv _) fun _ => .emit hv _ _ _ _ _ _ _

lemma rename_frames (src dst : Str) : Frames v (rename clock src dst) := by
  unfold rename
  refine .andThen (Prog.Frames.query _) fun _ => ?_
  refine .branch (Prog.Frames.pure _) ?_
  refine .andThen (Prog.Frames.query _) fun _ => ?_
  refine .andThen (Prog.Frames.query _) fun _ => ?_
  refine .andThen (Prog.Frames.query _) fun _ => ?_
  refine .andThen (Prog.Frames.query _) fun _ => ?_
  refine .andThen (Prog.Frames.query _) fun _ => ?_
  refine .andThen (Prog.Frames.ensure _ _) fun _ => ?_
  refine .andThen (Prog.Frames.query _) fun _ => ?_
  refine .andThen (Prog.Frames.query _) fun _ => ?_
  refine .andThen (Prog.Frames.query _) fun _ => ?_
  refine .andThen (Prog.Frames.query _) fun _ => ?_
  refine .andThen (Prog.Frames.query _) fun _ => ?_
  exact .andThen (.tx hv _) fun _ => .branch (.emit hv _ _ _ _ _ _ _) (Prog.Frames.pure _)

lemma chmod_frames (path : Str) (mode : UInt32) : Frames v (chmod clock path mode) := by
  unfold chmod
  refine .andThen (Prog.Frames.query _) fun _ => ?_
  refine .andThen (Prog.Frames.query _) fun _ => ?_
  refine .andThen (Prog.Frames.query _) fun _ => ?_
  refine .andThen (Prog.Frames.query _) fun _ => ?_
  refine .andThen (Prog.Frames.ensure _ _) fun _ => ?_
  exact .andThen (.tx hv _) fun _ => .emit hv _ _ _ _ _ _ _

lemma chown_frames (path : Str) (uid gid : Option UInt32) : Frames v (chown clock path uid gid) := by
  unfold chown
  refine .andThen (Prog.Frames.query _) fun _ => ?_
  refine .andThen (Prog.Frames.query _) fun _ => ?_
  refine .andThen (Prog.Frames.query _) fun _ => ?_
  refine .andThen (Prog.Frames.query _) fun _ => ?_
  refine .andThen (Prog.Frames.ensure _ _) fun _ => ?_
  refine .andThen (Prog.Frames.ensure _ _) fun _ => ?_
  exact .andThen (.tx hv _) fun _ => .emit hv _ _ _ _ _ _ _

lemma utimes_frames (path : Str) (atimeNs mtimeNs : Option ℤ) :
    Frames v (utimes clock path atimeNs mtimeNs) := by
  unfold utimes
  refine .andThen (Prog.Frames.query _) fun _ => ?_
  refine .andThen (Prog.Frames.query _) fun _ => ?_
  refine .andThen (Prog.Frames.query _) fun _ => ?_
  refine .andThen (Prog.Frames.query _) fun _ => ?_
  refine .andThen (Prog.Frames.ensure _ _) fun _ => ?_
  exact .andThen (.tx hv _) fun _ => .emit hv _ _ _ _ _ _ _

lemma setxattr_frames (path name : Str) (value : Bytes) (flags : Xattrs.XattrFlags) :
    Frames v (setxattr clock path name value flags) := by
  unfold setxattr
  refine .andThen (Prog.Frames.query _) fun _ => ?_
  refine .andThen (Prog.Frames.query _) fun _ => ?_
  refine .andThen (Prog.Frames.query _) fun _ => ?_
  refine .andThen (Prog.Frames.query _) fun _ => ?_
  refine .andThen (Prog.Frames.query _) fun _ => ?_
  refine .andThen (Prog.Frames.query _) fun _ => ?_
  exact .andThen (.tx hv _) fun _ => .andThen (.tx hv _) fun _ => .emit hv _ _ _ _ _ _ _

lemma removexattr_frames (path name : Str) : Frames v (removexattr clock path name) := by
  unfold removexattr
  refine .andThen (Prog.Frames.query _) fun _ => ?_
  refine .andThen (Prog.Frames.query _) fun _ => ?_
  refine .andThen (Prog.Frames.query _) fun _ => ?_
  refine .andThen (Prog.Frames.query _) fun _ => ?_
  exact .andThen (.tx hv _) fun _ => .andThen (.tx hv _) fun _ => .emit hv _ _ _ _ _ _ _

omit hv in
lemma lockRequest_frames {f : LockManager → ℕ → Res Unit × LockManager} (fd : ℕ)
    (hlocks : ∀ s l, v { s with locks := l } = v s) : Frames v (lockRequest fd f) :=
  .ask fun _ => Prog.Frames.volatile fun s => hlocks s _

omit hv in
lemma closeFd_frames (hv : Beside v) (fd : ℕ) (hfd : ∀ s t, v { s with fdtable := t } = v s)
    (hlocks : ∀ s l, v { s with locks := l } = v s) : Frames v (closeFd fd) := by
  unfold closeFd
  refine .andThen (Prog.Frames.volatile fun s => hfd s _) fun _ => ?_
  refine .andThen (Prog.Frames.volatile fun s => hlocks s _) fun _ => ?_
  refine .andThen (Prog.Frames.query _) fun _ => ?_
  exact .collect hv _ _

lemma watch_frames (path : Str) (recursive : Bool) : Frames v (watch path recursive) := by
  unfold watch
  refine .andThen (Prog.Frames.query _) fun _ => ?_
  refine .andThen (Prog.Frames.query _) fun _ => ?_
  refine .andThen (Prog.Frames.ensure _ _) fun _ => ?_
  refine .andThen (Prog.Frames.query _) fun _ => ?_
  exact Prog.Frames.volatile fun s => hv.watchers s _

lemma unwatch_frames (slotId : ℕ) : Frames v (unwatch slotId) :=
  Prog.Frames.volatile fun s => hv.watchers s _

/-- An operation leaves everything alone but the database, the watchers, and the descriptors and
locks, if it touches these. -/
theorem Op.frames (operation : Op)
    (hfds : operation.TouchesFds → (∀ s t, v { s with fdtable := t } = v s))
    (hlocks : operation.TouchesLocks → ∀ s l, v { s with locks := l } = v s) :
    Frames v (operation.run clock) := by
  cases operation with
  | pathOfInode inode => exact .answer (pathOfInode_reads inode).frames
  | stat path => exact .answer (stat_reads path).frames
  | readdir path => exact .answer (readdir_reads path).frames
  | readFd fd offset size => exact .answer (readFd_reads fd offset size).frames
  | readlink path => exact .answer (readlink_reads path).frames
  | getxattr path name => exact .answer (getxattr_reads path name).frames
  | listxattr path => exact .answer (listxattr_reads path).frames
  | posixGetlk fd pid start length => exact .answer (posixGetlk_reads fd pid start length).frames
  | ofdGetlk fd start length => exact .answer (ofdGetlk_reads fd start length).frames
  | flush fd => exact .answer (flush_reads fd).frames
  | fsync fd => exact .answer (fsync_reads fd).frames
  | fsyncdir path => exact .answer (fsyncdir_reads path).frames
  | mkdir path mode => exact .answer (mkdir_frames hv clock path mode)
  | rmdir path => exact .answer (rmdir_frames hv clock path)
  | create path flags mode => exact .answer (create_frames hv clock path flags mode (hfds trivial))
  | open_ path flags => exact .answer (open_frames hv clock path flags (hfds trivial))
  | writeFd fd offset data => exact .answer (writeFd_frames hv clock fd offset data)
  | closeFd fd =>
    exact .answer (closeFd_frames hv fd (hfds trivial) (hlocks trivial))
  | unlink path => exact .answer (unlink_frames hv clock path)
  | symlink target path => exact .answer (symlink_frames hv clock target path)
  | link target linkPath => exact .answer (link_frames hv clock target linkPath)
  | rename src dst => exact .answer (rename_frames hv clock src dst)
  | chmod path mode => exact .answer (chmod_frames hv clock path mode)
  | chown path uid gid => exact .answer (chown_frames hv clock path uid gid)
  | utimes path atimeNs mtimeNs => exact .answer (utimes_frames hv clock path atimeNs mtimeNs)
  | setxattr path name value flags => exact .answer (setxattr_frames hv clock path name value flags)
  | removexattr path name => exact .answer (removexattr_frames hv clock path name)
  | posixLock fd pid op start length wait => exact .answer (lockRequest_frames fd (hlocks trivial))
  | ofdLock fd op start length wait => exact .answer (lockRequest_frames fd (hlocks trivial))
  | flock fd op wait => exact .answer (lockRequest_frames fd (hlocks trivial))
  | watch path recursive => exact .answer (watch_frames hv path recursive)
  | unwatch slotId => exact .answer (unwatch_frames hv slotId)

end Operations

/-- The same for a call. -/
lemma Call.frames {τ : Type} {v : Filesystem → τ} (hv : Aside v) (user : Option (UInt32 × UInt32))
    (clock : Clock) (operation : Op)
    (hfds : operation.TouchesFds → (∀ s t, v { s with fdtable := t } = v s))
    (hlocks : operation.TouchesLocks → ∀ s l, v { s with locks := l } = v s) (s : Filesystem) :
    v ((Call.op user clock operation).exec s) = v s := by
  have hrun := operation.frames hv.beside clock hfds hlocks
  rw [exec_op]
  cases user with
  | none => exact hrun s
  | some ids => exact (hv.caller _ _ _).trans ((hrun _).trans (hv.caller _ _ _))

/-- A close works on the descriptors and the locks first, and then leaves them alone. -/
lemma closeFd_frames_closed {τ : Type} {v : Filesystem → τ} (hv : Aside v) {s : Filesystem} {fd : ℕ}
    {f : FdEntry} (hf : s.fdtable.entries.find? fd = some f) :
    v (closeFd fd s).state = v (closed s f) := by
  have hframes : Frames v (getNode f.inode >>= fun row => collect row.nlink f.inode) :=
    .andThen (Prog.Frames.query _) fun _ => .collect hv.beside _ _
  rw [closeFd_open hf]
  exact hframes _

lemma aside_fdtable : Aside fdtable := ⟨fun _ _ => rfl, fun _ _ _ => rfl, fun _ _ => rfl⟩

lemma aside_locks : Aside locks := ⟨fun _ _ => rfl, fun _ _ _ => rfl, fun _ _ => rfl⟩

end Filesystem

end SqliteFs

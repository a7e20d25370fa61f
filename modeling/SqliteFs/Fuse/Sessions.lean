import SqliteFs.Lib.Plays
import SqliteFs.Filesystem.Frames
import SqliteFs.Fuse.NoClobber
import SqliteFs.Fuse.Requests

/-!
# Serving requests

A mounted filesystem serves one request after the other. Each request makes some calls of the library,
for the user whom it is made for, and leaves the caller of the filesystem as it was. So a mounted
filesystem goes through no state but those that a client of the library can bring about.
-/

namespace SqliteFs

open Txn

namespace Filesystem

variable {s : Filesystem}

/-- Whom the filesystem takes to be calling. -/
def callers (s : Filesystem) : UInt32 × UInt32 := (s.callerUid, s.callerGid)

lemma beside_callers : Beside callers := ⟨fun _ _ => rfl, fun _ _ => rfl⟩

/-- What an operation does, with the clock that it reads. -/
def opExec (c : Clock × Op) (s : Filesystem) : Filesystem := (c.2.run c.1 s).state

lemma callers_opExec (c : Clock × Op) : (opExec c s).callers = s.callers :=
  Op.frames beside_callers c.1 c.2 (fun _ _ _ => rfl) (fun _ _ _ => rfl) s

lemma actAs_of_callers {uid gid : UInt32} (h : s.callers = (uid, gid)) :
    s.actAs (some (uid, gid)) = s := by
  obtain ⟨rfl, rfl⟩ := Prod.mk.inj h
  rfl

section AsUser
variable {uid gid : UInt32}

lemma actAs_exec (c : Clock × Op) :
    ((Call.op (some (uid, gid)) c.1 c.2).exec s).actAs (some (uid, gid))
      = opExec c (s.actAs (some (uid, gid))) :=
  actAs_of_callers (callers_opExec c)

lemma callers_exec (c : Clock × Op) :
    ((Call.op (some (uid, gid)) c.1 c.2).exec s).callers = s.callers := rfl

/-- Calls for a user, seen by that user, are the operations one after the other. -/
lemma actAs_after (l : List (Clock × Op)) : ∀ s : Filesystem,
    (Run.after Call.exec (l.map fun c => .op (some (uid, gid)) c.1 c.2) s).actAs (some (uid, gid))
      = Run.after opExec l (s.actAs (some (uid, gid))) ∧
    (Run.after Call.exec (l.map fun c => .op (some (uid, gid)) c.1 c.2) s).callers = s.callers := by
  induction l with
  | nil => exact fun _ => ⟨rfl, rfl⟩
  | cons c l ih =>
    intro s
    obtain ⟨hstate, hcallers⟩ := ih ((Call.op (some (uid, gid)) c.1 c.2).exec s)
    rw [List.map_cons, Run.after_cons, Run.after_cons, ← actAs_exec]
    exact ⟨hstate, hcallers.trans (callers_exec c)⟩

lemma eq_of_actAs (uid gid : UInt32) {t u : Filesystem}
    (h : t.actAs (some (uid, gid)) = u.actAs (some (uid, gid))) (hcallers : t.callers = u.callers) : t = u := by
  obtain ⟨hu, hg⟩ := Prod.mk.inj hcallers
  cases t
  cases u
  cases hu
  cases hg
  cases h
  rfl

/-- Operations that are played under the guard of a user are calls for that user. -/
lemma asUser_plays {α : Type} {A : Op → Prop} {p : Action α}
    (h : Prog.PlaysFrom opExec (fun c => A c.2) p (s.actAs (some (uid, gid)))) :
    Prog.PlaysFrom Call.exec (fun call => ∃ clock operation, A operation ∧
      call = .op (some (uid, gid)) clock operation) (asUser (some (uid, gid)) p) s := by
  obtain ⟨l, hl, hs⟩ := h
  obtain ⟨hstate, hcallers⟩ := actAs_after l s
  refine ⟨l.map fun c => .op (some (uid, gid)) c.1 c.2, fun call hcall => ?_, ?_⟩
  · obtain ⟨c, hc, rfl⟩ := List.mem_map.mp hcall
    exact ⟨c.1, c.2, hl c hc, rfl⟩
  · have hp : (p (s.actAs (some (uid, gid)))).state.callers = (uid, gid) := by
      rw [hs, ← hstate]
      rfl
    refine eq_of_actAs uid gid ?_ hcallers.symm
    rw [hstate, ← hs]
    exact actAs_of_callers hp

end AsUser

/-- A single operation under the guard of a user is a call for that user. -/
lemma asUser_once {α : Type} {A : Op → Prop} {p : Action α} {uid gid : UInt32}
    (h : Prog.Once opExec (fun c => A c.2) p (s.actAs (some (uid, gid)))) :
    Prog.Once Call.exec (fun call => ∃ clock operation, A operation ∧
      call = .op (some (uid, gid)) clock operation) (asUser (some (uid, gid)) p) s := by
  rcases h with h | ⟨c, hc, h⟩
  · have hp : (p (s.actAs (some (uid, gid)))).state.callers = (uid, gid) := by
      rw [h]
      rfl
    refine .idle (eq_of_actAs uid gid ?_ rfl)
    exact (actAs_of_callers hp).trans h
  · refine .single ⟨c.1, c.2, hc, rfl⟩ ?_
    exact congrArg (fun t : Filesystem => { t with callerUid := s.callerUid, callerGid := s.callerGid }) h

lemma answer_state {α : Type} (f : α → Reply) (p : Action α) (s : Filesystem) :
    (answer f p s).state = (p s).state := by
  rw [answer_apply]

/-- The program behind an operation does that operation. -/
lemma op_once {α : Type} {A : Op → Prop} {p : Action α} {f : α → Reply} (clock : Clock)
    (operation : Op) (hrun : operation.run clock = answer f p) (hA : A operation) (s : Filesystem) :
    Prog.Once opExec (fun c => A c.2) p s := by
  refine .single (i := (clock, operation)) hA ?_
  rw [opExec, hrun, answer_state]

lemma op_plays {α : Type} {A : Op → Prop} {p : Action α} {f : α → Reply} (clock : Clock)
    (operation : Op) (hrun : operation.run clock = answer f p) (hA : A operation) :
    Prog.Plays opExec (fun c => A c.2) p :=
  fun s => (op_once clock operation hrun hA s).playsFrom

lemma Reads.idle {α : Type} {p : Action α} (h : Reads p) : Prog.Idle p := fun s => (h s).1

end Filesystem

namespace Fuse

open Filesystem

variable {α β : Type} {s : Filesystem} {req : Request} {ino parent : ℕ} {name : OsStr}
  {A : Op → Prop}

/-- The calls for the user of a request that make one of the operations in `A`. -/
def Request.Makes (req : Request) (A : Op → Prop) (call : Call) : Prop :=
  ∃ clock operation, A operation ∧ call = .op (some (req.uid, req.gid)) clock operation

/-- The path that is found for a node. -/
def PathOf (s : Filesystem) (ino : ℕ) (path : Str) : Prop :=
  (pathOfInode ino s).result = .ok (some path)

/-! ### What a request makes -/

/-- The operations that a `setattr` makes on a path. -/
def Changes.Makes (r : Readings) (path : Str) (c : Changes) : Op → Prop
  | .chmod p mode => p = path ∧ c.mode = some mode
  | .chown p uid gid => p = path ∧ uid = c.uid ∧ gid = c.gid
  | .utimes p atimeNs mtimeNs =>
    p = path ∧ atimeNs = c.atime.map (toNs r.atime) ∧ mtimeNs = c.mtime.map (toNs r.mtime)
  | .open_ p flags => p = path ∧ flags = Libc.O_RDWR ||| Libc.O_TRUNC ∧ c.size = some 0
  | .closeFd _ => c.size = some 0
  | _ => False

/-- The operations that a request makes, those aside that only read. -/
def Message.Makes (s : Filesystem) : Message → Op → Prop
  | .setattr r ino c, operation => ∃ path, PathOf s ino path ∧ c.Makes r path operation
  | .mkdir parent name mode, operation =>
    ∃ path, Names s parent name path ∧ operation = .mkdir path mode
  | .rmdir parent name, operation => ∃ path, Names s parent name path ∧ operation = .rmdir path
  | .unlink parent name, operation => ∃ path, Names s parent name path ∧ operation = .unlink path
  | .open_ ino flags, operation => ∃ path, PathOf s ino path ∧ operation = .open_ path flags
  | .create parent name mode flags, operation =>
    ∃ path, Names s parent name path ∧ operation = .create path flags mode
  | .write fh offset data, operation => operation = .writeFd fh (Adapter.fileOffset offset) data
  | .release fh, operation => operation = .closeFd fh
  | .symlink parent name target, operation =>
    ∃ path, Names s parent name path ∧ operation = .symlink target path
  | .link ino newparent newname, operation => ∃ target path, PathOf s ino target ∧
      Names s newparent newname path ∧ operation = .link target path
  | .rename parent name newparent newname _, operation => ∃ src dst, Names s parent name src ∧
      Names s newparent newname dst ∧ operation = .rename src dst
  | .setxattr ino name value _, operation => ∃ n path, name = some n ∧ PathOf s ino path ∧
      operation = .setxattr path n value 0
  | .removexattr ino name, operation =>
    ∃ n path, name = some n ∧ PathOf s ino path ∧ operation = .removexattr path n
  | _, _ => False

/-! ### Serving a request -/

/-- The program makes at most one call in `B`. -/
abbrev CallsOnce (B : Call → Prop) (p : Action α) (s : Filesystem) : Prop :=
  Prog.Once Call.exec B p s

lemma attempt_state (p : Action α) (s : Filesystem) : (attempt p s).state = (p s).state := by
  unfold attempt
  rcases p s with ⟨(_ | _) | _, _, _⟩ <;> rfl

lemma pure_idle (a : α) : Prog.Idle (pure a : Action α) := fun _ => rfl

lemma asUserOf_idle {p : Action α} (h : Reads p) (req : Request) : Prog.Idle (asUserOf req p) := by
  intro s
  refine (attempt_state _ s).trans ?_
  exact congrArg (fun t : Filesystem => { t with callerUid := s.callerUid, callerGid := s.callerGid })
    (h (req.view s)).1

lemma asUserOf_once {p : Action α} (h : ∀ t, Prog.Once opExec (fun c => A c.2) p t) (s : Filesystem) :
    CallsOnce (req.Makes A) (asUserOf req p) s := by
  unfold CallsOnce Prog.Once asUserOf
  rw [attempt_state]
  exact asUser_once (h (req.view s))

lemma pathOfInode_once {B : Call → Prop} {f : Option Str → Action α}
    (hnone : CallsOnce B (f none) s)
    (hsome : ∀ path, PathOf s ino path → CallsOnce B (f (some path)) s) :
    CallsOnce B (pathOfInode ino >>= f) s := by
  refine .read (pathOfInode_reads ino s).1 fun path hpath => ?_
  cases path with
  | none => exact hnone
  | some path => exact hsome path hpath

lemma onNode_once {p : Str → Action α}
    (h : ∀ path, PathOf s ino path → ∀ t, Prog.Once opExec (fun c => A c.2) (p path) t) :
    CallsOnce (req.Makes A) (Adapter.onNode req ino p) s :=
  pathOfInode_once (.idle rfl) fun path hpath =>
    (asUserOf_once (h path hpath) s).andThen fun _ => pure_idle _

lemma onChild_once {p : Str → Action α}
    (h : ∀ path, Names s parent name path → ∀ t, Prog.Once opExec (fun c => A c.2) (p path) t) :
    CallsOnce (req.Makes A) (Adapter.onChild req parent name p) s := by
  cases name with
  | none => exact .idle rfl
  | some name => exact onNode_once fun path hpath => h _ ⟨name, path, rfl, hpath, rfl⟩

lemma onFd_once {p : Action α} (h : ∀ t, Prog.Once opExec (fun c => A c.2) p t) :
    CallsOnce (req.Makes A) (Adapter.onFd req p) s :=
  (asUserOf_once h s).andThen fun _ => pure_idle _

lemma onOwn_idle {p : Action α} (h : Reads p) : Prog.Idle (Adapter.onOwn p) := by
  intro s
  rw [Adapter.onOwn, Prog.bind_state_of_idle fun _ => pure_idle _, attempt_state]
  exact (h s).1

lemma reply_once {B : Call → Prop} {f : α → Answer} {p : Action (Except Errno α)}
    (h : CallsOnce B p s) : CallsOnce B (reply f p) s :=
  h.andThen fun _ => pure_idle _

lemma replySized_once {B : Call → Prop} {size : ℕ} {bytes : α → Bytes} {p : Action (Except Errno α)}
    (h : CallsOnce B p s) : CallsOnce B (Adapter.replySized size bytes p) s :=
  h.andThen fun _ => pure_idle _

lemma reads_once {B : Clock × Op → Prop} {p : Action α} (h : Reads p) (t : Filesystem) :
    Prog.Once opExec B p t :=
  .idle (h t).1

lemma stat_idle (f : Stat → β) (path : Str) : Prog.Idle (stat path >>= fun st => pure (f st)) :=
  ((stat_reads path).bind fun _ => .pure _).idle

lemma readdir_once (offset : ℕ) (buffer : ReplyDirectory) {B : Call → Prop} :
    CallsOnce B (Adapter.readdir req ino offset buffer) s := by
  have hdots (path : Str) : Prog.Idle (Adapter.dotDot req ino path) := by
    unfold Adapter.dotDot
    split_ifs
    · split
      · exact pure_idle _
      · intro s
        refine (Prog.bind_state_of_idle ?_ s).trans (asUserOf_idle (stat_reads _) req s)
        intro st
        cases st <;> exact pure_idle _
    · exact pure_idle _
  refine pathOfInode_once (.idle rfl) fun path _ => .idle ?_
  refine (Prog.bind_state_of_idle ?_ s).trans (asUserOf_idle (readdir_reads path) req s)
  intro entries
  cases entries with
  | error e => exact pure_idle _
  | ok entries => exact fun s => (Prog.bind_state_of_idle (fun _ => pure_idle _) s).trans (hdots path s)

/-- A request that changes something, the attributes of a node aside, makes a call for it. -/
lemma message_once (clock : Clock) (req : Request) {m : Message} (s : Filesystem)
    (hm : ∀ r ino c, m ≠ .setattr r ino c) : CallsOnce (req.Makes (m.Makes s)) (m.run clock req) s := by
  cases m with
  | lookup parent name =>
    exact reply_once (onChild_once fun path _ => fun t => .idle (stat_idle _ path t))
  | getattr ino =>
    refine reply_once (pathOfInode_once (.idle rfl) fun path _ => .idle ?_)
    refine (Prog.bind_state_of_idle ?_ s).trans (asUserOf_idle (stat_reads path) req s)
    intro st
    cases st <;> exact pure_idle _
  | setattr r ino c => exact absurd rfl (hm r ino c)
  | mkdir parent name mode =>
    exact reply_once (onChild_once fun path hpath t =>
      (op_once clock (.mkdir path mode) rfl ⟨path, hpath, rfl⟩ t).andThen fun _ => stat_idle _ path)
  | rmdir parent name =>
    exact reply_once (onChild_once fun path hpath => op_once clock (.rmdir path) rfl ⟨path, hpath, rfl⟩)
  | unlink parent name =>
    exact reply_once (onChild_once fun path hpath => op_once clock (.unlink path) rfl ⟨path, hpath, rfl⟩)
  | open_ ino flags =>
    exact reply_once (onNode_once fun path hpath t =>
      (op_once clock (.open_ path flags) rfl ⟨path, hpath, rfl⟩ t).andThen fun _ => pure_idle _)
  | create parent name mode flags =>
    exact reply_once (onChild_once fun path hpath t =>
      (op_once clock (.create path flags mode) rfl ⟨path, hpath, rfl⟩ t).andThen fun fd =>
        stat_idle _ path)
  | read fh offset size => exact reply_once (onFd_once (reads_once (readFd_reads _ _ _)))
  | write fh offset data =>
    exact reply_once (onFd_once fun t =>
      (op_once (A := Message.Makes s (.write fh offset data)) clock _ rfl rfl t).andThen fun _ =>
        pure_idle _)
  | flush fh => exact reply_once (.idle (onOwn_idle (flush_reads fh) s))
  | release fh => exact reply_once (onFd_once (op_once clock (.closeFd fh) rfl rfl))
  | fsync fh => exact reply_once (.idle (onOwn_idle (fsync_reads fh) s))
  | opendir => exact .idle rfl
  | readdir ino offset room => exact reply_once (readdir_once offset _)
  | releasedir => exact .idle rfl
  | fsyncdir ino =>
    exact reply_once (pathOfInode_once (.idle rfl) fun path _ =>
      .idle (onOwn_idle (fsyncdir_reads path) s))
  | statfs => exact .idle rfl
  | readlink ino => exact reply_once (onNode_once fun path _ => reads_once (readlink_reads path))
  | symlink parent name target =>
    exact reply_once (onChild_once fun path hpath t =>
      (op_once clock (.symlink target path) rfl ⟨path, hpath, rfl⟩ t).andThen fun _ => stat_idle _ path)
  | link ino newparent newname =>
    cases newname with
    | none => exact .idle rfl
    | some n =>
      refine reply_once (pathOfInode_once (.idle rfl) fun target htarget =>
        onNode_once fun path hpath t => ?_)
      exact (op_once clock (.link target (Adapter.childPath path n)) rfl
        ⟨target, _, htarget, ⟨n, path, rfl, hpath, rfl⟩, rfl⟩ t).andThen fun _ => stat_idle _ _
  | rename parent name newparent newname flags =>
    cases name with
    | none => exact .idle rfl
    | some n =>
      cases newname with
      | none => exact .idle rfl
      | some m =>
        refine reply_once (pathOfInode_once (.idle rfl) fun p hp =>
          pathOfInode_once (.idle rfl) fun q hq => ?_)
        exact (asUserOf_once (op_once clock (.rename _ _) rfl
          ⟨_, _, ⟨n, p, rfl, hp, rfl⟩, ⟨m, q, rfl, hq, rfl⟩, rfl⟩) s).andThen fun _ => pure_idle _
  | access ino mask =>
    exact reply_once (onNode_once fun path _ => reads_once ((stat_reads path).bind fun _ => .ask _))
  | setxattr ino name value flags =>
    cases name with
    | none => exact .idle rfl
    | some n =>
      exact reply_once (pathOfInode_once (.idle rfl) fun path hpath =>
        (asUserOf_once (op_once clock (.setxattr path n value 0) rfl ⟨n, path, rfl, hpath, rfl⟩) s).andThen
          fun _ => pure_idle _)
  | getxattr ino name size =>
    cases name with
    | none => exact .idle rfl
    | some n =>
      exact reply_once (replySized_once (onNode_once fun path _ => reads_once (getxattr_reads path n)))
  | listxattr ino size =>
    exact reply_once (replySized_once (onNode_once fun path _ => reads_once (listxattr_reads path)))
  | removexattr ino name =>
    cases name with
    | none => exact .idle rfl
    | some n =>
      exact reply_once (onNode_once fun path hpath =>
        op_once clock (.removexattr path n) rfl ⟨n, path, rfl, hpath, rfl⟩)

/-! ### Changing attributes -/

section Changes
variable {r : Readings} {path : Str} {c : Changes}

lemma attempt_plays {B : Clock × Op → Prop} {p : Action α} (h : Prog.Plays opExec B p) :
    Prog.Plays opExec B (attempt p) := by
  intro s
  obtain ⟨l, hl, hs⟩ := h s
  exact ⟨l, hl, (attempt_state p s).trans hs⟩

lemma applySize_plays {clock : Clock} :
    Prog.Plays opExec (fun x => c.Makes r path x.2) (Adapter.applySize clock path c.size) := by
  unfold Adapter.applySize
  split
  · exact .pure _
  · rename_i n hsize
    split_ifs with hn
    · subst hn
      refine .bind (op_plays clock (.open_ path _) rfl ⟨rfl, rfl, hsize⟩) fun fd => ?_
      exact .bind (attempt_plays (op_plays clock (.closeFd fd) rfl hsize)) fun _ => .pure _
    · exact .idle fun _ => rfl

lemma applyChanges_plays :
    Prog.Plays opExec (fun x => c.Makes r path x.2) (Adapter.applyChanges r path c) := by
  unfold Adapter.applyChanges
  refine .bind ?_ fun _ => .bind (.ite ?_ (.pure _)) fun _ => .bind (.ite ?_ (.pure _)) fun _ =>
    .bind applySize_plays fun _ => .idle (stat_reads path).idle
  · split
    · exact op_plays r.chmod (.chmod path _) rfl ⟨rfl, by assumption⟩
    · exact .pure _
  · exact op_plays r.chown (.chown path _ _) rfl ⟨rfl, rfl, rfl⟩
  · exact op_plays r.utimes (.utimes path _ _) rfl ⟨rfl, rfl, rfl⟩

/-- The changes of a request are made one call after the other. -/
lemma setattr_plays (req : Request) (ino : ℕ) (s : Filesystem) :
    Prog.PlaysFrom Call.exec (req.Makes fun operation => ∃ path, PathOf s ino path ∧
      c.Makes r path operation) (Adapter.setattr r req ino c) s := by
  refine .read (pathOfInode_reads ino s).1 fun path hpath => ?_
  cases path with
  | none => exact .idle rfl
  | some path =>
    obtain ⟨l, hl, hs⟩ := asUser_plays (A := c.Makes r path) (applyChanges_plays (req.view s))
    refine ⟨l, ?_, ((Prog.bind_state_of_idle ?_ s).trans (attempt_state _ s)).trans hs⟩
    · rintro call hcall
      obtain ⟨clock, operation, hmakes, rfl⟩ := hl call hcall
      exact ⟨clock, operation, ⟨path, hpath, hmakes⟩, rfl⟩
    · intro st
      cases st <;> exact pure_idle _

end Changes

/-- A request makes calls of its user, and no others. -/
lemma message_plays (clock : Clock) (req : Request) (m : Message) (s : Filesystem) :
    Prog.PlaysFrom Call.exec (req.Makes (m.Makes s)) (m.run clock req) s := by
  by_cases hm : ∃ r ino c, m = .setattr r ino c
  · obtain ⟨r, ino, c, rfl⟩ := hm
    exact (setattr_plays req ino s).bind fun _ _ => .idle rfl
  · exact (message_once clock req s fun r ino c h => hm ⟨r, ino, c, h⟩).playsFrom

/-! ### Sessions -/

/-- What a mounted filesystem goes through: it serves a request, or it is mounted again. -/
inductive Turn
  | serve (clock : Clock) (req : Request) (m : Message)
  | remount (readonly : Bool) (uid gid : UInt32)

namespace Turn

def exec : Turn → Filesystem → Filesystem
  | serve clock req m, s => (m.run clock req s).state
  | remount readonly uid gid, s => (Call.reopen readonly uid gid).exec s

/-- The calls that a turn is made of. -/
def Makes (s : Filesystem) : Turn → Call → Prop
  | serve _ req m, call => req.Makes (m.Makes s) call
  | remount readonly uid gid, call => call = .reopen readonly uid gid

lemma exec_eq_after (turn : Turn) (s : Filesystem) :
    ∃ l : List Call, (∀ call ∈ l, turn.Makes s call) ∧ turn.exec s = Run.after Call.exec l s := by
  cases turn with
  | serve clock req m => exact message_plays clock req m s
  | remount readonly uid gid =>
    exact ⟨[.reopen readonly uid gid], fun call hcall => List.mem_singleton.mp hcall, rfl⟩

end Turn

/-- The states that a filesystem goes through while it is mounted, if each turn satisfies `Ok` in the
state where it is taken. -/
abbrev Served (Ok : Filesystem → Turn → Prop) : Filesystem → Prop := Run Fresh Turn.exec Ok

/-- A condition on calls that all turns keep is kept by the calls of a session. -/
lemma runsTo_of_served {Ok : Filesystem → Turn → Prop} {C : Call → Prop}
    (hok : ∀ s turn, Ok s turn → ∀ call, turn.Makes s call → C call) (h : Served Ok s) :
    RunsTo (fun _ => C) s := by
  induction h with
  | start h => exact .start h
  | next hrun hturn ih =>
    obtain ⟨l, hl, hs⟩ := Turn.exec_eq_after _ _
    rw [hs]
    exact Run.after_of_forall_mem l (fun call hcall _ => hok _ _ hturn call (hl call hcall)) ih

lemma reachable_of_served {Ok : Filesystem → Turn → Prop} (h : Served Ok s) : Reachable s :=
  runsTo_of_served (fun _ _ _ _ _ => trivial) h

/-- A file that root made through the mounted filesystem. -/
def mountedFile : Filesystem :=
  (Turn.serve ⟨1, 1⟩ ⟨0, 0⟩ (.create 1 (some ['f']) 0o644 Libc.O_RDWR)).exec newFs

section Replies
variable {p : Action α} {a : α}

lemma attempt_ok : (attempt p s).result = .ok (.ok a) ↔ (p s).result = .ok a := by
  unfold attempt
  rcases p s with ⟨(_ | _) | _, _, _⟩ <;> simp

lemma asUserOf_ok : (asUserOf req p s).result = .ok (.ok a) ↔ (p (req.view s)).result = .ok a := by
  rw [asUserOf, attempt_ok, asUser_result]

lemma bind_pure_result {q : Action β} (f : β → α) :
    ((q >>= fun b => (pure (f b) : Action α)) s).result = (q s).result.map f := by
  cases hq : q s with
  | mk x t commits =>
    cases x with
    | error e => rw [Prog.bind_apply_error hq]; rfl
    | ok b => rw [Prog.bind_apply_ok hq]; rfl

lemma map_eq_ok {ε : Type} {x : Except ε β} {f : β → α} : x.map f = .ok a ↔ ∃ b, x = .ok b ∧ f b = a := by
  cases x <;> simp [Except.map]

lemma mapError_eq_ok {x : Except Error α} : x.mapError Error.errno = .ok a ↔ x = .ok a := by
  cases x <;> simp [Except.mapError]

lemma reply_ok {f : β → Answer} {q : Action (Except Errno β)} {b : Answer} :
    (reply f q s).result = .ok (.ok b) ↔ ∃ a, (q s).result = .ok (.ok a) ∧ f a = b := by
  rw [reply, bind_pure_result, map_eq_ok]
  constructor
  · rintro ⟨x, hx, hb⟩
    obtain ⟨a, rfl, hf⟩ := map_eq_ok.mp hb
    exact ⟨a, hx, hf⟩
  · rintro ⟨a, ha, hf⟩
    exact ⟨.ok a, ha, map_eq_ok.mpr ⟨a, rfl, hf⟩⟩

lemma onFd_ok : (Adapter.onFd req p s).result = .ok (.ok a) ↔ (p (req.view s)).result = .ok a := by
  rw [Adapter.onFd, bind_pure_result, map_eq_ok, ← asUserOf_ok]
  constructor
  · rintro ⟨x, hx, ha⟩
    rwa [mapError_eq_ok.mp ha] at hx
  · exact fun h => ⟨_, h, mapError_eq_ok.mpr rfl⟩

lemma onNode_ok {p : Str → Action α} : (Adapter.onNode req ino p s).result = .ok (.ok a) ↔
    ∃ path, PathOf s ino path ∧ (p path (req.view s)).result = .ok a := by
  unfold Adapter.onNode PathOf
  rw [pathOfInode_eq]
  cases ho : pathOfInodeBy s.conn (Entries.ofInode s.conn) ino with
  | error e =>
    rw [Prog.bind_apply_error (show pathOfInode ino s = ⟨.error e, s, []⟩ by rw [pathOfInode_eq, ho])]
    simp
  | ok o =>
    rw [pathOfInode_run (show (pathOfInode ino s).result = .ok o by rw [pathOfInode_eq, ho])]
    cases o with
    | none => simp
    | some path =>
      refine (onFd_ok (p := p path)).trans ⟨fun h => ⟨path, rfl, h⟩, ?_⟩
      rintro ⟨q, hq, h⟩
      cases hq
      exact h

lemma onChild_ok {p : Str → Action α} : (Adapter.onChild req parent name p s).result = .ok (.ok a) ↔
    ∃ path, Names s parent name path ∧ (p path (req.view s)).result = .ok a := by
  cases name with
  | none =>
    constructor
    · intro h
      cases h
    · rintro ⟨_, ⟨_, _, h, -⟩, -⟩
      cases h
  | some n =>
    refine (onNode_ok (p := fun path => p (Adapter.childPath path n))).trans ?_
    constructor
    · rintro ⟨path, hpath, h⟩
      exact ⟨_, ⟨n, path, rfl, hpath, rfl⟩, h⟩
    · rintro ⟨_, ⟨m, path, hm, hpath, rfl⟩, h⟩
      cases hm
      exact ⟨path, hpath, h⟩

end Replies

end Fuse

end SqliteFs

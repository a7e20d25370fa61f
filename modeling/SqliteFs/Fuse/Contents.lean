import SqliteFs.Filesystem.Contents
import SqliteFs.Filesystem.EventLog
import SqliteFs.Filesystem.Identity
import SqliteFs.Filesystem.RenamePaths
import SqliteFs.Fuse.Sessions

/-!
# What a mounted filesystem reads back

The kernel writes through a handle and reads through any other one of the same node. What it has
written comes back, whatever requests are served in between and however often the filesystem is mounted
again, until a request writes to the same bytes of the node or empties it.
-/

namespace SqliteFs

open Txn

namespace Fuse

open Filesystem Blobs

variable {s t : Filesystem} {req : Request} {clock : Clock} {ino i : ℕ} {path : Str} {a b : ℕ} {l : Bytes}

/-- The request writes to one of the bytes of the node from `a` on before `b`, or may empty it. -/
def Message.Touches (s : Filesystem) (i a b : ℕ) : Message → Prop
  | .write fh offset data => (∃ e, s.fdtable.entries.find? fh = some e ∧ e.inode = i) ∧
    ∃ x, (a ≤ x ∧ x < b) ∧ Adapter.fileOffset offset ≤ x ∧ x < Adapter.fileOffset offset + data.length
  | .open_ ino flags => ino = i ∧ flags &&& Libc.O_TRUNC ≠ 0
  | .setattr _ ino c => ino = i ∧ c.size = some 0
  | _ => False

/-- The data that the request writes ends at a place that a size can show. -/
def Message.InRange : Message → Prop
  | .write _ offset data => Adapter.fileOffset offset + data.length ≤ I64_MAX
  | _ => True

namespace Turn

def Touches (s : Filesystem) (i a b : ℕ) : Turn → Prop
  | serve _ _ m => m.Touches s i a b
  | remount .. => False

def InRange : Turn → Prop
  | serve _ _ m => m.InRange
  | remount .. => True

end Turn

lemma writesInRange_of_message {m : Message} (hin : m.InRange) {call : Call}
    (hcall : req.Makes (m.Makes s) call) (t : Filesystem) : WritesInRange t call := by
  obtain ⟨clock', operation, hmakes, rfl⟩ := hcall
  cases operation with
  | writeFd fd offset data =>
    cases m with
    | write fh offset' data' =>
      cases hmakes
      exact hin
    | _ => simp [Message.Makes, Changes.Makes] at hmakes
  | _ => trivial

lemma writesInRange_of_turn {turn : Turn} (hin : turn.InRange) {call : Call}
    (hcall : turn.Makes s call) (t : Filesystem) : WritesInRange t call := by
  cases turn with
  | remount readonly uid gid =>
    obtain rfl := hcall
    trivial
  | serve clock req m => exact writesInRange_of_message hin hcall t

/-- A path that was found for a node leads to no other, as long as the names are the same. -/
lemma eq_of_resolved (h : Reachable s) (ht : Reachable t) (hview : t.conn.view = s.conn.view)
    (hpath : PathOf s ino path) (hi : resolveToInode t.conn path = .ok i) : i = ino := by
  have htree := (rooted_runsTo h).tree
  have htree' := (rooted_runsTo ht).tree
  obtain ⟨l, hparse, hl⟩ := (resolveToInode_eq_ok htree').mp hi
  have hl' : s.conn.Leads ROOT_INODE l i :=
    (Db.leads_congr_of_view htree htree' (congrFun hview l)).mp hl
  have hres := resolve_of_pathOfInode h hpath (parsePath_eq_ok.mp hparse).2.1
  exact Except.ok.inj (((resolveToInode_eq_ok htree).mpr ⟨l, hparse, hl'⟩).symm.trans hres)

section Changes
variable {r : Readings} {c : Changes}

lemma changes_view (h : Reachable t) {operation : Op} (hmakes : c.Makes r path operation)
    (user : Option (UInt32 × UInt32)) :
    ((Call.op user clock operation).exec t).conn.view = t.conn.view := by
  have hrooted : (t.actAs user).core.Rooted := by
    rw [actAs_core]
    exact rooted_runsTo h
  rw [exec_op, asUser_conn, ← actAs_conn t user]
  have hkeeps (hop : operation.KeepsNames) := hop.view (t.actAs user) clock
  cases operation with
  | chmod | chown | utimes | open_ => exact hkeeps trivial
  | closeFd fd =>
    rw [Op.run, answer_state]
    exact closeFd_view hrooted fd
  | _ => exact hmakes.elim

/-- The calls of a `setattr` on another node, or of one that keeps the size. -/
lemma changes_still (h : Reachable s) (hfree : ¬ (ino = i ∧ c.size = some 0)) (calls : List Call)
    (hcalls : ∀ call ∈ calls,
      req.Makes (fun operation => ∃ path, PathOf s ino path ∧ c.Makes r path operation) call) :
    ∀ t : Filesystem, t.StillHolds i a l → t.conn.view = s.conn.view →
      (Run.after Call.exec calls t).StillHolds i a l := by
  induction calls with
  | nil => exact fun _ ht _ => ht
  | cons call calls ih =>
    intro t ht hview
    have hreach := reachable_of_runsTo ht.runs
    obtain ⟨hcall, hrest⟩ := List.forall_mem_cons.mp hcalls
    obtain ⟨clock, operation, ⟨path, hpath, hmakes⟩, rfl⟩ := hcall
    refine ih hrest _ (ht.exec ?_ ?_) ((changes_view hreach hmakes _).trans hview)
    · cases operation with
      | writeFd fd offset data => exact hmakes.elim
      | _ => trivial
    · rintro ⟨-, htouches⟩
      cases operation with
      | writeFd fd offset data => exact hmakes.elim
      | open_ path' flags =>
        obtain ⟨rfl, -, hsize⟩ := hmakes
        exact hfree ⟨(eq_of_resolved h hreach hview hpath htouches.1).symm, hsize⟩
      | _ => exact htouches.elim

end Changes

/-- A request touches what its operation touches. -/
lemma touches_of_op (h : Reachable s) {m : Message} {operation : Op} (hmakes : m.Makes s operation)
    (hm : ∀ r ino c, m ≠ .setattr r ino c)
    (htouches : operation.Touches s i a b) : m.Touches s i a b := by
  cases operation with
  | writeFd fd offset data =>
    cases m with
    | write fh offset' data' =>
      cases hmakes
      exact htouches
    | setattr r ino c => exact absurd rfl (hm r ino c)
    | _ => simp [Message.Makes] at hmakes
  | open_ path flags =>
    cases m with
    | open_ ino flags' =>
      obtain ⟨path', hpath, heq⟩ := hmakes
      cases heq
      exact ⟨(eq_of_resolved h h rfl hpath htouches.1).symm, htouches.2⟩
    | setattr r ino c => exact absurd rfl (hm r ino c)
    | _ => simp [Message.Makes] at hmakes
  | _ => exact htouches.elim

/-- A turn that neither writes to bytes of a node nor empties it leaves them. -/
lemma turn_still (h : s.StillHolds i a l) {turn : Turn} (hin : turn.InRange)
    (hfree : ¬ turn.Touches s i a (a + l.length)) : (turn.exec s).StillHolds i a l := by
  have hreach := reachable_of_runsTo h.runs
  cases turn with
  | remount readonly uid gid => exact h.exec trivial id
  | serve clock req m =>
    by_cases hm : ∃ r ino c, m = .setattr r ino c
    · obtain ⟨r, ino, c, rfl⟩ := hm
      obtain ⟨calls, hcalls, hs⟩ := message_plays clock req (.setattr r ino c) s
      rw [Turn.exec, hs]
      exact changes_still hreach hfree calls hcalls s h rfl
    · have hm' : ∀ r ino c, m ≠ .setattr r ino c := fun r ino c heq => hm ⟨r, ino, c, heq⟩
      rcases message_once clock req s hm' with hs | ⟨call, hcall, hs⟩
      · rw [Turn.exec, hs]
        exact h
      · rw [Turn.exec, hs]
        refine h.exec (writesInRange_of_message hin hcall s) ?_
        obtain ⟨clock', operation, hmakes, rfl⟩ := hcall
        exact fun htouches => hfree (touches_of_op hreach hmakes hm' htouches.2)

lemma write_exec (clock : Clock) (req : Request) (fh : ℕ) (offset : ℤ) (data : Bytes)
    (s : Filesystem) : (Turn.serve clock req (.write fh offset data)).exec s
      = (Call.op (some (req.uid, req.gid)) clock
          (.writeFd fh (Adapter.fileOffset offset) data)).exec s := by
  have hbody : ∀ t, ((do
      let _ ← writeFd clock fh (Adapter.fileOffset offset) data
      return U32.ofUsize data.length : Action ℕ) t).state
        = (writeFd clock fh (Adapter.fileOffset offset) data t).state :=
    fun t => Prog.bind_state_of_idle (fun _ => pure_idle _) t
  refine (Prog.bind_state_of_idle (fun _ => pure_idle _) s).trans ?_
  refine (Prog.bind_state_of_idle (fun _ => pure_idle _) s).trans ((attempt_state _ s).trans ?_)
  refine congrArg
    (fun t : Filesystem => { t with callerUid := s.callerUid, callerGid := s.callerGid }) ?_
  exact (hbody _).trans (answer_state _ _ _).symm

/-- A `write` request is answered with a size only if its call returns. -/
lemma write_returns {fh : ℕ} {offset : ℤ} {data : Bytes} {n : ℕ}
    (h : ((Message.write fh offset data).run clock req s).result = .ok (.ok (.written n))) :
    ∃ reply, ((Call.op (some (req.uid, req.gid)) clock
      (.writeFd fh (Adapter.fileOffset offset) data)).outcome s).result = .ok reply := by
  obtain ⟨m, hm, -⟩ := reply_ok.mp h
  have hrun := onFd_ok.mp hm
  rw [bind_pure_result, map_eq_ok] at hrun
  obtain ⟨k, hk, -⟩ := hrun
  refine ⟨.size k, ?_⟩
  rw [outcome_op, asUser_result, Op.run, answer_apply]
  exact map_eq_ok.mpr ⟨k, hk, rfl⟩

/-- In a session in which sizes stay in range, what a `write` request puts into a node comes back from a
`read` request through any handle that may read the node: every part of the data, whichever requests
other than those that write to that part or empty the node have been served in the meantime. -/
theorem session_reads_back (h : Served (fun _ turn => turn.InRange) s) {fh : ℕ} {offset : ℤ}
    {data : Bytes} (hrange : (Message.write fh offset data).InRange) {e : FdEntry}
    (he : s.fdtable.entries.find? fh = some e) {n : ℕ}
    (hreply : ((Message.write fh offset data).run clock req s).result = .ok (.ok (.written n)))
    {skip size : ℕ} (hpart : skip + size ≤ data.length)
    (hrun : Run (· = (Turn.serve clock req (.write fh offset data)).exec s) Turn.exec
      (fun t turn => turn.InRange ∧ ¬ turn.Touches t e.inode (Adapter.fileOffset offset + skip)
        (Adapter.fileOffset offset + skip + size)) t)
    (hnode : t.conn.hasNode e.inode = true) (hchunk : t.chunkSize ≠ 0) {fh' : ℕ} {e' : FdEntry}
    (he' : t.fdtable.entries.find? fh' = some e') (hi : e'.inode = e.inode) (hmay : e'.Readable)
    {offset' : ℤ} (hoffset : Adapter.fileOffset offset' = Adapter.fileOffset offset + skip)
    (clock' : Clock) (req' : Request) :
    ((Message.read fh' offset' size).run clock' req' t).result
      = .ok (.ok (.data (Flat.read data skip size))) := by
  have hruns : RunsTo WritesInRange s := by
    refine runsTo_of_served (C := WritesInRange s) ?_ h
    exact fun t turn hin call hcall => writesInRange_of_turn hin hcall s
  obtain ⟨reply, hreply⟩ := write_returns hreply
  have hlen : (Flat.read data skip size).length = size := Flat.length_read hpart
  have hwritten := writeFd_stillHolds hruns hrange he hreply hpart
  rw [← write_exec, ← hoffset] at hwritten
  rw [← hoffset] at hrun
  have hkept : t.StillHolds e.inode (Adapter.fileOffset offset') (Flat.read data skip size) := by
    refine Run.invariant (P := fun t => t.StillHolds e.inode (Adapter.fileOffset offset')
      (Flat.read data skip size)) ?_ ?_ hrun
    · rintro _ rfl
      exact hwritten
    · intro t turn _ hok ht
      refine turn_still ht hok.1 ?_
      rw [hlen]
      exact hok.2
  refine reply_ok.mpr ⟨_, onFd_ok.mpr ?_, rfl⟩
  obtain ⟨hmem, rfl⟩ := KeyTable.find?_eq_some.mp he'
  have hmem' : e' ∈ (req'.view t).fdtable.entries := hmem
  have hview : (readFd e'.fd (Adapter.fileOffset offset') size (req'.view t)).result
      = (readFd e'.fd (Adapter.fileOffset offset') size t).result :=
    readFd_congr hmem hmem' (hi ▸ hnode) .refl rfl _ _
  have hread := hkept.readFd_result hnode hchunk ?_ he' hi hmay
  · rw [hlen] at hread
    exact hview.trans hread
  · have hmax : I64_MAX < 2 ^ 64 := by decide
    have hend : Adapter.fileOffset offset + data.length ≤ I64_MAX := hrange
    omega

/-- The file with three bytes in it, renamed, written to behind its first two bytes, and opened by
another user after another mount. -/
def remountedFile : Filesystem :=
  (Turn.serve ⟨4, 4⟩ ⟨7, 7⟩ (.open_ 2 Libc.O_RDONLY)).exec ((Turn.remount true 0 0).exec
    ((Turn.serve ⟨3, 3⟩ ⟨0, 0⟩ (.write 1 2 [9, 9])).exec
      ((Turn.serve ⟨3, 3⟩ ⟨0, 0⟩ (.rename 1 (some ['f']) 1 (some ['g']) 0)).exec
        ((Turn.serve ⟨2, 2⟩ ⟨0, 0⟩ (.write 1 0 [1, 2, 3])).exec mountedFile))))

lemma served_mountedFile : Served (fun _ turn => turn.InRange) mountedFile :=
  .next (.start fresh_newFs) trivial

theorem session_reads_back_remountedFile :
    ((Message.read 1 0 2).run ⟨5, 5⟩ ⟨7, 7⟩ remountedFile).result = .ok (.ok (.data [1, 2])) := by
  have hrange : (Message.write 1 0 [1, 2, 3]).InRange := by
    show Adapter.fileOffset 0 + 3 ≤ I64_MAX
    decide
  have hfd : mountedFile.fdtable.entries.find? 1 = some ⟨1, 2, Libc.O_RDWR, 0, 0, 0⟩ := by
    decide +kernel
  have hreply : ((Message.write 1 0 [1, 2, 3]).run ⟨2, 2⟩ ⟨0, 0⟩ mountedFile).result
      = .ok (.ok (.written 3)) := by decide +kernel
  have hpart : 0 + 2 ≤ [1, 2, 3].length := by decide
  have hrun : Run (· = (Turn.serve ⟨2, 2⟩ ⟨0, 0⟩ (.write 1 0 [1, 2, 3])).exec mountedFile) Turn.exec
      (fun t turn => turn.InRange ∧ ¬ turn.Touches t 2 (Adapter.fileOffset 0 + 0)
        (Adapter.fileOffset 0 + 0 + 2)) remountedFile := by
    have hbehind : (Message.write 1 2 [9, 9]).InRange := by
      show Adapter.fileOffset 2 + 2 ≤ I64_MAX
      decide
    refine .next (.next (.next (.next (.start rfl) ⟨trivial, id⟩) ⟨hbehind, ?_⟩) ⟨trivial, id⟩)
      ⟨trivial, ?_⟩
    · rintro ⟨-, x, ⟨-, hx⟩, hx', -⟩
      exact absurd (hx'.trans_lt hx) (by decide)
    · rintro ⟨-, hflags⟩
      exact hflags (by decide)
  have hfd' : remountedFile.fdtable.entries.find? 1 = some ⟨1, 2, Libc.O_RDONLY, 7, 7, 0⟩ := by
    decide +kernel
  exact session_reads_back served_mountedFile hrange hfd hreply hpart hrun (by decide +kernel)
    (by decide +kernel) hfd' rfl (Or.inl rfl) rfl ⟨5, 5⟩ ⟨7, 7⟩

end Fuse

end SqliteFs

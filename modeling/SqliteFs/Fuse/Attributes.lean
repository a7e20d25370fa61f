import SqliteFs.Filesystem.Attributes
import SqliteFs.Fuse.Identity
import SqliteFs.Fuse.NoClobber
import SqliteFs.Lib.Terminated

/-!
# Requests about extended attributes

A client that remembers what it has set and removed knows the extended attributes of every node. Asking for
one gives its value, or how long it is, and asking for the names gives all of them, each with a NUL behind
it, which is enough to tell them apart.
-/

namespace SqliteFs

open Txn

namespace Fuse

open Filesystem

/-! ### The table that a client remembers -/

/-- What the attributes are after the request has been answered. -/
def Message.recorded : Message → AttrTable → AttrTable
  | .setxattr i (some n) value _, τ => Function.update τ (i, n) (some value)
  | .removexattr i (some n), τ => Function.update τ (i, n) none
  | _, τ => τ

def Turn.recorded (s : Filesystem) : Turn → AttrTable → AttrTable
  | .serve clock req m, τ =>
    match (m.run clock req s).result with
    | .ok (.ok _) => m.recorded τ
    | _ => τ
  | .remount .., τ => τ

/-- The request is not about setting or removing an attribute. -/
def Message.LeavesAttrs : Message → Prop
  | .setxattr .. | .removexattr .. => False
  | _ => True

section Requests
variable {s t : Filesystem} {req : Request} {clock : Clock} {ino i size : ℕ} {n path : Str}
  {value : Bytes} {flags : Flags} {α : Type}

lemma Message.LeavesAttrs.makes {m : Message} (hm : m.LeavesAttrs) {operation : Op}
    (hmakes : m.Makes s operation) : operation.LeavesAttrs := by
  cases operation with
  | setxattr | removexattr =>
    cases m with
    | setxattr | removexattr => exact hm
    | _ => simp [Message.Makes, Changes.Makes] at hmakes
  | _ => trivial

lemma Message.LeavesAttrs.recorded {m : Message} (hm : m.LeavesAttrs) (τ : AttrTable) :
    m.recorded τ = τ := by
  cases m with
  | setxattr | removexattr => exact hm.elim
  | _ => rfl

/-- Calls that are not about attributes, one after the other. -/
lemma writes_after (req : Request) (l : List Call)
    (hl : ∀ call ∈ l, req.Makes (fun operation => operation.LeavesAttrs) call) : ∀ s : Filesystem,
      s.conn.Writes Statement.LeavesAttrs (Run.after Call.exec l s).conn := by
  induction l with
  | nil => exact fun _ => .refl
  | cons call l ih =>
    intro s
    obtain ⟨⟨clock, operation, hleaves, rfl⟩, hrest⟩ := List.forall_mem_cons.mp hl
    exact ((Call.writes _ clock operation s).mono fun _ => hleaves.issues).trans (ih hrest _)

lemma attrTable_request (h : Reachable s) (clock : Clock) (req : Request) {m : Message}
    (hm : m.LeavesAttrs) : (m.run clock req s).state.conn.attrTable
      = s.conn.attrTable.settle (m.run clock req s).state.conn.hasNode := by
  obtain ⟨l, hl, hs⟩ := message_plays clock req m s
  have hwrites : s.conn.Writes Statement.LeavesAttrs (m.run clock req s).state.conn := by
    rw [hs]
    refine writes_after req l (fun call hcall => ?_) s
    obtain ⟨clock', operation, hmakes, rfl⟩ := hl call hcall
    exact ⟨clock', operation, hm.makes hmakes, rfl⟩
  exact hwrites.attrTable (owned_runsTo h) (seqBounds_run (fun _ => seqBounds_fresh) h) fun _ hst => hst

/-- A request on a path that sets or removes an attribute does it, or does nothing. -/
lemma attr_onFd {p : Action PUnit} {τ : AttrTable}
    (hp : Prog.RefusesOr p (req.view s) fun o => o.result = .ok ⟨⟩ ∧ o.state.conn.attrTable = τ) :
    (Adapter.onFd req p s).result = .ok (.ok ⟨⟩) ∧ (Adapter.onFd req p s).state.conn.attrTable = τ ∨
      (∀ u, (Adapter.onFd req p s).result ≠ .ok (.ok u)) ∧ (Adapter.onFd req p s).state.conn = s.conn := by
  have hconn : (Adapter.onFd req p s).state.conn = (p (req.view s)).state.conn :=
    asUserOf_conn fun _ _ => rfl
  rw [hconn]
  rcases hp with ⟨x, hx⟩ | ⟨hok, hattrs⟩
  · refine Or.inr ⟨fun u hu => ?_, ?_⟩
    · rw [onFd_ok, hx] at hu
      cases hu
    · rw [hx]
      rfl
  · exact Or.inl ⟨onFd_ok.mpr hok, hattrs⟩

section Served
variable (h : Reachable s) (clock : Clock)
include h

lemma setxattr_request : (Adapter.setxattr clock req ino (some n) value flags s).result = .ok (.ok ⟨⟩) ∧
      (Adapter.setxattr clock req ino (some n) value flags s).state.conn.attrTable
        = Function.update s.conn.attrTable (ino, n) (some value) ∨
    (∀ u, (Adapter.setxattr clock req ino (some n) value flags s).result ≠ .ok (.ok u)) ∧
      (Adapter.setxattr clock req ino (some n) value flags s).state.conn = s.conn := by
  obtain ⟨o, ho⟩ := pathOfInode_ok (rooted_runsTo h).tree ino
  cases o with
  | none =>
    have hrun : Adapter.setxattr clock req ino (some n) value flags s
        = (pure (.error Libc.ENOENT) : Action (Except Errno PUnit)) s := pathOfInode_run ho
    rw [hrun]
    exact Or.inr ⟨fun u hu => (by cases hu), rfl⟩
  | some path =>
    have hrun : Adapter.setxattr clock req ino (some n) value flags s
        = Adapter.onFd req (Filesystem.setxattr clock path n value 0) s := pathOfInode_run ho
    rw [hrun]
    refine attr_onFd (setxattr_attrs.mono ?_)
    rintro o' ⟨i, row, hmay, hok, hattrs⟩
    obtain rfl := eq_of_resolved h h rfl ho hmay.resolved
    exact ⟨hok, hattrs⟩

lemma removexattr_request : (Adapter.removexattr clock req ino (some n) s).result = .ok (.ok ⟨⟩) ∧
      (Adapter.removexattr clock req ino (some n) s).state.conn.attrTable
        = Function.update s.conn.attrTable (ino, n) none ∨
    (∀ u, (Adapter.removexattr clock req ino (some n) s).result ≠ .ok (.ok u)) ∧
      (Adapter.removexattr clock req ino (some n) s).state.conn = s.conn := by
  obtain ⟨o, ho⟩ := pathOfInode_ok (rooted_runsTo h).tree ino
  cases o with
  | none =>
    have hrun : Adapter.removexattr clock req ino (some n) s
        = (pure (.error Libc.ENOENT) : Action (Except Errno PUnit)) s := pathOfInode_run ho
    rw [hrun]
    exact Or.inr ⟨fun u hu => (by cases hu), rfl⟩
  | some path =>
    have hrun : Adapter.removexattr clock req ino (some n) s
        = Adapter.onFd req (Filesystem.removexattr clock path n) s := pathOfInode_run ho
    rw [hrun]
    refine attr_onFd (removexattr_attrs.mono ?_)
    rintro o' ⟨i, row, hmay, hok, hattrs⟩
    obtain rfl := eq_of_resolved h h rfl ho hmay.resolved
    exact ⟨hok, hattrs⟩

/-- A turn does to the attributes what its answer says, or leaves them to the nodes. -/
lemma turn_attrs (turn : Turn) : (turn.exec s).conn.attrTable = turn.recorded s s.conn.attrTable ∨
    (∀ τ, turn.recorded s τ = τ) ∧
      (turn.exec s).conn.attrTable = s.conn.attrTable.settle (turn.exec s).conn.hasNode := by
  cases turn with
  | remount readonly uid gid => exact Or.inl rfl
  | serve clock req m =>
    by_cases hm : m.LeavesAttrs
    · refine Or.inr ⟨fun τ => ?_, attrTable_request h clock req hm⟩
      unfold Turn.recorded
      dsimp only
      split
      · exact hm.recorded τ
      · rfl
    · left
      unfold Turn.recorded Turn.exec
      dsimp only
      cases m with
      | setxattr ino name value flags =>
        rw [Message.run, reply_conn]
        cases name with
        | none => rfl
        | some n =>
          rcases setxattr_request h clock with ⟨hok, hattrs⟩ | ⟨hfail, hconn⟩
          · rw [reply_ok.mpr ⟨_, hok, rfl⟩, hattrs]
            rfl
          · rw [hconn]
            split
            · rename_i a ha
              obtain ⟨u, hu, -⟩ := reply_ok.mp ha
              exact absurd hu (hfail u)
            · rfl
      | removexattr ino name =>
        rw [Message.run, reply_conn]
        cases name with
        | none => rfl
        | some n =>
          rcases removexattr_request h clock with ⟨hok, hattrs⟩ | ⟨hfail, hconn⟩
          · rw [reply_ok.mpr ⟨_, hok, rfl⟩, hattrs]
            rfl
          · rw [hconn]
            split
            · rename_i a ha
              obtain ⟨u, hu, -⟩ := reply_ok.mp ha
              exact absurd hu (hfail u)
            · rfl
      | _ => exact absurd trivial hm

end Served

/-! ### What is answered -/

/-- The user of the request may read the attributes of the node. -/
def Readable (s : Filesystem) (req : Request) (ino : ℕ) : Prop :=
  ∃ path row, PathOf s ino path ∧ path.len ≤ PATH_MAX ∧ Nodes.get s.conn ino = .ok row ∧
    Allows (req.view s) row Access.R

lemma Readable.hasNode (h : Readable s req ino) : s.conn.hasNode ino = true := by
  obtain ⟨path, row, -, -, hrow, -⟩ := h
  exact Db.hasNode_of_kind (Nodes.kind_of_get hrow)

/-- A path that is found for a node finds the node, unless it is too long. -/
lemma finds_pathOf (h : Reachable s) (req : Request) {row : NodeRow} :
    (∃ path, PathOf s ino path ∧ Finds (req.view s) path i row) ↔
      i = ino ∧ Nodes.get s.conn ino = .ok row ∧ ∃ path, PathOf s ino path ∧ path.len ≤ PATH_MAX := by
  constructor
  · rintro ⟨path, hpath, hi, hrow⟩
    obtain rfl := eq_of_resolved h h rfl hpath hi
    obtain ⟨l, hparse, -⟩ := (resolveToInode_eq_ok (rooted_runsTo h).tree).mp hi
    exact ⟨rfl, hrow, path, hpath, (parsePath_eq_ok.mp hparse).2.1⟩
  · rintro ⟨rfl, hrow, path, hpath, hlen⟩
    have hi : resolveToInode s.conn path = .ok i := resolve_of_pathOfInode h hpath hlen
    exact ⟨path, hpath, hi, hrow⟩

lemma replySized_ok {bytes : α → Bytes} {p : Action (Except Errno α)} {r : ReplyXattr} :
    (Adapter.replySized size bytes p s).result = .ok (.ok r) ↔
      ∃ a, (p s).result = .ok (.ok a) ∧ replyXattr size (bytes a) = .ok r := by
  rw [Adapter.replySized, bind_pure_result, map_eq_ok]
  constructor
  · rintro ⟨x, hx, hr⟩
    cases x with
    | error e => cases hr
    | ok a => exact ⟨a, hx, hr⟩
  · rintro ⟨a, ha, hr⟩
    exact ⟨.ok a, ha, hr⟩

lemma getxattr_answer (h : Reachable s) {a : Answer} :
    ((Message.getxattr ino (some n) size).run clock req s).result = .ok (.ok a) ↔
      Readable s req ino ∧ ∃ v r, s.conn.attrTable (ino, n) = some v ∧ replyXattr size v = .ok r ∧
        a = .xattr r := by
  refine reply_ok.trans ?_
  constructor
  · rintro ⟨r, hr, rfl⟩
    obtain ⟨v, hv, hsized⟩ := replySized_ok.mp hr
    obtain ⟨path, hpath, hget⟩ := onNode_ok.mp hv
    obtain ⟨i, row, hfinds, hallows, hattr⟩ := getxattr_ok.mp hget
    obtain ⟨rfl, hrow, path, hpath, hlen⟩ := (finds_pathOf h req).mp ⟨path, hpath, hfinds⟩
    exact ⟨⟨path, row, hpath, hlen, hrow, hallows⟩, v, r, hattr, hsized, rfl⟩
  · rintro ⟨⟨path, row, hpath, hlen, hrow, hallows⟩, v, r, hattr, hr, rfl⟩
    obtain ⟨path, hpath, hfinds⟩ := (finds_pathOf h req).mpr ⟨rfl, hrow, path, hpath, hlen⟩
    exact ⟨r, replySized_ok.mpr ⟨v, onNode_ok.mpr ⟨path, hpath,
      getxattr_ok.mpr ⟨ino, row, hfinds, hallows, hattr⟩⟩, hr⟩, rfl⟩

/-- A value that has passed the checks fits in the 32 bits of an answer. -/
lemma replyXattr_value {r : ReplyXattr} (hfits : value.length ≤ Xattrs.XATTR_VALUE_MAX) :
    replyXattr size value = .ok r ↔ size = 0 ∧ r = .size value.length ∨
      0 < size ∧ value.length ≤ size ∧ r = .data value := by
  have hlt : value.length < 2 ^ 32 := hfits.trans_lt (by decide)
  have hlen : U32.ofUsize value.length = value.length := Nat.mod_eq_of_lt hlt
  unfold replyXattr
  rw [hlen]
  split_ifs with hzero hle
  · rw [hzero]
    simp [eq_comm]
  · simp [Nat.pos_of_ne_zero hzero, hzero, hle, eq_comm]
  · simp [hzero, hle]

end Requests

/-! ### Sessions -/

/-- What a filesystem and a client go through: the client remembers what it has set and removed. -/
abbrev Recorded (x : Filesystem × AttrTable) : Prop :=
  Run (fun y => Fresh y.1 ∧ y.2 = fun _ => none)
    (fun (turn : Turn) y => (turn.exec y.1, turn.recorded y.1 y.2)) (fun _ _ => True) x

section Sessions
variable {x : Filesystem × AttrTable}

lemma Recorded.reachable (h : Recorded x) : Reachable x.1 := by
  suffices hserved : Served (fun _ _ => True) x.1 from reachable_of_served hserved
  induction h with
  | start h => exact .start h.1
  | next _ _ ih => exact .next ih trivial

/-- What is remembered is about nodes that are there or have been there. -/
def SeenAttrs (x : Filesystem × AttrTable) : Prop :=
  ∀ k v, x.2 k = some v → k.1 ≤ x.1.conn.nodesSeq

/-- An answer tells of one attribute at most. -/
lemma recorded_cases (s : Filesystem) (turn : Turn) :
    (∀ τ, turn.recorded s τ = τ) ∨ ∃ k v, ∀ τ, turn.recorded s τ = Function.update τ k v := by
  have hmessage (m : Message) :
      (∀ τ, m.recorded τ = τ) ∨ ∃ k v, ∀ τ, m.recorded τ = Function.update τ k v := by
    cases m with
    | setxattr i name value flags =>
      cases name with
      | none => exact Or.inl fun _ => rfl
      | some n => exact Or.inr ⟨(i, n), some value, fun _ => rfl⟩
    | removexattr i name =>
      cases name with
      | none => exact Or.inl fun _ => rfl
      | some n => exact Or.inr ⟨(i, n), none, fun _ => rfl⟩
    | _ => exact Or.inl fun _ => rfl
  cases turn with
  | remount readonly uid gid => exact Or.inl fun _ => rfl
  | serve clock req m =>
    unfold Turn.recorded
    dsimp only
    rcases (m.run clock req s).result with _ | (_ | _)
    · exact Or.inl fun _ => rfl
    · exact Or.inl fun _ => rfl
    · exact hmessage m

/-- To remember and then to forget what is about nodes that are gone is the same as to forget it before
as well. -/
lemma recorded_settle {s : Filesystem} {τ : AttrTable} {live live' : ℕ → Bool} (turn : Turn)
    (h : ∀ k v, τ k = some v → live' k.1 = true → live k.1 = true) :
    (turn.recorded s (τ.settle live)).settle live' = (turn.recorded s τ).settle live' := by
  rcases recorded_cases s turn with hsame | ⟨k, v, hupdate⟩
  · rw [hsame, hsame]
    exact AttrTable.settle_settle h
  · rw [hupdate, hupdate]
    funext j
    have hj := congrFun (AttrTable.settle_settle h) j
    unfold AttrTable.settle at hj ⊢
    by_cases hk : j = k
    · rw [hk, Function.update_self, Function.update_self]
    · rw [Function.update_of_ne hk, Function.update_of_ne hk]
      exact hj

/-- What an answer tells does not depend on what is remembered. -/
lemma recorded_local {s : Filesystem} (turn : Turn) (τ τ' : AttrTable) (k : ℕ × Str) :
    turn.recorded s τ k = τ k ∨ turn.recorded s τ k = turn.recorded s τ' k := by
  rcases recorded_cases s turn with hsame | ⟨k', v, hupdate⟩
  · rw [hsame]
    exact Or.inl rfl
  · rw [hupdate, hupdate]
    by_cases hk : k = k'
    · rw [hk, Function.update_self, Function.update_self]
      exact Or.inr rfl
    · exact Or.inl (Function.update_of_ne hk _ _)

/-- What is remembered is the table of the filesystem, but for nodes that are gone. -/
lemma Recorded.attrs (h : Recorded x) :
    x.1.conn.attrTable = x.2.settle x.1.conn.hasNode ∧ SeenAttrs x := by
  induction h with
  | start h =>
    obtain ⟨⟨chunkSize, uid, gid, now, readonly, uid', gid', hs⟩, hτ⟩ := h
    refine ⟨?_, fun k v hv => ?_⟩
    · rw [hs, hτ]
      funext k
      exact (ite_self none).symm
    · rw [hτ] at hv
      cases hv
  | @next y turn hrun _ ih =>
    obtain ⟨hattrs, hseen⟩ := ih
    have hreach : Reachable y.1 := Recorded.reachable hrun
    have hcalls : Run (· = y.1) Call.exec (fun _ _ => True) (turn.exec y.1) :=
      run_of_turns (.next (.start rfl) trivial)
    have hnext : Reachable (turn.exec y.1) := hreach.trans hcalls
    have hlive : ∀ k v, y.2 k = some v → (turn.exec y.1).conn.hasNode k.1 = true →
        y.1.conn.hasNode k.1 = true :=
      fun k v hv hlive => handsOut_nodes.live_of_run hcalls (hseen k v hv) hlive
    rcases turn_attrs hreach turn with hstep | ⟨hsame, hstep⟩
    · refine ⟨?_, fun k v hv => ?_⟩
      · rw [← recorded_settle turn hlive, ← hattrs, ← hstep]
        exact (owned_runsTo hnext).settle_self.symm
      · dsimp only at hv
        rcases recorded_local turn y.2 y.1.conn.attrTable k with hold | hnew
        · exact handsOut_nodes.seen_of_run hcalls (hseen k v (hold ▸ hv))
        · rw [hnew, ← hstep] at hv
          exact seqBounds_run (fun _ => seqBounds_fresh) hnext _ ((owned_runsTo hnext).attr hv)
    · refine ⟨?_, fun k v hv => ?_⟩
      · rw [hstep, hattrs, hsame]
        exact AttrTable.settle_settle hlive
      · rw [hsame] at hv
        exact handsOut_nodes.seen_of_run hcalls (hseen k v hv)

lemma Recorded.attr (h : Recorded x) {req : Request} {ino : ℕ} (hread : Readable x.1 req ino) (n : Str) :
    x.1.conn.attrTable (ino, n) = x.2 (ino, n) := by
  rw [h.attrs.1]
  exact AttrTable.settle_of_live hread.hasNode

/-- Who may read a node is told the value that was set last, if there is room for it, or how long it is. -/
theorem session_getxattr (h : Recorded x) (clock : Clock) (req : Request) (ino : ℕ) (n : Str)
    (size : ℕ) (a : Answer) :
    ((Message.getxattr ino (some n) size).run clock req x.1).result = .ok (.ok a) ↔
      Readable x.1 req ino ∧ ∃ v, x.2 (ino, n) = some v ∧
        (size = 0 ∧ a = .xattr (.size v.length) ∨ 0 < size ∧ v.length ≤ size ∧ a = .xattr (.data v)) := by
  rw [getxattr_answer h.reachable]
  refine and_congr_right fun hread => ?_
  rw [h.attr hread]
  refine exists_congr fun v => ?_
  constructor
  · rintro ⟨r, hv, hr, rfl⟩
    have hvalid := validAttr_runsTo h.reachable (ino, n) v ((h.attr hread n).trans hv)
    rcases (replyXattr_value hvalid.fits).mp hr with ⟨hsize, rfl⟩ | ⟨hpos, hle, rfl⟩
    · exact ⟨hv, Or.inl ⟨hsize, rfl⟩⟩
    · exact ⟨hv, Or.inr ⟨hpos, hle, rfl⟩⟩
  · rintro ⟨hv, hcase⟩
    have hvalid := validAttr_runsTo h.reachable (ino, n) v ((h.attr hread n).trans hv)
    rcases hcase with ⟨hsize, rfl⟩ | ⟨hpos, hle, rfl⟩
    · exact ⟨_, hv, (replyXattr_value hvalid.fits).mpr (Or.inl ⟨hsize, rfl⟩), rfl⟩
    · exact ⟨_, hv, (replyXattr_value hvalid.fits).mpr (Or.inr ⟨hpos, hle, rfl⟩), rfl⟩

/-- A file is made and given an attribute. -/
def taggedSession : Filesystem × AttrTable :=
  let recorded (turn : Turn) (x : Filesystem × AttrTable) := (turn.exec x.1, turn.recorded x.1 x.2)
  recorded (.serve ⟨2, 2⟩ ⟨0, 0⟩ (.setxattr 2 (some userX) [1, 2] 0))
    (recorded (.serve ⟨1, 1⟩ ⟨0, 0⟩ (.create 1 (some ['f']) 0o644 Libc.O_RDWR)) (newFs, fun _ => none))

lemma recorded_taggedSession : Recorded taggedSession :=
  .next (.next (.start ⟨fresh_newFs, rfl⟩) trivial) trivial

theorem session_getxattr_taggedSession :
    ((Message.getxattr 2 (some userX) 2).run ⟨3, 3⟩ ⟨0, 0⟩ taggedSession.1).result
        = .ok (.ok (.xattr (.data [1, 2]))) ↔
      Readable taggedSession.1 ⟨0, 0⟩ 2 ∧ ∃ v, taggedSession.2 (2, userX) = some v ∧
        (2 = 0 ∧ Answer.xattr (.data [1, 2]) = .xattr (.size v.length) ∨
          0 < 2 ∧ v.length ≤ 2 ∧ Answer.xattr (.data [1, 2]) = .xattr (.data v)) :=
  session_getxattr recorded_taggedSession ⟨3, 3⟩ ⟨0, 0⟩ 2 userX 2 (.xattr (.data [1, 2]))

end Sessions

end Fuse

end SqliteFs

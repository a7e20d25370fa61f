import SqliteFs.Filesystem.Resolution
import SqliteFs.Filesystem.Success

/-!
# Creating over an existing name

With a name that exists, `create` opens the node, by checks of its own. They are those of `open`, but
that it does not refuse directories; and it never truncates.
-/

namespace SqliteFs

open Txn

/-- The error without its message. -/
def Error.kind : Error → Error
  | .pathSyntax _ => .pathSyntax []
  | .nameTooLong _ => .nameTooLong []
  | .notFound _ => .notFound []
  | .alreadyExists _ => .alreadyExists []
  | .notADirectory _ => .notADirectory []
  | .isADirectory _ => .isADirectory []
  | .directoryNotEmpty _ => .directoryNotEmpty []
  | .permissionDenied _ => .permissionDenied []
  | .readOnlyFilesystem => .readOnlyFilesystem
  | .invalidXattr _ => .invalidXattr []
  | .lockConflict _ => .lockConflict []
  | .badFileDescriptor _ => .badFileDescriptor []
  | .symlinkLoop _ => .symlinkLoop []
  | .invalidArgument _ => .invalidArgument []
  | .sqlite e => .sqlite e

def Halt.kind : Halt → Halt
  | .error e => .error e.kind
  | .panic => .panic
  | .diverge => .diverge

/-- Both return the same, or both return an error of one kind. -/
def SameKind {α : Type} (r r' : Res α) : Prop := r.mapError Halt.kind = r'.mapError Halt.kind

instance {α : Type} [DecidableEq α] (r r' : Res α) : Decidable (SameKind r r') :=
  inferInstanceAs (Decidable (_ = _))

namespace Filesystem

variable {s : Filesystem} {clock clock' : Clock} {path name : Str} {flags : Flags} {mode : UInt32}
  {i p : ℕ} {row : NodeRow} {e : EntryRow}

/-- Both end with the same result, but for the text of an error, the same tables and the same
descriptors. -/
structure EndAlike {α : Type} (o o' : Outcome Filesystem Db Halt α) : Prop where
  result : SameKind o.result o'.result
  conn : o.state.conn = o'.state.conn
  fdtable : o.state.fdtable = o'.state.fdtable

/-- `open` does to the node `i` what `create` does: it is not a directory, and it does not have to be
truncated, or the caller may not open it, or truncating it changes nothing. -/
def OpensPlainly (s : Filesystem) (clock : Clock) (flags : Flags) (i : ℕ) : Prop :=
  ∃ row, Nodes.get s.conn i = .ok row ∧ row.kind ≠ .dir ∧
    (flags &&& Libc.O_TRUNC = 0 ∨ (checkOpenAccess row flags s).result ≠ .ok ⟨⟩ ∨
      row.size = 0 ∧ row.mtimeNs = clock.now ∧ row.ctimeNs = clock.now)

/-! ### What the two do -/

/-- The state with one more descriptor of the caller. -/
def withFd (s : Filesystem) (i : ℕ) (flags : Flags) : Filesystem :=
  { s with fdtable := (s.fdtable.open_ i flags s.callerUid s.callerGid).2 }

lemma openFd_apply : openFd i flags s =
    ⟨.ok (s.fdtable.open_ i flags s.callerUid s.callerGid).1, s.withFd i flags, []⟩ := rfl

lemma checkOpenAccess_error {x : Halt} (h : (checkOpenAccess row flags s).result = .error x) :
    ∃ msg, x = .error (.permissionDenied msg) := by
  change requireAccess row.mode row.uid row.gid s.callerUid s.callerGid _ = .error x at h
  unfold requireAccess at h
  split_ifs at h
  · cases h
    exact ⟨_, rfl⟩
  · cases h
    exact ⟨_, rfl⟩
  · cases h
    exact ⟨_, rfl⟩

lemma checkOpenAccess_bind {α : Type} {f : PUnit → Action α}
    (h : (checkOpenAccess row flags s).result = .ok ⟨⟩) :
    (checkOpenAccess row flags >>= f) s = f ⟨⟩ s :=
  Prog.query_bind_ok h

lemma checkOpenAccess_bind_error {α : Type} {f : PUnit → Action α} {x : Halt}
    (h : (checkOpenAccess row flags s).result = .error x) :
    (checkOpenAccess row flags >>= f) s = ⟨.error x, s, []⟩ :=
  Prog.query_bind_error h

lemma create_run_existing (hw : s.readonly = false)
    (hparent : resolveParentAndName s.conn path = .ok (p, name))
    (he : Entries.get s.conn p name = .ok e) (hexcl : flags &&& Libc.O_EXCL = 0)
    (hrow : Nodes.get s.conn e.inode = .ok row) :
    create clock path flags mode s
      = (checkOpenAccess row flags >>= fun _ => openFd e.inode flags) s := by
  have hexisting : createExisting path flags e s
      = (checkOpenAccess row flags >>= fun _ => openFd e.inode flags) s := by
    unfold createExisting
    rw [require_bind hexcl, getNode_bind hrow]
  unfold create
  rw [requireWritable_bind hw, resolveParent_bind hparent]
  refine (ask_bind (b := Entries.get s.conn p name) rfl).trans ?_
  rw [he]
  exact hexisting

section Open
variable (hi : resolveToInode s.conn path = .ok i) (hrow : Nodes.get s.conn i = .ok row)
include hi hrow

lemma open_run_dir (hdir : row.kind = .dir) : open_ clock path flags s =
    ⟨err (.isADirectory [.debug path, .lit " is a directory"]), s, []⟩ := by
  unfold open_
  rw [resolve_bind hi, getNode_bind hrow, require_bind_error fun h => h hdir]

lemma open_run_plain (hdir : row.kind ≠ .dir) (htrunc : flags &&& Libc.O_TRUNC = 0) :
    open_ clock path flags s = (checkOpenAccess row flags >>= fun _ => openFd i flags) s := by
  unfold open_
  rw [resolve_bind hi, getNode_bind hrow, require_bind hdir]
  simp only [if_pos htrunc]

lemma open_run_denied (hdir : row.kind ≠ .dir) {x : Halt}
    (haccess : (checkOpenAccess row flags s).result = .error x) :
    open_ clock path flags s = ⟨.error x, s, []⟩ := by
  unfold open_
  rw [resolve_bind hi, getNode_bind hrow, require_bind hdir, checkOpenAccess_bind_error haccess]

end Open

/-- What truncating a file without contents leaves. -/
def touched (d : Db) (i : ℕ) (now : ℤ) : Db :=
  d.updateNode i (fun r => { r with size := 0, mtimeNs := now, ctimeNs := now }) fun _ => rfl

lemma touched_eq_self (hrow : Nodes.get s.conn i = .ok row) (hsize : row.size = 0) {now : ℤ} :
    touched s.conn i now = s.conn ↔ row.mtimeNs = now ∧ row.ctimeNs = now := by
  obtain ⟨r, hr, rfl⟩ := Nodes.get_eq_ok.mp hrow
  constructor
  · intro h
    have hfind : (touched s.conn i now).nodes.find? i
        = some { r with size := 0, mtimeNs := now, ctimeNs := now } := by
      unfold touched Db.updateNode
      rw [KeyTable.find?_updateAt, if_pos rfl, hr]
      rfl
    rw [h, hr] at hfind
    have hsame := Option.some.inj hfind
    exact ⟨congrArg NodesRow.mtimeNs hsame, congrArg NodesRow.ctimeNs hsame⟩
  · rintro ⟨hm, hc⟩
    unfold touched Db.updateNode
    rw [KeyTable.updateAt_eq_self_of]
    intro r' hr' hkey
    obtain rfl : r' = r := Option.some.inj ((KeyTable.find?_eq_some.mpr ⟨hr', hkey⟩).symm.trans hr)
    cases r'
    cases hm
    cases hc
    cases hsize
    rfl

lemma open_run_touched (clock : Clock) (h : MayTruncate s path flags i row) (hsize : row.size = 0) :
    ∃ l, open_ clock path flags s
      = ⟨.ok (s.fdtable.open_ i flags s.callerUid s.callerGid).1,
          { s.withFd i flags with conn := touched s.conn i clock.now }, l⟩ := by
  have hrun : emptyFile clock i row.size s.chunkSize s.conn
      = .ok (⟨⟩, touched s.conn i clock.now) := by
    rw [hsize]
    rfl
  rw [open_run h, tx_bind h.writable hrun]
  exact ⟨_, rfl⟩

/-! ### When they end alike -/

section Existing
variable (hw : s.readonly = false) (hparent : resolveParentAndName s.conn path = .ok (p, name))
  (he : Entries.get s.conn p name = .ok e) (hi : resolveToInode s.conn path = .ok e.inode)
  (hexcl : flags &&& Libc.O_EXCL = 0) (hrow : Nodes.get s.conn e.inode = .ok row)
include hw hparent he hi hexcl hrow

/-- Directories are refused by `open` only, and never for a lack of permission. -/
lemma not_endAlike_dir (hdir : row.kind = .dir) :
    ¬ EndAlike (create clock path flags mode s) (open_ clock' path flags s) := by
  intro h
  have hresult := h.result
  rw [create_run_existing hw hparent he hexcl hrow, open_run_dir hi hrow hdir] at hresult
  cases haccess : (checkOpenAccess row flags s).result with
  | error x =>
    obtain ⟨msg, rfl⟩ := checkOpenAccess_error haccess
    rw [checkOpenAccess_bind_error haccess] at hresult
    cases hresult
  | ok u =>
    rw [checkOpenAccess_bind haccess] at hresult
    cases hresult

lemma endAlike_truncated (hdir : row.kind ≠ .dir) (htrunc : flags &&& Libc.O_TRUNC ≠ 0)
    (haccess : (checkOpenAccess row flags s).result = .ok ⟨⟩) :
    EndAlike (create clock path flags mode s) (open_ clock' path flags s) ↔
      row.size = 0 ∧ row.mtimeNs = clock'.now ∧ row.ctimeNs = clock'.now := by
  have hmay : MayTruncate s path flags e.inode row := ⟨hi, hrow, hdir, haccess, htrunc, hw⟩
  have hcreate : create clock path flags mode s = openFd e.inode flags s := by
    rw [create_run_existing hw hparent he hexcl hrow, checkOpenAccess_bind haccess]
  rw [hcreate, openFd_apply]
  by_cases hsize : row.size = 0
  · rw [and_iff_right hsize, ← touched_eq_self hrow hsize]
    obtain ⟨l, hopen⟩ := open_run_touched clock' hmay hsize
    rw [hopen]
    constructor
    · intro h
      exact h.conn.symm
    · intro h
      exact ⟨rfl, h.symm, rfl⟩
  · refine iff_of_false (fun h => ?_) fun h => hsize h.1
    by_cases hchunk : s.chunkSize = 0
    · -- there is no result then
      have hpanics : emptyFile clock' e.inode row.size s.chunkSize s.conn = .error .panic := by
        rw [hchunk]
        exact emptyFile_panics hsize
      have hresult := h.result
      have hfails : tx (emptyFile clock' e.inode row.size s.chunkSize) s = ⟨.error .panic, s, []⟩ := by
        rw [tx_apply hw, Prog.transaction, show disk s = s.conn from rfl, hpanics]
      rw [open_run hmay, Prog.bind_apply_error hfails] at hresult
      cases hresult
    · have hzero := open_size clock' hmay hsize hchunk
      obtain ⟨r, hr, rfl⟩ := Nodes.get_eq_ok.mp hrow
      rw [← h.conn, show (s.withFd e.inode flags).conn = s.conn from rfl,
        Db.info_of_find? hr] at hzero
      exact hsize (Option.some.inj hzero)

lemma endAlike_iff : EndAlike (create clock path flags mode s) (open_ clock' path flags s) ↔
    OpensPlainly s clock' flags e.inode := by
  have hplain : OpensPlainly s clock' flags e.inode ↔ row.kind ≠ .dir ∧
      (flags &&& Libc.O_TRUNC = 0 ∨ (checkOpenAccess row flags s).result ≠ .ok ⟨⟩ ∨
        row.size = 0 ∧ row.mtimeNs = clock'.now ∧ row.ctimeNs = clock'.now) := by
    constructor
    · rintro ⟨row', hrow', h⟩
      obtain rfl := Except.ok.inj (hrow.symm.trans hrow')
      exact h
    · exact fun h => ⟨row, hrow, h⟩
  rw [hplain]
  by_cases hdir : row.kind = .dir
  · exact iff_of_false (not_endAlike_dir hw hparent he hi hexcl hrow hdir) fun h => h.1 hdir
  rw [and_iff_right hdir]
  by_cases htrunc : flags &&& Libc.O_TRUNC = 0
  · refine iff_of_true ?_ (Or.inl htrunc)
    rw [create_run_existing hw hparent he hexcl hrow, open_run_plain hi hrow hdir htrunc]
    exact ⟨rfl, rfl, rfl⟩
  rw [or_iff_right htrunc]
  cases haccess : (checkOpenAccess row flags s).result with
  | error x =>
    refine iff_of_true ?_ (Or.inl fun h => nomatch h)
    rw [create_run_existing hw hparent he hexcl hrow, open_run_denied hi hrow hdir haccess,
      checkOpenAccess_bind_error haccess]
    exact ⟨rfl, rfl, rfl⟩
  | ok u =>
    rw [or_iff_right fun h => h rfl]
    exact endAlike_truncated hw hparent he hi hexcl hrow hdir htrunc haccess

end Existing

/-- Creating over a name is opening what has the name if and only if `open` neither refuses it as a
directory nor changes it by truncating it. -/
theorem create_endAlike_open_iff (h : Reachable s) (hw : s.readonly = false) (hroot : path ≠ ['/'])
    (hi : resolveToInode s.conn path = .ok i) (hexcl : flags &&& Libc.O_EXCL = 0)
    (user : Option (UInt32 × UInt32)) :
    EndAlike (create clock path flags mode (s.actAs user)) (open_ clock' path flags (s.actAs user)) ↔
      OpensPlainly (s.actAs user) clock' flags i := by
  have htree : s.conn.Tree := (rooted_runsTo h).tree
  obtain ⟨l, hparse, hl⟩ := (resolveToInode_eq_ok htree).mp hi
  have hne : l ≠ [] := by
    rintro rfl
    obtain ⟨-, -, hpath | ⟨hne, -⟩⟩ := parsePath_eq_ok.mp hparse
    · exact hroot hpath
    · exact hne rfl
  obtain ⟨init, name, rfl⟩ := (List.eq_nil_or_concat l).resolve_left hne
  rw [List.concat_eq_append] at hparse hl
  obtain ⟨e, he, hinit, rfl, rfl⟩ := Db.Leads.concat_iff.mp hl
  have hparent : resolveParentAndName s.conn path = .ok (e.parent, e.name) :=
    (resolveParentAndName_eq_ok htree).mpr ⟨init, hparse, hinit⟩
  obtain ⟨r, hr⟩ := Option.isSome_iff_exists.mp (htree.child e he)
  have hrow : Nodes.get s.conn e.inode = .ok r.read := Nodes.get_eq_ok.mpr ⟨r, hr, rfl⟩
  rw [← actAs_conn s user] at hparent hi hrow
  refine endAlike_iff (by rw [actAs_readonly, hw]) hparent ?_ hi hexcl hrow
  rw [actAs_conn]
  exact Entries.get_eq_ok.mpr ⟨he, rfl, rfl⟩

/-- A file `/f` with a byte in it. -/
def oneByte : Filesystem := newFsAfter
  [.create ['/', 'f'] Libc.O_RDWR 0o644, .writeFd 1 0 [65]]

theorem create_endAlike_open_iff_oneByte :
    EndAlike (create ⟨5, 5⟩ ['/', 'f'] Libc.O_RDWR 0 (oneByte.actAs none))
        (open_ ⟨6, 6⟩ ['/', 'f'] Libc.O_RDWR (oneByte.actAs none)) ↔
      OpensPlainly (oneByte.actAs none) ⟨6, 6⟩ Libc.O_RDWR 2 :=
  create_endAlike_open_iff (reachable_newFsAfter _) (by decide +kernel) (by decide)
    (by decide +kernel) (by decide) none

/-- `create` with `O_TRUNC` leaves the byte. -/
theorem not_create_endAlike_open : ¬ ∀ (s : Filesystem) (clock clock' : Clock) (path : Str)
    (flags : Flags) (mode : UInt32) (i : ℕ) (user : Option (UInt32 × UInt32)), Reachable s →
    s.readonly = false → path ≠ ['/'] → resolveToInode s.conn path = .ok i →
    flags &&& Libc.O_EXCL = 0 →
      EndAlike (create clock path flags mode (s.actAs user))
        (open_ clock' path flags (s.actAs user)) := by
  intro h
  have halike := h oneByte ⟨0, 0⟩ ⟨0, 0⟩ ['/', 'f'] (Libc.O_RDWR ||| Libc.O_TRUNC) 0o644 2 none
    (reachable_newFsAfter _) (by decide +kernel) (by decide) (by decide +kernel) (by decide)
  have hsize := congrArg (fun d => (d.info 2).map NodeInfo.size) halike.conn
  exact absurd hsize (by decide +kernel)

end Filesystem

end SqliteFs

import SqliteFs.Fuse.Getattr
import SqliteFs.Filesystem.PathRoundTrip
import SqliteFs.Filesystem.Success

/-!
# What a change of attributes does

`setattr` turns one request into up to four operations on the path of the inode. Each of them
replaces the row of that node, or is refused. When one of them is refused, those before it have
been committed.
-/

namespace SqliteFs

open Txn

namespace Fuse

open Filesystem

/-! ### States that differ in one row -/

/-- The same filesystem, mounted in the same way and acting for the same caller. -/
structure SameMount (s t : Filesystem) : Prop where
  readonly : t.readonly = s.readonly
  chunkSize : t.chunkSize = s.chunkSize
  callerUid : t.callerUid = s.callerUid
  callerGid : t.callerGid = s.callerGid

lemma SameMount.trans {s t t' : Filesystem} (h : SameMount t t') (h' : SameMount s t) :
    SameMount s t' :=
  ⟨h.readonly.trans h'.readonly, h.chunkSize.trans h'.chunkSize, h.callerUid.trans h'.callerUid,
    h.callerGid.trans h'.callerGid⟩

/-- In `t` the row of the node `i` is `row`. Otherwise paths and permissions are as in `s`. -/
structure RowIs (s : Filesystem) (i : ℕ) (row : NodesRow) (t : Filesystem) : Prop extends
    SameMount s t where
  atNode : t.conn.nodes.find? i = some row
  kind : s.conn.kind i = some row.kind
  others : ∀ j ≠ i, t.conn.nodes.find? j = s.conn.nodes.find? j
  entries : t.conn.entries = s.conn.entries

namespace RowIs

variable {s t t' : Filesystem} {i : ℕ} {row row' : NodesRow} {path : Str}

lemma refl (h : s.conn.nodes.find? i = some row) : RowIs s i row s :=
  ⟨⟨rfl, rfl, rfl, rfl⟩, h, Db.kind_of_info (Db.info_of_find? h), fun _ _ => rfl, rfl⟩

lemma kinds (h : RowIs s i row t) (j : ℕ) : t.conn.kind j = s.conn.kind j := by
  by_cases hj : j = i
  · rw [hj, h.kind]
    exact Db.kind_of_info (Db.info_of_find? h.atNode)
  · unfold Db.kind Db.info
    rw [h.others j hj]

lemma resolve (h : RowIs s i row t) (htree : s.conn.Tree) {j : ℕ}
    (hj : resolveToInode s.conn path = .ok j) : resolveToInode t.conn path = .ok j := by
  obtain ⟨l, hparse, hl⟩ := (resolveToInode_eq_ok htree).mp hj
  refine (resolveToInode_eq_ok (htree.congr h.entries h.kinds)).mpr ⟨l, hparse, ?_⟩
  exact (Db.Leads.congr h.entries).mpr hl

lemma get (h : RowIs s i row t) : Nodes.get t.conn i = .ok row.read :=
  Nodes.get_eq_ok.mpr ⟨row, h.atNode, rfl⟩

lemma allows (h : RowIs s i row t) {r : NodeRow} {access : Access} :
    Allows t r access ↔ Allows s r access := by
  unfold Allows
  rw [h.callerUid, h.callerGid]

/-- A statement replaces the row. -/
lemma update (h : RowIs s i row t) {f : NodesRow → NodesRow} {hf : ∀ r, (f r).inode = r.inode}
    (hconn : t'.conn = t.conn.updateNode i f hf) (hmount : SameMount t t') (hrow : f row = row')
    (hkind : row'.kind = row.kind) : RowIs s i row' t' := by
  have hfind : ∀ j, t'.conn.nodes.find? j
      = if j = i then (t.conn.nodes.find? j).map f else t.conn.nodes.find? j := by
    intro j
    rw [hconn]
    exact KeyTable.find?_updateAt t.conn.nodes i f hf j
  refine ⟨hmount.trans h.toSameMount, ?_, hkind ▸ h.kind, fun j hj => ?_, ?_⟩
  · rw [hfind, if_pos rfl, h.atNode, ← hrow]
    rfl
  · rw [hfind, if_neg hj, h.others j hj]
  · rw [hconn]
    exact h.entries

/-- Work elsewhere leaves the row alone. -/
lemma congr (h : RowIs s i row t) (hnodes : t'.conn.nodes = t.conn.nodes)
    (hentries : t'.conn.entries = t.conn.entries) (hmount : SameMount t t') : RowIs s i row t' := by
  refine ⟨hmount.trans h.toSameMount, ?_, h.kind, fun j hj => ?_, hentries.trans h.entries⟩
  · rw [hnodes]
    exact h.atNode
  · rw [hnodes]
    exact h.others j hj

/-- The nodes are those of `s` exactly if the row is. -/
lemma same_iff (h : RowIs s i row t) {r : NodesRow} (hr : s.conn.nodes.find? i = some r) :
    (∀ j, t.conn.nodes.find? j = s.conn.nodes.find? j) ↔ row = r := by
  constructor
  · intro hsame
    exact Option.some.inj (h.atNode.symm.trans ((hsame i).trans hr))
  · rintro rfl j
    by_cases hj : j = i
    · rw [hj, h.atNode, hr]
    · exact h.others j hj

end RowIs

/-! ### One operation of the request -/

/-- Where only the row of the node `i` has changed, and is `row` now, `p` sets it to `row'` if `may`
holds, and is refused otherwise. -/
def Sets (s : Filesystem) (i : ℕ) (row : NodesRow) (p : Action PUnit) (may : Prop) (row' : NodesRow) :
    Prop :=
  ∀ t, RowIs s i row t →
    (may → ∃ t' l, p t = ⟨.ok ⟨⟩, t', l⟩ ∧ RowIs s i row' t' ∧ t'.conn.blobs = t.conn.blobs) ∧
    (¬ may → ∃ e, p t = ⟨err e, t, []⟩)

section Operations
variable {s : Filesystem} {i : ℕ} {row : NodesRow} {path : Str}

lemma Sets.skip {may : Prop} (h : may) : Sets s i row (pure ⟨⟩) may row :=
  fun t ht => ⟨fun _ => ⟨t, [], rfl, ht, rfl⟩, fun hnot => absurd h hnot⟩

lemma chmod_sets (htree : s.conn.Tree) (hw : s.readonly = false)
    (hi : resolveToInode s.conn path = .ok i) (clock : Clock) (m : UInt32) :
    Sets s i row (Filesystem.chmod clock path m) (IsOwner s row.read)
      { row with mode := m &&& 0o7777, ctimeNs := clock.now } := by
  intro t ht
  have hwt : t.readonly = false := ht.readonly.trans hw
  have howner : ¬ (t.callerUid ≠ 0 ∧ t.callerUid ≠ row.uid) ↔ IsOwner s row.read := by
    rw [ht.callerUid]
    exact Iff.rfl
  unfold Filesystem.chmod caller
  rw [requireWritable_bind hwt, resolve_bind (ht.resolve htree hi), getNode_bind ht.get,
    ask_bind (b := (t.callerUid, t.callerGid)) rfl]
  refine ⟨fun hmay => ?_, fun hnot => ⟨_, require_bind_error fun h => hnot (howner.mp h)⟩⟩
  refine ⟨_, _, (require_bind (howner.mpr hmay)).trans (tx_bind (a := ⟨⟩) hwt (update_eq_ok.mpr rfl)), ?_, ?_⟩
  · exact ht.update rfl ⟨rfl, rfl, rfl, rfl⟩ rfl rfl
  · rfl

lemma chown_sets (htree : s.conn.Tree) (hw : s.readonly = false)
    (hi : resolveToInode s.conn path = .ok i) (clock : Clock) (uid gid : Option UInt32) :
    Sets s i row (Filesystem.chown clock path uid gid) (MayGive s row.read uid gid)
      { row with uid := uid.getD row.uid, gid := gid.getD row.gid, ctimeNs := clock.now } := by
  intro t ht
  have hwt : t.readonly = false := ht.readonly.trans hw
  have hgive : MayGive t row.read uid gid ↔ MayGive s row.read uid gid := by
    rw [MayGive, MayGive, ht.callerUid]
  unfold Filesystem.chown caller
  rw [requireWritable_bind hwt, resolve_bind (ht.resolve htree hi), getNode_bind ht.get,
    ask_bind (b := (t.callerUid, t.callerGid)) rfl]
  refine ⟨fun hmay => ?_, fun hnot => ?_⟩
  · obtain ⟨huid, hgid⟩ := hgive.mpr hmay
    refine ⟨_, _, ((require_bind huid).trans (require_bind hgid)).trans
      (tx_bind (a := ⟨⟩) hwt (update_eq_ok.mpr rfl)), ?_, ?_⟩
    · exact ht.update rfl ⟨rfl, rfl, rfl, rfl⟩ rfl rfl
    · rfl
  · by_cases huid : ¬ ((uid.any (· ≠ row.uid)) = true ∧ t.callerUid ≠ 0)
    · exact ⟨_, (require_bind huid).trans
        (require_bind_error fun hgid => hnot (hgive.mp ⟨huid, hgid⟩))⟩
    · exact ⟨_, require_bind_error huid⟩

lemma utimes_sets (htree : s.conn.Tree) (hw : s.readonly = false)
    (hi : resolveToInode s.conn path = .ok i) (clock : Clock) (a m : Option ℤ) :
    Sets s i row (Filesystem.utimes clock path a m) (IsOwner s row.read)
      { row with
        atimeNs := a.getD row.atimeNs
        mtimeNs := m.getD row.mtimeNs
        ctimeNs := clock.now } := by
  intro t ht
  have hwt : t.readonly = false := ht.readonly.trans hw
  have howner : ¬ (t.callerUid ≠ 0 ∧ t.callerUid ≠ row.uid) ↔ IsOwner s row.read := by
    rw [ht.callerUid]
    exact Iff.rfl
  have htimes : ∀ d : Db, Nodes.updateTimes i a m (some clock.now) d = .ok (⟨⟩, d.updateNode i
      (fun r => { r with
        atimeNs := a.getD r.atimeNs
        mtimeNs := m.getD r.mtimeNs
        ctimeNs := clock.now }) fun _ => rfl) := by
    intro d
    unfold Nodes.updateTimes
    rw [if_neg fun h => Option.some_ne_none _ h.2.2]
    rfl
  unfold Filesystem.utimes caller
  rw [requireWritable_bind hwt, resolve_bind (ht.resolve htree hi), getNode_bind ht.get,
    ask_bind (b := (t.callerUid, t.callerGid)) rfl]
  refine ⟨fun hmay => ?_, fun hnot => ⟨_, require_bind_error fun h => hnot (howner.mp h)⟩⟩
  refine ⟨_, _, (require_bind (howner.mpr hmay)).trans (tx_bind hwt (htimes t.conn)), ?_, ?_⟩
  · exact ht.update rfl ⟨rfl, rfl, rfl, rfl⟩ rfl rfl
  · rfl

end Operations

/-! ### Truncation -/

section Truncation
variable {s t : Filesystem} {i : ℕ} {row : NodesRow} {path : Str} {clock : Clock}

lemma requireAccess_cases (m u g cu cg : UInt32) (access : Access) :
    requireAccess m u g cu cg access = .ok () ∨ ∃ e, requireAccess m u g cu cg access = err e := by
  unfold requireAccess
  split_ifs
  · exact Or.inl rfl
  · exact Or.inr ⟨_, rfl⟩

/-- The flags with which `setattr` truncates. -/
abbrev truncFlags : Flags := Libc.O_RDWR ||| Libc.O_TRUNC

lemma checkOpenAccess_truncFlags (r : NodeRow) :
    checkOpenAccess r truncFlags = requireAccessTo r (Access.R ||| Access.W) := rfl

/-- The caller may truncate a node with this row. -/
def MayEmpty (s : Filesystem) (row : NodesRow) : Prop :=
  row.kind ≠ .dir ∧ Allows s row.read (Access.R ||| Access.W)

lemma open_refused (clock : Clock) (htree : s.conn.Tree) (hi : resolveToInode s.conn path = .ok i)
    (ht : RowIs s i row t) (hnot : ¬ MayEmpty s row) : ∃ e, open_ clock path truncFlags t = ⟨err e, t, []⟩ := by
  unfold open_
  rw [resolve_bind (ht.resolve htree hi), getNode_bind ht.get]
  by_cases hdir : row.kind = .dir
  · exact ⟨_, require_bind_error (not_not.mpr hdir)⟩
  · rw [require_bind (show row.read.kind ≠ .dir from hdir), checkOpenAccess_truncFlags]
    rcases requireAccess_cases row.mode row.uid row.gid t.callerUid t.callerGid
      (Access.R ||| Access.W) with hok | ⟨e, he⟩
    · exact absurd ⟨hdir, ht.allows.mp (requireAccess_eq_ok.mp hok)⟩ hnot
    · exact ⟨e, ask_bind_error he⟩

lemma mayTruncate_of_rowIs (htree : s.conn.Tree) (hw : s.readonly = false)
    (hi : resolveToInode s.conn path = .ok i) (ht : RowIs s i row t) (hmay : MayEmpty s row) :
    MayTruncate t path truncFlags i row.read :=
  ⟨ht.resolve htree hi, ht.get, hmay.1, requireAccess_eq_ok.mpr (ht.allows.mpr hmay.2), by decide,
    ht.readonly.trans hw⟩

/-- Where chunks have no size, a file that is not empty cannot be truncated. -/
lemma open_panics (h : MayTruncate t path truncFlags i row.read) (hsize : row.size ≠ 0)
    (hchunk : t.chunkSize = 0) : open_ clock path truncFlags t = ⟨.error .panic, t, []⟩ := by
  rw [open_run h, hchunk]
  refine Prog.bind_apply_error ((tx_apply h.writable).trans ?_)
  have hbody : emptyFile clock i row.read.size 0 (disk t) = .error .panic := emptyFile_panics hsize
  rw [Prog.transaction, hbody]

/-- The row once the file is empty. -/
def emptied (clock : Clock) (row : NodesRow) : NodesRow :=
  { row with size := 0, mtimeNs := clock.now, ctimeNs := clock.now }

lemma emptyFile_run (clock : Clock) (ht : RowIs s i row t) (h : row.size = 0 ∨ s.chunkSize ≠ 0) :
    ∃ d, emptyFile clock i row.read.size t.chunkSize t.conn = .ok (⟨⟩, d) ∧
      RowIs s i (emptied clock row) { t with conn := d } := by
  obtain ⟨d, hd, hchanges⟩ : ∃ d,
      Blobs.truncateTo i 0 row.read.size t.chunkSize t.conn = .ok (⟨⟩, d) ∧
        Blobs.ChangesChunks t.conn d i := by
    by_cases hsize : row.size = 0
    · have hread : row.read.size = 0 := hsize
      rw [hread]
      exact ⟨t.conn, rfl, .refl⟩
    · obtain ⟨d, hd⟩ := truncateTo_empties (i := i) (d := t.conn) hsize
        (ht.chunkSize ▸ h.resolve_left hsize)
      exact ⟨d, hd, Blobs.truncateTo_changes hd⟩
  refine ⟨_, Body.bind_eq_ok.mpr ⟨⟨⟩, d, hd, update_eq_ok.mpr rfl⟩, ?_⟩
  have hrow : RowIs s i row { t with conn := d } :=
    ht.congr hchanges.nodes hchanges.entries ⟨rfl, rfl, rfl, rfl⟩
  exact hrow.update rfl ⟨rfl, rfl, rfl, rfl⟩ rfl rfl

lemma open_empties (clock : Clock) (htree : s.conn.Tree) (hw : s.readonly = false)
    (hi : resolveToInode s.conn path = .ok i) (ht : RowIs s i row t) (hmay : MayEmpty s row)
    (hfits : row.size = 0 ∨ s.chunkSize ≠ 0) : ∃ f t' l,
      open_ clock path truncFlags t = ⟨.ok f.fd, t', l⟩ ∧ RowIs s i (emptied clock row) t' ∧
        t'.fdtable.entries.find? f.fd = some f ∧ f.inode = i := by
  have htrunc := mayTruncate_of_rowIs htree hw hi ht hmay
  obtain ⟨d, hempty, hrow⟩ := emptyFile_run clock ht hfits
  have hrun := (open_run htrunc).trans (tx_bind (a := ⟨⟩) htrunc.writable hempty)
  refine ⟨⟨t.fdtable.nextFd, i, truncFlags, t.callerUid, t.callerGid, 0⟩, _, _, hrun, ?_, ?_, rfl⟩
  · exact hrow.congr rfl rfl ⟨rfl, rfl, rfl, rfl⟩
  · exact (KeyTable.find?_put _ _ _).trans (if_pos rfl)

/-- A node that has a name is not collected when its last descriptor is closed. -/
lemma attempt_closeFd {fd : ℕ} {f : FdEntry} {r : NodeRow} (hf : t.fdtable.entries.find? fd = some f)
    (hr : Nodes.get t.conn f.inode = .ok r) (hparent : ∀ e ∈ t.conn.entries, e.parent ≠ f.inode)
    (hnamed : ∃ e ∈ t.conn.entries, e.inode = f.inode) :
    ∃ x, attempt (closeFd fd) t = ⟨.ok x, closed t f, []⟩ := by
  have hcollect : closeFd fd t = collect r.nlink f.inode (closed t f) := by
    rw [closeFd_open hf]
    exact getNode_bind (s := closed t f) hr
  have hfails : ∃ e, (closed t f).conn.deleteNode f.inode = .error e := by
    cases hd : (closed t f).conn.deleteNode f.inode with
    | error e => exact ⟨e, rfl⟩
    | ok d =>
      obtain ⟨x, hx, hxi⟩ := hnamed
      have hnode : t.conn.hasNode f.inode = true := Db.hasNode_of_kind (Nodes.kind_of_get hr)
      have hcount := ((Db.deleteNode_eq_ok hnode).mp hd).1
      exact absurd hxi (Db.deleteNode_count_iff.mp hcount x hx (hparent x hx))
  unfold attempt
  rw [hcollect]
  by_cases hz : r.nlink = 0 ∧ (closed t f).fdtable.openCount f.inode = 0
  · obtain ⟨e, he⟩ := collect_failed hz.1 hz.2 (Or.inr hfails)
    rw [he]
    exact ⟨_, rfl⟩
  · rw [collect_kept hz]
    exact ⟨_, rfl⟩

lemma applySize_zero : Adapter.applySize clock path (some 0) = (do
    let fd ← open_ clock path truncFlags
    let _ ← attempt (closeFd fd)
    return ⟨⟩) := rfl

lemma applySize_goes (clock : Clock) (htree : s.conn.Tree) (hw : s.readonly = false)
    (hi : resolveToInode s.conn path = .ok i) (ht : RowIs s i row t) (hmay : MayEmpty s row)
    (hfits : row.size = 0 ∨ s.chunkSize ≠ 0) : ∃ t' l,
      Adapter.applySize clock path (some 0) t = ⟨.ok ⟨⟩, t', l⟩ ∧ RowIs s i (emptied clock row) t' := by
  obtain ⟨f, t', l, hopen, hrow, hfind, rfl⟩ := open_empties clock htree hw hi ht hmay hfits
  have hnotDir : s.conn.kind f.inode ≠ some .dir := by
    rw [ht.kind]
    exact fun h => hmay.1 (Option.some.inj h)
  have hnamed : ∃ e ∈ t'.conn.entries, e.inode = f.inode := by
    rw [hrow.entries]
    refine (resolveToInode_named hi).resolve_left fun hroot => hnotDir ?_
    rw [hroot]
    exact htree.rootDir
  have hparent : ∀ e ∈ t'.conn.entries, e.parent ≠ f.inode := by
    intro e he
    rw [hrow.entries] at he
    exact htree.parent_ne_of_notDir hnotDir he
  obtain ⟨x, hx⟩ := attempt_closeFd hfind hrow.get hparent hnamed
  refine ⟨closed t' f, l ++ ([] ++ []), ?_, hrow.congr rfl rfl ⟨rfl, rfl, rfl, rfl⟩⟩
  rw [applySize_zero, Prog.bind_apply_ok hopen, Prog.bind_apply_ok hx]
  rfl

lemma applySize_refused (clock : Clock) (htree : s.conn.Tree) (hi : resolveToInode s.conn path = .ok i)
    (ht : RowIs s i row t) {n : ℕ} (hnot : ¬ (n = 0 ∧ MayEmpty s row)) :
    ∃ e, Adapter.applySize clock path (some n) t = ⟨err e, t, []⟩ := by
  by_cases hn : n = 0
  · obtain ⟨e, he⟩ := open_refused clock htree hi ht fun hmay => hnot ⟨hn, hmay⟩
    rw [hn, applySize_zero]
    exact ⟨e, Prog.bind_apply_error he⟩
  · refine ⟨.invalidArgument [.lit "non-zero truncate not supported in tier-6 FUSE adapter"], ?_⟩
    dsimp only [Adapter.applySize]
    rw [if_neg hn]
    rfl

lemma applySize_panics (htree : s.conn.Tree) (hw : s.readonly = false)
    (hi : resolveToInode s.conn path = .ok i) (ht : RowIs s i row t) (hmay : MayEmpty s row)
    (hsize : row.size ≠ 0) (hchunk : s.chunkSize = 0) :
    Adapter.applySize clock path (some 0) t = ⟨.error .panic, t, []⟩ := by
  rw [applySize_zero]
  exact Prog.bind_apply_error (open_panics (mayTruncate_of_rowIs htree hw hi ht hmay) hsize
    (ht.chunkSize.trans hchunk))

end Truncation

/-! ### The parts of a request -/

namespace Changes

variable (r : Readings) (c : Changes) (row : NodesRow)

/-- The row with the mode that the request asks for. -/
def withMode : NodesRow :=
  match c.mode with
  | some m => { row with mode := m &&& 0o7777, ctimeNs := r.chmod.now }
  | none => row

def withOwner : NodesRow :=
  if c.uid.isSome ∨ c.gid.isSome then
    { row with uid := c.uid.getD row.uid, gid := c.gid.getD row.gid, ctimeNs := r.chown.now }
  else row

def withTimes : NodesRow :=
  if c.atime.isSome ∨ c.mtime.isSome then
    { row with
      atimeNs := (c.atime.map (toNs r.atime)).getD row.atimeNs
      mtimeNs := (c.mtime.map (toNs r.mtime)).getD row.mtimeNs
      ctimeNs := r.utimes.now }
  else row

def withSize : NodesRow := if c.size.isSome then emptied r.open_ row else row

/-- The row after the first parts of the request. -/
def afterOwner : NodesRow := c.withOwner r (c.withMode r row)

def afterTimes : NodesRow := c.withTimes r (c.afterOwner r row)

def afterSize : NodesRow := c.withSize r (c.afterTimes r row)

variable (s : Filesystem)

/-- The caller may set the mode of a node with this row, if the request asks for that. -/
def MayMode : Prop := c.mode.isSome → IsOwner s row.read

def MayOwner : Prop := MayGive s row.read c.uid c.gid

def MayTimes : Prop := c.atime.isSome ∨ c.mtime.isSome → IsOwner s row.read

def MaySize : Prop := ∀ n, c.size = some n → n = 0 ∧ MayEmpty s row

/-- Cutting off the file divides by the size of its chunks, which is zero. -/
def Stuck : Prop := c.size.isSome ∧ row.size ≠ 0 ∧ s.chunkSize = 0

end Changes

section Parts
variable {s : Filesystem} {i : ℕ} {row : NodesRow} {path : Str} {r : Readings} {c : Changes}

lemma withMode_sets (htree : s.conn.Tree) (hw : s.readonly = false)
    (hi : resolveToInode s.conn path = .ok i) :
    Sets s i row (match c.mode with
      | some m => Filesystem.chmod r.chmod path m
      | none => pure ⟨⟩) (c.MayMode row s) (c.withMode r row) := by
  unfold Changes.MayMode Changes.withMode
  cases c.mode with
  | none => exact .skip fun h => nomatch h
  | some m =>
    intro t ht
    obtain ⟨hgoes, hrefused⟩ := chmod_sets htree hw hi r.chmod m t ht
    exact ⟨fun hmay => hgoes (hmay rfl), fun hnot => hrefused fun h => hnot fun _ => h⟩

lemma withOwner_sets (htree : s.conn.Tree) (hw : s.readonly = false)
    (hi : resolveToInode s.conn path = .ok i) :
    Sets s i row (if c.uid.isSome ∨ c.gid.isSome then
      Filesystem.chown r.chown path c.uid c.gid else pure ⟨⟩) (c.MayOwner row s) (c.withOwner r row) := by
  unfold Changes.MayOwner Changes.withOwner
  by_cases h : c.uid.isSome ∨ c.gid.isSome
  · rw [if_pos h, if_pos h]
    exact chown_sets htree hw hi r.chown c.uid c.gid
  · rw [if_neg h, if_neg h]
    rw [not_or, Option.not_isSome_iff_eq_none, Option.not_isSome_iff_eq_none] at h
    refine .skip ⟨?_, ?_⟩
    · rw [h.1]
      exact fun hany => nomatch hany.1
    · rw [h.2]
      exact fun hsome => nomatch hsome.1

lemma withTimes_sets (htree : s.conn.Tree) (hw : s.readonly = false)
    (hi : resolveToInode s.conn path = .ok i) :
    Sets s i row (if c.atime.isSome ∨ c.mtime.isSome then
      Filesystem.utimes r.utimes path (c.atime.map (toNs r.atime)) (c.mtime.map (toNs r.mtime))
      else pure ⟨⟩) (c.MayTimes row s) (c.withTimes r row) := by
  unfold Changes.MayTimes Changes.withTimes
  by_cases h : c.atime.isSome ∨ c.mtime.isSome
  · rw [if_pos h, if_pos h]
    intro t ht
    obtain ⟨hgoes, hrefused⟩ := utimes_sets htree hw hi r.utimes (c.atime.map (toNs r.atime))
      (c.mtime.map (toNs r.mtime)) t ht
    exact ⟨fun hmay => hgoes (hmay h), fun hnot => hrefused fun howner => hnot fun _ => howner⟩
  · rw [if_neg h, if_neg h]
    exact .skip fun hsome => absurd hsome h

/-- A part of a request, and what comes after it. -/
lemma Sets.bind_rule {α : Type} {p : Action PUnit} {f : PUnit → Action α} {may : Prop}
    {row' : NodesRow} {t : Filesystem} {P : Except Halt α → Filesystem → Prop}
    (h : Sets s i row p may row') (ht : RowIs s i row t)
    (hrefused : ¬ may → ∀ e, P (err e) t)
    (hgoes : may → ∀ t', RowIs s i row' t' → t'.conn.blobs = t.conn.blobs →
      P (f ⟨⟩ t').result (f ⟨⟩ t').state) :
    P ((p >>= f) t).result ((p >>= f) t).state := by
  obtain ⟨hok, herr⟩ := h t ht
  by_cases hmay : may
  · obtain ⟨t', l, hrun, hrow, hblobs⟩ := hok hmay
    rw [Prog.bind_apply_ok hrun]
    exact hgoes hmay t' hrow hblobs
  · obtain ⟨e, hrun⟩ := herr hmay
    rw [Prog.bind_apply_error hrun]
    exact hrefused hmay e

end Parts

/-- How the operations of a request end, if the row of the node was `row` before. -/
inductive Ends (s : Filesystem) (i : ℕ) (r : Readings) (c : Changes) (row : NodesRow) :
    Except Halt Stat → Filesystem → Prop
  | noMode {e : Error} {t : Filesystem} : ¬ c.MayMode row s →
      RowIs s i row t → t.conn.blobs = s.conn.blobs → Ends s i r c row (err e) t
  | noOwner {e : Error} {t : Filesystem} : c.MayMode row s → ¬ c.MayOwner (c.withMode r row) s →
      RowIs s i (c.withMode r row) t → t.conn.blobs = s.conn.blobs → Ends s i r c row (err e) t
  | noTimes {e : Error} {t : Filesystem} : c.MayMode row s → c.MayOwner (c.withMode r row) s →
      ¬ c.MayTimes (c.afterOwner r row) s →
      RowIs s i (c.afterOwner r row) t → t.conn.blobs = s.conn.blobs → Ends s i r c row (err e) t
  | noSize {e : Error} {t : Filesystem} : c.MayMode row s → c.MayOwner (c.withMode r row) s →
      c.MayTimes (c.afterOwner r row) s → ¬ c.MaySize (c.afterTimes r row) s →
      RowIs s i (c.afterTimes r row) t → t.conn.blobs = s.conn.blobs → Ends s i r c row (err e) t
  | panics {t : Filesystem} : c.MayMode row s → c.MayOwner (c.withMode r row) s →
      c.MayTimes (c.afterOwner r row) s → c.MaySize (c.afterTimes r row) s →
      c.Stuck (c.afterTimes r row) s → Ends s i r c row (.error .panic) t
  | done {t : Filesystem} : c.MayMode row s → c.MayOwner (c.withMode r row) s →
      c.MayTimes (c.afterOwner r row) s → c.MaySize (c.afterTimes r row) s →
      ¬ c.Stuck (c.afterTimes r row) s → RowIs s i (c.afterSize r row) t →
      Ends s i r c row (.ok (c.afterSize r row).read.stat) t

/-- The end of a request that has come to the size. -/
lemma applySize_ends {s t : Filesystem} {i : ℕ} {path : Str} {row : NodesRow} {r : Readings}
    {c : Changes} (htree : s.conn.Tree) (hw : s.readonly = false)
    (hi : resolveToInode s.conn path = .ok i) (hmode : c.MayMode row s)
    (howner : c.MayOwner (c.withMode r row) s) (htimes : c.MayTimes (c.afterOwner r row) s)
    (ht : RowIs s i (c.afterTimes r row) t) (hblobs : t.conn.blobs = s.conn.blobs) :
    Ends s i r c row ((Adapter.applySize r.open_ path c.size >>= fun _ => stat path) t).result
      ((Adapter.applySize r.open_ path c.size >>= fun _ => stat path) t).state := by
  have hstat : ∀ {t : Filesystem}, RowIs s i (c.afterSize r row) t →
      stat path t = ⟨.ok (c.afterSize r row).read.stat, t, []⟩ :=
    fun h => stat_run (h.resolve htree hi) h.get
  cases hsize : c.size with
  | none =>
    have h : RowIs s i (c.afterSize r row) t := by
      unfold Changes.afterSize Changes.withSize
      rw [hsize]
      exact ht
    have hrun : Adapter.applySize r.open_ path none t = ⟨.ok ⟨⟩, t, []⟩ := rfl
    rw [Prog.bind_apply_ok hrun, hstat h]
    refine .done hmode howner htimes (fun n hn => ?_) (fun hstuck => ?_) h
    · rw [hsize] at hn
      cases hn
    · have hsome := hstuck.1
      rw [hsize] at hsome
      cases hsome
  | some n =>
    by_cases hmay : n = 0 ∧ MayEmpty s (c.afterTimes r row)
    · obtain ⟨rfl, hempty⟩ := hmay
      have hmaySize : c.MaySize (c.afterTimes r row) s := by
        intro n hn
        rw [hsize] at hn
        cases hn
        exact ⟨rfl, hempty⟩
      by_cases hstuck : c.Stuck (c.afterTimes r row) s
      · rw [Prog.bind_apply_error (applySize_panics htree hw hi ht hempty hstuck.2.1 hstuck.2.2)]
        exact .panics hmode howner htimes hmaySize hstuck
      · have hfits : (c.afterTimes r row).size = 0 ∨ s.chunkSize ≠ 0 := by
          by_contra hnot
          rw [not_or, not_not] at hnot
          exact hstuck ⟨by rw [hsize]; rfl, hnot⟩
        obtain ⟨t', l, hrun, h⟩ := applySize_goes r.open_ htree hw hi ht hempty hfits
        replace h : RowIs s i (c.afterSize r row) t' := by
          unfold Changes.afterSize Changes.withSize
          rw [hsize]
          exact h
        rw [Prog.bind_apply_ok hrun, hstat h]
        exact .done hmode howner htimes hmaySize hstuck h
    · obtain ⟨e, hrun⟩ := applySize_refused r.open_ htree hi ht hmay
      rw [Prog.bind_apply_error hrun]
      exact .noSize hmode howner htimes (fun hall => hmay (hall n hsize)) ht hblobs

lemma applyChanges_ends {s : Filesystem} {i : ℕ} {path : Str} {row : NodesRow} (htree : s.conn.Tree)
    (hw : s.readonly = false) (hi : resolveToInode s.conn path = .ok i)
    (hrow : s.conn.nodes.find? i = some row) (r : Readings) (c : Changes) :
    Ends s i r c row (Adapter.applyChanges r path c s).result
      (Adapter.applyChanges r path c s).state := by
  refine (withMode_sets htree hw hi).bind_rule (.refl hrow)
    (fun hnot e => .noMode hnot (.refl hrow) rfl) fun hmode t₁ h₁ hblobs₁ => ?_
  refine (withOwner_sets htree hw hi).bind_rule h₁ (fun hnot e => .noOwner hmode hnot h₁ hblobs₁)
    fun howner t₂ h₂ hblobs₂ => ?_
  replace hblobs₂ := hblobs₂.trans hblobs₁
  refine (withTimes_sets htree hw hi).bind_rule h₂
    (fun hnot e => .noTimes hmode howner hnot h₂ hblobs₂) fun htimes t₃ h₃ hblobs₃ => ?_
  exact applySize_ends htree hw hi hmode howner htimes h₃ (hblobs₃.trans hblobs₂)

/-! ### Requests that cannot start -/

section Start
variable {s : Filesystem} {path : Str} {α : Type}

/-- An operation that does not return has been refused. -/
lemma refused_of_not_returns {labels : Label → Prop} {p : Action α}
    (h : Prog.RefusesOr p s (Settles s labels)) (hnot : ¬ Prog.Returns p s) :
    ∃ e, p s = ⟨.error e, s, []⟩ :=
  h.resolve_right fun hs => hnot hs.returns

/-- The path leads to no node, or nothing may be written. -/
def CannotStart (s : Filesystem) (path : Str) : Prop :=
  s.readonly = false → ∀ i, resolveToInode s.conn path ≠ .ok i

/-- `p` leaves the state alone, and does not return if something is `asked` for. -/
def Idles (s : Filesystem) (asked : Prop) (p : Action α) : Prop :=
  (p s).state = s ∧ (asked → ¬ Prog.Returns p s)

lemma Idles.of_reads {p : Action α} (h : Reads p) : Idles s False p := ⟨(h s).1, False.elim⟩

lemma Idles.of_settles {labels : Label → Prop} {p : Action α}
    (h : Prog.RefusesOr p s (Settles s labels)) (hnot : ¬ Prog.Returns p s) : Idles s True p := by
  obtain ⟨e, he⟩ := refused_of_not_returns h hnot
  refine ⟨?_, fun _ => hnot⟩
  rw [he]

lemma Idles.bind {β : Type} {asked asked' : Prop} {p : Action β} {f : β → Action α}
    (hp : Idles s asked p) (hf : ∀ b, Idles s asked' (f b)) : Idles s (asked ∨ asked') (p >>= f) := by
  obtain ⟨hstate, hasked⟩ := hp
  cases hrun : p s with
  | mk x t l =>
    rw [hrun] at hstate
    obtain rfl : t = s := hstate
    cases x with
    | error e =>
      have hbind := Prog.bind_apply_error (f := f) hrun
      exact ⟨by rw [hbind], fun _ => Prog.not_returns_of_error hbind⟩
    | ok b =>
      have hbind := Prog.bind_apply_ok (f := f) hrun
      obtain ⟨hstate', hasked'⟩ := hf b
      refine ⟨by rw [hbind]; exact hstate', fun h hreturns => ?_⟩
      rcases h with h | h
      · exact hasked h ⟨b, by rw [hrun]⟩
      · obtain ⟨a, ha⟩ := hreturns
        rw [hbind] at ha
        exact hasked' h ⟨a, ha⟩

variable (s) in
/-- A part of a request, which is skipped unless it is asked for. -/
lemma Idles.part {p p' : Action PUnit} {asked : Prop} [Decidable asked] (hp : asked → Idles s True p)
    (hp' : p' = if asked then p else pure ⟨⟩) : Idles s asked p' := by
  rw [hp']
  split_ifs with h
  · exact ⟨(hp h).1, fun _ => (hp h).2 trivial⟩
  · exact ⟨rfl, fun h' => absurd h' h⟩

lemma applyChanges_cannotStart (h : CannotStart s path) (r : Readings) (c : Changes) :
    Idles s (c.mode.isSome ∨ (c.uid.isSome ∨ c.gid.isSome) ∨ (c.atime.isSome ∨ c.mtime.isSome) ∨
      c.size.isSome ∨ False) (Adapter.applyChanges r path c) := by
  have hnot : ∀ {P : ℕ → NodeRow → Prop},
      ¬ (s.readonly = false ∧ ∃ i row, Finds s path i row ∧ P i row) := by
    rintro P ⟨hw, i, row, hfinds, -⟩
    exact h hw i hfinds.1
  refine .bind ?_ fun _ => .bind ?_ fun _ => .bind ?_ fun _ => .bind ?_ fun _ =>
    .of_reads (stat_reads path)
  · cases c.mode with
    | none => exact ⟨rfl, fun hsome => nomatch hsome⟩
    | some m =>
      obtain ⟨hstate, hreturns⟩ := Idles.of_settles (chmod_settles s r.chmod path m)
        fun hreturns => hnot (chmod_returns.mp hreturns)
      exact ⟨hstate, fun _ => hreturns trivial⟩
  · exact .part s (fun _ => .of_settles (chown_settles s r.chown path c.uid c.gid)
      fun hreturns => hnot (chown_returns.mp hreturns)) rfl
  · exact .part s (fun _ => .of_settles (utimes_settles s r.utimes path _ _)
      fun hreturns => hnot (utimes_returns.mp hreturns)) rfl
  · cases c.size with
    | none => exact ⟨rfl, fun hsome => nomatch hsome⟩
    | some n =>
      by_cases hn : n = 0
      · have hopen : ∃ e, open_ r.open_ path truncFlags s = ⟨.error e, s, []⟩ := by
          refine refused_of_not_returns (open_settles s r.open_ path truncFlags) fun hreturns => ?_
          obtain ⟨i, row, hmay, -⟩ := open_returns.mp hreturns
          exact h (hmay.writable (by decide)) i hmay.resolved
        obtain ⟨e, he⟩ := hopen
        rw [hn, applySize_zero]
        have hrun := Prog.bind_apply_error (f := fun fd => attempt (closeFd fd) >>= fun _ =>
          (pure ⟨⟩ : Action PUnit)) he
        exact ⟨congrArg _ hrun, fun _ => Prog.not_returns_of_error hrun⟩
      · have hrun : Adapter.applySize r.open_ path (some n) s = ⟨err (.invalidArgument
            [.lit "non-zero truncate not supported in tier-6 FUSE adapter"]), s, []⟩ := by
          dsimp only [Adapter.applySize]
          rw [if_neg hn]
          rfl
        exact ⟨congrArg _ hrun, fun _ => Prog.not_returns_of_error hrun⟩

end Start

/-! ### The request -/

section Request
variable {s : Filesystem} {req : Request} {r : Readings} {c : Changes} {ino : ℕ} {path : Str}

lemma pathOfInode_run {β : Type} {f : Option Str → Action β} {o : Option Str}
    (h : (pathOfInode ino s).result = .ok o) : (pathOfInode ino >>= f) s = f o s := by
  have hreads := pathOfInode_reads ino s
  cases hrun : pathOfInode ino s with
  | mk x t l =>
    rw [hrun] at h hreads
    obtain rfl : x = .ok o := h
    obtain ⟨rfl, rfl⟩ : t = s ∧ l = [] := hreads
    rw [Prog.bind_apply_ok hrun]
    rfl

lemma setattr_unnamed (h : (pathOfInode ino s).result = .ok none) :
    Adapter.setattr r req ino c s = ⟨.ok (.error Libc.ENOENT), s, []⟩ :=
  pathOfInode_run h

/-- What the adapter answers. -/
def answerOf : Except Halt Stat → Except Halt (Except Errno ReplyAttr)
  | .ok st => .ok (.ok ⟨TTL, statToAttr st⟩)
  | .error (.error e) => .ok (.error e.errno)
  | .error halt => .error halt

lemma answerOf_eq_ok {x : Except Halt Stat} {reply : ReplyAttr} (h : answerOf x = .ok (.ok reply)) :
    ∃ st, x = .ok st := by
  cases x with
  | ok st => exact ⟨st, rfl⟩
  | error halt => cases halt <;> cases h

lemma setattr_named (r : Readings) (req : Request) (c : Changes)
    (h : (pathOfInode ino s).result = .ok (some path)) :
    (Adapter.setattr r req ino c s).result
      = answerOf (Adapter.applyChanges r path c (req.view s)).result ∧
    (Adapter.setattr r req ino c s).state
      = { (Adapter.applyChanges r path c (req.view s)).state with
          callerUid := s.callerUid
          callerGid := s.callerGid } := by
  unfold Adapter.setattr
  rw [pathOfInode_run h]
  dsimp only
  have hrun : ∀ o, Adapter.applyChanges r path c { s with callerUid := req.uid, callerGid := req.gid } = o →
      asUserOf req (Adapter.applyChanges r path c) s = attempt (fun _ =>
        { o with state := { o.state with callerUid := s.callerUid, callerGid := s.callerGid } }) s := by
    rintro o rfl
    rfl
  cases ho : Adapter.applyChanges r path c (req.view s) with
  | mk x t l =>
    specialize hrun _ ho
    cases x with
    | ok st =>
      rw [Prog.bind_apply_ok hrun]
      exact ⟨rfl, rfl⟩
    | error halt =>
      cases halt with
      | error e =>
        rw [Prog.bind_apply_ok hrun]
        exact ⟨rfl, rfl⟩
      | panic =>
        rw [Prog.bind_apply_error hrun]
        exact ⟨rfl, rfl⟩
      | diverge =>
        rw [Prog.bind_apply_error hrun]
        exact ⟨rfl, rfl⟩

lemma pathOfInode_cases (htree : s.conn.Tree) (ino : ℕ) :
    (ino ≠ ROOT_INODE ∧ (∀ e ∈ s.conn.entries, e.inode ≠ ino) ∧
      (pathOfInode ino s).result = .ok none) ∨
    ∃ l, (ino = ROOT_INODE ∨ ∃ e ∈ s.conn.entries, e.inode = ino) ∧
      s.conn.Leads ROOT_INODE l ino ∧ (pathOfInode ino s).result = .ok (some (joinPath l)) := by
  rw [pathOfInode_eq]
  exact pathOfInodeBy_cases htree (picks_ofInode s.conn) ino

/-- The paths that the adapter works with lead to their inodes, unless they are too long. -/
lemma resolve_of_pathOfInode (h : Reachable s) (hpath : (pathOfInode ino s).result = .ok (some path))
    (hlen : path.len ≤ PATH_MAX) : resolveToInode s.conn path = .ok ino := by
  have htree : s.conn.Tree := (rooted_runsTo h).tree
  rcases pathOfInode_cases htree ino with ⟨-, -, hnone⟩ | ⟨l, -, hl, hsome⟩
  · rw [hnone] at hpath
    cases hpath
  · obtain rfl := Option.some.inj (Except.ok.inj (hsome.symm.trans hpath))
    exact resolveToInode_joinPath htree (validNames_runsTo h) hl hlen

/-- A request finds no path, or cannot start, or ends in one of the ways above. -/
lemma setattr_cases (h : Reachable s) (r : Readings) (req : Request) (ino : ℕ) (c : Changes) :
    ((pathOfInode ino s).result = .ok none ∧
      Adapter.setattr r req ino c s = ⟨.ok (.error Libc.ENOENT), s, []⟩) ∨
    (∃ path row, (pathOfInode ino s).result = .ok (some path) ∧
      s.conn.nodes.find? ino = some row ∧ ¬ (path.len ≤ PATH_MAX ∧ s.readonly = false) ∧
      CannotStart (req.view s) path) ∨
    ∃ path row x t, (pathOfInode ino s).result = .ok (some path) ∧ path.len ≤ PATH_MAX ∧
      s.readonly = false ∧ s.conn.nodes.find? ino = some row ∧ Ends (req.view s) ino r c row x t ∧
      (Adapter.setattr r req ino c s).result = answerOf x ∧
      (Adapter.setattr r req ino c s).state.conn = t.conn := by
  have htree : s.conn.Tree := (rooted_runsTo h).tree
  rcases pathOfInode_cases htree ino with ⟨-, -, hpath⟩ | ⟨l, hnamed, -, hpath⟩
  · exact Or.inl ⟨hpath, setattr_unnamed hpath⟩
  · right
    generalize joinPath l = path at hpath
    have hnode : s.conn.hasNode ino = true := by
      rcases hnamed with rfl | ⟨e, he, rfl⟩
      · exact Db.hasNode_of_kind htree.rootDir
      · exact htree.child e he
    obtain ⟨row, hrow⟩ := Option.isSome_iff_exists.mp hnode
    by_cases hstart : path.len ≤ PATH_MAX ∧ s.readonly = false
    · obtain ⟨hlen, hw⟩ := hstart
      obtain ⟨hresult, hstate⟩ := setattr_named r req c hpath
      have hi : resolveToInode s.conn path = .ok ino := resolve_of_pathOfInode h hpath hlen
      refine Or.inr ⟨path, row, _, _, hpath, hlen, hw, hrow,
        applyChanges_ends (s := req.view s) htree hw hi hrow r c, hresult, ?_⟩
      rw [hstate]
    · refine Or.inl ⟨path, row, hpath, hrow, hstart, fun hw i hi => ?_⟩
      obtain ⟨l, hparse, -⟩ := (resolveToInode_eq_ok htree).mp hi
      refine hstart ⟨?_, hw⟩
      by_contra hlen
      have hne : path ≠ [] := by
        rintro rfl
        exact hlen (Nat.zero_le _)
      rw [parsePath_tooLong hne hlen] at hparse
      cases hparse

end Request

end Fuse

end SqliteFs

import SqliteFs.Fuse.Setattr

/-!
# Requests that are done in part

The parts of a request are committed one by one, in a fixed order, up to the first that is refused.
So a request is answered with attributes only if all of it has been done, but one that is answered
with an error may have been done in part.
-/

namespace SqliteFs

open Txn

namespace Fuse

open Filesystem

/-! ### What is asked for -/

/-- No row of `nodes` or of `blobs` differs. -/
structure SameRows (d d' : Db) : Prop where
  nodes : ∀ i, d'.nodes.find? i = d.nodes.find? i
  blobs : ∀ k, d'.blobs.find? k = d.blobs.find? k

lemma SameRows.refl {d : Db} : SameRows d d := ⟨fun _ => rfl, fun _ => rfl⟩

/-- The row shows the changes that the request asks for, but for given times. Of a mode that is the
permission bits; a time that is to be set to now is a clock reading of the request. -/
structure Changes.ShownIn (c : Changes) (r : Readings) (row : NodesRow) : Prop where
  mode : ∀ m, c.mode = some m → row.mode = m &&& 0o7777
  uid : ∀ u, c.uid = some u → row.uid = u
  gid : ∀ g, c.gid = some g → row.gid = g
  size : ∀ n, c.size = some n → row.size = n
  atimeNow : c.atime = some .now → row.atimeNs = r.atime
  mtimeNow : c.mtime = some .now → row.mtimeNs = r.mtime ∨ row.mtimeNs = r.open_.now

/-- The row shows every change that the request asks for. -/
structure Changes.AppliedTo (c : Changes) (r : Readings) (row : NodesRow) : Prop extends
    c.ShownIn r row where
  atime : ∀ t, c.atime = some (.specificTime t) → row.atimeNs = t
  mtime : ∀ t, c.mtime = some (.specificTime t) → row.mtimeNs = t

/-- An error leaves everything as it was; a reply tells that everything has been done. -/
structure AllOrNothing (s : Filesystem) (r : Readings) (req : Request) (ino : ℕ) (c : Changes) :
    Prop where
  nothing : ∀ e, (Adapter.setattr r req ino c s).result = .ok (.error e) →
    SameRows s.conn (Adapter.setattr r req ino c s).state.conn
  all : ∀ reply, (Adapter.setattr r req ino c s).result = .ok (.ok reply) → ∃ row,
    (Adapter.setattr r req ino c s).state.conn.nodes.find? ino = some row ∧ c.AppliedTo r row

/-- The row that a refused request leaves: as the parts before the one that is refused have made
it. -/
inductive Changes.Leaves (c : Changes) (r : Readings) (row : NodesRow) (s : Filesystem) :
    NodesRow → Prop
  | noMode : ¬ c.MayMode row s → Leaves c r row s row
  | noOwner : c.MayMode row s → ¬ c.MayOwner (c.withMode r row) s →
      Leaves c r row s (c.withMode r row)
  | noTimes : c.MayMode row s → c.MayOwner (c.withMode r row) s →
      ¬ c.MayTimes (c.afterOwner r row) s → Leaves c r row s (c.afterOwner r row)
  | noSize : c.MayMode row s → c.MayOwner (c.withMode r row) s →
      c.MayTimes (c.afterOwner r row) s → ¬ c.MaySize (c.afterTimes r row) s →
      Leaves c r row s (c.afterTimes r row)

/-! ### When it is done -/

/-- The times that the request gives can be stored, and are not overwritten by truncation. -/
structure Changes.TimesKept (c : Changes) (r : Readings) : Prop where
  atime : ∀ t, c.atime = some (.specificTime t) → 0 ≤ t ∧ t < 2 ^ 63
  mtime : ∀ t, c.mtime = some (.specificTime t) →
    if c.size.isSome then t = r.open_.now else 0 ≤ t ∧ t < 2 ^ 63

/-- An error leaves what the parts before the refused one have made of the row of the node, and no
other row of `nodes` or of `blobs` differs. A reply tells that everything has been done, as far as
given times can be stored and are not overwritten. -/
structure Stepwise (s : Filesystem) (r : Readings) (req : Request) (ino : ℕ) (c : Changes) :
    Prop where
  refused : ∀ e, (Adapter.setattr r req ino c s).result = .ok (.error e) →
    SameRows s.conn (Adapter.setattr r req ino c s).state.conn ∨ ∃ row row',
      s.conn.nodes.find? ino = some row ∧ c.Leaves r row (req.view s) row' ∧
      (Adapter.setattr r req ino c s).state.conn.nodes.find? ino = some row' ∧
      (∀ j ≠ ino, (Adapter.setattr r req ino c s).state.conn.nodes.find? j
        = s.conn.nodes.find? j) ∧
      ∀ k, (Adapter.setattr r req ino c s).state.conn.blobs.find? k = s.conn.blobs.find? k
  done : ∀ reply, (Adapter.setattr r req ino c s).result = .ok (.ok reply) → ∃ row,
    (Adapter.setattr r req ino c s).state.conn.nodes.find? ino = some row ∧ c.ShownIn r row ∧
      (∀ t, c.atime = some (.specificTime t) → 0 ≤ t → t < 2 ^ 63 → row.atimeNs = t) ∧
      ∀ t, c.mtime = some (.specificTime t) → c.size = none → 0 ≤ t → t < 2 ^ 63 → row.mtimeNs = t

/-- The first part of the request that the caller may not make comes before any part that changes
the row; and if there is none, then the times are kept, or the request gets stuck. -/
structure Changes.Whole (c : Changes) (r : Readings) (row : NodesRow) (s : Filesystem) : Prop where
  owner : c.MayMode row s → ¬ c.MayOwner (c.withMode r row) s → c.withMode r row = row
  times : c.MayMode row s → c.MayOwner (c.withMode r row) s →
    ¬ c.MayTimes (c.afterOwner r row) s → c.afterOwner r row = row
  size : c.MayMode row s → c.MayOwner (c.withMode r row) s → c.MayTimes (c.afterOwner r row) s →
    ¬ c.MaySize (c.afterTimes r row) s → c.afterTimes r row = row
  kept : c.MayMode row s → c.MayOwner (c.withMode r row) s → c.MayTimes (c.afterOwner r row) s →
    c.MaySize (c.afterTimes r row) s → ¬ c.Stuck (c.afterTimes r row) s → c.TimesKept r

/-! ### What the parts leave -/

lemma toNs_eq_iff (now : ℤ) {t : ℤ} : toNs now (.specificTime t) = t ↔ 0 ≤ t ∧ t < 2 ^ 63 := by
  have hrun : toNs now (.specificTime t)
      = if (0 : ℤ) ≤ t then U64.toI64 (t.toNat % 2 ^ 64) else 0 := rfl
  rw [hrun]
  unfold U64.toI64
  split_ifs <;> omega

namespace Changes

variable (r : Readings) (c : Changes) (row : NodesRow)

/-- What is left but for the ctime. -/
lemma withMode_eq : c.withMode r row = { row with
    mode := (c.mode.map (· &&& 0o7777)).getD row.mode
    ctimeNs := (c.withMode r row).ctimeNs } := by
  unfold withMode
  cases c.mode <;> rfl

lemma withOwner_eq : c.withOwner r row = { row with
    uid := c.uid.getD row.uid
    gid := c.gid.getD row.gid
    ctimeNs := (c.withOwner r row).ctimeNs } := by
  unfold withOwner
  split_ifs with h
  · rfl
  · rw [not_or, Option.not_isSome_iff_eq_none, Option.not_isSome_iff_eq_none] at h
    rw [h.1, h.2]
    rfl

lemma withTimes_eq : c.withTimes r row = { row with
    atimeNs := (c.atime.map (toNs r.atime)).getD row.atimeNs
    mtimeNs := (c.mtime.map (toNs r.mtime)).getD row.mtimeNs
    ctimeNs := (c.withTimes r row).ctimeNs } := by
  unfold withTimes
  split_ifs with h
  · rfl
  · rw [not_or, Option.not_isSome_iff_eq_none, Option.not_isSome_iff_eq_none] at h
    rw [h.1, h.2]
    rfl

lemma withSize_eq : c.withSize r row = { row with
    size := if c.size.isSome then 0 else row.size
    mtimeNs := if c.size.isSome then r.open_.now else row.mtimeNs
    ctimeNs := (c.withSize r row).ctimeNs } := by
  unfold withSize
  split_ifs <;> rfl

lemma afterSize_eq : c.afterSize r row = { row with
    mode := (c.mode.map (· &&& 0o7777)).getD row.mode
    uid := c.uid.getD row.uid
    gid := c.gid.getD row.gid
    size := if c.size.isSome then 0 else row.size
    atimeNs := (c.atime.map (toNs r.atime)).getD row.atimeNs
    mtimeNs := if c.size.isSome then r.open_.now
      else (c.mtime.map (toNs r.mtime)).getD row.mtimeNs
    ctimeNs := (c.afterSize r row).ctimeNs } := by
  unfold afterSize
  rw [withSize_eq]
  unfold afterTimes
  rw [withTimes_eq]
  unfold afterOwner
  rw [withOwner_eq, withMode_eq]

lemma shownIn_afterSize (hsize : ∀ n, c.size = some n → n = 0) : c.ShownIn r (c.afterSize r row) := by
  rw [afterSize_eq]
  refine ⟨fun m hm => ?_, fun u hu => ?_, fun g hg => ?_, fun n hn => ?_, fun hnow => ?_,
    fun hnow => ?_⟩
  · rw [hm]
    rfl
  · rw [hu]
    rfl
  · rw [hg]
    rfl
  · rw [hn, hsize n hn]
    rfl
  · rw [hnow]
    rfl
  · rw [hnow]
    dsimp only
    split_ifs
    · exact Or.inr rfl
    · exact Or.inl rfl

lemma atime_afterSize {t : ℤ} (h : c.atime = some (.specificTime t)) :
    (c.afterSize r row).atimeNs = t ↔ 0 ≤ t ∧ t < 2 ^ 63 := by
  rw [afterSize_eq, h]
  exact toNs_eq_iff r.atime

lemma mtime_afterSize {t : ℤ} (h : c.mtime = some (.specificTime t)) :
    (c.afterSize r row).mtimeNs = t ↔
      if c.size.isSome then t = r.open_.now else 0 ≤ t ∧ t < 2 ^ 63 := by
  rw [afterSize_eq, h]
  dsimp only
  split_ifs
  · exact eq_comm
  · exact toNs_eq_iff r.mtime

/-- Where every part has been done, all that can go wrong is a time. -/
lemma appliedTo_iff (hsize : ∀ n, c.size = some n → n = 0) :
    c.AppliedTo r (c.afterSize r row) ↔ c.TimesKept r := by
  constructor
  · intro h
    exact ⟨fun t ht => (atime_afterSize r c row ht).mp (h.atime t ht),
      fun t ht => (mtime_afterSize r c row ht).mp (h.mtime t ht)⟩
  · intro h
    exact ⟨shownIn_afterSize r c row hsize,
      fun t ht => (atime_afterSize r c row ht).mpr (h.atime t ht),
      fun t ht => (mtime_afterSize r c row ht).mpr (h.mtime t ht)⟩

end Changes

/-! ### All or nothing -/

section AllOrNothing
variable {s : Filesystem} {r : Readings} {req : Request} {ino : ℕ} {c : Changes} {path : Str}
  {row : NodesRow}

lemma applied_of_nothing (h : ¬ (c.mode.isSome ∨ (c.uid.isSome ∨ c.gid.isSome) ∨
    (c.atime.isSome ∨ c.mtime.isSome) ∨ c.size.isSome ∨ False)) : c.AppliedTo r row := by
  obtain ⟨mode, uid, gid, size, atime, mtime⟩ := c
  simp only [not_or, Option.not_isSome_iff_eq_none] at h
  obtain ⟨rfl, ⟨rfl, rfl⟩, ⟨rfl, rfl⟩, rfl, -⟩ := h
  refine ⟨⟨?_, ?_, ?_, ?_, ?_, ?_⟩, ?_, ?_⟩ <;> intros <;> contradiction

lemma sameRows_iff {t : Filesystem} {row' : NodesRow} (h : RowIs s ino row' t)
    (hblobs : t.conn.blobs = s.conn.blobs) (hrow : s.conn.nodes.find? ino = some row) :
    SameRows s.conn t.conn ↔ row' = row := by
  rw [← h.same_iff hrow]
  refine ⟨SameRows.nodes, fun hnodes => ⟨hnodes, fun k => ?_⟩⟩
  rw [hblobs]

/-- A request that cannot start changes nothing, and is answered with attributes only if it asks for
nothing. -/
lemma allOrNothing_of_cannotStart (hpath : (pathOfInode ino s).result = .ok (some path))
    (hrow : s.conn.nodes.find? ino = some row) (hstart : CannotStart (req.view s) path) :
    AllOrNothing s r req ino c := by
  obtain ⟨hresult, hstate⟩ := setattr_named r req c hpath
  obtain ⟨hsame, hasked⟩ := applyChanges_cannotStart hstart r c
  have hconn : (Adapter.setattr r req ino c s).state.conn = s.conn := by
    rw [hstate, hsame]
    exact actAs_conn s _
  refine ⟨fun e _ => ?_, fun reply hreply => ⟨row, ?_, ?_⟩⟩
  · rw [hconn]
    exact .refl
  · rw [hconn]
    exact hrow
  · rw [hresult] at hreply
    exact applied_of_nothing fun h => hasked h (answerOf_eq_ok hreply)

/-- What the request asks for is done, or nothing is, exactly if it is whole. -/
lemma allOrNothing_of_ends {t : Filesystem} {x : Except Halt Stat}
    (hends : Ends (req.view s) ino r c row x t) (hrow : s.conn.nodes.find? ino = some row)
    (hresult : (Adapter.setattr r req ino c s).result = answerOf x)
    (hconn : (Adapter.setattr r req ino c s).state.conn = t.conn) :
    AllOrNothing s r req ino c ↔ c.Whole r row (req.view s) := by
  have hrow' : (req.view s).conn.nodes.find? ino = some row := hrow
  have hrefused : ∀ {e : Error} {row' : NodesRow}, x = err e → RowIs (req.view s) ino row' t →
      t.conn.blobs = (req.view s).conn.blobs → (AllOrNothing s r req ino c ↔ row' = row) := by
    rintro e row' rfl hrowIs hblobs
    rw [← sameRows_iff hrowIs hblobs hrow']
    constructor
    · intro h
      have hnothing := h.nothing e.errno hresult
      rw [hconn] at hnothing
      exact hnothing
    · refine fun hsame => ⟨fun _ _ => ?_, fun reply hreply => ?_⟩
      · rw [hconn]
        exact hsame
      · rw [hresult] at hreply
        cases hreply
  cases hends with
  | noMode hmode hrowIs hblobs =>
    rw [hrefused rfl hrowIs hblobs]
    exact iff_of_true rfl ⟨fun h => absurd h hmode, fun h => absurd h hmode,
      fun h => absurd h hmode, fun h => absurd h hmode⟩
  | noOwner hmode howner hrowIs hblobs =>
    rw [hrefused rfl hrowIs hblobs]
    exact ⟨fun hsame => ⟨fun _ _ => hsame, fun _ h => absurd h howner, fun _ h => absurd h howner,
      fun _ h => absurd h howner⟩, fun h => h.owner hmode howner⟩
  | noTimes hmode howner htimes hrowIs hblobs =>
    rw [hrefused rfl hrowIs hblobs]
    exact ⟨fun hsame => ⟨fun _ h => absurd howner h, fun _ _ _ => hsame,
      fun _ _ h => absurd h htimes, fun _ _ h => absurd h htimes⟩, fun h => h.times hmode howner htimes⟩
  | noSize hmode howner htimes hsize hrowIs hblobs =>
    rw [hrefused rfl hrowIs hblobs]
    exact ⟨fun hsame => ⟨fun _ h => absurd howner h, fun _ _ h => absurd htimes h,
      fun _ _ _ _ => hsame, fun _ _ _ h => absurd h hsize⟩,
      fun h => h.size hmode howner htimes hsize⟩
  | panics hmode howner htimes hsize hstuck =>
    refine iff_of_true ⟨fun e he => ?_, fun reply hreply => ?_⟩ ⟨fun _ h => absurd howner h,
      fun _ _ h => absurd htimes h, fun _ _ _ h => absurd hsize h, fun _ _ _ _ h => absurd hstuck h⟩
    · rw [hresult] at he
      cases he
    · rw [hresult] at hreply
      cases hreply
  | done hmode howner htimes hsize hstuck hrowIs =>
    have happlied : AllOrNothing s r req ino c ↔ c.AppliedTo r (c.afterSize r row) := by
      constructor
      · intro h
        obtain ⟨row', hfind, happ⟩ := h.all _ hresult
        rw [hconn, hrowIs.atNode] at hfind
        exact Option.some.inj hfind ▸ happ
      · refine fun happ => ⟨fun e he => ?_, fun reply _ => ⟨_, ?_, happ⟩⟩
        · rw [hresult] at he
          cases he
        · rw [hconn]
          exact hrowIs.atNode
    rw [happlied, c.appliedTo_iff r row fun n hn => (hsize n hn).1]
    exact ⟨fun hkept => ⟨fun _ h => absurd howner h, fun _ _ h => absurd htimes h,
      fun _ _ _ h => absurd hsize h, fun _ _ _ _ _ => hkept⟩,
      fun h => h.kept hmode howner htimes hsize hstuck⟩

/-- In every reachable state, a request is done as a whole or not at all exactly if it is not to be
made in part: where its path leads to the node and the filesystem is writable, the first part that
is refused comes before any part that changes the row, and the times that it gives are kept. -/
theorem setattr_allOrNothing_iff (h : Reachable s) : AllOrNothing s r req ino c ↔
    ∀ path row, (pathOfInode ino s).result = .ok (some path) → path.len ≤ PATH_MAX →
      s.readonly = false → s.conn.nodes.find? ino = some row → c.Whole r row (req.view s) := by
  rcases setattr_cases h r req ino c with ⟨hpath, hrun⟩ | ⟨path, row, hpath, hrow, hstart⟩ |
    ⟨path, row, x, t, hpath, hlen, hw, hrow, hends, hresult, hconn⟩
  · refine iff_of_true ⟨fun e _ => ?_, fun reply hreply => ?_⟩ fun path row hsome => ?_
    · rw [hrun]
      exact .refl
    · rw [hrun] at hreply
      cases hreply
    · rw [hpath] at hsome
      cases hsome
  · refine iff_of_true (allOrNothing_of_cannotStart hpath hrow hstart.2) ?_
    rintro path' row' hpath' hlen hw -
    rw [hpath] at hpath'
    cases hpath'
    exact absurd ⟨hlen, hw⟩ hstart.1
  · rw [allOrNothing_of_ends hends hrow hresult hconn]
    constructor
    · rintro hwhole path' row' - - - hrow'
      exact Option.some.inj (hrow.symm.trans hrow') ▸ hwhole
    · exact fun hall => hall path row hpath hlen hw hrow

lemma stepwise_of_ends {t : Filesystem} {x : Except Halt Stat}
    (hends : Ends (req.view s) ino r c row x t) (hrow : s.conn.nodes.find? ino = some row)
    (hresult : (Adapter.setattr r req ino c s).result = answerOf x)
    (hconn : (Adapter.setattr r req ino c s).state.conn = t.conn) : Stepwise s r req ino c := by
  have hrefused : ∀ {e : Error} {row' : NodesRow}, x = err e → c.Leaves r row (req.view s) row' →
      RowIs (req.view s) ino row' t → t.conn.blobs = (req.view s).conn.blobs →
      Stepwise s r req ino c := by
    rintro e row' rfl hleaves hrowIs hblobs
    refine ⟨fun _ _ => Or.inr ⟨row, row', hrow, hleaves, ?_⟩, fun reply hreply => ?_⟩
    · rw [hconn]
      refine ⟨hrowIs.atNode, hrowIs.others, fun k => ?_⟩
      rw [hblobs]
      rfl
    · rw [hresult] at hreply
      cases hreply
  cases hends with
  | noMode hmode hrowIs hblobs => exact hrefused rfl (.noMode hmode) hrowIs hblobs
  | noOwner hmode howner hrowIs hblobs => exact hrefused rfl (.noOwner hmode howner) hrowIs hblobs
  | noTimes hmode howner htimes hrowIs hblobs =>
    exact hrefused rfl (.noTimes hmode howner htimes) hrowIs hblobs
  | noSize hmode howner htimes hsize hrowIs hblobs =>
    exact hrefused rfl (.noSize hmode howner htimes hsize) hrowIs hblobs
  | panics =>
    refine ⟨fun e he => ?_, fun reply hreply => ?_⟩
    · rw [hresult] at he
      cases he
    · rw [hresult] at hreply
      cases hreply
  | done hmode howner htimes hsize hstuck hrowIs =>
    refine ⟨fun e he => ?_, fun reply _ => ⟨c.afterSize r row, ?_,
      c.shownIn_afterSize r row fun n hn => (hsize n hn).1, fun t ht hpos hlt => ?_,
      fun t ht hnone hpos hlt => ?_⟩⟩
    · rw [hresult] at he
      cases he
    · rw [hconn]
      exact hrowIs.atNode
    · exact (c.atime_afterSize r row ht).mpr ⟨hpos, hlt⟩
    · refine (c.mtime_afterSize r row ht).mpr ?_
      rw [hnone]
      exact ⟨hpos, hlt⟩

/-- In every reachable state, requests are done part by part. -/
theorem setattr_stepwise (h : Reachable s) : Stepwise s r req ino c := by
  rcases setattr_cases h r req ino c with ⟨-, hrun⟩ | ⟨path, row, hpath, hrow, -, hstart⟩ |
    ⟨path, row, x, t, -, -, -, hrow, hends, hresult, hconn⟩
  · refine ⟨fun e _ => Or.inl ?_, fun reply hreply => ?_⟩
    · rw [hrun]
      exact .refl
    · rw [hrun] at hreply
      cases hreply
  · obtain ⟨hnothing, hall⟩ := allOrNothing_of_cannotStart (r := r) (c := c) hpath hrow hstart
    refine ⟨fun e he => Or.inl (hnothing e he), fun reply hreply => ?_⟩
    obtain ⟨row', hrow', happ⟩ := hall reply hreply
    exact ⟨row', hrow', happ.toShownIn, fun t ht _ _ => happ.atime t ht,
      fun t ht _ _ _ => happ.mtime t ht⟩
  · exact stepwise_of_ends hends hrow hresult hconn

/-- A file of root's. -/
def fileOfRoot : Filesystem := newFsAfter [.create ['/', 'f'] Libc.O_RDWR 0o644]

/-- The mode is to be set, and the size to 5. -/
def modeAndSize : Changes := ⟨some 0o600, none, none, some 5, none, none⟩

def readingsAtOne : Readings := ⟨⟨1, 1⟩, ⟨1, 1⟩, 1, 1, ⟨1, 1⟩, ⟨1, 1⟩⟩

theorem setattr_stepwise_fileOfRoot :
    Stepwise fileOfRoot readingsAtOne ⟨0, 0⟩ 2 modeAndSize :=
  setattr_stepwise (reachable_newFsAfter _)

/-- The request is refused, and the mode has changed. -/
theorem not_setattr_allOrNothing_fileOfRoot : ¬ ∀ (s : Filesystem) (r : Readings) (req : Request)
    (ino : ℕ) (c : Changes), Reachable s → AllOrNothing s r req ino c := by
  intro hall
  have h := hall fileOfRoot readingsAtOne ⟨0, 0⟩ 2 modeAndSize (reachable_newFsAfter _)
  have herror : (Adapter.setattr readingsAtOne ⟨0, 0⟩ 2 modeAndSize fileOfRoot).result
      = .ok (.error Libc.EINVAL) := by decide +kernel
  have hmode := (h.nothing _ herror).nodes 2
  have hdiff : (Adapter.setattr readingsAtOne ⟨0, 0⟩ 2 modeAndSize fileOfRoot).state.conn.nodes.find? 2
      ≠ fileOfRoot.conn.nodes.find? 2 := by decide +kernel
  exact hdiff hmode

end AllOrNothing

end Fuse

end SqliteFs

import SqliteFs.Fuse.AllOrNothing

/-!
# Times on their way through the adapter

A stored time is a number of nanoseconds, which may be negative. The adapter reports it by seconds
and nanoseconds, neither of which is, and so tells only the times from the epoch on.
-/

namespace SqliteFs

namespace Fuse

open Filesystem

/-! ### Reported times -/

/-- What is reported is what is stored, for a time from the epoch on; for one before it, the seconds
are lost. -/
lemma instant_toTs (ns : ℤ) :
    (toTs ns).instant = if 0 ≤ ns then ns else ns % 1000000000 := by
  have hrun : (toTs ns).instant = ((max (ns.tdiv 1000000000) 0).toNat : ℤ) * 1000000000
      + ((ns % 1000000000).toNat : ℤ) := rfl
  rw [hrun]
  split_ifs with h
  · rw [Int.tdiv_eq_ediv_of_nonneg h]
    change @Eq ℤ _ _
    omega
  · have hneg : 0 ≤ (-ns).tdiv 1000000000 := Int.tdiv_nonneg (by omega) (by decide)
    rw [Int.neg_tdiv] at hneg
    change @Eq ℤ _ _
    omega

lemma instant_toTs_eq_iff {ns : ℤ} : (toTs ns).instant = ns ↔ 0 ≤ ns := by
  rw [instant_toTs]
  split_ifs with h
  · exact iff_of_true rfl h
  · exact iff_of_false (fun heq => h (heq ▸ Int.emod_nonneg ns (by decide))) h

/-- Every time of the stat is reported as it is. -/
structure ReportsStored (st : Stat) : Prop where
  atime : (statToAttr st).atime.instant = st.atimeNs
  mtime : (statToAttr st).mtime.instant = st.mtimeNs
  ctime : (statToAttr st).ctime.instant = st.ctimeNs
  crtime : (statToAttr st).crtime.instant = st.ctimeNs

lemma reportsStored_iff {st : Stat} :
    ReportsStored st ↔ 0 ≤ st.atimeNs ∧ 0 ≤ st.mtimeNs ∧ 0 ≤ st.ctimeNs := by
  constructor
  · intro h
    exact ⟨instant_toTs_eq_iff.mp h.atime, instant_toTs_eq_iff.mp h.mtime,
      instant_toTs_eq_iff.mp h.ctime⟩
  · rintro ⟨ha, hm, hc⟩
    exact ⟨instant_toTs_eq_iff.mpr ha, instant_toTs_eq_iff.mpr hm, instant_toTs_eq_iff.mpr hc,
      instant_toTs_eq_iff.mpr hc⟩

/-- Both times are reported as they are stored, and so in the same order. -/
structure KeepsOrder (m n : ℤ) : Prop where
  left : (toTs m).instant = m
  right : (toTs n).instant = n
  order : (toTs m).instant < (toTs n).instant ↔ m < n

lemma keepsOrder_iff {m n : ℤ} : KeepsOrder m n ↔ 0 ≤ m ∧ 0 ≤ n := by
  constructor
  · intro h
    exact ⟨instant_toTs_eq_iff.mp h.left, instant_toTs_eq_iff.mp h.right⟩
  · rintro ⟨hm, hn⟩
    have hleft := instant_toTs_eq_iff.mpr hm
    have hright := instant_toTs_eq_iff.mpr hn
    exact ⟨hleft, hright, by rw [hleft, hright]⟩

/-! ### Setting a time and reading it -/

lemma pathForInode_congr {d d' : Db} (h : d'.entries = d.entries) (i : ℕ) :
    pathForInode d' i = pathForInode d i := by
  have hof : ∀ j, Entries.ofInode d' j = Entries.ofInode d j := by
    intro j
    unfold Entries.ofInode
    rw [h]
  have hloop : ∀ (fuel parent : ℕ) (parts : List Str),
      pathLoop d' fuel parent parts = pathLoop d fuel parent parts := by
    intro fuel
    induction fuel with
    | zero => exact fun _ _ => rfl
    | succ fuel ih =>
      intro parent parts
      unfold pathLoop
      rw [hof]
      simp only [ih]
  unfold pathForInode
  rw [hof, h]
  simp only [hloop]

lemma pathOfInode_congr {s s' : Filesystem} (h : s'.conn.entries = s.conn.entries) (i : ℕ) :
    (pathOfInode i s').result = (pathOfInode i s).result := by
  unfold pathOfInode
  split_ifs
  · rfl
  · exact pathForInode_congr h i

section Request
variable {s s' : Filesystem} {r : Readings} {req req' : Request} {ino : ℕ} {c : Changes} {path : Str}
  {row : NodesRow}

lemma getattr_run (hpath : (pathOfInode ino s).result = .ok (some path))
    (hi : resolveToInode s.conn path = .ok ino) (hrow : s.conn.nodes.find? ino = some row) :
    (Adapter.getattr req ino s).result = .ok (.ok ⟨TTL, statToAttr row.read.stat⟩) := by
  have hget : Nodes.get s.conn ino = .ok row.read := Nodes.get_eq_ok.mpr ⟨row, hrow, rfl⟩
  have hi' : resolveToInode (req.view s).conn path = .ok ino := hi
  have hget' : Nodes.get (req.view s).conn ino = .ok row.read := hget
  unfold Adapter.getattr
  rw [pathOfInode_run hpath]
  dsimp only
  rw [asUserOf_bind (stat_run hi' hget')]
  rfl

/-- The next request for the attributes of `ino` is answered with a time that is `t`. -/
def ReadsBack (s : Filesystem) (req : Request) (ino : ℕ) (time : FileAttr → SystemTime) (t : ℤ) :
    Prop :=
  ∃ reply, (Adapter.getattr req ino s).result = .ok (.ok reply) ∧ (time reply.attr).instant = t

/-- After a request that has set times, the attributes are those of the row that it made. -/
lemma getattr_after_setattr (h : Reachable s) {reply : ReplyAttr}
    (hreply : (Adapter.setattr r req ino c s).result = .ok (.ok reply))
    (hasked : c.atime.isSome ∨ c.mtime.isSome) (req' : Request) : ∃ row,
      (Adapter.getattr req' ino (Adapter.setattr r req ino c s).state).result
        = .ok (.ok ⟨TTL, statToAttr (c.afterSize r row).read.stat⟩) := by
  have htree : s.conn.Tree := (rooted_runsTo h).tree
  rcases setattr_cases h r req ino c with ⟨-, hrun⟩ | ⟨path, row, hpath, -, -, hstart⟩ |
    ⟨path, row, x, t, hpath, hlen, -, -, hends, hresult, hconn⟩
  · rw [hrun] at hreply
    cases hreply
  · rw [(setattr_named r req c hpath).1] at hreply
    exact absurd (answerOf_eq_ok hreply)
      ((applyChanges_cannotStart hstart r c).2 (Or.inr (Or.inr (Or.inl hasked))))
  · rw [hresult] at hreply
    obtain ⟨st, rfl⟩ := answerOf_eq_ok hreply
    cases hends with
    | done _ _ _ _ _ hrowIs =>
      have hi : resolveToInode s.conn path = .ok ino := resolve_of_pathOfInode h hpath hlen
      have hpath' : (pathOfInode ino (Adapter.setattr r req ino c s).state).result = .ok (some path) := by
        rw [← hpath, pathOfInode_congr]
        rw [hconn]
        exact hrowIs.entries
      refine ⟨row, getattr_run hpath' ?_ ?_⟩
      · rw [hconn]
        exact hrowIs.resolve htree hi
      · rw [hconn]
        exact hrowIs.atNode

lemma readsBack_iff {time : FileAttr → SystemTime} {t : ℤ} {a : ReplyAttr}
    (ha : (Adapter.getattr req ino s).result = .ok (.ok a)) :
    ReadsBack s req ino time t ↔ (time a.attr).instant = t := by
  constructor
  · rintro ⟨b, hb, ht⟩
    cases ha.symm.trans hb
    exact ht
  · exact fun ht => ⟨a, ha, ht⟩

lemma instant_toNs (now : ℤ) {t : ℤ} (ht : t < 2 ^ 63) :
    (toTs (toNs now (.specificTime t))).instant = t ↔ 0 ≤ t := by
  constructor
  · intro h
    by_contra hneg
    have hzero : toNs now (.specificTime t) = 0 := if_neg hneg
    rw [hzero] at h
    exact hneg (h ▸ le_refl (0 : ℤ))
  · intro hpos
    rw [(toNs_eq_iff now).mpr ⟨hpos, ht⟩]
    exact instant_toTs_eq_iff.mpr hpos

lemma atime_after_setattr (h : Reachable s) {reply : ReplyAttr}
    (hreply : (Adapter.setattr r req ino c s).result = .ok (.ok reply)) (req' : Request) {t : ℤ}
    (ht : t < 2 ^ 63) (hatime : c.atime = some (.specificTime t)) :
    ReadsBack (Adapter.setattr r req ino c s).state req' ino FileAttr.atime t ↔ 0 ≤ t := by
  obtain ⟨row, hrow⟩ := getattr_after_setattr h hreply (Or.inl (by rw [hatime]; rfl)) req'
  rw [readsBack_iff hrow, ← instant_toNs r.atime ht, Changes.afterSize_eq, hatime]
  rfl

/-- A modification time that comes with a size is replaced by the time of the truncation. -/
lemma mtime_after_setattr (h : Reachable s) {reply : ReplyAttr}
    (hreply : (Adapter.setattr r req ino c s).result = .ok (.ok reply)) (req' : Request) {t : ℤ}
    (ht : t < 2 ^ 63) (hmtime : c.mtime = some (.specificTime t)) :
    ReadsBack (Adapter.setattr r req ino c s).state req' ino FileAttr.mtime t ↔
      if c.size.isSome then
        if 0 ≤ r.open_.now then r.open_.now = t else r.open_.now % 1000000000 = t
      else 0 ≤ t := by
  obtain ⟨row, hrow⟩ := getattr_after_setattr h hreply (Or.inr (by rw [hmtime]; rfl)) req'
  rw [readsBack_iff hrow, ← instant_toNs r.mtime ht, Changes.afterSize_eq, hmtime]
  unfold NodesRow.read NodeRow.stat statToAttr
  dsimp only
  by_cases hsize : c.size.isSome
  · rw [if_pos hsize, if_pos hsize, instant_toTs]
    split_ifs <;> exact Iff.rfl
  · rw [if_neg hsize, if_neg hsize]
    exact Iff.rfl

end Request

/-- Stored times are reported as they are, and in their order, exactly if they are not before the
epoch; and so a time that `setattr` has been given is reported by the next `getattr` exactly if it is
not before the epoch, unless it is a modification time and the request has truncated the file too:
then the clock counts that was read for the truncation. -/
theorem times_survive_iff (s : Filesystem) (r : Readings) (req req' : Request) (ino : ℕ) (c : Changes)
    (t : ℤ) :
    (∀ st, ReportsStored st ↔ 0 ≤ st.atimeNs ∧ 0 ≤ st.mtimeNs ∧ 0 ≤ st.ctimeNs) ∧
    (∀ m n, KeepsOrder m n ↔ 0 ≤ m ∧ 0 ≤ n) ∧
    (Reachable s → t < 2 ^ 63 → ∀ reply,
      (Adapter.setattr r req ino c s).result = .ok (.ok reply) →
        (c.atime = some (.specificTime t) →
          (ReadsBack (Adapter.setattr r req ino c s).state req' ino FileAttr.atime t ↔ 0 ≤ t)) ∧
        (c.mtime = some (.specificTime t) →
          (ReadsBack (Adapter.setattr r req ino c s).state req' ino FileAttr.mtime t ↔
            if c.size.isSome then
              if 0 ≤ r.open_.now then r.open_.now = t else r.open_.now % 1000000000 = t
            else 0 ≤ t))) := by
  refine ⟨fun _ => reportsStored_iff, fun _ _ => keepsOrder_iff, fun h ht reply hreply => ?_⟩
  exact ⟨atime_after_setattr h hreply req' ht, mtime_after_setattr h hreply req' ht⟩

/-- The access time is to be one nanosecond before the epoch. -/
def justBeforeEpoch : Changes := ⟨none, none, none, none, some (.specificTime (-1)), none⟩

lemma setattr_justBeforeEpoch : ∃ reply,
    (Adapter.setattr readingsAtOne ⟨0, 0⟩ 2 justBeforeEpoch fileOfRoot).result = .ok (.ok reply) := by
  refine ⟨⟨TTL, statToAttr ⟨.file, 0, 0o644, 0, 0, 0, 0, 1, 1, 2⟩⟩, ?_⟩
  decide +kernel

theorem times_survive_iff_justBeforeEpoch :
    (ReportsStored ⟨.file, 0, 0o644, 0, 0, -1, 1, 1, 1, 2⟩ ↔
      (0 : ℤ) ≤ -1 ∧ (0 : ℤ) ≤ 1 ∧ (0 : ℤ) ≤ 1) ∧
    (KeepsOrder (-1) 1 ↔ (0 : ℤ) ≤ -1 ∧ (0 : ℤ) ≤ 1) ∧
    (ReadsBack (Adapter.setattr readingsAtOne ⟨0, 0⟩ 2 justBeforeEpoch fileOfRoot).state ⟨0, 0⟩ 2
      FileAttr.atime (-1) ↔ (0 : ℤ) ≤ -1) := by
  obtain ⟨reply, hreply⟩ := setattr_justBeforeEpoch
  obtain ⟨hstored, horder, hreads⟩ :=
    times_survive_iff fileOfRoot readingsAtOne ⟨0, 0⟩ ⟨0, 0⟩ 2 justBeforeEpoch (-1)
  exact ⟨hstored _, horder (-1) 1,
    (hreads (reachable_newFsAfter _) (by decide) reply hreply).1 rfl⟩

/-- A time that is stored as one nanosecond before the epoch is reported as almost a second after
it, and the same time given to `setattr` as the epoch. -/
theorem not_times_survive : (toTs (-1)).instant = 999999999 ∧
    ¬ (∀ ns : ℤ, -2 ^ 63 ≤ ns → ns < 2 ^ 63 → (toTs ns).instant = ns) ∧
    ReadsBack (Adapter.setattr readingsAtOne ⟨0, 0⟩ 2 justBeforeEpoch fileOfRoot).state ⟨0, 0⟩ 2
      FileAttr.atime 0 := by
  have hreported : (toTs (-1)).instant = 999999999 := by decide
  refine ⟨hreported, fun hall => ?_, ⟨TTL, statToAttr ⟨.file, 0, 0o644, 0, 0, 0, 0, 1, 1, 2⟩⟩, ?_, rfl⟩
  · have h := hall (-1) (by decide) (by decide)
    rw [hreported] at h
    exact absurd h (by decide)
  · decide +kernel

end Fuse

end SqliteFs

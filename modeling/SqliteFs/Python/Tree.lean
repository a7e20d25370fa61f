import SqliteFs.Python.Changes

/-!
# The directory tree of the Python library

Every change of the entries keeps the tree, but for two. An exchange checks only that its source
does not go below itself, so that a destination above the source ends up below itself. And a
descriptor on a root directory whose link count has come down to zero takes the root with it when
it is closed. Without such calls the entries make a tree in every reachable state.
-/

namespace SqliteFs

open Relation ParentForest

namespace Python

variable {d d' d₁ : SqliteFs.Db} {e t : EntryRow} {i j q : ℕ} {m : Str} {o : Option EntryRow}

/-- What is in a directory, its directory may take. -/
lemma placed_parent (h : d.Tree) (he : e ∈ d.entries) : d.Placed e.parent :=
  ⟨h.named_parent he, h.parentDir e he⟩

lemma tree_losesName (h : d.Tree) (hl : LosesName d d' e) : d'.Tree := by
  obtain ⟨n, d₁, hdrops, hlast⟩ := hl
  rcases hlast with rfl | hrem
  · exact h.drops hdrops
  · exact (h.drops hdrops).removesNode (h.rootUnnamed e hdrops.1) hrem

lemma tree_losesDir (h : d.Tree) (hl : LosesDir d d' e) : d'.Tree := by
  obtain ⟨he, -, hempty, hrem⟩ := hl
  exact (h.deleteEntry he hempty).removesNode (h.rootUnnamed e he) hrem

lemma tree_clears (h : d.Tree) (hc : Clears d d' o) : d'.Tree := by
  cases o with
  | none =>
    obtain rfl : d' = d := hc
    exact h
  | some t =>
    rcases hc with hl | hl
    · exact tree_losesDir h hl
    · exact tree_losesName h hl

/-- The plain rename of an entry to a directory that is not below it. -/
lemma tree_replaces (h : d.Tree) (hmay : d.MayMove e q) (hne : ¬ (e.parent = q ∧ e.name = m))
    (hfound : d.entries.find? (q, m) = o) (hclears : Clears d d₁ o)
    (hmoves : d₁.Moves d' False e q m) : d'.Tree := by
  have hmem : ∀ {x}, x ∈ d₁.entries ↔ x ∈ d.entries ∧ o ≠ some x := hclears.mem_entries h.shaped
  have hq : d₁.kind q = some .dir := (hclears.dir_parent hfound).mpr hmay.2.2.1.2
  refine (tree_clears h hclears).moves (hclears.mem_source h.shaped hfound hmay.1 hne) ⟨?_, hq⟩ ?_
    hmoves
  · -- the entry that goes does not name the directory it is in
    rcases hmay.2.2.1.1 with hroot | ⟨x, hx, hxq⟩
    · exact Or.inl hroot
    · refine Or.inr ⟨x, hmem.mpr ⟨hx, ?_⟩, hxq⟩
      rintro rfl
      have hparent := (Prod.mk.inj (KeyTable.find?_eq_some.mp hfound).2).1
      exact h.inode_ne_parent hx (hxq.trans hparent.symm)
  · intro hdir
    have hdir' : d.kind e.inode = some .dir := by
      refine (hclears.dir_iff fun t ht hk => ?_).mp hdir
      exact Clears.ne_of_source h.shaped (hfound.trans ht) hmay.1 hne hk
    obtain ⟨hself, hclear⟩ := h.clear_of_mayMove hmay hdir'
    refine ⟨hself, fun habove => hclear (TransGen.mono ?_ _ _ habove)⟩
    rintro a b ⟨x, hx, hxa, hxb⟩
    exact ⟨x, (hmem.mp hx).1, hxa, hxb⟩

/-- An exchange where neither directory goes below itself. -/
lemma tree_exchanges (h : d.Tree) (hmay : d.MayMove e t.parent) (ht : t ∈ d.entries)
    (hne : ¬ (e.parent = t.parent ∧ e.name = t.name))
    (hfree : d.entries.find? (t.parent, Filesystem.swapTmp) = none)
    (hback : d.kind t.inode = some .dir →
      e.parent ≠ t.inode ∧ ¬ TransGen d.Up e.parent t.inode)
    (hx : Exchanges d d' e t) : d'.Tree := by
  have he := hmay.1
  obtain ⟨d₁, d₂, d₃, h₁, ht₁, h₂, htmp₂, h₃, hadj, hmem₁, -⟩ := hx.steps he ht hne hfree
  have htree₁ : d₁.Tree := h.moveEntry he h₁ (placed_parent h ht) (h.clear_of_mayMove hmay)
  have hplaced : d₁.Placed e.parent := by
    refine ⟨?_, ?_⟩
    · rcases h.named_parent he with hroot | ⟨x, hmem, hxp⟩
      · exact Or.inl hroot
      · refine Or.inr ⟨x, (hmem₁ x).mpr (Or.inl ⟨hmem, ?_⟩), hxp⟩
        rintro rfl
        exact h.inode_ne_parent hmem hxp
    · rw [SqliteFs.Db.kind, SqliteFs.Db.info_moveEntry he h₁]
      exact h.parentDir e he
  -- the climb from the source's directory does not meet the source, and so is what it was
  have hclimb : ∀ {z}, TransGen d₁.Up e.parent z → TransGen d.Up e.parent z := by
    intro z hz
    have hstep : ∀ {x y}, ReflTransGen d.Up e.parent x → d₁.Up x y → d.Up x y := by
      rintro x y hx ⟨r, hr, rfl, rfl⟩
      rcases (hmem₁ r).mp hr with ⟨hr, -⟩ | rfl
      · exact ⟨r, hr, rfl, rfl⟩
      · exact absurd (TransGen.head' ⟨e, he, rfl, rfl⟩ hx) (h.acyclic e.inode)
    induction hz with
    | single hy => exact .single (hstep .refl hy)
    | tail _ hy ih => exact .tail ih (hstep ih.to_reflTransGen hy)
  have htree₂ : d₂.Tree := by
    refine htree₁.moveEntry ht₁ h₂ hplaced fun hdir => ?_
    rw [SqliteFs.Db.kind, SqliteFs.Db.info_moveEntry he h₁] at hdir
    exact ⟨(hback hdir).1, fun habove => (hback hdir).2 (hclimb habove)⟩
  have hplaced₂ := placed_parent htree₂ htmp₂
  refine (htree₂.moveEntry htmp₂ h₃ hplaced₂ fun _ => ⟨?_, fun habove => ?_⟩).adjust hadj
  · exact (htree₂.inode_ne_parent htmp₂).symm
  · exact htree₂.acyclic e.inode (.head ⟨_, htmp₂, rfl, rfl⟩ habove)

/-! ### Every effect -/

/-- No exchange puts a directory below itself. -/
def Label.KeepsTree (d : SqliteFs.Db) : Label → Prop
  | .swaps e t => d.kind t.inode = some .dir →
    e.parent ≠ t.inode ∧ ¬ TransGen d.Up e.parent t.inode
  | _ => True

/-- Closing the descriptor takes no root directory with anything below the entries in it. -/
def Label.KeepsRoot (c : Core) : Label → Prop
  | .closes fd => ∀ f n, c.fds.entries.find? fd = some f → f.inode = ROOT_INODE →
    c.readonly = false → (c.fds.close fd).openCount ROOT_INODE = 0 →
    c.names.info ROOT_INODE = some n → n.nlink = 0 → ∀ x ∈ c.names.entries, x.parent = ROOT_INODE
  | _ => True

/-- The entries make a tree, or the root directory is gone with all of them. -/
def Core.Planted (c : Core) : Prop :=
  c.names.Tree ∨ (c.names.info ROOT_INODE = none ∧ ∀ e, e ∉ c.names.entries)

lemma not_rootDir (h : d.info ROOT_INODE = none) : d.kind ROOT_INODE ≠ some .dir := by
  rw [SqliteFs.Db.kind, h]
  exact (Option.some_ne_none _).symm

lemma Core.Planted.effect {c c' : Core} {l : Label} (h : c.Planted)
    (hswap : l.KeepsTree c.names) (hclose : l.KeepsRoot c) (he : Effect c l c') : c'.Planted := by
  rcases h with htree | ⟨hroot, hnone⟩
  · cases he with
    | quiet hsame _ => exact Or.inl (htree.sameNames hsame)
    | opens hsame => exact Or.inl (htree.sameNames hsame)
    | attaches _ _ ha => exact Or.inl (htree.attaches ha)
    | creates _ _ ha => exact Or.inl (htree.attaches ha)
    | links _ _ hl => exact Or.inl (htree.links hl)
    | removesDir hr => exact Or.inl (htree.removesDir hr)
    | unlinks hl => exact Or.inl (tree_losesName htree hl)
    | @closes d fd f hf hc =>
      rcases hc with rfl | ⟨hw, hcount, ⟨n, hn, hzero⟩, hrem⟩
      · exact Or.inl htree
      by_cases hroot : f.inode = ROOT_INODE
      · rw [hroot] at hcount hn hrem
        have hall := hclose f n hf hroot hw hcount hn hzero
        refine Or.inr ⟨?_, fun x hx => ?_⟩
        · exact (hrem.info ROOT_INODE).trans (if_pos rfl)
        · have hx' : x ∈ c.names.entries.deleteWhere fun e => e.parent = ROOT_INODE :=
            hrem.entries ▸ hx
          rw [KeyTable.mem_deleteWhere, decide_eq_false_iff_not] at hx'
          exact hx'.2 (hall x hx'.1)
      · exact Or.inl (htree.removesNode hroot hrem)
    | replaces hmay _ hne hfound _ hclears hmoves =>
      exact Or.inl (tree_replaces htree hmay hne hfound hclears hmoves)
    | swaps hmay ht hne hfree _ hex =>
      exact Or.inl (tree_exchanges htree hmay ht hne hfree hswap hex)
    | reopens => exact Or.inl htree
  · have hgone : ∀ {d}, c.names.SameNames d → d.info ROOT_INODE = none ∧ ∀ e, e ∉ d.entries := by
      intro d hs
      refine ⟨?_, fun e he => hnone e (hs.entries ▸ he)⟩
      have hlinks := hs.links ROOT_INODE
      rw [hroot] at hlinks
      exact Option.map_eq_none_iff.mp hlinks
    cases he with
    | quiet hsame _ => exact Or.inr (hgone hsame)
    | opens hsame => exact Or.inr (hgone hsame)
    | attaches hdir => exact absurd hdir (not_rootDir hroot)
    | creates hdir => exact absurd hdir (not_rootDir hroot)
    | links hdir => exact absurd hdir (not_rootDir hroot)
    | removesDir hr => exact absurd hr.1 (hnone _)
    | unlinks hl => exact absurd hl.mem (hnone _)
    | closes _ hc =>
      rcases hc with rfl | ⟨-, -, -, hrem⟩
      · exact Or.inr ⟨hroot, hnone⟩
      · refine Or.inr ⟨?_, fun e he => ?_⟩
        · rw [hrem.info]
          split_ifs
          · rfl
          · exact hroot
        · have he' := hrem.entries ▸ he
          exact hnone e (KeyTable.mem_deleteWhere.mp he').1
    | replaces hmay => exact absurd hmay.1 (hnone _)
    | swaps hmay => exact absurd hmay.1 (hnone _)
    | reopens => exact Or.inr ⟨hroot, hnone⟩

namespace Filesystem

lemma planted_fresh {s : Filesystem} (h : Fresh s) : s.core.Planted := by
  refine Or.inl (.of_shaped (shaped_fresh h) ?_ fun e he => absurd he ((fresh_tables h).1 e))
  exact SqliteFs.Db.kind_of_info ((info_fresh h ROOT_INODE).trans (if_pos rfl))

/-- The walk to the root ends where the climb does. -/
lemma pathLoop_of_chain {d : Db} {x : ℕ} {l : List ℕ} (hl : Chain (Entries.parentOf d) x l) :
    ∀ {fuel : ℕ} {parts : List Str}, l.length < fuel → ∃ p, pathLoop d fuel x parts = .ok p := by
  induction hl with
  | @stop x hx =>
    intro fuel parts hfuel
    have hnone : Entries.ofInode d x = none := Option.map_eq_none_iff.mp hx
    cases fuel with
    | zero => exact absurd hfuel (Nat.not_lt_zero _)
    | succ fuel =>
      rw [pathLoop, hnone]
      split_ifs
      · exact ⟨_, rfl⟩
      · exact ⟨_, rfl⟩
  | @step x y l hxy _ ih =>
    intro fuel parts hfuel
    obtain ⟨e, he, rfl⟩ := Option.map_eq_some_iff.mp hxy
    cases fuel with
    | zero => exact absurd hfuel (Nat.not_lt_zero _)
    | succ fuel =>
      rw [pathLoop, he]
      split_ifs
      · exact ⟨_, rfl⟩
      · exact ih (Nat.lt_of_succ_lt_succ hfuel)

lemma pathOfInode_result {s : Filesystem} {i : ℕ} (h : ∃ p, uncachedPath s.conn i = .ok p) :
    ∃ p, (pathOfInode i s).result = .ok p := by
  obtain ⟨p, hp⟩ := h
  unfold pathOfInode
  split_ifs with hroot
  · exact ⟨_, rfl⟩
  · rw [ask_bind (b := (s.pathCache.find? i).map CachedPath.path) rfl]
    cases (s.pathCache.find? i).map CachedPath.path with
    | some path => exact ⟨_, rfl⟩
    | none =>
      dsimp only
      rw [ask_bind hp]
      cases p <;> exact ⟨_, rfl⟩

/-- The entries make a tree of the directories, and the loops that climb it end. -/
structure DirectoryTree (s : Filesystem) : Prop where
  oneEntry : ∀ e ∈ s.conn.entries, ∀ e' ∈ s.conn.entries, e.inode = e'.inode →
    s.conn.kind e.inode = some .dir → e = e'
  rootUnnamed : ∀ e ∈ s.conn.entries, e.inode ≠ ROOT_INODE
  rooted : ∀ e ∈ s.conn.entries, Rooted s.conn.skeleton.Up ROOT_INODE e.parent
  ancestry : ∀ i, ∃ l, Nodes.ancestry s.conn i = .ok l
  pathOfInode : ∀ i, ∃ p, (pathOfInode i s).result = .ok p

lemma directoryTree_of_planted {s : Filesystem} (h : s.core.Planted) : DirectoryTree s := by
  have hchain : ∀ i, ∃ l, Chain (Entries.parentOf s.conn) i l ∧
      l.length ≤ s.conn.entries.rows.length := by
    intro i
    rcases h with htree | ⟨-, hnone⟩
    · exact htree.exists_chain i
    · refine ⟨[], .stop ?_, Nat.zero_le _⟩
      cases hp : Entries.parentOf s.conn i with
      | none => rfl
      | some y =>
        obtain ⟨e, he, -⟩ := SqliteFs.Db.up_of_parentOf (d := s.conn.skeleton) hp
        exact absurd he (hnone e)
  have hancestry : ∀ i, ∃ l, Nodes.ancestry s.conn i = .ok l := by
    intro i
    obtain ⟨l, hl, hlen⟩ := hchain i
    exact ⟨_, Nodes.ancestry_skeleton.mpr
      (SqliteFs.Db.ancestryLoop_of_chain (d := s.conn.skeleton) hl (Nat.lt_succ_of_le hlen))⟩
  have hpath : ∀ i, ∃ p, (Filesystem.pathOfInode i s).result = .ok p := by
    intro i
    obtain ⟨l, hl, hlen⟩ := hchain i
    exact pathOfInode_result (pathLoop_of_chain hl (Nat.lt_succ_of_le hlen))
  rcases h with htree | ⟨-, hnone⟩
  · refine ⟨fun e he e' he' heq hdir => ?_, htree.rootUnnamed, htree.rooted, hancestry, hpath⟩
    exact htree.oneName e he e' he' heq ((Db.kind_skeleton _ _).trans hdir)
  · exact ⟨fun e he => absurd he (hnone e), fun e he => absurd he (hnone e),
      fun e he => absurd he (hnone e), hancestry, hpath⟩

/-- The call is an exchange that goes through with a destination at or above the directory of its
source. -/
def MakesCycle (s : Filesystem) (call : Call) : Prop :=
  ∃ user env src dst e t l, call = .op user env (.rename src dst false true) ∧
    MaySwap (s.actAs user) src dst e t ∧ Nodes.ancestry s.conn e.parent = .ok l ∧
    (t.inode = e.parent ∨ t.inode ∈ l)

/-- The call closes the last descriptor on a root directory with a link count of zero, while some
entry lies in another directory. -/
def LosesRoot (s : Filesystem) (call : Call) : Prop :=
  ∃ user env fd f row x, call = .op user env (.closeFd fd) ∧
    s.fdTable.entries.find? fd = some f ∧ f.inode = ROOT_INODE ∧ s.readonly = false ∧
    (s.fdTable.close fd).openCount ROOT_INODE = 0 ∧
    s.conn.nodes.find? ROOT_INODE = some row ∧ row.nlink = 0 ∧
    x ∈ s.conn.entries ∧ x.parent ≠ ROOT_INODE

lemma keepsTree_of_asks {s : Filesystem} {call : Call} {l : Label} (h : s.core.Planted)
    (hok : ¬ MakesCycle s call) (hl : call.Asks s l) : l.KeepsTree s.conn.skeleton := by
  cases call with
  | reopen readonly uid gid =>
    obtain rfl : l = .reopens := hl
    trivial
  | op user env operation =>
    cases l with
    | plain => trivial
    | closes fd => trivial
    | reopens => trivial
    | replaces e q m o => trivial
    | swaps e t =>
      cases operation with
      | rename src dst noreplace exchange =>
        obtain ⟨⟨rfl, rfl⟩, hmay⟩ : (noreplace = false ∧ exchange = true) ∧
          MaySwap (s.actAs user) src dst e t := hl
        intro hdir
        have he : e ∈ s.conn.entries := actAs_conn s user ▸ hmay.entry
        have hfound : s.conn.entries.find? (t.parent, t.name) = some t :=
          actAs_conn s user ▸ hmay.found
        have ht : t ∈ s.conn.entries := (KeyTable.find?_eq_some.mp hfound).1
        rcases h with htree | ⟨-, hnone⟩
        · obtain ⟨anc, hanc⟩ := htree.ancestry_ok e.parent
          have hnot : ¬ (t.inode = e.parent ∨ t.inode ∈ anc) := fun hc =>
            hok ⟨user, env, src, dst, e, t, anc, rfl, hmay, Nodes.ancestry_skeleton.mpr hanc, hc⟩
          obtain ⟨hself, habove⟩ := not_or.mp hnot
          have hplaced : s.conn.skeleton.Placed e.parent := placed_parent htree he
          exact htree.clear_of_mayMove ⟨ht, htree.child t ht, hplaced,
            fun _ => ⟨hself, anc, hanc, habove⟩⟩ hdir
        · exact absurd he (hnone e)
      | _ => exact hl.elim

lemma keepsRoot_of_asks {s : Filesystem} {call : Call} {l : Label} (hok : ¬ LosesRoot s call)
    (hl : call.Asks s l) : l.KeepsRoot s.core := by
  cases call with
  | reopen readonly uid gid =>
    obtain rfl : l = .reopens := hl
    trivial
  | op user env operation =>
    cases l with
    | plain => trivial
    | closes fd =>
      cases operation with
      | closeFd fd' =>
        obtain rfl : fd = fd' := hl
        intro f n hf hroot hw hcount hn hzero x hx
        by_contra hparent
        change s.conn.skeleton.info ROOT_INODE = some n at hn
        rw [Db.info_skeleton] at hn
        obtain ⟨row, hrow, rfl⟩ := Option.map_eq_some_iff.mp hn
        exact hok ⟨user, env, fd, f, row, x, rfl, hf, hroot, hw, hcount, hrow, hzero, hx, hparent⟩
      | _ => exact hl.elim
    | reopens => trivial
    | replaces e q m o => trivial
    | swaps e t => trivial

/-- Along every run in which no exchange puts a directory below itself and no close takes a root
directory with a tree in it, the entries make a tree, and the loops that climb it end. -/
theorem directoryTree_runsTo {s : Filesystem}
    (h : RunsTo (fun s call => ¬ MakesCycle s call ∧ ¬ LosesRoot s call) s) : DirectoryTree s := by
  refine directoryTree_of_planted ?_
  refine Run.invariant (P := fun s => s.core.Planted) (fun _ => planted_fresh)
    (fun s call _ hok hs => ?_) h
  obtain ⟨l, hl, he⟩ := call.effect s
  exact hs.effect (keepsTree_of_asks hs hok.1 hl) (keepsRoot_of_asks hok.2 hl) he

/-- Three directories, one of them in another. -/
def threeDirs : Filesystem :=
  newFsAfter [.mkdir ['/', 'a'] 0o755, .mkdir ['/', 'b'] 0o755, .mkdir ['/', 'a', '/', 'c'] 0o755]

/-- The directories `/a/c` and `/b`, exchanged. -/
def exchangedDirs : Filesystem :=
  (Call.byRoot (.rename ['/', 'a', '/', 'c'] ['/', 'b'] false true)).exec threeDirs

/-- What was `/a/c` is now `/d`, and what was `/b` is gone. -/
def removedDir : Filesystem :=
  (Call.byRoot (.rmdir ['/', 'a', '/', 'c'])).exec
    ((Call.byRoot (.rename ['/', 'b'] ['/', 'd'] false false)).exec exchangedDirs)

/-- The entries that the exchange asks for. -/
lemma maySwap_threeDirs {e t : EntryRow}
    (h : MaySwap (threeDirs.actAs none) ['/', 'a', '/', 'c'] ['/', 'b'] e t) :
    e = ⟨2, ['c'], 4⟩ ∧ t = ⟨ROOT_INODE, ['b'], 3⟩ := by
  have hsource : ∀ x ∈ threeDirs.conn.entries.rows,
      resolveParentAs threeDirs.conn 0 0 ['/', 'a', '/', 'c'] = .ok (x.parent, x.name) →
        x = ⟨2, ['c'], 4⟩ := by decide +kernel
  have htarget : ∀ x ∈ threeDirs.conn.entries.rows,
      resolveParentAs threeDirs.conn 0 0 ['/', 'b'] = .ok (x.parent, x.name) →
        x = ⟨ROOT_INODE, ['b'], 3⟩ := by decide +kernel
  have ht : t ∈ threeDirs.conn.entries := (KeyTable.find?_eq_some.mp h.found).1
  exact ⟨hsource e h.entry h.source, htarget t ht h.target⟩

theorem directoryTree_runsTo_removedDir : DirectoryTree removedDir ∧
    removedDir.conn.entries.rows = [⟨ROOT_INODE, ['a'], 2⟩, ⟨ROOT_INODE, ['d'], 4⟩] := by
  have hcloses : ∀ {s : Filesystem} {operation : Op}, (∀ fd, operation ≠ .closeFd fd) →
      ¬ LosesRoot s (Call.byRoot operation) := by
    rintro s operation hop ⟨user, env, fd, f, row, x, hcall, -⟩
    cases hcall
    exact hop fd rfl
  have hok : ∀ {s : Filesystem} {operation : Op}, (∀ fd, operation ≠ .closeFd fd) →
      (∀ src dst, operation ≠ .rename src dst false true) →
        ¬ MakesCycle s (Call.byRoot operation) ∧ ¬ LosesRoot s (Call.byRoot operation) := by
    refine fun hclose hrename => ⟨?_, hcloses hclose⟩
    rintro ⟨user, env, src, dst, e, t, l, hcall, -⟩
    cases hcall
    exact hrename src dst rfl
  have hthree : RunsTo (fun s call => ¬ MakesCycle s call ∧ ¬ LosesRoot s call) threeDirs :=
    .next (.next (.next (.start fresh_newFs) (hok (by simp) (by simp))) (hok (by simp) (by simp)))
      (hok (by simp) (by simp))
  have hexchanged : RunsTo (fun s call => ¬ MakesCycle s call ∧ ¬ LosesRoot s call) exchangedDirs := by
    refine .next hthree ⟨?_, hcloses (by simp)⟩
    rintro ⟨user, env, src, dst, e, t, l, hcall, hmay, hanc, hbelow⟩
    cases hcall
    obtain ⟨rfl, rfl⟩ := maySwap_threeDirs hmay
    -- The root alone is above the directory that `/b` goes to.
    have hancestry : Nodes.ancestry threeDirs.conn 2 = .ok [ROOT_INODE] := by decide +kernel
    cases hancestry.symm.trans hanc
    exact absurd hbelow (by decide)
  exact ⟨directoryTree_runsTo (.next (.next hexchanged (hok (by simp) (by simp)))
    (hok (by simp) (by simp))), by decide +kernel⟩

/-- The directory `/a`, exchanged with a file in it. -/
def ownChild : Filesystem :=
  newFsAfter [.mkdir ['/', 'a'] 0o755, .create ['/', 'a', '/', 'f'] 0o644 0,
    .rename ['/', 'a', '/', 'f'] ['/', 'a'] false true]

/-- The directory is its own parent, and the loop that climbs from it goes on forever. -/
theorem not_directoryTree : Reachable ownChild ∧ ¬ DirectoryTree ownChild := by
  refine ⟨reachable_newFsAfter _, fun h => ?_⟩
  obtain ⟨l, hl⟩ := h.ancestry 2
  have hloop : Nodes.ancestry ownChild.conn 2 = .error .diverge := by decide +kernel
  rw [hloop] at hl
  cases hl

end Filesystem

end Python

end SqliteFs

import SqliteFs.Python.Tree

/-!
# Link counts of directories in the Python library

The link count of a directory should be two more than the number of directories in it. `mkdir` and
`rmdir` see to this, but no rename adjusts a count: one that takes a directory to another parent,
replaces a directory, or exchanges a directory with something else in another directory leaves
counts that are wrong. All others keep them exact.
-/

namespace SqliteFs

open Relation

namespace Python

variable {d d' d₁ : SqliteFs.Db} {e t : EntryRow} {i j q : ℕ} {m : Str}

/-- The link counts of directories are exact. -/
abbrev DirsExact (d : SqliteFs.Db) : Prop := d.Off (· = .dir) 0

lemma DirsExact.losesName (h : DirsExact d) (hshape : d.Shaped) (hl : LosesName d d' e) :
    DirsExact d' := by
  obtain ⟨n, d₁, hdrops, hlast⟩ := hl
  have h₁ : DirsExact d₁ := h.drops hdrops
  rcases hlast with rfl | hrem
  · exact h₁
  · refine h₁.removesNode (fun x hx => ?_) hrem
    have hleaf := hshape.drops_leaf hdrops
    obtain ⟨he, -, hadj, -⟩ := hdrops
    rw [hadj.entries, SqliteFs.Db.mem_deleteEntry he] at hx
    exact hleaf x hx.1

/-- A directory with an exact link count has links. -/
lemma DirsExact.nlink_ne_zero {n : NodeInfo} (h : DirsExact d) (hn : d.info i = some n)
    (hdir : n.kind = .dir) : n.nlink ≠ 0 := by
  have hcount := h i n hn hdir
  rw [Pi.zero_apply, add_zero, SqliteFs.Db.linkCount, if_pos hdir] at hcount
  omega

/-- The plain move of what is no directory, or stays where it is. -/
lemma DirsExact.moves (h : DirsExact d) (hshape : d.Shaped) (he : e ∈ d.entries)
    (hq : d.kind q = some .dir) (hstays : d.kind e.inode = some .dir → e.parent = q)
    (hm : d.Moves d' False e q m) : DirsExact d' := by
  obtain ⟨d₁, hmove, hadj⟩ := hm
  rw [if_neg fun hf => hf.1] at hadj
  have hm' : d.Moves d' (d.kind e.inode = some .dir) e q m := by
    refine ⟨d₁, hmove, ?_⟩
    rw [if_neg fun hc => hc.2 (hstays hc.1)]
    exact hadj
  exact SqliteFs.Db.Off.moves h hshape he hq Iff.rfl hm'

/-- An exchange within a directory, or of directories, or of what is none. -/
lemma DirsExact.exchanges (h : DirsExact d) (he : e ∈ d.entries) (ht : t ∈ d.entries)
    (hne : ¬ (e.parent = t.parent ∧ e.name = t.name))
    (hfree : d.entries.find? (t.parent, Filesystem.swapTmp) = none)
    (heven : e.parent = t.parent ∨ (d.kind e.inode = some .dir ↔ d.kind t.inode = some .dir))
    (hx : Exchanges d d' e t) : DirsExact d' := by
  have hkind := hx.kind_eq he ht hne hfree
  obtain ⟨d₁, d₂, d₃, h₁, ht₁, h₂, htmp₂, h₃, hadj, -, -⟩ := hx.steps he ht hne hfree
  have hkind₁ : ∀ j, d₁.kind j = d.kind j := fun j => by
    rw [SqliteFs.Db.kind, SqliteFs.Db.info_moveEntry he h₁]
    rfl
  have hkind₂ : ∀ j, d₂.kind j = d.kind j := fun j => by
    rw [SqliteFs.Db.kind, SqliteFs.Db.info_moveEntry ht₁ h₂]
    exact hkind₁ j
  have hoff := (((h.moveEntry he h₁).moveEntry ht₁ h₂).moveEntry htmp₂ h₃).adjust hadj
  refine hoff.congr fun j n hn hk => ?_
  have hj : d.kind j = some .dir := by
    rw [← hkind, SqliteFs.Db.kind_of_info hn, hk]
  have hj₁ : d₁.kind j = some .dir := (hkind₁ j).trans hj
  have hj₂ : d₂.kind j = some .dir := (hkind₂ j).trans hj
  simp only [Pi.add_apply, Pi.sub_apply, Pi.zero_apply, SqliteFs.Db.weight_dir hj,
    SqliteFs.Db.weight_dir hj₁, SqliteFs.Db.weight_dir hj₂, hkind₁, hkind₂]
  rcases heven with hp | hk
  · rw [hp]
    ring
  · simp only [hk]
    ring

/-! ### Every effect -/

/-- The effect moves no directory away from or into a place without a directory. -/
def Label.Balanced (d : SqliteFs.Db) : Label → Prop
  | .replaces e q _ o => (∀ t, o = some t → d.kind t.inode ≠ some .dir) ∧
    (d.kind e.inode = some .dir → e.parent = q)
  | .swaps e t =>
    e.parent = t.parent ∨ (d.kind e.inode = some .dir ↔ d.kind t.inode = some .dir)
  | _ => True

/-- The shape of the entries, with exact link counts of directories. -/
structure Core.Counted (c : Core) : Prop where
  shaped : c.names.Shaped
  exact : DirsExact c.names

lemma Core.Counted.effect {c c' : Core} {l : Label} (h : c.Counted) (hl : l.Balanced c.names)
    (he : Effect c l c') : c'.Counted := by
  refine ⟨c.shaped_effect h.shaped he, ?_⟩
  obtain ⟨hshape, hexact⟩ := h
  cases he with
  | quiet hsame _ => exact hexact.sameNames hsame
  | opens hsame => exact hexact.sameNames hsame
  | attaches _ _ ha => exact hexact.attaches hshape ha
  | creates _ _ ha => exact hexact.attaches hshape ha
  | links _ _ hlinks => exact hexact.links hlinks
  | removesDir hr => exact hexact.removesDir hshape hr
  | unlinks hlose => exact hexact.losesName hshape hlose
  | closes _ hc =>
    rcases hc with rfl | ⟨-, -, ⟨n, hn, hzero⟩, hrem⟩
    · exact hexact
    · refine hexact.removesNode (fun x hx => hshape.parent_ne_of_notDir (fun hdir => ?_) hx) hrem
      rw [SqliteFs.Db.kind_of_info hn] at hdir
      exact hexact.nlink_ne_zero hn (Option.some.inj hdir) hzero
  | @replaces d₁ d e q m o _ hmay _ hne hfound _ hclears hmoves =>
    obtain ⟨hover, hstays⟩ := hl
    have hdir : d₁.kind e.inode = some .dir ↔ c.names.kind e.inode = some .dir :=
      hclears.dir_iff fun t ht hk => absurd hk (hover t ht)
    refine DirsExact.moves ?_ (hclears.shaped hshape)
      (hclears.mem_source hshape hfound hmay.1 hne)
      ((hclears.dir_parent hfound).mpr hmay.2.2.1.2) (fun hk => hstays (hdir.mp hk)) hmoves
    cases o with
    | none =>
      obtain rfl : d₁ = c.names := hclears
      exact hexact
    | some t =>
      rcases hclears with hlose | hlose
      · exact absurd hlose.2.1 (hover t rfl)
      · exact hexact.losesName hshape hlose
  | swaps hmay ht hne hfree _ hex => exact hexact.exchanges hmay.1 ht hne hfree hl hex
  | reopens => exact hexact

namespace Filesystem

lemma counted_fresh {s : Filesystem} (h : Fresh s) : s.core.Counted := by
  refine ⟨shaped_fresh h, fun i n hn hk => ?_⟩
  replace hn := (info_fresh h i).symm.trans hn
  split_ifs at hn
  obtain rfl := Option.some.inj hn
  have hzero : s.conn.skeleton.linkCount i .dir = 2 := by
    have hnone : s.conn.skeleton.entries.count
        (fun e => decide (s.conn.skeleton.CountsFor i .dir e)) = 0 :=
      KeyTable.count_eq_zero.mpr fun e he => absurd he ((fresh_tables h).1 e)
    rw [SqliteFs.Db.linkCount, hnone]
    rfl
  exact hzero.symm

/-- The link count of each directory is two more than the number of directories in it. -/
def DirLinksExact (d : Db) : Prop :=
  ∀ row ∈ d.nodes, row.kind = .dir → row.nlink =
    2 + (d.entries.count fun e => e.parent = row.inode ∧ d.kind e.inode = some .dir : ℤ)

lemma dirLinksExact_of_skeleton {d : Db} (h : DirsExact d.skeleton) : DirLinksExact d := by
  intro row hrow hdir
  have hfind : d.nodes.find? row.inode = some row := KeyTable.find?_eq_some.mpr ⟨hrow, rfl⟩
  have hinfo : d.skeleton.info row.inode = some ⟨row.kind, 0, row.nlink⟩ := by
    rw [Db.info_skeleton, hfind]
    rfl
  have hcount := h row.inode _ hinfo hdir
  dsimp only at hcount
  rw [Pi.zero_apply, add_zero, hdir] at hcount
  rw [hcount]
  unfold SqliteFs.Db.linkCount SqliteFs.Db.CountsFor
  simp only [if_true, Db.kind_skeleton, Db.skeleton_entries]

/-- A plain rename that goes through and replaces a directory, or takes one to another parent. -/
def MovesDir (s : Filesystem) (src dst : Str) (noreplace : Bool) : Prop :=
  ∃ e q m o, MayReplace s src dst noreplace e q m o ∧
    ((∃ t, o = some t ∧ s.conn.kind t.inode = some .dir) ∨
      s.conn.kind e.inode = some .dir ∧ e.parent ≠ q)

/-- An exchange that goes through and takes a directory to another parent, with what is no
directory in return. -/
def TradesDir (s : Filesystem) (src dst : Str) : Prop :=
  ∃ e t, MaySwap s src dst e t ∧ e.parent ≠ t.parent ∧
    ¬ (s.conn.kind e.inode = some .dir ↔ s.conn.kind t.inode = some .dir)

/-- The call is a rename that leaves wrong link counts. -/
def Unbalances (s : Filesystem) (call : Call) : Prop :=
  ∃ user env src dst noreplace exchange,
    call = .op user env (.rename src dst noreplace exchange) ∧
      (exchange = false ∧ MovesDir (s.actAs user) src dst noreplace ∨
        (noreplace = false ∧ exchange = true) ∧ TradesDir (s.actAs user) src dst)

lemma balanced_of_asks {s : Filesystem} {call : Call} {l : Label} (hok : ¬ Unbalances s call)
    (hl : call.Asks s l) : l.Balanced s.conn.skeleton := by
  cases call with
  | reopen readonly uid gid =>
    obtain rfl : l = .reopens := hl
    trivial
  | op user env operation =>
    cases l with
    | plain => trivial
    | closes fd => trivial
    | reopens => trivial
    | replaces e q m o =>
      cases operation with
      | rename src dst noreplace exchange =>
        obtain ⟨hplain, hmay⟩ : exchange = false ∧ MayReplace (s.actAs user) src dst noreplace e q m o := hl
        have hmoves : ¬ MovesDir (s.actAs user) src dst noreplace :=
          fun h => hok ⟨user, env, src, dst, noreplace, exchange, rfl, Or.inl ⟨hplain, h⟩⟩
        refine ⟨fun t ht hdir => hmoves ⟨e, q, m, o, hmay, Or.inl ⟨t, ht, ?_⟩⟩, fun hdir => ?_⟩
        · rw [actAs_conn, ← Db.kind_skeleton]
          exact hdir
        · by_contra hne
          refine hmoves ⟨e, q, m, o, hmay, Or.inr ⟨?_, hne⟩⟩
          rw [actAs_conn, ← Db.kind_skeleton]
          exact hdir
      | _ => exact hl.elim
    | swaps e t =>
      cases operation with
      | rename src dst noreplace exchange =>
        obtain ⟨hswap, hmay⟩ : (noreplace = false ∧ exchange = true) ∧
          MaySwap (s.actAs user) src dst e t := hl
        by_contra hodd
        obtain ⟨hne, hodd⟩ := not_or.mp hodd
        refine hok ⟨user, env, src, dst, noreplace, exchange, rfl, Or.inr ⟨hswap, e, t, hmay, hne, ?_⟩⟩
        rw [actAs_conn, ← Db.kind_skeleton, ← Db.kind_skeleton]
        exact hodd
      | _ => exact hl.elim

/-- Along every run without such a rename, the link counts of directories are exact. -/
theorem dirLinks_exact {s : Filesystem} (h : RunsTo (fun s call => ¬ Unbalances s call) s) :
    DirLinksExact s.conn := by
  refine dirLinksExact_of_skeleton (Core.Counted.exact (c := s.core) ?_)
  refine runsTo_core (fun _ => counted_fresh) (fun s call l c hok hl hs he => ?_) h
  exact hs.effect (balanced_of_asks hok hl) he

theorem dirLinks_exact_removedDir : DirLinksExact removedDir.conn ∧
    removedDir.conn.entries.rows = [⟨ROOT_INODE, ['a'], 2⟩, ⟨ROOT_INODE, ['d'], 4⟩] := by
  have hok : ∀ {s : Filesystem} {operation : Op},
      (∀ src dst noreplace exchange, operation ≠ .rename src dst noreplace exchange) →
        ¬ Unbalances s (Call.byRoot operation) := by
    rintro s operation hop ⟨user, env, src, dst, noreplace, exchange, hcall, -⟩
    cases hcall
    exact hop src dst noreplace exchange rfl
  have hthree : RunsTo (fun s call => ¬ Unbalances s call) threeDirs :=
    .next (.next (.next (.start fresh_newFs) (hok (by simp))) (hok (by simp))) (hok (by simp))
  have hexchanged : RunsTo (fun s call => ¬ Unbalances s call) exchangedDirs := by
    refine .next hthree ?_
    rintro ⟨user, env, src, dst, noreplace, exchange, hcall, ⟨hplain, -⟩ | ⟨-, e, t, hmay, -, hodd⟩⟩
    · cases hcall
      cases hplain
    · cases hcall
      obtain ⟨rfl, rfl⟩ := maySwap_threeDirs hmay
      -- Both of them are directories.
      have hkinds : threeDirs.conn.kind 4 = some .dir ∧ threeDirs.conn.kind 3 = some .dir := by
        decide +kernel
      exact hodd (iff_of_true hkinds.1 hkinds.2)
  refine ⟨dirLinks_exact (.next (.next hexchanged ?_) (hok (by simp))), by decide +kernel⟩
  rintro ⟨user, env, src, dst, noreplace, exchange, hcall, ⟨-, e, q, m, o, hmay, hmoves⟩ | ⟨⟨-, hswap⟩, -⟩⟩
  · cases hcall
    have hsource : resolveParentAs exchangedDirs.conn 0 0 ['/', 'b'] = .ok (ROOT_INODE, ['b']) := by
      decide +kernel
    have htarget : resolveParentAs exchangedDirs.conn 0 0 ['/', 'd'] = .ok (ROOT_INODE, ['d']) := by
      decide +kernel
    obtain ⟨hparent, -⟩ := Prod.mk.inj (Except.ok.inj (hsource.symm.trans hmay.source))
    obtain ⟨rfl, rfl⟩ := Prod.mk.inj (Except.ok.inj (htarget.symm.trans hmay.target))
    rcases hmoves with ⟨t, rfl, -⟩ | ⟨-, hne⟩
    · have hfree : exchangedDirs.conn.entries.find? (ROOT_INODE, ['d']) = none := by decide +kernel
      cases hfree.symm.trans hmay.found
    · exact hne hparent.symm
  · cases hcall
    cases hswap

/-- The directory `/a/c` after it went to `/b/c`. -/
def acrossDirs : Filesystem :=
  newFsAfter [.mkdir ['/', 'a'] 0o755, .mkdir ['/', 'b'] 0o755, .mkdir ['/', 'a', '/', 'c'] 0o755,
    .rename ['/', 'a', '/', 'c'] ['/', 'b', '/', 'c'] false false]

/-- The directory that it left still has a link count of three. -/
theorem not_dirLinks_exact : Reachable acrossDirs ∧ ¬ DirLinksExact acrossDirs.conn := by
  refine ⟨reachable_newFsAfter _, fun h => ?_⟩
  have hrow : (⟨2, .dir, 0o755, 0, 0, 0, 0, 0, 0, 3⟩ : NodesRow) ∈ acrossDirs.conn.nodes := by
    refine (KeyTable.find?_eq_some (k := 2)).mp ?_ |>.1
    decide +kernel
  have hcount : (acrossDirs.conn.entries.count fun e =>
      e.parent = 2 ∧ acrossDirs.conn.kind e.inode = some .dir) = 0 := by decide +kernel
  have hlinks := h _ hrow rfl
  rw [hcount] at hlinks
  exact absurd hlinks (by decide)

end Filesystem

end Python

end SqliteFs

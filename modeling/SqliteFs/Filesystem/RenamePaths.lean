import SqliteFs.Filesystem.Mirror

/-!
# Rename as a move of paths

`rename` changes one row of `entries`. In a tree this moves everything at and below the source to the
target, and leaves every other path and what belongs to the nodes alone.
-/

namespace SqliteFs

open PathMap Txn

namespace Db

variable {d d' : Db} {e t : EntryRow} {i p q : ℕ} {l l' : List Str} {m : Str} {st : Statement}

/-! ### Paths and views -/

lemma Tree.view_eq_some (h : d.Tree) : (∃ k, d.view l = some (k, i)) ↔ d.Leads ROOT_INODE l i := by
  unfold view shown
  constructor
  · rintro ⟨k, hk⟩
    obtain ⟨j, hj, hkind⟩ := Option.bind_eq_some_iff.mp hk
    obtain ⟨k', -, heq⟩ := Option.map_eq_some_iff.mp hkind
    obtain ⟨rfl, rfl⟩ := Prod.mk.inj heq
    exact follow_eq_some.mp hj
  · intro hl
    obtain ⟨n, hn⟩ := hasNode_iff.mp (h.hasNode_of_named hl.named)
    refine ⟨n.kind, ?_⟩
    rw [follow_eq_some.mpr hl, Option.bind_some, kind_of_info hn, Option.map_some]

/-- Where the views agree, the names lead to the same places. -/
lemma leads_congr_of_view (h : d.Tree) (h' : d'.Tree) (hview : d'.view l' = d.view l) :
    d'.Leads ROOT_INODE l' i ↔ d.Leads ROOT_INODE l i := by
  rw [← h.view_eq_some, ← h'.view_eq_some, hview]

/-- Nothing is below an entry of a leaf. -/
lemma not_prefix_of_leaf (hleaf : ∀ x ∈ d.entries, x.parent ≠ i) (hl : d.Leads ROOT_INODE l i)
    (hl' : d.Leads ROOT_INODE l' q) (hne : i ≠ q) : ¬ l <+: l' := by
  rintro ⟨r, rfl⟩
  obtain ⟨j, hj, hr⟩ := Leads.append_iff.mp hl'
  obtain rfl := hj.unique hl
  cases r with
  | nil => exact hne hr
  | cons n r =>
    obtain ⟨x, hx, hparent, -⟩ := hr
    exact hleaf x hx hparent

/-! ### What a node is -/

/-- The node is the same in `d'` as in `d`, but for its times, its links and its names. -/
structure SameNode (d d' : Db) (i : ℕ) : Prop where
  row : ∃ r r', d.nodes.find? i = some r ∧ d'.nodes.find? i = some r' ∧ r'.kind = r.kind ∧
    r'.mode = r.mode ∧ r'.uid = r.uid ∧ r'.gid = r.gid ∧ r'.size = r.size
  blobs : d'.blobs.select (fun b => b.inode = i) = d.blobs.select fun b => b.inode = i
  xattrs : ∀ x, x.inode = i → (x ∈ d'.xattrs ↔ x ∈ d.xattrs)
  symlinks : ∀ x, x.inode = i → (x ∈ d'.symlinks ↔ x ∈ d.symlinks)

lemma SameNode.refl (hi : d.hasNode i = true) : d.SameNode d i := by
  obtain ⟨r, hr⟩ := Option.isSome_iff_exists.mp hi
  exact ⟨⟨r, r, hr, hr, rfl, rfl, rfl, rfl, rfl⟩, rfl, fun _ _ => Iff.rfl, fun _ _ => Iff.rfl⟩

lemma SameNode.trans {d'' : Db} (h : d.SameNode d' i) (h' : d'.SameNode d'' i) : d.SameNode d'' i := by
  obtain ⟨r, r₁, hr, hr₁, hkind, hmode, huid, hgid, hsize⟩ := h.row
  obtain ⟨r₁', r', hr₁', hr', hkind', hmode', huid', hgid', hsize'⟩ := h'.row
  obtain rfl := Option.some.inj (hr₁.symm.trans hr₁')
  exact ⟨⟨r, r', hr, hr', hkind'.trans hkind, hmode'.trans hmode, huid'.trans huid, hgid'.trans hgid,
    hsize'.trans hsize⟩, h'.blobs.trans h.blobs, fun x hx => (h'.xattrs x hx).trans (h.xattrs x hx),
    fun x hx => (h'.symlinks x hx).trans (h.symlinks x hx)⟩

end Db

/-- The statement is about names, links and times, or deletes a node. -/
def Statement.Rearranges : Statement → Prop
  | .deleteEntry .. | .moveEntry .. | .changeNlink .. | .updateTimes .. | .deleteNode _ => True
  | _ => False

namespace Statement

variable {d d' : Db} {st : Statement} {i : ℕ}

/-- Such a statement leaves a node as it is, or deletes it. -/
lemma Does.sameNode (h : st.Does d d') (hst : st.Rearranges) :
    d'.hasNode i = false ∨ d.SameNode d' i := by
  cases hi' : d'.hasNode i with
  | false => exact Or.inl rfl
  | true =>
    right
    obtain ⟨r', hr'⟩ := Option.isSome_iff_exists.mp hi'
    refine ⟨?_, ?_, fun x hx => ⟨fun hmem => ?_, fun hmem => ?_⟩,
      fun x hx => ⟨fun hmem => ?_, fun hmem => ?_⟩⟩
    · rcases h.find?_nodes hr' with ⟨rfl, -⟩ | ⟨r, hr, hfrom⟩
      · exact hst.elim
      · rcases hfrom.owner with ⟨hmode, huid, hgid⟩ | ⟨mode, uid, gid, c, rfl, -⟩
        · rcases hfrom.size with hsize | ⟨size, m, c, rfl, -⟩
          · exact ⟨r, r', hr, hr', hfrom.kind, hmode, huid, hgid, hsize⟩
          · exact hst.elim
        · exact hst.elim
    · rcases h.select_blobs (i := i) with hgone | hrewrites | hsame
      · rw [hi'] at hgone
        cases hgone
      · cases st <;> first | exact hst.elim | exact hrewrites.elim
      · exact hsame
    · rcases h.mem_xattrs hmem with hmem | ⟨rfl, -⟩ | ⟨rfl, -⟩
      · exact hmem
      · exact hst.elim
      · exact hst.elim
    · rcases h.mem_xattrs_of_mem hmem with hmem | ⟨value, rfl⟩ | rfl | ⟨-, hgone⟩
      · exact hmem
      · exact hst.elim
      · exact hst.elim
      · rw [hx, hi'] at hgone
        cases hgone
    · rcases h.mem_symlinks hmem with hmem | ⟨rfl, -⟩
      · exact hmem
      · exact hst.elim
    · rcases h.mem_symlinks_of_mem hmem with hmem | hgone
      · exact hmem
      · rw [hx, hi'] at hgone
        cases hgone

end Statement

namespace Filesystem

variable {s : Filesystem} {clock : Clock} {src dst path : Str} {e t : EntryRow} {i q : ℕ} {m : Str}
  {user : Option (UInt32 × UInt32)}

lemma Op.Issues.rearranges {st : Statement} (h : (Op.rename src dst).Issues s st) :
    st.Rearranges := by
  cases st <;> first | exact trivial | exact h.elim

/-- A node that is there before and after `rename` is the same. -/
lemma rename_sameNode (hbounds : s.conn.SeqBounds) (hi : s.conn.hasNode i = true)
    (hi' : ((Call.op user clock (.rename src dst)).exec s).conn.hasNode i = true) :
    s.conn.SameNode ((Call.op user clock (.rename src dst)).exec s).conn i := by
  have h := (Call.writes user clock (.rename src dst) s).gone_or
    (P := fun d => s.conn.SameNode d i) (hbounds i hi) (.refl hi)
    fun st d d' hissues hst _ hd => (hst.sameNode hissues.rearranges).imp_right hd.trans
  rw [hi'] at h
  exact h.resolve_left (by decide)

/-! ### The move -/

/-- The components of `path` begin with those of `base`. -/
def ComponentPrefix (base path : Str) : Prop :=
  ∃ l l', parsePath base = .ok l ∧ parsePath path = .ok l' ∧ l <+: l'

/-- What is at `src` and below it has moved to `dst`, and the rest is as it was. -/
structure MovesSubtree (s s' : Filesystem) (src dst : Str) : Prop where
  moved : ∃ i, resolveToInode s.conn src = .ok i ∧ resolveToInode s'.conn dst = .ok i
  gone : ∀ i, resolveToInode s'.conn src ≠ .ok i
  suffixes : ∀ suffix, (below src suffix).len ≤ PATH_MAX → (below dst suffix).len ≤ PATH_MAX →
    ∀ i, resolveToInode s'.conn (below dst suffix) = .ok i ↔
      resolveToInode s.conn (below src suffix) = .ok i
  others : ∀ path, ¬ ComponentPrefix src path → ¬ ComponentPrefix dst path →
    ∀ i, resolveToInode s'.conn path = .ok i ↔ resolveToInode s.conn path = .ok i
  nodes : ∀ i, s.conn.hasNode i = true → s'.conn.hasNode i = true → s.conn.SameNode s'.conn i

/-- The view of the database has moved. -/
structure ViewMoves (d d' : Db) (src dst : Str) (c c' : List Str) : Prop where
  source : parsePath src = .ok c
  target : parsePath dst = .ok c'
  nonempty : c ≠ []
  nonempty' : c' ≠ []
  found : ∃ i, d.Leads ROOT_INODE c i
  apart : ¬ c' <+: c
  view : d'.view = move d.view c c'

/-- Where the view has moved, so have the paths. -/
lemma ViewMoves.resolves {d d' : Db} {c c' : List Str} (h : d.Tree) (h' : d'.Tree)
    (hv : ViewMoves d d' src dst c c') :
    (∃ i, resolveToInode d src = .ok i ∧ resolveToInode d' dst = .ok i) ∧
      (∀ i, resolveToInode d' src ≠ .ok i) ∧
      (∀ suffix, (below src suffix).len ≤ PATH_MAX → (below dst suffix).len ≤ PATH_MAX →
        ∀ i, resolveToInode d' (below dst suffix) = .ok i ↔
          resolveToInode d (below src suffix) = .ok i) ∧
      ∀ path, ¬ ComponentPrefix src path → ¬ ComponentPrefix dst path →
        ∀ i, resolveToInode d' path = .ok i ↔ resolveToInode d path = .ok i := by
  have hbelow : ∀ r i, d'.Leads ROOT_INODE (c' ++ r) i ↔ d.Leads ROOT_INODE (c ++ r) i := by
    intro r i
    refine Db.leads_congr_of_view h h' ?_
    rw [hv.view, move_dst]
  refine ⟨?_, fun i hi => ?_, fun suffix hlen hlen' i => ?_, fun path hsrc hdst i => ?_⟩
  · obtain ⟨i, hi⟩ := hv.found
    refine ⟨i, (resolveToInode_eq_ok h).mpr ⟨c, hv.source, hi⟩,
      (resolveToInode_eq_ok h').mpr ⟨c', hv.target, ?_⟩⟩
    rw [← List.append_nil c', hbelow, List.append_nil]
    exact hi
  · obtain ⟨l, hl, hleads⟩ := (resolveToInode_eq_ok h').mp hi
    obtain rfl := Except.ok.inj (hv.source.symm.trans hl)
    obtain ⟨k, hk⟩ := h'.view_eq_some.mpr hleads
    have hmoved := move_src (m := d.view) (r := []) (by rw [List.append_nil]; exact hv.apart)
    rw [List.append_nil, ← hv.view, hk] at hmoved
    cases hmoved
  · rw [resolveToInode_eq_ok h, resolveToInode_eq_ok h']
    simp only [parsePath_below hv.source hv.nonempty hlen,
      parsePath_below hv.target hv.nonempty' hlen']
    constructor
    · rintro ⟨_, ⟨r, rfl, hr⟩, hl⟩
      exact ⟨_, ⟨r, rfl, hr⟩, (hbelow r i).mp hl⟩
    · rintro ⟨_, ⟨r, rfl, hr⟩, hl⟩
      exact ⟨_, ⟨r, rfl, hr⟩, (hbelow r i).mpr hl⟩
  · rw [resolveToInode_eq_ok h, resolveToInode_eq_ok h']
    refine exists_congr fun l => and_congr_right fun hl => Db.leads_congr_of_view h h' ?_
    rw [hv.view]
    exact move_of_not (fun hpre => hdst ⟨_, _, hv.target, hl, hpre⟩)
      fun hpre => hsrc ⟨_, _, hv.source, hl, hpre⟩

/-- A name in a free place, or at a leaf, is not on the way to another node. -/
lemma not_prefix_of_free {d : Db} {l l' : List Str} (hfree : ∀ x ∈ d.entries, ¬ (x.parent = q ∧ x.name = m))
    (hl : d.Leads ROOT_INODE l q) (hl' : d.Leads ROOT_INODE l' i) : ¬ l ++ [m] <+: l' := by
  rintro ⟨r, rfl⟩
  obtain ⟨j, hj, -⟩ := Db.Leads.append_iff.mp hl'
  obtain ⟨x, hx, hparent, hname, -⟩ := Db.Leads.concat_iff.mp hj
  exact hfree x hx ⟨hparent.unique hl, hname⟩

lemma rename_view (htree : s.conn.Tree) (hnot : ¬ NamesSame s src dst) :
    Prog.RefusesOr (rename clock src dst) s fun o =>
      ∃ c c', ViewMoves s.conn o.state.conn src dst c c' := by
  refine rename_rule s clock (fun _ hsame => absurd hsame hnot) ?_ ?_
  · intro d e q m k _ hmay hfree hmoves
    obtain ⟨l, hparse, hl⟩ := (resolveParentAndName_eq_ok htree).mp hmay.source
    obtain ⟨l', hparse', hl'⟩ := (resolveParentAndName_eq_ok htree).mp hmay.target
    have hfound := hl.concat hmay.move.1
    refine ⟨_, _, hparse, hparse', by simp, by simp, ⟨_, hfound⟩,
      not_prefix_of_free hfree hl' hfound, ?_⟩
    exact hmoves.view htree hmay.move.1 hmay.move.2.2.1 (htree.clear_of_mayMove hmay.move) hfree hl hl'
  · intro d₁ d e t k _ hmay hevicts hmoves
    obtain ⟨l, hparse, hl⟩ := (resolveParentAndName_eq_ok htree).mp hmay.source
    obtain ⟨l', hparse', hl'⟩ := (resolveParentAndName_eq_ok htree).mp hmay.target
    have hfound := hl.concat hmay.move.1
    refine ⟨_, _, hparse, hparse', by simp, by simp, ⟨_, hfound⟩, ?_, ?_⟩
    · exact Db.not_prefix_of_leaf (hevicts.leaf htree.shaped) (hl'.concat hmay.entry) hfound hmay.other
    · exact hevicts.view_moves htree hmay.move hmay.other hmoves hl hl'

/-- Names of one node resolve to it. -/
lemma NamesSame.resolves (htree : s.conn.Tree) (h : NamesSame s src dst) (hne : src ≠ dst) :
    ∃ i, resolveToInode s.conn src = .ok i ∧ resolveToInode s.conn dst = .ok i := by
  obtain ⟨e, he, t, ht, hsame, hsrc, hdst⟩ := h.resolve_left hne
  obtain ⟨l, hparse, hl⟩ := (resolveParentAndName_eq_ok htree).mp hsrc
  obtain ⟨l', hparse', hl'⟩ := (resolveParentAndName_eq_ok htree).mp hdst
  refine ⟨e.inode, (resolveToInode_eq_ok htree).mpr ⟨_, hparse, hl.concat he⟩,
    (resolveToInode_eq_ok htree).mpr ⟨_, hparse', ?_⟩⟩
  rw [← hsame]
  exact hl'.concat ht

/-- `rename` moves one subtree, and nothing else. -/
theorem rename_moves (h : Reachable s) {reply : Reply}
    (hok : ((Call.op user clock (.rename src dst)).outcome s).result = .ok reply) (hne : src ≠ dst)
    (hother : ∀ i, resolveToInode s.conn src = .ok i → resolveToInode s.conn dst ≠ .ok i) :
    MovesSubtree s ((Call.op user clock (.rename src dst)).exec s) src dst := by
  have htree : s.conn.Tree := (rooted_runsTo h).tree
  have htree' : ((Call.op user clock (.rename src dst)).exec s).conn.Tree :=
    (rooted_runsTo (.next h trivial)).tree
  have hnot : ¬ NamesSame (s.actAs user) src dst := by
    intro hsame
    obtain ⟨i, hi, hi'⟩ := hsame.resolves (by rw [actAs_conn]; exact htree) hne
    rw [actAs_conn] at hi hi'
    exact hother i hi hi'
  have hconn : ((Call.op user clock (.rename src dst)).exec s).conn =
      (rename clock src dst (s.actAs user)).state.conn := by
    rw [exec_op, asUser_conn, Op.run, answer_apply]
  have hresult : ∃ u, (rename clock src dst (s.actAs user)).result = .ok u := by
    rw [outcome_op, asUser_result, Op.run, answer_apply] at hok
    cases hrun : (rename clock src dst (s.actAs user)).result with
    | error x =>
      rw [hrun] at hok
      cases hok
    | ok u => exact ⟨u, rfl⟩
  have hview : Prog.RefusesOr (rename clock src dst) (s.actAs user) fun o =>
      ∃ c c', ViewMoves (s.actAs user).conn o.state.conn src dst c c' :=
    rename_view (by rw [actAs_conn]; exact htree) hnot
  rcases hview with ⟨x, hx⟩ | ⟨c, c', hview⟩
  · rw [hx] at hresult
    obtain ⟨u, hu⟩ := hresult
    cases hu
  · rw [actAs_conn, ← hconn] at hview
    obtain ⟨hmoved, hgone, hsuffixes, hothers⟩ := hview.resolves htree htree'
    exact ⟨hmoved, hgone, hsuffixes, hothers,
      fun i => rename_sameNode (seqBounds_run (fun _ => seqBounds_fresh) h)⟩

/-- Two directories, one with a file below it. -/
def twoDirs : Filesystem :=
  newFsAfter [.mkdir ['/', 'a'] 0o755, .mkdir ['/', 'b'] 0o755,
    .create ['/', 'a', '/', 'f'] Libc.O_RDWR 0o644]

/-- The directory takes the place of the other one. -/
theorem rename_moves_twoDirs : MovesSubtree twoDirs
    ((Call.byRoot (.rename ['/', 'a', '/'] ['/', 'b'])).exec twoDirs) ['/', 'a', '/'] ['/', 'b'] := by
  have hsrc : resolveToInode twoDirs.conn ['/', 'a', '/'] = .ok 2 := by decide +kernel
  have hdst : resolveToInode twoDirs.conn ['/', 'b'] = .ok 3 := by decide +kernel
  have hok : ((Call.byRoot (.rename ['/', 'a', '/'] ['/', 'b'])).outcome twoDirs).result =
      .ok .unit := by decide +kernel
  refine rename_moves (reachable_newFsAfter _) hok (by decide) fun i hi hi' => ?_
  rw [hsrc] at hi
  rw [hdst] at hi'
  obtain rfl := Except.ok.inj hi
  exact absurd (Except.ok.inj hi') (by decide)

end Filesystem

end SqliteFs

import SqliteFs.Filesystem.Unlink

/-!
# A file with many names

Nothing bounds the number of names of a file. Linking one file again and again, under names that are
written like numbers, gives it any number of names below a bound far above the range of the
link counts that the program reads.
-/

namespace SqliteFs

open Txn

/-! ### Paths with one component -/

section OneComponent
variable {name : Str}

/-- A name that may stand alone after the root. -/
structure PlainName (name : Str) : Prop where
  long : 2 < name.length
  short : name.len ≤ NAME_MAX
  noSlash : ∀ c ∈ name, c ≠ '/'
  noNul : ∀ c ∈ name, c ≠ '\x00'

lemma parsePath_single (h : PlainName name) : parsePath ('/' :: name) = .ok [name] := by
  have hlen : Str.len ('/' :: name) ≤ PATH_MAX := by
    have hshort := h.short
    unfold Str.len at hshort ⊢
    rw [List.map_cons, List.sum_cons]
    have hslash : '/'.utf8Size = 1 := by decide
    unfold NAME_MAX at hshort
    unfold PATH_MAX
    omega
  have hne : name ≠ [] := by
    rintro rfl
    exact absurd h.long (by decide)
  have hstrip : stripSlash name = name := by
    refine if_neg fun hlast => ?_
    exact h.noSlash '/' (List.mem_of_getLast? hlast) rfl
  have hsplit : name.splitOn '/' = [name] :=
    List.splitOnP_eq_singleton fun c hc => by simpa using h.noSlash c hc
  have hdots : ¬ (name = ['.'] ∨ name = ['.', '.']) := by
    rintro (rfl | rfl)
    · exact absurd h.long (by decide)
    · exact absurd h.long (by decide)
  have hcheck : checkComponent ('/' :: name) name = .ok name := by
    unfold checkComponent
    rw [if_neg hne, if_neg hdots, if_neg fun hc => h.noNul _ hc rfl, if_neg (not_lt.mpr h.short)]
  unfold parsePath
  rw [if_neg (List.cons_ne_nil _ _), if_neg (not_lt.mpr hlen), List.head?_cons,
    if_neg (not_not.mpr rfl), if_neg fun hc => hne (List.cons.inj hc).2, List.tail_cons, hstrip,
    hsplit, List.mapM_cons, hcheck, List.mapM_nil]
  rfl

lemma resolveParentAndName_single (d : Db) (h : PlainName name) :
    Filesystem.resolveParentAndName d ('/' :: name) = .ok (ROOT_INODE, name) := by
  unfold Filesystem.resolveParentAndName
  rw [parsePath_single h]
  rfl

end OneComponent

/-! ### Names written like numbers -/

/-- The binary digits of `k`, as many as `linkDigits`. -/
def linkDigits : ℕ := 40

def linkName (k : ℕ) : Str := (List.range linkDigits).map fun i => if k.testBit i then '1' else '0'

lemma mem_linkName {k : ℕ} {c : Char} (h : c ∈ linkName k) : c = '1' ∨ c = '0' := by
  obtain ⟨i, -, rfl⟩ := List.mem_map.mp h
  split_ifs
  · exact Or.inl rfl
  · exact Or.inr rfl

lemma plainName_linkName (k : ℕ) : PlainName (linkName k) := by
  have hlength : (linkName k).length = linkDigits := by
    rw [linkName, List.length_map, List.length_range]
  refine ⟨?_, ?_, ?_, ?_⟩
  · rw [hlength]
    decide
  · have hsize : (linkName k).map Char.utf8Size = List.replicate linkDigits 1 := by
      refine List.eq_replicate_iff.mpr ⟨by rw [List.length_map, hlength], fun n hn => ?_⟩
      obtain ⟨c, hc, rfl⟩ := List.mem_map.mp hn
      rcases mem_linkName hc with rfl | rfl
      · decide
      · decide
    rw [Str.len, hsize]
    decide
  · intro c hc
    rcases mem_linkName hc with rfl | rfl
    · decide
    · decide
  · intro c hc
    rcases mem_linkName hc with rfl | rfl
    · decide
    · decide

lemma linkName_injective {j k : ℕ} (hj : j < 2 ^ linkDigits) (hk : k < 2 ^ linkDigits)
    (h : linkName j = linkName k) : j = k := by
  refine Nat.eq_of_testBit_eq fun i => ?_
  by_cases hi : i < linkDigits
  · have hdigit := List.map_inj_left.mp h i (List.mem_range.mpr hi)
    cases hji : j.testBit i <;> cases hki : k.testBit i
    · rfl
    · simp [hji, hki] at hdigit
    · simp [hji, hki] at hdigit
    · rfl
  · have hle : 2 ^ linkDigits ≤ 2 ^ i := Nat.pow_le_pow_right (by decide) (not_lt.mp hi)
    rw [Nat.testBit_lt_two_pow (hj.trans_le hle), Nat.testBit_lt_two_pow (hk.trans_le hle)]

/-! ### Linking one file again and again -/

/-- The nodes of `d'` have the kinds and modes they have in `d`. -/
def Db.SameModes (d d' : Db) : Prop :=
  ∀ j, (d'.nodes.find? j).map (fun r => (r.kind, r.mode))
    = (d.nodes.find? j).map fun r => (r.kind, r.mode)

section SameModes
variable {d d' : Db}

lemma Db.SameModes.updateNode (i : ℕ) {f : NodesRow → NodesRow} {hf : ∀ r, (f r).inode = r.inode}
    (hkind : ∀ r, (f r).kind = r.kind) (hmode : ∀ r, (f r).mode = r.mode) :
    d.SameModes (d.updateNode i f hf) := by
  intro j
  unfold Db.updateNode
  rw [KeyTable.find?_updateAt]
  split_ifs
  · rw [Option.map_map]
    congr 1
    funext r
    simp only [Function.comp_apply, hkind, hmode]
  · rfl

lemma Db.SameModes.find? (h : d.SameModes d') {j : ℕ} {r : NodesRow}
    (hr : d.nodes.find? j = some r) :
    ∃ r', d'.nodes.find? j = some r' ∧ r'.kind = r.kind ∧ r'.mode = r.mode := by
  have hj := h j
  rw [hr] at hj
  obtain ⟨r', hr', heq⟩ := Option.map_eq_some_iff.mp hj
  obtain ⟨hkind, hmode⟩ := Prod.mk.inj heq
  exact ⟨r', hr', hkind, hmode⟩

end SameModes

namespace Filesystem

section Link
variable {s : Filesystem} {clock : Clock} {target linkPath n : Str} {i p : ℕ}
  {row parentRow : NodeRow}

/-- Where nothing stands against it, `link` adds the entry. -/
lemma link_run (clock : Clock) (hw : s.readonly = false) (htarget : resolveToInode s.conn target = .ok i)
    (hrow : Nodes.get s.conn i = .ok row) (hfile : row.kind ≠ .dir)
    (hparent : resolveParentAndName s.conn linkPath = .ok (p, n))
    (hprow : Nodes.get s.conn p = .ok parentRow) (hdir : parentRow.kind = .dir)
    (haccess : requireAccess parentRow.mode parentRow.uid parentRow.gid s.callerUid s.callerGid
      (Access.W ||| Access.X) = .ok ())
    (hfree : s.conn.entries.find? (p, n) = none) :
    ∃ d, s.conn.entries.insert? ⟨p, n, i⟩ = some d.entries ∧ s.conn.SameModes d ∧
      (link clock target linkPath s).state
        = (emit clock .create linkPath row.kind i none none { s with conn := d }).state := by
  have hnode {j : ℕ} {r : NodeRow} (hj : Nodes.get s.conn j = .ok r) : s.conn.hasNode j = true :=
    Db.hasNode_of_kind (Nodes.kind_of_get hj)
  have hkey : s.conn.entries.find? (Keyed.key (EntryRow.mk p n i)) = none := hfree
  obtain ⟨t, ht⟩ := KeyTable.insert?_isSome.mpr hkey
  have hins : s.conn.insertEntry ⟨p, n, i⟩ = .ok { s.conn with entries := t } :=
    Db.insertEntry_eq_ok.mpr ⟨hnode hprow, hnode hrow, t, ht, rfl⟩
  obtain ⟨m, d₁, hnlink⟩ := Nodes.changeNlink_isOk (d := { s.conn with entries := t })
    (hnode hrow) 1 clock.now
  have htimes : ∃ d₂, Nodes.updateTimes p none (some clock.now) (some clock.now) d₁
      = .ok (⟨⟩, d₂) := ⟨_, rfl⟩
  obtain ⟨d₂, htimes⟩ := htimes
  have hbody : (do
      Entries.insert p n i
      let _ ← Nodes.changeNlink i 1 clock.now
      Nodes.updateTimes p none (some clock.now) (some clock.now)) s.conn = .ok (⟨⟩, d₂) := by
    refine Body.bind_eq_ok.mpr ⟨⟨⟩, _, Entries.insert_eq_ok.mpr hins, ?_⟩
    exact Body.bind_eq_ok.mpr ⟨m, d₁, hnlink, htimes⟩
  refine ⟨d₂, ?_, ?_, ?_⟩
  · rw [ht, (Nodes.updateTimes_ok htimes).entries, (Nodes.changeNlink_ok hnlink).1.entries]
  · have h1 : s.conn.SameModes d₁ := by
      have hd₁ := (Body.ask_eq_ok.mp (update_bind_eq_ok.mp hnlink)).2
      rw [hd₁]
      exact Db.SameModes.updateNode (d := { s.conn with entries := t }) i (fun _ => rfl) fun _ => rfl
    have h2 : d₁.SameModes d₂ := by
      unfold Nodes.updateTimes at htimes
      rw [if_neg (by simp)] at htimes
      rw [update_eq_ok.mp htimes]
      exact Db.SameModes.updateNode p (fun _ => rfl) fun _ => rfl
    exact fun j => (h2 j).trans (h1 j)
  · unfold link
    rw [requireWritable_bind hw, resolve_bind htarget, getNode_bind hrow, require_bind hfile,
      resolveParent_bind hparent]
    dsimp only
    rw [getNode_bind hprow, require_bind hdir, requireAccessTo_bind haccess, tx_bind hw hbody]

end Link

/-- After `k` more links, the file `/f` of the inode 2 has `k + 1` names, and nothing has it open. -/
structure Linked (k : ℕ) (s : Filesystem) : Prop where
  writable : s.readonly = false
  byRoot : s.callerUid = 0
  rootRow : ∃ r, s.conn.nodes.find? ROOT_INODE = some r ∧ r.kind = .dir ∧ r.mode = 0o755
  fileRow : ∃ r, s.conn.nodes.find? 2 = some r ∧ r.kind = .file
  name : (⟨ROOT_INODE, ['f'], 2⟩ : EntryRow) ∈ s.conn.entries
  names : s.conn.names 2 = k + 1
  free : ∀ j, k ≤ j → j < 2 ^ linkDigits → s.conn.entries.find? (ROOT_INODE, linkName j) = none
  closed : s.fdtable.openCount 2 = 0

/-- The next link. -/
def linkOp (k : ℕ) : Op := .link ['/', 'f'] ('/' :: linkName k)

lemma Linked.link {k : ℕ} {s : Filesystem} (h : Linked k s) (hk : k < 2 ^ linkDigits) :
    Linked (k + 1) ((Call.byRoot (linkOp k)).exec s) := by
  obtain ⟨r, hr, hrdir, hrmode⟩ := h.rootRow
  obtain ⟨f, hf, hffile⟩ := h.fileRow
  have htarget : resolveToInode s.conn ['/', 'f'] = .ok 2 := by
    have hget : Entries.get s.conn ROOT_INODE ['f'] = .ok ⟨ROOT_INODE, ['f'], 2⟩ :=
      Entries.get_eq_ok.mpr ⟨h.name, rfl, rfl⟩
    have hparse : parsePath ['/', 'f'] = .ok [['f']] := by decide
    unfold resolveToInode
    rw [hparse]
    change walk s.conn ['/', 'f'] ROOT_INODE [['f']] = .ok 2
    rw [walk, hget]
    rfl
  have haccess : requireAccess r.read.mode r.read.uid r.read.gid s.callerUid s.callerGid
      (Access.W ||| Access.X) = .ok () := by
    rw [requireAccess_eq_ok, h.byRoot]
    change checkAccess r.mode r.uid r.gid 0 s.callerGid _ = true
    rw [hrmode]
    rfl
  obtain ⟨d, hins, hmodes, hrun⟩ := link_run (s := s) ⟨0, 0⟩ h.writable htarget
    (Nodes.get_eq_ok.mpr ⟨f, hf, rfl⟩) (by change f.kind ≠ _; rw [hffile]; decide)
    (resolveParentAndName_single _ (plainName_linkName k)) (Nodes.get_eq_ok.mpr ⟨r, hr, rfl⟩)
    hrdir haccess (h.free k le_rfl hk)
  have hexec : (Call.byRoot (linkOp k)).exec s
      = (emit ⟨0, 0⟩ .create ('/' :: linkName k) f.kind 2 none none { s with conn := d }).state := by
    rw [Call.byRoot, exec_op, linkOp, Op.run]
    refine Eq.trans ?_ hrun
    exact congrArg Outcome.state (answer_apply _ _)
  obtain ⟨r', hr', hrdir', hrmode'⟩ := hmodes.find? hr
  obtain ⟨f', hf', hffile', -⟩ := hmodes.find? hf
  rw [hexec]
  refine ⟨h.writable, h.byRoot, ⟨r', hr', hrdir'.trans hrdir, hrmode'.trans hrmode⟩,
    ⟨f', hf', hffile'.trans hffile⟩, ?_, ?_, ?_, h.closed⟩
  · exact (KeyTable.mem_insert? hins).mpr (Or.inl h.name)
  · change d.names 2 = k + 1 + 1
    unfold Db.names
    rw [KeyTable.count_insert? hins, if_pos (decide_eq_true rfl)]
    exact congrArg (· + 1) h.names
  · intro j hj hjlt
    change d.entries.find? (ROOT_INODE, linkName j) = none
    rw [KeyTable.find?_insert? hins, if_neg]
    · exact h.free j (Nat.le_of_succ_le hj) hjlt
    · intro hkey
      rw [key_entryRow, Prod.mk.injEq] at hkey
      have hjk := linkName_injective hk hjlt hkey.2
      omega

/-- The file `/f` with `n` more names. -/
def manyLinks (n : ℕ) : Filesystem :=
  newFsAfter ([.create ['/', 'f'] Libc.O_RDWR 0o644, .closeFd 1] ++ (List.range n).map linkOp)

lemma reachable_manyLinks (n : ℕ) : Reachable (manyLinks n) := reachable_newFsAfter _

theorem linked_manyLinks {n : ℕ} (hn : n ≤ 2 ^ linkDigits) : Linked n (manyLinks n) := by
  induction n with
  | zero =>
    have hrows : (manyLinks 0).conn.entries.rows = [⟨ROOT_INODE, ['f'], 2⟩] := by decide +kernel
    refine ⟨by decide +kernel, by decide +kernel, ⟨_, rfl, by decide +kernel, by decide +kernel⟩,
      ⟨_, rfl, by decide +kernel⟩, ?_, by decide +kernel, ?_, by decide +kernel⟩
    · rw [KeyTable.mem_def, hrows]
      exact List.mem_singleton.mpr rfl
    · intro j _ _
      refine KeyTable.find?_eq_none.mpr fun r hr hkey => ?_
      rw [KeyTable.mem_def, hrows, List.mem_singleton] at hr
      subst hr
      have hname : ['f'] = linkName j := (Prod.mk.inj hkey).2
      have hmem : 'f' ∈ linkName j := hname ▸ List.mem_singleton.mpr rfl
      rcases mem_linkName hmem with hc | hc
      · exact absurd hc (by decide)
      · exact absurd hc (by decide)
  | succ n ih =>
    have hstep : manyLinks (n + 1) = (Call.byRoot (linkOp n)).exec (manyLinks n) := by
      unfold manyLinks
      rw [List.range_succ, List.map_append, ← List.append_assoc]
      exact newFsAfter_concat _ _
    rw [hstep]
    exact (ih (Nat.le_of_succ_le hn)).link hn

end Filesystem

end SqliteFs

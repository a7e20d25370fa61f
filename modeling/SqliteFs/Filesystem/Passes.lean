import SqliteFs.Filesystem.Success

/-!
# What an operation on a path needs

`rename`, whose transaction depends on what stands at the destination, and then every operation that
takes a path: the conditions under which it returns `Ok`.
-/

namespace SqliteFs

open Txn

namespace Filesystem

variable {s : Filesystem} {clock : Clock} {path : Str} {i p : ℕ}

/-! ### rename -/

section Rename
variable {src dst : Str} {e t : EntryRow} {q : ℕ} {m : Str} {srcRow : NodeRow} {d d' : Db}

/-- The entry `t` may make room for the entry `e`: it has the same kind of node, if it is a
directory it is empty, and if it is not, then the count that reads as zero without it is zero. -/
structure MayEvict (s : Filesystem) (e t : EntryRow) : Prop where
  sameKind : s.conn.kind t.inode = some .dir ↔ s.conn.kind e.inode = some .dir
  empty : s.conn.kind e.inode = some .dir → ∀ x ∈ s.conn.entries, x.parent ≠ t.inode
  counted : s.conn.kind t.inode ≠ some .dir → s.conn.names t.inode % 2 ^ 32 = 1 →
    s.conn.names t.inode = 1

/-- `rename` gets past its checks, and the entry that stands at its destination, if it is another
inode's, may make room. -/
def MayMoveTo (s : Filesystem) (src dst : Str) : Prop :=
  ∃ e q m, MayRename s src dst e q m ∧ ∀ t ∈ s.conn.entries, t.parent = q → t.name = m →
    t.inode ≠ e.inode → MayEvict s e t

lemma moveTimes_returns (c : Prop) [Decidable c] (d : Db) : Body.Returns (do
    Nodes.updateTimes p none (some clock.now) (some clock.now)
    (if c then Nodes.updateTimes q none (some clock.now) (some clock.now) else pure ⟨⟩)
    Nodes.updateTimes i none none (some clock.now)) d := by
  refine .bind_of (Nodes.updateTimes_returns _ _ _ _ d) fun _ d₁ _ => ?_
  refine .bind_of ?_ fun _ d₂ _ => Nodes.updateTimes_returns _ _ _ _ d₂
  split_ifs
  · exact Nodes.updateTimes_returns _ _ _ _ d₁
  · exact Body.returns_pure _ d₁

/-- A name that is free can be given to an entry. -/
lemma moveSource_returns (he : e ∈ d.entries) (hp : d.hasNode e.parent = true)
    (hq : d.hasNode q = true) (hfree : d.entries.find? (q, m) = none) :
    Body.Returns (moveSource clock srcRow e e.parent e.name q m) d := by
  obtain ⟨t, ht⟩ : ∃ t, d.entries.rekey? (e.parent, e.name) (q, m) (fun r => ⟨q, m, r.inode⟩)
      (fun _ => rfl) = some t := KeyTable.rekey?_isSome fun _ => hfree
  have hmove := (Db.moveEntry_eq_ok_of_mem he).mpr ⟨hq, t, ht, rfl⟩
  refine .bind (Entries.rename_eq_ok (u := ⟨⟩) |>.mpr hmove) ?_
  refine .bind_of ?_ fun _ d₁ _ => moveTimes_returns _ d₁
  split_ifs
  · exact Nodes.changeNlink_returns hp fun _ d₂ h₂ =>
      Nodes.changeNlink_isOk ((h₂.hasNode q).trans hq) 1 clock.now
  · exact Body.returns_pure _ _

/-- The count of a node that is no directory reads as zero without one of its names just if the
number of names is one more than a multiple of 2³². -/
lemma reads_zero_iff (h : s.core.Counted (· ≠ .dir)) {n : NodeInfo} (hn : s.conn.info t.inode = some n)
    (hk : n.kind ≠ .dir) (ht : t ∈ s.conn.entries) :
    U32.ofI64 (n.nlink + -1) = 0 ↔ s.conn.names t.inode % 2 ^ 32 = 1 := by
  rw [nlink_eq_names h hn hk, names_deleteEntry ht]
  unfold U32.ofI64
  omega

lemma names_eq_one (ht : t ∈ s.conn.entries) : s.conn.names t.inode = 1 ↔
    ∀ x ∈ (s.conn.deleteEntry t.parent t.name).entries, x.inode ≠ t.inode := by
  rw [names_deleteEntry ht, ← names_eq_zero]
  omega

lemma overwriteTarget_returns (h : s.core.Counted (· ≠ .dir)) (ht : t ∈ s.conn.entries)
    (hsrc : s.conn.kind e.inode = some srcRow.kind) (hmay : MayEvict s e t) :
    Body.Returns (overwriteTarget clock srcRow p t.parent t.name dst t) s.conn := by
  have htree : s.conn.Tree := h.rooted.tree
  have hnode : s.conn.hasNode t.inode = true := htree.child t ht
  obtain ⟨n, hn⟩ := Db.hasNode_iff.mp hnode
  obtain ⟨dstRow, hget, hdst⟩ := Nodes.get_of_kind (Db.kind_of_info hn)
  have hkind : dstRow.kind = .dir ↔ srcRow.kind = .dir := by
    have hsame := hmay.sameKind
    rwa [Db.kind_of_info hn, hsrc, Option.some.injEq, Option.some.injEq, ← hdst] at hsame
  have hempty : srcRow.kind = .dir → Entries.count s.conn t.inode none = 0 := by
    intro hdir
    refine KeyTable.count_eq_zero.mpr fun x hx => decide_eq_false ?_
    exact hmay.empty (hsrc.trans (congrArg some hdir)) x hx
  unfold overwriteTarget
  refine .bind (Body.ask_eq_ok.mpr ⟨hget, rfl⟩) (.bind (a := ()) (Body.ask_eq_ok.mpr ⟨?_, rfl⟩) ?_)
  · by_cases hdir : srcRow.kind = .dir
    · rw [if_pos ⟨hdir, hkind.mpr hdir⟩, if_neg (by rw [hempty hdir]; exact lt_irrefl 0)]
    · rw [if_neg (fun hc => hdir hc.1), if_neg hdir, if_neg (mt hkind.mp hdir)]
  refine .bind (update_eq_ok (u := ⟨⟩) |>.mpr rfl) ?_
  have hnode₁ : (s.conn.deleteEntry t.parent t.name).hasNode t.inode = true := hnode
  refine .bind_of (Nodes.changeNlink_isOk hnode₁ _ _) fun newNlink d₁ hd₁ => ?_
  obtain ⟨h₁, n', hn', hnlink⟩ := Nodes.changeNlink_ok hd₁
  obtain rfl : n = n' := Option.some.inj (hn.symm.trans hn')
  refine .bind_of ?_ fun _ d₂ hd₂ => ?_
  · split_ifs
    · refine Nodes.changeNlink_isOk ((h₁.hasNode _).trans ?_) _ _
      exact Db.hasNode_of_kind (d := s.conn) (htree.parentDir t ht)
    · exact Body.returns_pure _ d₁
  have hentries : d₂.entries = (s.conn.deleteEntry t.parent t.name).entries := by
    rw [← h₁.entries]
    split_ifs at hd₂
    · exact (Nodes.changeNlink_ok hd₂).1.entries
    · rw [(Body.pure_eq_ok.mp hd₂).2]
  split_ifs with hzero
  · obtain ⟨d₃, hd₃⟩ : ∃ d₃, d₂.deleteNode t.inode = .ok d₃ := by
      refine Db.deleteNode_isOk fun x hx _ hxi => ?_
      rw [hentries] at hx
      by_cases hdir : n.kind = .dir
      · obtain ⟨hmem, hne⟩ := (Db.mem_deleteEntry ht).mp hx
        refine hne (htree.oneName x hmem t ht hxi ?_)
        rw [hxi, Db.kind_of_info hn, hdir]
      · have hone : s.conn.names t.inode = 1 := by
          refine hmay.counted ?_ ((reads_zero_iff h hn hdir ht).mp (hnlink.symm.trans hzero))
          rw [Db.kind_of_info hn]
          exact mt Option.some.inj hdir
        exact (names_eq_one ht).mp hone x hx hxi
    exact ⟨⟨⟩, d₃, stmt_eq_ok.mpr hd₃⟩
  · exact Body.returns_pure _ d₂

lemma mayEvict_of_evicts (h : s.core.Counted (· ≠ .dir))
    (hv : s.conn.Evicts d (s.conn.kind e.inode = some .dir) p t) : MayEvict s e t := by
  have hleaf := hv.leaf h.rooted.tree.shaped
  obtain ⟨ht, hkind, hempty, n, d₁, hn, hadj, hlast⟩ := hv
  refine ⟨hkind, hempty, fun hdir hnames => (names_eq_one ht).mpr fun x hx => ?_⟩
  rw [Db.kind_of_info hn] at hdir
  rw [if_pos ((reads_zero_iff h hn (fun hk => hdir (congrArg some hk)) ht).mpr hnames)] at hlast
  refine hlast.unnamed x (hadj.entries ▸ hx) ?_
  exact hleaf x ((Db.mem_deleteEntry ht).mp hx).1

/-- Whether `rename` can go through with its transaction. -/
lemma renameBody_returns (h : s.core.Counted (· ≠ .dir)) (hmay : MayRename s src dst e q m)
    (hsrc : s.conn.kind e.inode = some srcRow.kind) :
    Body.Returns (match Entries.get s.conn q m with
      | .ok dstEntry =>
        if dstEntry.inode = e.inode then pure false
        else do
          overwriteTarget clock srcRow e.parent q m dst dstEntry
          moveSource clock srcRow e e.parent e.name q m
          return true
      | .error _ => do
        moveSource clock srcRow e e.parent e.name q m
        return true) s.conn ↔
      ∀ t ∈ s.conn.entries, t.parent = q → t.name = m → t.inode ≠ e.inode → MayEvict s e t := by
  have htree : s.conn.Tree := h.rooted.tree
  have he := hmay.move.1
  have hp : s.conn.hasNode e.parent = true := Db.hasNode_of_kind (htree.parentDir e he)
  have hq : s.conn.hasNode q = true := Db.hasNode_of_kind hmay.move.2.2.1.2
  have hiff : s.conn.kind e.inode = some .dir ↔ srcRow.kind = .dir := by
    rw [hsrc, Option.some.injEq]
  cases hget : Entries.get s.conn q m with
  | error x =>
    have hfree : s.conn.entries.find? (q, m) = none := by
      unfold Entries.get at hget
      cases hfind : s.conn.entries.find? (q, m) with
      | none => rfl
      | some t => rw [hfind] at hget; cases hget
    refine iff_of_true ?_ fun t ht htp htn => ?_
    · exact .bind_of (moveSource_returns he hp hq hfree) fun _ d' _ => Body.returns_pure _ d'
    · rw [KeyTable.find?_eq_none] at hfree
      refine absurd ?_ (hfree t ht)
      rw [key_entryRow, htp, htn]
  | ok t =>
    obtain ⟨ht, rfl, rfl⟩ := Entries.get_eq_ok.mp hget
    have honly : ∀ x ∈ s.conn.entries, x.parent = t.parent → x.name = t.name → x = t := by
      intro x hx hxp hxn
      exact (Db.key_eq_iff ht hx).mp ⟨hxp, hxn⟩
    by_cases hsame : t.inode = e.inode
    · dsimp only
      rw [if_pos hsame]
      refine iff_of_true (Body.returns_pure _ _) fun x hx hxp hxn hne => ?_
      rw [honly x hx hxp hxn] at hne
      exact absurd hsame hne
    · dsimp only
      rw [if_neg hsame]
      constructor
      · intro hr x hx hxp hxn _
        obtain ⟨_, d₁, hevict, -⟩ := Body.returns_bind.mp hr
        rw [honly x hx hxp hxn]
        refine mayEvict_of_evicts (p := e.parent) (d := d₁) h ?_
        simp only [hiff]
        exact overwriteTarget_evicts ht hevict
      · intro hall
        refine .bind_of (overwriteTarget_returns h ht hsrc (hall t ht rfl rfl hsame))
          fun _ d₁ hevict => ?_
        have hv : s.conn.Evicts d₁ (srcRow.kind = .dir) e.parent t := overwriteTarget_evicts ht hevict
        have hmem : ∀ {x}, x ∈ d₁.entries ↔ x ∈ s.conn.entries ∧ x ≠ t := hv.mem_entries htree
        have he₁ : e ∈ d₁.entries := by
          refine hmem.mpr ⟨he, ?_⟩
          rintro rfl
          exact hsame rfl
        have hfree : d₁.entries.find? (t.parent, t.name) = none := by
          refine KeyTable.find?_eq_none.mpr fun x hx hkey => (hmem.mp hx).2 ?_
          rw [key_entryRow, Prod.mk.injEq] at hkey
          exact honly x (hmem.mp hx).1 hkey.1 hkey.2
        have hnode : ∀ {j}, s.conn.kind j = some .dir → j ≠ t.inode → d₁.hasNode j = true :=
          fun hk hj => Db.hasNode_of_kind ((hv.kind_eq hj).trans hk)
        have hp₁ := hnode (htree.parentDir e he) (hv.leaf htree.shaped e he)
        have hq₁ := hnode (htree.parentDir t ht) (hv.leaf htree.shaped t ht)
        exact .bind_of (moveSource_returns he₁ hp₁ hq₁ hfree) fun _ d' _ => Body.returns_pure _ d'

lemma checkSubtree_isOk (hdir : srcRow.kind = .dir →
    e.inode ≠ q ∧ ∃ l, Entries.ancestry d q = .ok l ∧ e.inode ∉ l) :
    checkSubtree d srcRow e q = .ok () := by
  unfold checkSubtree
  split_ifs with hk hq
  · exact absurd hq (hdir hk).1
  · obtain ⟨-, l, hl, hmem⟩ := hdir hk
    rw [hl]
    exact if_neg hmem
  · rfl

lemma rename_returns (h : s.core.Counted (· ≠ .dir)) : Prog.Returns (rename clock src dst) s ↔
    s.readonly = false ∧ (src = dst ∨ MayMoveTo s src dst) := by
  unfold rename
  rw [returns_requireWritable]
  refine and_congr_right fun hw => ?_
  by_cases hne : src = dst
  · rw [if_pos hne]
    exact iff_of_true (Prog.returns_pure _) (Or.inl hne)
  rw [if_neg hne, or_iff_right hne]
  unfold resolveParent getEntry getNode requireAccessTo
  constructor
  · intro hr
    obtain ⟨⟨p, n⟩, hsource, hr⟩ := returns_ask.mp hr
    obtain ⟨e, he, hr⟩ := returns_ask.mp hr
    obtain ⟨hmem, rfl, rfl⟩ := Entries.get_eq_ok.mp he
    obtain ⟨srcRow, hsrc, hr⟩ := returns_ask.mp hr
    obtain ⟨⟨q, m⟩, htarget, hr⟩ := returns_ask.mp hr
    obtain ⟨dstParentRow, hqrow, hr⟩ := returns_ask.mp hr
    obtain ⟨hdir, hr⟩ := returns_require.mp hr
    obtain ⟨srcParentRow, hprow, hr⟩ := returns_ask.mp hr
    obtain ⟨_, hsaccess, hr⟩ := returns_ask.mp hr
    obtain ⟨_, hdaccess, hr⟩ := returns_ask.mp hr
    obtain ⟨_, hcheck, hr⟩ := returns_ask.mp hr
    obtain ⟨_, hget, hr⟩ := returns_ask.mp hr
    cases hget
    have hkind := Nodes.kind_of_get hsrc
    have hmove : s.conn.MayMove e q := by
      refine ⟨hmem, Db.hasNode_of_kind hkind,
        placed_of_get (resolveParentAndName_named htarget) hqrow hdir, fun hk => ?_⟩
      rw [hkind, Option.some.injEq] at hk
      exact checkSubtree_ok hcheck hk
    have hmay : MayRename s src dst e q m :=
      ⟨hw, hne, hsource, htarget, hmove, ⟨_, hprow, hsaccess⟩, ⟨_, hqrow, hdaccess⟩⟩
    obtain ⟨a, d, hd, -⟩ := (returns_tx hw).mp hr
    exact ⟨e, q, m, hmay, (renameBody_returns h hmay hkind).mp ⟨a, d, hd⟩⟩
  · rintro ⟨e, q, m, hmay, hall⟩
    obtain ⟨prow, hprow, hsaccess⟩ := hmay.srcAccess
    obtain ⟨qrow, hqrow, hdaccess⟩ := hmay.dstAccess
    obtain ⟨he, hnode, hplaced, hclear⟩ := hmay.move
    obtain ⟨n, hn⟩ := Db.hasNode_iff.mp hnode
    obtain ⟨srcRow, hsrc, -⟩ := Nodes.get_of_kind (Db.kind_of_info hn)
    have hkind := Nodes.kind_of_get hsrc
    have hdir : qrow.kind = .dir := by
      rw [← Option.some.injEq, ← Nodes.kind_of_get hqrow]
      exact hplaced.2
    refine returns_ask.mpr ⟨(e.parent, e.name), hmay.source, ?_⟩
    refine returns_ask.mpr ⟨e, Entries.get_eq_ok.mpr ⟨he, rfl, rfl⟩, ?_⟩
    refine returns_ask.mpr ⟨srcRow, hsrc, returns_ask.mpr ⟨(q, m), hmay.target, ?_⟩⟩
    refine returns_ask.mpr ⟨qrow, hqrow, returns_require.mpr ⟨hdir, ?_⟩⟩
    refine returns_ask.mpr ⟨prow, hprow, returns_ask.mpr ⟨(), hsaccess, ?_⟩⟩
    refine returns_ask.mpr ⟨(), hdaccess, returns_ask.mpr ⟨(), checkSubtree_isOk fun hk => ?_, ?_⟩⟩
    · exact hclear (hkind.trans (congrArg some hk))
    refine returns_ask.mpr ⟨_, rfl, (returns_tx hw).mpr ?_⟩
    obtain ⟨a, d, hd⟩ := (renameBody_returns h hmay hkind).mpr hall
    refine ⟨a, d, hd, ?_⟩
    split_ifs
    · exact returns_emit
    · exact Prog.returns_pure _

end Rename

/-! ### Every operation -/

/-- The operation looks the path up. -/
def Op.LooksUp : Op → Str → Prop
  | .stat path, p | .readdir path, p | .readlink path, p | .getxattr path _, p
  | .listxattr path, p | .fsyncdir path, p | .mkdir path _, p | .rmdir path, p
  | .create path _ _, p | .open_ path _, p | .unlink path, p | .symlink _ path, p
  | .chmod path _, p | .chown path _ _, p | .utimes path _ _, p | .setxattr path _ _ _, p
  | .removexattr path _, p | .watch path _, p => p = path
  | .link target linkPath, p => p = target ∨ p = linkPath
  -- `rename` of a path to itself returns at once
  | .rename src dst, p => src ≠ dst ∧ (p = src ∨ p = dst)
  | _, _ => False

/-- What an operation that takes a path needs to return. -/
def Op.Passes (s : Filesystem) : Op → Prop
  | .stat path => ∃ i row, Finds s path i row
  | .readdir path | .watch path _ =>
    ∃ i row, Finds s path i row ∧ row.kind = .dir ∧ Allows s row Access.R
  | .readlink path => ∃ i row, Finds s path i row ∧ row.kind = .symlink ∧
      ∃ target, Symlinks.get s.conn i = .ok target
  | .getxattr path name => ∃ i row, Finds s path i row ∧ Allows s row Access.R ∧
      ∃ value, Xattrs.get s.conn i name = .ok value
  | .listxattr path => ∃ i row, Finds s path i row ∧ Allows s row Access.R
  | .fsyncdir path => ∃ i row, Finds s path i row ∧ row.kind = .dir
  | .mkdir path _ | .symlink _ path => ∃ p n, MayAdd s path p n
  | .rmdir path => ∃ e, MayRmdir s path e
  | .create path flags _ =>
    (∃ i row, MayOpenExisting s path flags i row) ∨ ∃ p n, MayAdd s path p n
  | .open_ path flags => ∃ i row, MayOpen s path flags i row ∧
      (flags &&& Libc.O_TRUNC ≠ 0 → row.size = 0 ∨ s.chunkSize ≠ 0)
  | .unlink path => (∃ e row, MayUnlink s path e row) ∧ ¬ WrapsAround s (.unlink path)
  | .link target linkPath =>
    (∃ i row, Finds s target i row ∧ row.kind ≠ .dir) ∧ ∃ p n, MayAdd s linkPath p n
  | .rename src dst => s.readonly = false ∧ (src = dst ∨ MayMoveTo s src dst)
  | .chmod path _ | .utimes path _ _ =>
    s.readonly = false ∧ ∃ i row, Finds s path i row ∧ IsOwner s row
  | .chown path uid gid => s.readonly = false ∧ ∃ i row, Finds s path i row ∧ MayGive s row uid gid
  | .setxattr path name value flags => ∃ i row, MaySetxattr s path name value flags i row
  | .removexattr path name => ∃ i row, MayRemovexattr s path name i row
  | _ => False

/-- An operation on a path returns just if nothing that it needs is missing. -/
theorem Op.returns_iff {operation : Op} (h : s.core.Counted (· ≠ .dir)) (howned : s.conn.Owned)
    (hpath : operation.LooksUp path) :
    Prog.Returns (operation.run clock) s ↔ operation.Passes s := by
  have htree : s.conn.Tree := h.rooted.tree
  cases operation with
  | stat path => exact returns_answer.trans stat_returns
  | readdir path => exact returns_answer.trans (readdir_returns_iff htree)
  | readlink path => exact returns_answer.trans readlink_returns
  | getxattr path name => exact returns_answer.trans getxattr_returns
  | listxattr path => exact returns_answer.trans listxattr_returns
  | fsyncdir path => exact returns_answer.trans fsyncdir_returns
  | mkdir path mode => exact returns_answer.trans mkdir_returns
  | rmdir path => exact returns_answer.trans (rmdir_returns htree)
  | create path flags mode => exact returns_answer.trans create_returns
  | open_ path flags => exact returns_answer.trans open_returns
  | unlink path => exact returns_answer.trans (unlink_returns h)
  | symlink target path => exact returns_answer.trans (symlink_returns howned)
  | link target linkPath => exact returns_answer.trans link_returns
  | rename src dst => exact returns_answer.trans (rename_returns h)
  | chmod path mode => exact returns_answer.trans chmod_returns
  | chown path uid gid => exact returns_answer.trans chown_returns
  | utimes path atimeNs mtimeNs => exact returns_answer.trans utimes_returns
  | setxattr path name value flags => exact returns_answer.trans setxattr_returns
  | removexattr path name => exact returns_answer.trans removexattr_returns
  | watch path recursive => exact returns_answer.trans watch_returns
  | _ => exact hpath.elim

end Filesystem

end SqliteFs

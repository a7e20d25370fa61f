import SqliteFs.Python.Outcomes

/-!
# What a rename of the Python library does

A rename moves its entry over whatever stands at the destination, or it makes two entries change
places. Here are the conditions under which it does, and its effect.
-/

namespace SqliteFs

open Txn

namespace Python

namespace Filesystem

variable {s : Filesystem} {env : Env} {src dst : Str} {noreplace : Bool} {e x : EntryRow}
  {node : NodesRow} {q : ℕ} {m : Str} {t : Option EntryRow}

/-- `rename` gets to its transaction: the entry `e` is to become `(q, m)`, where it finds `t`. -/
structure MayRename (s : Filesystem) (src dst : Str) (e : EntryRow) (q : ℕ) (m : Str)
    (t : Option EntryRow) : Prop where
  writable : s.readonly = false
  source : resolveParentAs s.conn s.uid s.gid src = .ok (e.parent, e.name)
  target : resolveParentAs s.conn s.uid s.gid dst = .ok (q, m)
  entry : e ∈ s.conn.entries
  subtree : ∃ node, Nodes.get s.conn e.inode = .ok node ∧ checkSubtree s.conn node e q = .ok ⟨⟩
  other : ¬ (e.parent = q ∧ e.name = m)
  found : s.conn.entries.find? (q, m) = t

/-- A plain rename goes through. -/
structure MayReplace (s : Filesystem) (src dst : Str) (noreplace : Bool) (e : EntryRow) (q : ℕ)
    (m : Str) (t : Option EntryRow) : Prop extends MayRename s src dst e q m t where
  room : ∀ x, t = some x → noreplace = false ∧
    (s.conn.skeleton.kind x.inode = some .dir → ∀ y ∈ s.conn.entries, y.parent ≠ x.inode)

/-- An exchange goes through. -/
structure MaySwap (s : Filesystem) (src dst : Str) (e t : EntryRow) : Prop
    extends MayRename s src dst e t.parent t.name (some t) where
  free : s.conn.entries.find? (t.parent, swapTmp) = none

lemma checkSubtree_ok {u : PUnit} (hnode : Nodes.get s.conn e.inode = .ok node)
    (h : checkSubtree s.conn node e q = .ok u) (hdir : s.conn.skeleton.kind e.inode = some .dir) :
    e.inode ≠ q ∧ ∃ l, SqliteFs.Entries.ancestry s.conn.skeleton q = .ok l ∧ e.inode ∉ l := by
  have hkind : node.kind = .dir :=
    Option.some.inj ((Nodes.kind_of_get hnode).symm.trans hdir)
  unfold checkSubtree at h
  rw [if_pos hkind] at h
  obtain ⟨l, hl, hcheck⟩ := bind_res_eq_ok.mp h
  obtain ⟨hmem, hne⟩ := not_or.mp (check_eq_ok.mp hcheck)
  exact ⟨hne, l, Nodes.ancestry_skeleton.mp hl, hmem⟩

lemma MayRename.mayMove (h : MayRename s src dst e q m t) : s.conn.skeleton.MayMove e q := by
  obtain ⟨node, hnode, hsub⟩ := h.subtree
  exact ⟨h.entry, SqliteFs.Db.hasNode_of_kind (Nodes.kind_of_get hnode),
    (resolveParentAs_ok h.target).placed, checkSubtree_ok hnode hsub⟩

/-! ### The transaction -/

section Body
variable {d d' : Db} {u : PUnit} {n : ℕ}

lemma replaceTarget_ok (hx : x ∈ d.entries)
    (h : replaceTarget env dst noreplace x.parent x.name x n d = .ok (u, d')) :
    noreplace = false ∧
      (d.skeleton.kind x.inode = some .dir → ∀ y ∈ d.entries, y.parent ≠ x.inode) ∧
      Clears d.skeleton d'.skeleton (some x) := by
  obtain ⟨_, hreplace, h₁⟩ := Body.ask_bind_eq_ok.mp h
  obtain ⟨node, hnode, h₂⟩ := Body.ask_bind_eq_ok.mp h₁
  have hkind := Nodes.kind_of_get hnode
  refine ⟨check_eq_ok.mp hreplace, ?_⟩
  split_ifs at h₂ with hdir
  · obtain ⟨_, hcount, h₃⟩ := Body.ask_bind_eq_ok.mp h₂
    obtain ⟨_, d₁, hdelete, hgone⟩ := Body.bind_eq_ok.mp h₃
    have hempty := empty_of_count (check_eq_ok.mp hcount)
    refine ⟨fun _ => hempty, Or.inl ⟨hx, hdir ▸ hkind, hempty, ?_⟩⟩
    have hsome : d₁.hasNode x.inode = true := by
      rw [← Db.hasNode_skeleton, Entries.delete_ok hdelete]
      exact SqliteFs.Db.hasNode_of_kind hkind
    exact Entries.delete_ok hdelete ▸ Nodes.delete_ok hsome hgone
  · obtain ⟨_, d₁, hdelete, h₃⟩ := Body.bind_eq_ok.mp h₂
    obtain ⟨_, d₂, hlinks, hgc⟩ := Body.bind_eq_ok.mp h₃
    refine ⟨fun hk => absurd (Option.some.inj (hkind.symm.trans hk)) hdir, Or.inr ?_⟩
    exact losesName_of_body hx ⟨_, hkind, hdir⟩ hdelete hlinks .refl hgc

/-- The times that `rename` sets at the end. -/
lemma touches_ok {p : ℕ}
    (h : (touch env p >>= fun _ => if q ≠ p then touch env q else pure ⟨⟩) d = .ok (u, d')) :
    d.skeleton.Adjust d'.skeleton 0 := by
  obtain ⟨_, d₁, h₁, h₂⟩ := Body.bind_eq_ok.mp h
  split_ifs at h₂
  · exact ((touch_ok h₁).trans (touch_ok h₂)).congr (add_zero _)
  · rw [(Body.pure_eq_ok.mp h₂).2]
    exact touch_ok h₁

/-- The move at the end of a plain rename. -/
lemma moves_ok (h : (Entries.rename e.parent e.name q m >>= fun _ => touch env e.parent >>= fun _ =>
      if q ≠ e.parent then touch env q else pure ⟨⟩) d = .ok (u, d')) :
    d.skeleton.Moves d'.skeleton False e q m := by
  obtain ⟨_, d₁, hmove, htouch⟩ := Body.bind_eq_ok.mp h
  refine ⟨d₁.skeleton, Entries.rename_ok hmove, ?_⟩
  rw [if_neg fun hf => hf.1]
  exact touches_ok htouch

lemma renameBody_plain_ok (ht : d.entries.find? (q, m) = t)
    (h : renameBody env dst noreplace false e.parent e.name q m t n d = .ok (u, d')) :
    (∀ x, t = some x → noreplace = false ∧
      (d.skeleton.kind x.inode = some .dir → ∀ y ∈ d.entries, y.parent ≠ x.inode)) ∧
      ∃ d₁, Clears d.skeleton d₁ t ∧ d₁.Moves d'.skeleton False e q m := by
  unfold renameBody at h
  rw [if_neg Bool.false_ne_true] at h
  cases t with
  | none => exact ⟨fun x hx => (nomatch hx), d.skeleton, rfl, moves_ok h⟩
  | some x =>
    obtain ⟨hx, hkey⟩ := KeyTable.find?_eq_some.mp ht
    obtain ⟨rfl, rfl⟩ := Prod.mk.inj hkey
    obtain ⟨_, d₁, hclear, hmove⟩ := Body.bind_eq_ok.mp h
    obtain ⟨hreplace, hempty, hclears⟩ := replaceTarget_ok hx hclear
    refine ⟨fun y hy => ?_, d₁.skeleton, hclears, moves_ok hmove⟩
    obtain rfl := Option.some.inj hy
    exact ⟨hreplace, hempty⟩

lemma renameBody_swap_ok {p : ℕ} {l : Str}
    (h : renameBody env dst noreplace true p l q m t n d = .ok (u, d')) :
    ∃ x, t = some x ∧ ∃ d₁ d₂ d₃, d.skeleton.moveEntry p l q swapTmp = .ok d₁ ∧
      d₁.moveEntry q m p l = .ok d₂ ∧ d₂.moveEntry q swapTmp q m = .ok d₃ ∧
      d₃.Adjust d'.skeleton 0 := by
  unfold renameBody at h
  rw [if_pos rfl] at h
  cases t with
  | none =>
    obtain ⟨_, hmissing, -⟩ := Body.ask_bind_eq_ok.mp h
    cases hmissing
  | some x =>
    obtain ⟨_, d₃, hswap, htouch⟩ := Body.bind_eq_ok.mp h
    obtain ⟨_, d₁, h₁, hrest⟩ := Body.bind_eq_ok.mp hswap
    obtain ⟨_, d₂, h₂, h₃⟩ := Body.bind_eq_ok.mp hrest
    exact ⟨x, rfl, d₁.skeleton, d₂.skeleton, d₃.skeleton, Entries.rename_ok h₁,
      Entries.rename_ok h₂, Entries.rename_ok h₃, touches_ok htouch⟩

end Body

lemma emitMove_core {exchange : Bool} (s : Filesystem) :
    (emitMove env src dst exchange node e t s).state.core = s.core := by
  unfold emitMove emit
  rw [Prog.volatile_bind_ok (a := ⟨⟩) rfl]
  cases t with
  | none => rfl
  | some x =>
    dsimp only
    split_ifs
    · unfold getNode
      generalize hs : ({ s with watchers := _ } : Filesystem) = s'
      cases hx : Nodes.get s'.conn x.inode with
      | error a =>
        rw [ask_bind_error hx, ← hs]
        rfl
      | ok row =>
        rw [ask_bind hx, ← hs]
        rfl
    · rfl

/-- The labels of the effects that `rename` may have. -/
def RenameLabel (s : Filesystem) (src dst : Str) (noreplace exchange : Bool) (l : Label) : Prop :=
  l = .plain ∨
    (exchange = false ∧ ∃ e q m t, l = .replaces e q m t ∧ MayReplace s src dst noreplace e q m t) ∨
    (noreplace = false ∧ exchange = true ∧ ∃ e t, l = .swaps e t ∧ MaySwap s src dst e t)

/-- An entry moves to a free place only. -/
lemma free_of_moveEntry {d d₁ : SqliteFs.Db} {n : Str} (he : e ∈ d.entries)
    (hne : ¬ (e.parent = q ∧ e.name = n)) (h : d.moveEntry e.parent e.name q n = .ok d₁) :
    d.entries.find? (q, n) = none := by
  obtain ⟨-, t, ht, -⟩ := (SqliteFs.Db.moveEntry_eq_ok_of_mem he).mp h
  refine (KeyTable.rekey?_eq_some.mp ht).1 fun hkey => hne ?_
  obtain ⟨rfl, rfl⟩ := Prod.mk.inj hkey
  exact ⟨rfl, rfl⟩

/-- The name that an exchange takes for a while must not be there, not even as its source. -/
lemma free_of_swap {d d₁ d₂ : SqliteFs.Db} (he : e ∈ d.entries) (hx : x ∈ d.entries)
    (hne : ¬ (e.parent = x.parent ∧ e.name = x.name))
    (h₁ : d.moveEntry e.parent e.name x.parent swapTmp = .ok d₁)
    (h₂ : d₁.moveEntry x.parent x.name e.parent e.name = .ok d₂) :
    d.entries.find? (x.parent, swapTmp) = none := by
  by_cases htmp : e.parent = x.parent ∧ e.name = swapTmp
  · obtain ⟨hparent, hname⟩ := htmp
    have hmem : ∀ {y}, y ∈ d₁.entries ↔ (y ∈ d.entries ∧ y ≠ e) ∨ y = ⟨x.parent, swapTmp, e.inode⟩ :=
      SqliteFs.Db.mem_moveEntry he h₁
    have hx₁ : x ∈ d₁.entries := by
      refine hmem.mpr (Or.inl ⟨hx, ?_⟩)
      rintro rfl
      exact hne ⟨rfl, rfl⟩
    rw [hparent, hname] at h₂ hne
    have hfree := free_of_moveEntry hx₁ (fun h => hne ⟨rfl, h.2.symm⟩) h₂
    exact absurd rfl (KeyTable.find?_eq_none.mp hfree _ (hmem.mpr (Or.inr rfl)))
  · exact free_of_moveEntry he htmp h₁

lemma renameUncache_plain (c : KeyTable CachedPath) : renameUncache false node e t c =
    if some node.kind = some .dir then .empty else without c e.inode := by
  unfold renameUncache without
  simp only [Option.some.injEq]
  cases t <;> rfl

lemma renameUncache_swap (c : KeyTable CachedPath) : renameUncache true node e (some x) c =
    if some node.kind = some .dir then .empty else without (without c e.inode) x.inode := by
  unfold renameUncache without
  simp only [Option.some.injEq]
  rfl

/-- Once its transaction is done, `rename` only sees to the cache and the events. -/
lemma changeCache_emitMove_core {exchange : Bool} {f : KeyTable CachedPath → KeyTable CachedPath}
    (s : Filesystem) : ((changeCache f >>= fun _ =>
      emitMove env src dst exchange node e t) s).state.core =
        { s.core with cache := f s.pathCache } := by
  unfold changeCache
  rw [Prog.volatile_bind_ok (a := ⟨⟩) rfl, emitMove_core]
  rfl

lemma rename_does {exchange : Bool} : Does s (RenameLabel s src dst noreplace exchange)
    (rename env src dst noreplace exchange) := by
  refine bind_requireWritable fun hw => ?_
  refine bind_require fun hflags => ?_
  refine bind_resolveParent fun p l hsrc => bind_resolveParent fun q m hdst => ?_
  refine bind_getEntry fun e he hp hl => bind_getNode fun node hnode => ?_
  subst hp hl
  split_ifs with hsame
  · exact .of_run ⟨_, Or.inl rfl, effect_refl s⟩
  refine bind_ask fun _ hsub => bind_ask fun t ht => bind_ask fun n _ => ?_
  obtain rfl := Except.ok.inj ht
  have hmay : MayRename s src dst e q m (s.conn.entries.find? (q, m)) :=
    ⟨hw, hsrc, hdst, he, ⟨node, hnode, hsub⟩, hsame, rfl⟩
  have hkind : s.core.names.kind e.inode = some node.kind := Nodes.kind_of_get hnode
  refine bind_withConn fun _ d hd => ?_
  cases exchange with
  | false =>
    obtain ⟨hroom, d₁, hclears, hmoves⟩ := renameBody_plain_ok rfl hd
    refine ⟨_, Or.inr (Or.inl ⟨rfl, e, q, m, _, rfl, hmay, hroom⟩), ?_⟩
    rw [changeCache_emitMove_core]
    refine .replaces (s := s.core) hmay.mayMove (resolveParentAs_ok hdst).validName hsame rfl ?_
      hclears hmoves
    rw [hkind]
    exact renameUncache_plain _
  | true =>
    obtain ⟨x, hx, d₁, d₂, d₃, h₁, h₂, h₃, hadj⟩ := renameBody_swap_ok hd
    obtain ⟨hmem, hkey⟩ := KeyTable.find?_eq_some.mp hx
    obtain ⟨rfl, rfl⟩ := Prod.mk.inj hkey
    refine ⟨_, Or.inr (Or.inr ⟨?_, rfl, e, x, rfl, hx ▸ hmay, ?_⟩), ?_⟩
    · simpa using hflags
    · exact free_of_swap he hmem hsame h₁ h₂
    · rw [changeCache_emitMove_core]
      refine .swaps (s := s.core) hmay.mayMove hmem hsame (free_of_swap he hmem hsame h₁ h₂) ?_
        ⟨d₁, d₂, d₃, h₁, h₂, h₃, hadj⟩
      rw [hkind, hx]
      exact renameUncache_swap _

end Filesystem

end Python

end SqliteFs

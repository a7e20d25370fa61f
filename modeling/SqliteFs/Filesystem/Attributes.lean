import SqliteFs.Filesystem.Commits
import SqliteFs.Filesystem.Identity
import SqliteFs.Filesystem.Success

/-!
# The table of extended attributes

To a client the extended attributes are one table: a value for a node and a name. `setxattr` puts a value
into it, `removexattr` takes one out, and the attributes of a node go when the node goes. All that is in
the table has been checked, and what `getxattr` and `listxattr` return is read off it.
-/

namespace SqliteFs

open Txn

/-- The value of each extended attribute of each node. -/
abbrev AttrTable := ℕ × Str → Option Bytes

namespace AttrTable

/-- What is left of the table where `live` says which nodes there are. -/
def settle (τ : AttrTable) (live : ℕ → Bool) : AttrTable := fun k => if live k.1 then τ k else none

variable {τ : AttrTable} {live live' : ℕ → Bool} {k : ℕ × Str} {v : Bytes}

lemma settle_of_live (h : live k.1 = true) : τ.settle live k = τ k := if_pos h

lemma settle_eq_some : τ.settle live k = some v ↔ live k.1 = true ∧ τ k = some v := by
  unfold settle
  split_ifs with h
  · exact (and_iff_right h).symm
  · exact iff_of_false (by simp) fun h' => h h'.1

lemma settle_eq_self (h : ∀ k v, τ k = some v → live k.1 = true) : τ.settle live = τ := by
  funext k
  refine Option.ext fun v => settle_eq_some.trans ?_
  exact and_iff_right_of_imp (h k v)

/-- What is gone at last need not have gone before. -/
lemma settle_settle (h : ∀ k v, τ k = some v → live' k.1 = true → live k.1 = true) :
    (τ.settle live).settle live' = τ.settle live' := by
  funext k
  refine Option.ext fun v => ?_
  rw [settle_eq_some, settle_eq_some, settle_eq_some]
  constructor
  · rintro ⟨hlive', -, hv⟩
    exact ⟨hlive', hv⟩
  · rintro ⟨hlive', hv⟩
    exact ⟨hlive', h k v hv hlive', hv⟩

end AttrTable

namespace Xattrs

/-- What passes the checks of every caller who may be given `trusted.*`. -/
structure ValidAttr (name : Str) (value : Bytes) : Prop where
  nonempty : name ≠ []
  noNul : '\x00' ∉ name
  short : name.len ≤ XATTR_NAME_MAX
  namespaced : '.' ∈ name
  fits : value.length ≤ XATTR_VALUE_MAX

lemma validAttr_of_checks {name : Str} {value : Bytes} {uid : UInt32}
    (hname : validateName name uid = .ok ()) (hvalue : validateValue value = .ok ()) :
    ValidAttr name value := by
  unfold validateName at hname
  unfold validateValue at hvalue
  split_ifs at hname with hempty hnul hlong hdot htrusted
  · cases hname
  · cases hname
  · cases hname
  · cases hname
  · split_ifs at hvalue with hbig
    · cases hvalue
    · exact ⟨hempty, hnul, not_lt.mp hlong, hdot, not_lt.mp hbig⟩
  · cases hname

end Xattrs

namespace Db

variable {d d' : Db} {i : ℕ} {name : Str} {value : Bytes} {k : ℕ × Str}

/-- The attributes in the database. -/
def attrTable (d : Db) : AttrTable := fun k => (d.xattrs.find? k).map XattrsRow.value

lemma attrTable_eq_some : d.attrTable (i, name) = some value ↔ ⟨i, name, value⟩ ∈ d.xattrs := by
  refine Option.map_eq_some_iff.trans ?_
  constructor
  · rintro ⟨r, hr, rfl⟩
    obtain ⟨hmem, hkey⟩ := KeyTable.find?_eq_some.mp hr
    obtain ⟨rfl, rfl⟩ := Prod.mk.inj hkey
    exact hmem
  · exact fun h => ⟨⟨i, name, value⟩, KeyTable.find?_key h, rfl⟩

lemma Owned.attr (h : d.Owned) (hv : d.attrTable k = some value) : d.hasNode k.1 = true :=
  h.xattrs _ (attrTable_eq_some.mp hv)

lemma Owned.settle_self (h : d.Owned) : d.attrTable.settle d.hasNode = d.attrTable :=
  AttrTable.settle_eq_self fun _ _ => h.attr

/-- A table is known by its rows. -/
lemma attrTable_ext {τ : AttrTable}
    (h : ∀ i name value, ⟨i, name, value⟩ ∈ d.xattrs ↔ τ (i, name) = some value) : d.attrTable = τ := by
  funext ⟨i, name⟩
  refine Option.ext fun value => ?_
  rw [attrTable_eq_some, h]

lemma attrTable_set {flags : Xattrs.XattrFlags} {u : PUnit}
    (h : Xattrs.set i name value flags d = .ok (u, d')) :
    d'.attrTable = Function.update d.attrTable (i, name) (some value) := by
  obtain ⟨b, hb, h⟩ := Body.ask_bind_eq_ok.mp h
  funext k
  split_ifs at h with hset
  · rw [hset] at hb
    obtain ⟨r, hr⟩ := Option.isSome_iff_exists.mp (Xattrs.checkFlags_eq hb).symm
    rw [update_eq_ok.mp h, attrTable, updateXattr, KeyTable.find?_updateAt]
    by_cases hk : k = (i, name)
    · rw [hk, if_pos rfl, Function.update_self, hr]
      rfl
    · rw [if_neg hk, Function.update_of_ne hk]
      rfl
  · obtain ⟨-, t, ht, rfl⟩ := Db.insertXattr_eq_ok.mp (stmt_eq_ok.mp h)
    rw [attrTable, KeyTable.find?_insert? ht, key_xattrsRow]
    by_cases hk : k = (i, name)
    · rw [hk, if_pos rfl, Function.update_self]
      rfl
    · rw [if_neg (Ne.symm hk), Function.update_of_ne hk]
      rfl

lemma attrTable_delete (d : Db) (i : ℕ) (name : Str) :
    (d.deleteXattr i name).attrTable = Function.update d.attrTable (i, name) none := by
  refine attrTable_ext fun j m value => ?_
  rw [Function.update_apply, deleteXattr, KeyTable.mem_deleteWhere, decide_eq_false_iff_not]
  by_cases hk : (j, m) = (i, name)
  · rw [if_pos hk]
    exact iff_of_false (fun h => h.2 (Prod.mk.inj hk)) (by simp)
  · rw [if_neg hk, attrTable_eq_some, and_iff_left]
    rintro ⟨rfl, rfl⟩
    exact hk rfl

end Db

/-- The statement is not about extended attributes, though it may delete those of a node. -/
def Statement.LeavesAttrs : Statement → Prop
  | .insertXattr _ | .updateXattr .. | .deleteXattr .. => False
  | _ => True

/-- Statements that are not about them take attributes away with their nodes only. -/
lemma Db.Writes.attrTable {d d' : Db} {A : Statement → Prop} (howned : d.Owned) (hbounds : d.SeqBounds)
    (hA : ∀ st, A st → st.LeavesAttrs) (h : d.Writes A d') :
    d'.attrTable = d.attrTable.settle d'.hasNode := by
  have howned' : d'.Owned := h.keeps (fun _ _ _ _ hst hd => hst.owned hd) howned
  have hold : ∀ x ∈ d'.xattrs, x ∈ d.xattrs := by
    refine Writes.related (R := fun d d' => ∀ x ∈ d'.xattrs, x ∈ d.xattrs) ?_ ?_ ?_ h
    · exact fun _ _ hx => hx
    · exact fun _ _ _ h₁ h₂ x hx => h₁ x (h₂ x hx)
    · intro st d d' hst hdoes x hx
      rcases hdoes.mem_xattrs hx with hx | ⟨rfl, -⟩ | ⟨rfl, -⟩
      · exact hx
      · exact (hA _ hst).elim
      · exact (hA _ hst).elim
  refine Db.attrTable_ext fun i name value => ?_
  rw [AttrTable.settle_eq_some, Db.attrTable_eq_some]
  constructor
  · exact fun hx => ⟨howned'.xattrs _ hx, hold _ hx⟩
  · rintro ⟨hlive, hx⟩
    have hseen : i ≤ d.nodesSeq := hbounds i (howned.xattrs _ hx)
    refine (h.gone_or (P := fun d => ⟨i, name, value⟩ ∈ d.xattrs) hseen hx ?_).resolve_left ?_
    · intro st d d' hst hdoes _ hx
      rcases hdoes.mem_xattrs_of_mem hx with hx | ⟨value, rfl⟩ | rfl | ⟨-, hgone⟩
      · exact Or.inr hx
      · exact (hA _ hst).elim
      · exact (hA _ hst).elim
      · exact Or.inl hgone
    · rw [hlive]
      decide

namespace Filesystem

variable {s t : Filesystem} {clock : Clock} {path name : Str} {value : Bytes} {flags : Xattrs.XattrFlags}

/-! ### The calls -/

lemma setxattr_attrs : Prog.RefusesOr (setxattr clock path name value flags) s fun o =>
    ∃ i row, MaySetxattr s path name value flags i row ∧ o.result = .ok ⟨⟩ ∧
      o.state.conn.attrTable = Function.update s.conn.attrTable (i, name) (some value) := by
  by_cases hmay : ∃ i row, MaySetxattr s path name value flags i row
  · obtain ⟨i, row, hmay⟩ := hmay
    obtain ⟨d, hd, hrun⟩ := setxattr_run clock hmay
    have hset := Db.attrTable_set hd
    refine .of_run ⟨i, row, hmay, ?_⟩
    rw [hrun]
    exact ⟨rfl, hset⟩
  · exact Or.inl (setxattr_may.resolve_right hmay)

lemma removexattr_attrs : Prog.RefusesOr (removexattr clock path name) s fun o =>
    ∃ i row, MayRemovexattr s path name i row ∧ o.result = .ok ⟨⟩ ∧
      o.state.conn.attrTable = Function.update s.conn.attrTable (i, name) none := by
  by_cases hmay : ∃ i row, MayRemovexattr s path name i row
  · obtain ⟨i, row, hmay⟩ := hmay
    refine .of_run ⟨i, row, hmay, ?_⟩
    rw [removexattr_run hmay]
    exact ⟨rfl, Db.attrTable_delete s.conn i name⟩
  · exact Or.inl (removexattr_may.resolve_right hmay)

/-- What an operation that returns does to the table. -/
def Op.onAttrs (s : Filesystem) : Op → AttrTable → AttrTable
  | .setxattr path name value _, τ =>
    match resolveToInode s.conn path with
    | .ok i => Function.update τ (i, name) (some value)
    | .error _ => τ
  | .removexattr path name, τ =>
    match resolveToInode s.conn path with
    | .ok i => Function.update τ (i, name) none
    | .error _ => τ
  | _, τ => τ

/-- What a call does to the table. -/
def Call.onAttrs (s : Filesystem) (call : Call) (τ : AttrTable) : AttrTable :=
  match call with
  | .op _ _ operation => if (call.outcome s).result.isOk then operation.onAttrs s τ else τ
  | .reopen .. => τ

/-- The operation is not about extended attributes. -/
def Op.LeavesAttrs : Op → Prop
  | .setxattr .. | .removexattr .. => False
  | _ => True

lemma Op.LeavesAttrs.issues {operation : Op} (h : operation.LeavesAttrs) {st : Statement}
    (hst : operation.Issues s st) : st.LeavesAttrs := by
  cases st with
  | insertXattr | updateXattr | deleteXattr =>
    cases operation with
    | setxattr | removexattr => exact h
    | _ => exact hst.elim
  | _ => trivial

lemma Op.LeavesAttrs.onAttrs {operation : Op} (h : operation.LeavesAttrs) (τ : AttrTable) :
    operation.onAttrs s τ = τ := by
  cases operation with
  | setxattr | removexattr => exact h.elim
  | _ => rfl

lemma attrTable_exec (h : Reachable s) {user : Option (UInt32 × UInt32)} {operation : Op}
    (hleaves : operation.LeavesAttrs) : ((Call.op user clock operation).exec s).conn.attrTable
      = s.conn.attrTable.settle ((Call.op user clock operation).exec s).conn.hasNode :=
  (Call.writes user clock operation s).attrTable (owned_runsTo h)
    (seqBounds_run (fun _ => seqBounds_fresh) h) fun _ => hleaves.issues

/-- An operation that is about an attribute refuses, or has checked what it does. -/
lemma attrs_answer (user : Option (UInt32 × UInt32)) (clock : Clock) {operation : Op} (hnot : ¬ operation.LeavesAttrs) :
    (∃ x, (Call.op user clock operation).outcome s = ⟨.error x, s, []⟩) ∨
      ((Call.op user clock operation).outcome s).result.isOk = true ∧
      ((Call.op user clock operation).exec s).conn.attrTable = operation.onAttrs s s.conn.attrTable ∧
      ∀ k v, operation.onAttrs s s.conn.attrTable k = some v →
        s.conn.attrTable k = some v ∨ Xattrs.ValidAttr k.2 v := by
  cases operation with
  | setxattr path name value flags =>
    have hattrs : Prog.RefusesOr (setxattr clock path name value flags) (s.actAs user) _ := setxattr_attrs
    rcases hattrs with ⟨x, hx⟩ | ⟨i, row, hmay, hok, hattrs⟩
    · exact Or.inl ⟨x, asUser_refuses (by rw [Op.run, answer_apply, hx]; rfl)⟩
    · have hi : resolveToInode s.conn path = .ok i := by
        rw [← actAs_conn s user]
        exact hmay.resolved
      have honAttrs : Op.onAttrs s (.setxattr path name value flags) s.conn.attrTable
          = Function.update s.conn.attrTable (i, name) (some value) := by
        dsimp only [Op.onAttrs]
        rw [hi]
      refine Or.inr ⟨?_, ?_, ?_⟩
      · rw [outcome_op, asUser_result, Op.run, answer_apply, hok]
        rfl
      · rw [exec_op, asUser_conn, Op.run, answer_apply, honAttrs, ← actAs_conn s user]
        exact hattrs
      · rw [honAttrs]
        intro k v hv
        by_cases hk : k = (i, name)
        · rw [hk, Function.update_self] at hv
          rw [hk, ← Option.some.inj hv]
          exact Or.inr (Xattrs.validAttr_of_checks hmay.validName hmay.validValue)
        · rw [Function.update_of_ne hk] at hv
          exact Or.inl hv
  | removexattr path name =>
    have hattrs : Prog.RefusesOr (removexattr clock path name) (s.actAs user) _ := removexattr_attrs
    rcases hattrs with ⟨x, hx⟩ | ⟨i, row, hmay, hok, hattrs⟩
    · exact Or.inl ⟨x, asUser_refuses (by rw [Op.run, answer_apply, hx]; rfl)⟩
    · have hi : resolveToInode s.conn path = .ok i := by
        rw [← actAs_conn s user]
        exact hmay.resolved
      have honAttrs : Op.onAttrs s (.removexattr path name) s.conn.attrTable
          = Function.update s.conn.attrTable (i, name) none := by
        dsimp only [Op.onAttrs]
        rw [hi]
      refine Or.inr ⟨?_, ?_, ?_⟩
      · rw [outcome_op, asUser_result, Op.run, answer_apply, hok]
        rfl
      · rw [exec_op, asUser_conn, Op.run, answer_apply, honAttrs, ← actAs_conn s user]
        exact hattrs
      · rw [honAttrs]
        intro k v hv
        by_cases hk : k = (i, name)
        · rw [hk, Function.update_self] at hv
          cases hv
        · rw [Function.update_of_ne hk] at hv
          exact Or.inl hv
  | _ => exact absurd trivial hnot

lemma attrs_exec (h : Reachable s) (call : Call) : (call.exec s).conn.attrTable
    = (call.onAttrs s s.conn.attrTable).settle (call.exec s).conn.hasNode := by
  have hnext : (call.exec s).conn.Owned := owned_runsTo (.next h trivial : Reachable (call.exec s))
  cases call with
  | reopen readonly uid gid => exact (owned_runsTo h).settle_self.symm
  | op user clock operation =>
    by_cases hleaves : operation.LeavesAttrs
    · rw [attrTable_exec h hleaves, Call.onAttrs, hleaves.onAttrs, ite_self]
    · rcases attrs_answer user clock hleaves with ⟨x, hx⟩ | ⟨hok, hattrs, -⟩
      · have hs : (Call.op user clock operation).exec s = s := congrArg Outcome.state hx
        rw [Call.onAttrs, hx, hs, if_neg (by rintro ⟨⟩)]
        exact (owned_runsTo h).settle_self.symm
      · rw [Call.onAttrs, if_pos hok, ← hattrs]
        exact hnext.settle_self.symm

/-- Every attribute has passed the checks of `setxattr`. -/
lemma validAttr_runsTo (h : Reachable s) : ∀ k v, s.conn.attrTable k = some v → Xattrs.ValidAttr k.2 v := by
  refine Run.invariant (P := fun s => ∀ k v, s.conn.attrTable k = some v → Xattrs.ValidAttr k.2 v) ?_ ?_ h
  · rintro s ⟨chunkSize, ownerUid, ownerGid, now, readonly, uid, gid, rfl⟩ k v hv
    cases hv
  · intro s call hrun _ hs k v hv
    rw [attrs_exec hrun, AttrTable.settle_eq_some] at hv
    obtain ⟨-, hv⟩ := hv
    cases call with
    | reopen => exact hs k v hv
    | op user clock operation =>
      rw [Call.onAttrs] at hv
      by_cases hleaves : operation.LeavesAttrs
      · rw [hleaves.onAttrs, ite_self] at hv
        exact hs k v hv
      · split_ifs at hv with hok
        · rcases attrs_answer user clock hleaves with ⟨x, hx⟩ | ⟨-, -, hvalid⟩
          · rw [hx] at hok
            cases hok
          · exact (hvalid k v hv).elim (hs k v) id
        · exact hs k v hv

/-! ### What is reported -/

section Reports
variable {l : List Str}

/-- The names that the node `i` has attributes under, in their order. -/
structure ListsAttrs (τ : AttrTable) (i : ℕ) (l : List Str) : Prop where
  sorted : l.Pairwise (· < ·)
  mem : ∀ n, n ∈ l ↔ τ (i, n) ≠ none

/-- There is one such list. -/
lemma ListsAttrs.unique {τ : AttrTable} {i : ℕ} {l l' : List Str} (h : ListsAttrs τ i l)
    (h' : ListsAttrs τ i l') : l = l' :=
  h.sorted.eq_of_mem_iff h'.sorted fun n => (h.mem n).trans (h'.mem n).symm

lemma listNames_lists (d : Db) (i : ℕ) : ListsAttrs d.attrTable i (Xattrs.listNames d i) := by
  have hperm : (Xattrs.listNames d i).Perm ((d.xattrs.select fun r => r.inode = i).map XattrsRow.name) :=
    List.perm_insertionSort _ _
  have hnodup : (Xattrs.listNames d i).Nodup := by
    rw [hperm.nodup_iff]
    refine List.Nodup.map_on ?_ (d.xattrs.nodup.of_map.filter _)
    intro x hx y hy hname
    obtain ⟨hx, hxi⟩ := KeyTable.mem_select.mp hx
    obtain ⟨hy, hyi⟩ := KeyTable.mem_select.mp hy
    exact KeyTable.eq_of_key hx hy
      (Prod.ext ((of_decide_eq_true hxi).trans (of_decide_eq_true hyi).symm) hname)
  have hle : (Xattrs.listNames d i).Pairwise (· ≤ ·) := List.pairwise_insertionSort (· ≤ ·) _
  refine ⟨(hle.and hnodup).imp fun h => lt_of_le_of_ne h.1 h.2, fun n => ?_⟩
  rw [hperm.mem_iff, List.mem_map, Option.ne_none_iff_exists']
  constructor
  · rintro ⟨x, hx, rfl⟩
    obtain ⟨hmem, hxi⟩ := KeyTable.mem_select.mp hx
    obtain rfl := of_decide_eq_true hxi
    exact ⟨x.value, Db.attrTable_eq_some.mpr hmem⟩
  · rintro ⟨value, hvalue⟩
    exact ⟨_, KeyTable.mem_select.mpr ⟨Db.attrTable_eq_some.mp hvalue, decide_eq_true rfl⟩, rfl⟩

lemma getxattr_ok : (getxattr path name s).result = .ok value ↔
    ∃ i row, Finds s path i row ∧ Allows s row Access.R ∧ s.conn.attrTable (i, name) = some value := by
  constructor
  · have hattrs : Prog.RefusesOr (getxattr path name) s fun o => ∃ i row v, Finds s path i row ∧
        Allows s row Access.R ∧ s.conn.attrTable (i, name) = some v ∧ o.result = .ok v := by
      apply Prog.RefusesOr.bind_query
      intro i hi
      apply bind_getNode
      intro row hrow
      apply Prog.RefusesOr.bind_query
      intro _ haccess
      apply Prog.RefusesOr.query
      intro v hv
      exact ⟨i, row, v, ⟨hi, hrow⟩, requireAccess_eq_ok.mp haccess, okOr_eq_ok.mp hv, rfl⟩
    intro hok
    obtain ⟨i, row, v, hfinds, hallows, hv, hres⟩ := hattrs.of_ok hok
    obtain rfl := Except.ok.inj (hok.symm.trans hres)
    exact ⟨i, row, hfinds, hallows, hv⟩
  · rintro ⟨i, row, ⟨hi, hrow⟩, hallows, hv⟩
    unfold getxattr
    rw [resolve_bind hi, getNode_bind hrow, requireAccessTo_bind (requireAccess_eq_ok.mpr hallows)]
    exact okOr_eq_ok.mpr hv

lemma listxattr_ok : (listxattr path s).result = .ok l ↔
    ∃ i row, Finds s path i row ∧ Allows s row Access.R ∧ ListsAttrs s.conn.attrTable i l := by
  constructor
  · have hattrs : Prog.RefusesOr (listxattr path) s fun o => ∃ i row, Finds s path i row ∧
        Allows s row Access.R ∧ o.result = .ok (Xattrs.listNames s.conn i) := by
      apply Prog.RefusesOr.bind_query
      intro i hi
      apply bind_getNode
      intro row hrow
      apply Prog.RefusesOr.bind_query
      intro _ haccess
      apply Prog.RefusesOr.query
      rintro _ ⟨⟩
      exact ⟨i, row, ⟨hi, hrow⟩, requireAccess_eq_ok.mp haccess, rfl⟩
    intro hok
    obtain ⟨i, row, hfinds, hallows, hres⟩ := hattrs.of_ok hok
    rw [Except.ok.inj (hok.symm.trans hres)]
    exact ⟨i, row, hfinds, hallows, listNames_lists s.conn i⟩
  · rintro ⟨i, row, ⟨hi, hrow⟩, hallows, hlists⟩
    rw [hlists.unique (listNames_lists s.conn i)]
    unfold listxattr
    rw [resolve_bind hi, getNode_bind hrow, requireAccessTo_bind (requireAccess_eq_ok.mpr hallows)]
    rfl

/-- Over every run the extended attributes are one table, of which all entries are checked and belong to
nodes: `setxattr` and `removexattr` change it at the node and the name that they are given, nodes that are
deleted take their entries along, nothing else changes it, and `getxattr` and `listxattr` report what is in
it to those who may read the node. -/
theorem attributes_refine (h : Reachable s) :
    (∀ k v, s.conn.attrTable k = some v → s.conn.hasNode k.1 = true ∧ Xattrs.ValidAttr k.2 v) ∧
    (∀ call : Call, (call.exec s).conn.attrTable
      = (call.onAttrs s s.conn.attrTable).settle (call.exec s).conn.hasNode) ∧
    (∀ path name value, (getxattr path name s).result = .ok value ↔ ∃ i row, Finds s path i row ∧
      Allows s row Access.R ∧ s.conn.attrTable (i, name) = some value) ∧
    ∀ path l, (listxattr path s).result = .ok l ↔ ∃ i row, Finds s path i row ∧
      Allows s row Access.R ∧ ListsAttrs s.conn.attrTable i l := by
  refine ⟨fun k v hv => ⟨(owned_runsTo h).attr hv, validAttr_runsTo h k v hv⟩, attrs_exec h, ?_, ?_⟩
  · exact fun _ _ _ => getxattr_ok
  · exact fun _ _ => listxattr_ok

/-- `"user.x"` -/
def userDotX : Str := ['u', 's', 'e', 'r', '.', 'x']

/-- A file of root's with an attribute. -/
def taggedFile : Filesystem :=
  newFsAfter [.create ['/', 'f'] Libc.O_RDWR 0o644, .setxattr ['/', 'f'] userDotX [1, 2] 0]

theorem attributes_refine_taggedFile :
    (∀ k v, taggedFile.conn.attrTable k = some v →
      taggedFile.conn.hasNode k.1 = true ∧ Xattrs.ValidAttr k.2 v) ∧
    (∀ call : Call, (call.exec taggedFile).conn.attrTable
      = (call.onAttrs taggedFile taggedFile.conn.attrTable).settle (call.exec taggedFile).conn.hasNode) ∧
    (∀ path name value, (getxattr path name taggedFile).result = .ok value ↔
      ∃ i row, Finds taggedFile path i row ∧ Allows taggedFile row Access.R ∧
        taggedFile.conn.attrTable (i, name) = some value) ∧
    ∀ path l, (listxattr path taggedFile).result = .ok l ↔ ∃ i row, Finds taggedFile path i row ∧
      Allows taggedFile row Access.R ∧ ListsAttrs taggedFile.conn.attrTable i l :=
  attributes_refine (reachable_newFsAfter _)

end Reports

end Filesystem

end SqliteFs

import SqliteFs.Filesystem.Footprint

/-!
# Change times

The times of a node are set by statements of their own, in every branch of every operation again.
Still no change of a node is without its time: a script that does something to a node sets its ctime
to the time of the call, and a script that works on its contents sets its mtime as well.
-/

namespace SqliteFs

open Txn

/-- The columns of the times that say when a node was changed. -/
inductive TimeColumn
  | mtime | ctime

/-- What the column says in a row. -/
def TimeColumn.get : TimeColumn → NodesRow → ℤ
  | mtime, row => row.mtimeNs
  | ctime, row => row.ctimeNs

namespace Statement

/-- The node whose row the statement writes. -/
def node : Statement → Option ℕ
  | insertNode row => some row.inode
  | updateTimes i .. | updateModeUidGid i .. | updateSize i .. | changeNlink i .. | deleteNode i => some i
  | _ => none

/-- What the statement writes to the column. -/
def time : TimeColumn → Statement → Option ℤ
  | column, insertNode row => some (column.get row)
  | .mtime, updateTimes _ _ mtimeNs _ => mtimeNs
  | .mtime, updateSize _ _ mtimeNs _ => some mtimeNs
  | .ctime, updateTimes _ _ _ ctimeNs => ctimeNs
  | .ctime, updateModeUidGid _ _ _ _ ctimeNs => some ctimeNs
  | .ctime, updateSize _ _ _ ctimeNs => some ctimeNs
  | .ctime, changeNlink _ _ ctimeNs => some ctimeNs
  | _, _ => none

/-- The statement sets the column of the node `i` to `now`, or deletes the node. -/
def Stamps (column : TimeColumn) (now : ℤ) (i : ℕ) (st : Statement) : Prop :=
  st = .deleteNode i ∨ st.node = some i ∧ st.time column = some now

variable {column : TimeColumn} {now : ℤ} {d d' : Db} {st : Statement} {i : ℕ} {r' : NodesRow}

lemma time_of_updateNode {j : ℕ} {f : NodesRow → NodesRow} {hf : ∀ r, (f r).inode = r.inode}
    (h : d' = d.updateNode j f hf) (hr' : d'.nodes.find? i = some r') (hnode : st.node = some j)
    (htime : ∀ r, st.time column = some (column.get (f r)) ∨
      st.time column = none ∧ column.get (f r) = column.get r) :
    (st.node = some i ∧ st.time column = some (column.get r')) ∨
      (st.node = some i → st.time column = none) ∧
        ∃ r, d.nodes.find? i = some r ∧ column.get r' = column.get r := by
  rw [h] at hr'
  unfold Db.updateNode at hr'
  rw [KeyTable.find?_updateAt] at hr'
  split_ifs at hr' with hij
  · obtain ⟨r, hr, rfl⟩ := Option.map_eq_some_iff.mp hr'
    subst hij
    rcases htime r with hset | ⟨hnone, hsame⟩
    · exact Or.inl ⟨hnode, hset⟩
    · exact Or.inr ⟨fun _ => hnone, r, hr, hsame⟩
  · refine Or.inr ⟨fun hi => ?_, r', hr', rfl⟩
    exact absurd (Option.some.inj (hi.symm.trans hnode)) hij

/-- What a column says of a node comes from the statement, if it writes it, and is what it was before
otherwise. -/
lemma Does.time (column : TimeColumn) (h : st.Does d d') (hr' : d'.nodes.find? i = some r') :
    (st.node = some i ∧ st.time column = some (column.get r')) ∨
      (st.node = some i → st.time column = none) ∧
        ∃ r, d.nodes.find? i = some r ∧ column.get r' = column.get r := by
  cases st with
  | insertNode row =>
    obtain ⟨rows, ht, rfl⟩ := Db.insertNode_eq_ok.mp h.2
    replace hr' : rows.find? i = some r' := hr'
    rw [KeyTable.find?_insert? ht, key_nodesRow] at hr'
    split_ifs at hr' with hi
    · obtain rfl := Option.some.inj hr'
      exact Or.inl ⟨congrArg some hi, by cases column <;> rfl⟩
    · exact Or.inr ⟨fun hrow => absurd (Option.some.inj hrow) hi, r', hr', rfl⟩
  | updateTimes j a m c =>
    replace h : Nodes.updateTimes j a m c d = .ok (⟨⟩, d') := h
    unfold Nodes.updateTimes at h
    split_ifs at h with hnone
    · obtain rfl : d' = d := (Body.pure_eq_ok.mp h).2
      refine Or.inr ⟨fun _ => ?_, r', hr', rfl⟩
      obtain ⟨-, rfl, rfl⟩ := hnone
      cases column <;> rfl
    · refine time_of_updateNode (update_eq_ok.mp h) hr' rfl fun r => ?_
      cases column with
      | mtime =>
        cases m with
        | none => exact Or.inr ⟨rfl, rfl⟩
        | some t => exact Or.inl rfl
      | ctime =>
        cases c with
        | none => exact Or.inr ⟨rfl, rfl⟩
        | some t => exact Or.inl rfl
  | updateModeUidGid j mode uid gid c =>
    refine time_of_updateNode (update_eq_ok.mp h) hr' rfl fun r => ?_
    cases column with
    | mtime => exact Or.inr ⟨rfl, rfl⟩
    | ctime => exact Or.inl rfl
  | updateSize j size m c =>
    refine time_of_updateNode (update_eq_ok.mp h) hr' rfl fun r => Or.inl ?_
    cases column <;> rfl
  | changeNlink j delta c =>
    refine time_of_updateNode h hr' rfl fun r => ?_
    cases column with
    | mtime => exact Or.inr ⟨rfl, rfl⟩
    | ctime => exact Or.inl rfl
  | deleteNode j =>
    refine Or.inr ⟨fun _ => by cases column <;> rfl, r', ?_, rfl⟩
    rcases deleteNode_cases h with ⟨rfl, -⟩ | rfl
    · exact hr'
    · dsimp only at hr'
      rw [KeyTable.find?_deleteWhere, Option.filter_eq_some_iff] at hr'
      exact hr'.1
  | _ =>
    rw [(h.same (t := .nodes) (by simp [tables])).1] at hr'
    exact Or.inr ⟨fun hnode => absurd hnode.symm (Option.some_ne_none i), r', hr', rfl⟩

/-- Where the statement writes to a time column, it writes `now`, and `S` says that what else it
writes is dated. -/
def Dated (now : ℤ) (S : TimeColumn → ℕ → Prop) (d : Db) : Statement → Prop
  | insertNode row => row.mtimeNs = now ∧ row.ctimeNs = now
  | updateTimes _ _ mtimeNs ctimeNs => (mtimeNs = none ∨ mtimeNs = some now) ∧ ctimeNs = some now
  | updateModeUidGid _ _ _ _ ctimeNs => ctimeNs = now
  | updateSize _ _ mtimeNs ctimeNs => mtimeNs = now ∧ ctimeNs = now
  | changeNlink _ _ ctimeNs => ctimeNs = now
  | deleteNode i => Filesystem.Childless d i
  | insertEntry row => ∀ column, S column row.parent
  | deleteEntry p _ => ∀ column, S column p
  | moveEntry p _ q _ => ∀ column, S column p ∧ S column q
  | putBlob i .. | updateBlob i .. | deleteBlobs i _ => ∀ column, S column i
  | insertXattr row => S .ctime row.inode
  | updateXattr i .. | deleteXattr i _ => S .ctime i
  | insertSymlink row => S .ctime row.inode

section Dated
variable {S : TimeColumn → ℕ → Prop} {d₀ : Db} {l : List Statement}

lemma Dated.time_eq (h : st.Dated now S d₀) {t : ℤ} (ht : st.time column = some t) : t = now := by
  cases st with
  | insertNode row => cases column <;> cases ht <;> [exact h.1; exact h.2]
  | updateTimes i a m c =>
    obtain ⟨hm, rfl⟩ := h
    cases column with
    | mtime =>
      rcases hm with rfl | rfl
      · cases ht
      · exact (Option.some.inj ht).symm
    | ctime => exact (Option.some.inj ht).symm
  | updateModeUidGid i mode uid gid c => cases column <;> cases ht; exact h
  | updateSize i size m c => cases column <;> cases ht <;> [exact h.1; exact h.2]
  | changeNlink i delta c => cases column <;> cases ht; exact h
  | _ => cases column <;> cases ht

/-- A statement of the script stamps the column of the node. -/
def Stamped (now : ℤ) (l : List Statement) (column : TimeColumn) (i : ℕ) : Prop :=
  ∃ st ∈ l, st.Stamps column now i

/-- What is stamped by a script that is on time says so at the end. -/
lemma time_of_stamped (hl : ∀ st ∈ l, st.Dated now S d₀) (hstamped : Stamped now l column i)
    (hruns : d.Runs l d') : ∀ r', d'.nodes.find? i = some r' → column.get r' = now := by
  refine hruns.establishes (P := fun d => ∀ r, d.nodes.find? i = some r → column.get r = now) ?_ ?_
  · intro st hst d d' hdoes hd r' hr'
    rcases hdoes.time column hr' with ⟨-, htime⟩ | ⟨-, r, hr, hsame⟩
    · exact (hl st hst).time_eq htime
    · exact hsame.trans (hd r hr)
  · obtain ⟨st, hst, hstamps⟩ := hstamped
    refine ⟨st, hst, fun d d' hdoes r' hr' => ?_⟩
    rcases hstamps with rfl | ⟨hnode, htime⟩
    · have hgone := deleteNode_gone hdoes
      rw [Db.hasNode, hr'] at hgone
      cases hgone
    · rcases hdoes.time column hr' with ⟨-, htime'⟩ | ⟨hnone, -⟩
      · exact (hl st hst).time_eq htime'
      · rw [hnone hnode] at htime
        cases htime

/-- What a dated statement writes is stamped by the script. -/
lemma Dated.within (h : st.Dated now (Stamped now l) d₀) (hst : st ∈ l) :
    st.Within (Stamped now l .ctime) (fun k => ∀ column, Stamped now l column k.1) d₀ := by
  cases st with
  | insertNode row => exact ⟨_, hst, Or.inr ⟨rfl, congrArg some h.2⟩⟩
  | updateTimes i a m c => exact ⟨_, hst, Or.inr ⟨rfl, h.2⟩⟩
  | updateModeUidGid i mode uid gid c => exact ⟨_, hst, Or.inr ⟨rfl, congrArg some h⟩⟩
  | updateSize i size m c => exact ⟨_, hst, Or.inr ⟨rfl, congrArg some h.2⟩⟩
  | changeNlink i delta c => exact ⟨_, hst, Or.inr ⟨rfl, congrArg some h⟩⟩
  | deleteNode i => exact ⟨⟨_, hst, Or.inl rfl⟩, h⟩
  | insertEntry row => exact h
  | deleteEntry p n => exact h
  | moveEntry p m q n => exact ⟨fun column => (h column).1, fun column => (h column).2⟩
  | putBlob i c data => exact h .ctime
  | updateBlob i c data => exact h .ctime
  | deleteBlobs i p => exact h .ctime
  | insertXattr row => exact h
  | updateXattr i name value => exact h
  | deleteXattr i name => exact h
  | insertSymlink row => exact h

lemma Dated.rewrites (h : st.Dated now (Stamped now l) d₀) (hst : st ∈ l) (hi : st.Rewrites i) :
    Stamped now l .mtime i := by
  cases st with
  | putBlob j c data =>
    obtain rfl : j = i := hi
    exact h .mtime
  | updateBlob j c data =>
    obtain rfl : j = i := hi
    exact h .mtime
  | deleteBlobs j p =>
    obtain rfl : j = i := hi
    exact h .mtime
  | updateSize j size m c =>
    obtain rfl : j = i := hi
    exact ⟨_, hst, Or.inr ⟨rfl, congrArg some h.1⟩⟩
  | _ => exact hi.elim

end Dated

end Statement

namespace Filesystem

variable {s : Filesystem} {d d' : Db} {tab : FdTable} {now : ℤ} {operation : Op} {l : List Statement}

open Statement

lemma stamped_of_touch {p : ℕ} (h : touch now p ∈ l) (column : TimeColumn) : Stamped now l column p :=
  ⟨_, h, Or.inr ⟨rfl, by cases column <;> rfl⟩⟩

lemma stamped_of_updateSize {i size : ℕ} (h : .updateSize i size now now ∈ l) (column : TimeColumn) :
    Stamped now l column i :=
  ⟨_, h, Or.inr ⟨rfl, by cases column <;> rfl⟩⟩

lemma stamped_of_mark {i : ℕ} (h : mark now i ∈ l) : Stamped now l .ctime i :=
  ⟨_, h, Or.inr ⟨rfl, rfl⟩⟩

lemma dated_touch {S : TimeColumn → ℕ → Prop} (p : ℕ) : (touch now p).Dated now S d :=
  ⟨Or.inr rfl, rfl⟩

lemma dated_mark {S : TimeColumn → ℕ → Prop} (i : ℕ) : (mark now i).Dated now S d := ⟨Or.inl rfl, rfl⟩

section Rename
variable {S : TimeColumn → ℕ → Prop} {isDir : Prop} [Decidable isDir] {p q : ℕ} {m : Str}
  {e t : EntryRow} {del : List Statement}

lemma moveScript_dated (hp : ∀ column, S column e.parent) (hq : ∀ column, S column q) :
    ∀ st ∈ moveScript now isDir e q m, st.Dated now S d := by
  simp only [moveScript, List.forall_mem_append, List.forall_mem_singleton]
  refine ⟨⟨⟨⟨fun column => ⟨hp column, hq column⟩, forall_mem_ite ?_⟩, dated_touch _⟩,
    forall_mem_ite ?_⟩, dated_mark _⟩
  · exact List.forall_mem_cons.mpr ⟨rfl, List.forall_mem_singleton.mpr rfl⟩
  · exact List.forall_mem_singleton.mpr (dated_touch q)

lemma evictScript_dated (ht : ∀ column, S column t.parent) (hdel : ∀ st ∈ del, st.Dated now S d) :
    ∀ st ∈ evictScript now isDir p t del, st.Dated now S d := by
  simp only [evictScript, List.forall_mem_append, List.forall_mem_cons]
  exact ⟨⟨⟨ht, rfl, List.forall_mem_nil _⟩, forall_mem_ite (List.forall_mem_singleton.mpr rfl)⟩, hdel⟩

/-- A move touches the directories it is between. -/
lemma touch_mem_moveScript (now : ℤ) (isDir : Prop) [Decidable isDir] (e : EntryRow) (q : ℕ) (m : Str) :
    touch now e.parent ∈ moveScript now isDir e q m ∧ touch now q ∈ moveScript now isDir e q m := by
  have hparent : touch now e.parent ∈ moveScript now isDir e q m := by simp [moveScript]
  refine ⟨hparent, ?_⟩
  by_cases hq : e.parent = q
  · rw [← hq]
    exact hq ▸ hparent
  · simp [moveScript, hq]

end Rename

/-- Every script of every operation is dated, but for `utimes`, which may write any times. -/
lemma Op.Script.dated (h : operation.Script d tab now l) :
    (∀ st ∈ l, st.Dated now (Stamped now l) d) ∨ ∃ i a m, l = [.updateTimes i a m (some now)] := by
  have hnil {P : Statement → Prop} : ∀ st ∈ [], P st := List.forall_mem_nil P
  cases h with
  | nothing => exact Or.inl hnil
  | mkdir hparent hrow =>
    left
    simp only [List.forall_mem_cons]
    exact ⟨⟨hrow.mtime, hrow.ctime⟩, stamped_of_touch (by simp), rfl, dated_touch _, hnil⟩
  | rmdir hparent he hempty =>
    left
    simp only [List.forall_mem_cons]
    exact ⟨stamped_of_touch (by simp), rfl, dated_touch _, hempty, hnil⟩
  | create hparent hrow =>
    left
    simp only [List.forall_mem_cons]
    exact ⟨⟨hrow.mtime, hrow.ctime⟩, stamped_of_touch (by simp), dated_touch _, hnil⟩
  | open_ hino hcuts =>
    left
    refine List.forall_mem_append.mpr ⟨fun st hst => ?_, List.forall_mem_singleton.mpr ⟨rfl, rfl⟩⟩
    rcases hcuts st hst with ⟨p, rfl⟩ | ⟨c, data, rfl⟩
    · exact stamped_of_updateSize (List.mem_append_right _ List.mem_cons_self)
    · exact stamped_of_updateSize (List.mem_append_right _ List.mem_cons_self)
  | writeFd hf hputs =>
    left
    refine List.forall_mem_append.mpr ⟨fun st hst => ?_, List.forall_mem_singleton.mpr ⟨rfl, rfl⟩⟩
    obtain ⟨c, data, rfl⟩ := hputs st hst
    exact stamped_of_updateSize (List.mem_append_right _ List.mem_cons_self)
  | closeFd hf hempty => exact Or.inl (List.forall_mem_singleton.mpr hempty)
  | unlink hparent he hempty hdel =>
    left
    simp only [List.forall_mem_append, List.forall_mem_cons]
    refine ⟨⟨stamped_of_touch (by simp), rfl, dated_touch _, hnil⟩, fun st hst => ?_⟩
    rw [hdel st hst]
    exact hempty
  | symlink hparent hrow =>
    left
    simp only [List.forall_mem_cons]
    refine ⟨⟨hrow.mtime, hrow.ctime⟩, stamped_of_touch (by simp), ?_, dated_touch _, hnil⟩
    exact ⟨_, List.mem_cons_self, Or.inr ⟨rfl, congrArg some hrow.ctime⟩⟩
  | link hino hparent =>
    left
    simp only [List.forall_mem_cons]
    exact ⟨stamped_of_touch (by simp), rfl, dated_touch _, hnil⟩
  | @moves src dst e q m isDir _ hsrc he hdst =>
    obtain ⟨hp, hq⟩ := touch_mem_moveScript now isDir e q m
    exact Or.inl (moveScript_dated (stamped_of_touch hp) (stamped_of_touch hq))
  | @replaces src dst e t isDir isDir' _ _ del hsrc he hdst ht hempty hdel =>
    obtain ⟨hp, hq⟩ := touch_mem_moveScript now isDir e t.parent t.name
    have hp' := stamped_of_touch (List.mem_append_right (evictScript now isDir' e.parent t del) hp)
    have hq' := stamped_of_touch (List.mem_append_right (evictScript now isDir' e.parent t del) hq)
    refine Or.inl (List.forall_mem_append.mpr ⟨?_, moveScript_dated hp' hq'⟩)
    refine evictScript_dated hq' fun st hst => ?_
    rw [hdel st hst]
    exact hempty
  | chmod hino => exact Or.inl (List.forall_mem_singleton.mpr rfl)
  | chown hino => exact Or.inl (List.forall_mem_singleton.mpr rfl)
  | utimes hino => exact Or.inr ⟨_, _, _, rfl⟩
  | @setxattr path name value flags i st hino hst =>
    left
    refine List.forall_mem_cons.mpr ⟨?_, List.forall_mem_singleton.mpr (dated_mark _)⟩
    rcases hst with rfl | rfl
    · exact stamped_of_mark (by simp)
    · exact stamped_of_mark (by simp)
  | removexattr hino =>
    left
    exact List.forall_mem_cons.mpr ⟨stamped_of_mark (by simp), List.forall_mem_singleton.mpr (dated_mark _)⟩

/-- The call has changed the node, the extended attributes or chunks of it, or the entries in it. -/
def Altered (d d' : Db) (i : ℕ) (r r' : NodesRow) : Prop :=
  r'.mode ≠ r.mode ∨ r'.uid ≠ r.uid ∨ r'.gid ≠ r.gid ∨ r'.size ≠ r.size ∨ r'.nlink ≠ r.nlink ∨
    r'.atimeNs ≠ r.atimeNs ∨ r'.mtimeNs ≠ r.mtimeNs ∨
    (∃ n, d'.xattrs.find? (i, n) ≠ d.xattrs.find? (i, n)) ∨
    (∃ c, d'.blobs.find? (i, c) ≠ d.blobs.find? (i, c)) ∨
    ∃ n, d'.entries.find? (i, n) ≠ d.entries.find? (i, n)

/-- The call has changed the bytes of the file or the entries in the directory. -/
def AlteredContents (d d' : Db) (i : ℕ) (r r' : NodesRow) : Prop :=
  r'.size ≠ r.size ∨ (∃ c, d'.blobs.find? (i, c) ≠ d.blobs.find? (i, c)) ∨
    ∃ n, d'.entries.find? (i, n) ≠ d.entries.find? (i, n)

/-- A script that does not work on the contents of a node leaves them alone. -/
lemma runs_sameFile {i : ℕ} {r' : NodesRow} (hle : i ≤ d.nodesSeq)
    (hr' : d'.nodes.find? i = some r') (hl : ∀ st ∈ l, ¬ st.Rewrites i) (hruns : d.Runs l d') :
    d.SameFile d' i := by
  have hkept : d'.hasNode i = false ∨ d.SameFile d' i := by
    refine Db.Writes.gone_or (P := fun d' => d.SameFile d' i) hle .refl ?_ hruns.writes
    intro st d₁ d₂ hst hdoes hnode hd
    rcases hdoes.sameFile hnode with hgone | hrewrites | hsame
    · exact Or.inl hgone
    · exact absurd hrewrites (hl st hst)
    · exact Or.inr (hd.trans hsame)
  refine hkept.resolve_left fun hgone => ?_
  rw [Db.hasNode, hr'] at hgone
  cases hgone

section Alter
variable {i : ℕ} {r r' : NodesRow}

lemma not_altered_of_sameRows (hr : d.nodes.find? i = some r) (hr' : d'.nodes.find? i = some r')
    (hrows : d.SameRows d' i) (hentries : ∀ n, d'.entries.find? (i, n) = d.entries.find? (i, n)) :
    ¬ Altered d d' i r r' := by
  obtain rfl : r = r' := Option.some.inj (hr.symm.trans (hrows.node.symm.trans hr'))
  rintro (h | h | h | h | h | h | h | ⟨n, h⟩ | ⟨c, h⟩ | ⟨n, h⟩)
  · exact h rfl
  · exact h rfl
  · exact h rfl
  · exact h rfl
  · exact h rfl
  · exact h rfl
  · exact h rfl
  · exact h (hrows.xattrs n)
  · exact h (hrows.blobs c)
  · exact h (hentries n)

lemma not_alteredContents_of_sameFile (hr : d.nodes.find? i = some r)
    (hr' : d'.nodes.find? i = some r') (hfile : d.SameFile d' i)
    (hentries : ∀ n, d'.entries.find? (i, n) = d.entries.find? (i, n)) :
    ¬ AlteredContents d d' i r r' := by
  rintro (h | ⟨c, h⟩ | ⟨n, h⟩)
  · have hsize := hfile.size
    rw [Db.info_of_find? hr, Db.info_of_find? hr'] at hsize
    exact h (Option.some.inj hsize)
  · refine h (KeyTable.find?_congr_key fun b hb => ?_)
    have hbi : decide (b.inode = i) = true := decide_eq_true (congrArg Prod.fst hb)
    have hmem := congrArg (b ∈ ·) hfile.chunks
    simp only [KeyTable.mem_select, hbi, and_true, eq_iff_iff] at hmem
    exact hmem
  · exact h (hentries n)

end Alter

section Scripts
variable {i : ℕ} {r r' : NodesRow}

/-- A script that is dated leaves no change without its times. -/
lemma times_of_dated (hle : i ≤ d.nodesSeq) (hr : d.nodes.find? i = some r)
    (hr' : d'.nodes.find? i = some r') (hl : ∀ st ∈ l, st.Dated now (Stamped now l) d)
    (hruns : d.Runs l d') : (Altered d d' i r r' → r'.ctimeNs = now) ∧
      (AlteredContents d d' i r r' → r'.mtimeNs = now) := by
  have hwithin := fun st hst => (hl st hst).within hst
  have hentries {column : TimeColumn} (hnot : ¬ Stamped now l column i) (n : Str) :
      d'.entries.find? (i, n) = d.entries.find? (i, n) :=
    runs_entries hwithin hruns fun hall => hnot (hall column)
  constructor
  · intro haltered
    by_cases hstamped : Stamped now l .ctime i
    · exact time_of_stamped hl hstamped hruns r' hr'
    · have hrows := runs_sameRows hwithin hruns hstamped
      exact absurd haltered (not_altered_of_sameRows hr hr' hrows (hentries hstamped))
  · intro haltered
    by_cases hstamped : Stamped now l .mtime i
    · exact time_of_stamped hl hstamped hruns r' hr'
    · have hnot : ∀ st ∈ l, ¬ st.Rewrites i :=
        fun st hst hrewrites => hstamped ((hl st hst).rewrites hst hrewrites)
      have hfile := runs_sameFile hle hr' hnot hruns
      exact absurd haltered (not_alteredContents_of_sameFile hr hr' hfile (hentries hstamped))

/-- `utimes` sets the times of one node and leaves all contents alone. -/
lemma times_of_updateTimes {j : ℕ} {a m : Option ℤ} (hle : i ≤ d.nodesSeq)
    (hr : d.nodes.find? i = some r) (hr' : d'.nodes.find? i = some r')
    (hruns : d.Runs [.updateTimes j a m (some now)] d') :
    (Altered d d' i r r' → r'.ctimeNs = now) ∧ ¬ AlteredContents d d' i r r' := by
  have hwithin : ∀ st ∈ [Statement.updateTimes j a m (some now)],
      st.Within (· = j) (fun _ => False) d := List.forall_mem_singleton.mpr rfl
  have hentries (n : Str) : d'.entries.find? (i, n) = d.entries.find? (i, n) :=
    runs_entries hwithin hruns not_false
  constructor
  · intro haltered
    by_cases hij : i = j
    · cases hruns with
      | cons hdoes hnil =>
        cases hnil
        rcases hdoes.time .ctime hr' with ⟨-, htime⟩ | ⟨hnone, -⟩
        · have hctime : some now = some r'.ctimeNs := htime
          exact (Option.some.inj hctime).symm
        · exact absurd (hnone (congrArg some hij.symm)) (Option.some_ne_none _)
    · have hrows := runs_sameRows hwithin hruns hij
      exact absurd haltered (not_altered_of_sameRows hr hr' hrows hentries)
  · have hnot : ∀ st ∈ [Statement.updateTimes j a m (some now)], ¬ st.Rewrites i :=
      List.forall_mem_singleton.mpr fun hrewrites => hrewrites
    have hfile := runs_sameFile hle hr' hnot hruns
    exact not_alteredContents_of_sameFile hr hr' hfile hentries

end Scripts

/-- In every reachable state, a node that a call of an operation changes gets the ctime of the call,
and with its contents it gets the mtime too. -/
theorem changeTimes_fresh (h : Reachable s) (user : Option (UInt32 × UInt32)) (clock : Clock)
    (operation : Op) {i : ℕ} {r r' : NodesRow} (hr : s.conn.nodes.find? i = some r)
    (hr' : ((Call.op user clock operation).exec s).conn.nodes.find? i = some r') :
    (Altered s.conn ((Call.op user clock operation).exec s).conn i r r' → r'.ctimeNs = clock.now) ∧
      (AlteredContents s.conn ((Call.op user clock operation).exec s).conn i r r' →
        r'.mtimeNs = clock.now) := by
  have hbounds : s.conn.SeqBounds := seqBounds_run (fun _ => seqBounds_fresh) h
  have hle : i ≤ s.conn.nodesSeq := hbounds i (Option.isSome_iff_exists.mpr ⟨r, hr⟩)
  obtain ⟨l, hscript, hruns⟩ := Call.follows h user clock operation
  rcases hscript.dated with hdated | ⟨j, a, m, rfl⟩
  · exact times_of_dated hle hr hr' hdated hruns
  · obtain ⟨hctime, hcontents⟩ := times_of_updateTimes hle hr hr' hruns
    exact ⟨hctime, fun haltered => absurd haltered hcontents⟩

/-- The first file replaces the second at the time 9, and the root says so. -/
theorem changeTimes_fresh_threeFiles : ∃ r',
    ((Call.op none ⟨9, 9⟩ (.rename ['/', 'a'] ['/', 'b'])).exec threeFiles).conn.nodes.find? 1 = some r' ∧
      r'.ctimeNs = 9 ∧ r'.mtimeNs = 9 := by
  have hbefore : (threeFiles.conn.nodes.find? 1).isSome = true := by decide +kernel
  have hafter : (((Call.op none ⟨9, 9⟩ (.rename ['/', 'a'] ['/', 'b'])).exec
      threeFiles).conn.nodes.find? 1).isSome = true := by decide +kernel
  have hentry : ((Call.op none ⟨9, 9⟩ (.rename ['/', 'a'] ['/', 'b'])).exec
      threeFiles).conn.entries.find? (1, ['a']) ≠ threeFiles.conn.entries.find? (1, ['a']) := by
    decide +kernel
  obtain ⟨r, hr⟩ := Option.isSome_iff_exists.mp hbefore
  obtain ⟨r', hr'⟩ := Option.isSome_iff_exists.mp hafter
  obtain ⟨hctime, hmtime⟩ := changeTimes_fresh (s := threeFiles) (reachable_newFsAfter _) none ⟨9, 9⟩
    (.rename ['/', 'a'] ['/', 'b']) hr hr'
  refine ⟨r', hr', hctime ?_, hmtime (Or.inr (Or.inr ⟨['a'], hentry⟩))⟩
  exact Or.inr (Or.inr (Or.inr (Or.inr (Or.inr (Or.inr (Or.inr (Or.inr (Or.inr ⟨['a'], hentry⟩))))))))

end Filesystem

end SqliteFs

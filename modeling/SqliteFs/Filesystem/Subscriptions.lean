import SqliteFs.Filesystem.Events
import SqliteFs.Lib.Broadcast

/-!
# What watchers hear

Any number of watchers share one registry, and each reads from its own channel, whenever it likes. All of
them are told of the same events in the same order: what a watcher has heard and what waits for it are the
events sent since it subscribed that match its path, whatever other watchers come, go and read in between.
-/

namespace SqliteFs

open Txn

namespace Filesystem

open Registry

/-- `Watcher::try_recv`: the event that was sent after the first `taken`. A channel with a dropped sender
gives none. -/
def tryRecv (s : Filesystem) (slotId taken : ℕ) : Option Event :=
  match slotOf s.watchers slotId with
  | some slot => slot.tx[taken]?
  | none => none

/-! ### Operations and receptions -/

/-- An open filesystem and what has been received by its watchers, known by their slots. -/
structure Station where
  fs : Filesystem
  heard : ℕ → List Event

/-- Somebody calls an operation, or the watcher of a slot looks for an event. -/
inductive Act
  | op (user : Option (UInt32 × UInt32)) (clock : Clock) (operation : Op)
  | receive (slotId : ℕ)

/-- The watcher with the slot `id` stays. -/
def Act.Spares (act : Act) (id : ℕ) : Prop :=
  match act with
  | op _ _ operation => operation ≠ .unwatch id
  | receive _ => True

instance (act : Act) (id : ℕ) : Decidable (act.Spares id) :=
  match act with
  | .op _ _ operation => inferInstanceAs (Decidable (operation ≠ .unwatch id))
  | .receive _ => isTrue trivial

def Act.exec (act : Act) (w : Station) : Station :=
  match act with
  | op user clock operation => ⟨(Call.op user clock operation).exec w.fs, w.heard⟩
  | receive id =>
    let ev := tryRecv w.fs id (w.heard id).length
    ⟨w.fs, Function.update w.heard id (w.heard id ++ ev.toList)⟩

/-- The events that are sent. -/
def Act.sent (act : Act) (w : Station) : List Event :=
  match act with
  | op user clock operation => Call.sent w.fs (.op user clock operation)
  | receive _ => []

namespace Station

/-- What waits for the watcher with the slot `id`. -/
def pending (w : Station) (id : ℕ) : List Event :=
  ((w.fs.received id).getD []).drop (w.heard id).length

def accepts (w : Station) (id : ℕ) (ev : Event) : Bool :=
  match slotOf w.fs.watchers id with
  | some slot => matchesSlot slot ev
  | none => false

/-- Slots that are not given out yet have heard nothing, and the watchers of the others what was sent. -/
structure Sound (w : Station) : Prop where
  reachable : Reachable w.fs
  unused : ∀ id, w.fs.watchers.nextId ≤ id → w.heard id = []
  hears : ∀ id evs, w.fs.received id = some evs → w.heard id <+: evs

end Station

/-! ### What an operation does to a slot -/

section Registry
variable {reg : WatchRegistry} {slot : WatchSlot} {id : ℕ}

/-- The slot after `evs` have been sent. -/
def taking (evs : List Event) (slot : WatchSlot) : WatchSlot :=
  { slot with tx := slot.tx ++ evs.filter (matchesSlot slot) }

lemma taking_nil (slot : WatchSlot) : taking [] slot = slot :=
  congrArg (fun tx => { slot with tx := tx }) (List.append_nil slot.tx)

lemma taking_cons (ev : Event) (evs : List Event) (slot : WatchSlot) : taking (ev :: evs) slot
    = taking evs (if matchesSlot slot ev then { slot with tx := slot.tx ++ [ev] } else slot) := by
  by_cases hmatch : matchesSlot slot ev = true
  · rw [if_pos hmatch, taking, List.filter_cons_of_pos hmatch]
    exact congrArg (fun tx => { slot with tx := tx }) (List.append_assoc slot.tx [ev] _).symm
  · rw [if_neg hmatch, taking, List.filter_cons_of_neg hmatch]
    rfl

lemma slotOf_foldl_emit (evs : List Event) (reg : WatchRegistry) (id : ℕ) :
    slotOf (evs.foldl WatchRegistry.emit reg) id = (slotOf reg id).map (taking evs) := by
  induction evs generalizing reg with
  | nil =>
    have htaking : taking [] = fun slot => slot := funext taking_nil
    rw [htaking, Option.map_id_fun']
    rfl
  | cons ev evs ih =>
    rw [List.foldl_cons, ih, slotOf_emit, Option.map_map]
    exact congrArg (Option.map · _) (funext fun slot => (taking_cons ev evs slot).symm)

lemma nextId_foldl_emit (evs : List Event) (reg : WatchRegistry) :
    (evs.foldl WatchRegistry.emit reg).nextId = reg.nextId := by
  induction evs generalizing reg with
  | nil => rfl
  | cons ev evs ih => exact ih _

lemma id_of_slotOf (hslot : slotOf reg id = some slot) : slot.id = id := by
  simpa using List.find?_some hslot

lemma slotOf_lt_nextId (h : Bounded reg) (hslot : slotOf reg id = some slot) : id < reg.nextId := by
  have hlt := h slot (List.mem_of_find?_eq_some hslot)
  rwa [id_of_slotOf hslot] at hlt

/-- After a slot has been added, there are that one and the old ones. -/
lemma of_slotOf_subscribe {path : Str} {recursive : Bool}
    (hslot : slotOf (reg.subscribe path recursive).2 id = some slot) :
    slotOf reg id = some slot ∨ id = reg.nextId ∧ slot = ⟨reg.nextId, path, recursive, []⟩ := by
  have hid := id_of_slotOf hslot
  unfold slotOf WatchRegistry.subscribe at hslot
  rw [List.find?_append] at hslot
  rcases Option.or_eq_some_iff.mp hslot with hold | ⟨-, hnew⟩
  · exact Or.inl hold
  · obtain rfl := List.mem_singleton.mp (List.mem_of_find?_eq_some hnew)
    exact Or.inr ⟨hid.symm, rfl⟩

lemma of_slotOf_drop {id' : ℕ} (hslot : slotOf (reg.drop id') id = some slot) :
    slotOf reg id = some slot := by
  have hmem := List.mem_filter.mp (List.mem_of_find?_eq_some hslot)
  have hid : id' ≠ id := by
    rintro rfl
    rw [id_of_slotOf hslot] at hmem
    exact absurd hmem.2 (by simp)
  cases hold : slotOf reg id with
  | some slot' => rw [← hslot, slotOf_drop hold hid]
  | none => exact absurd (decide_eq_true (id_of_slotOf hslot)) (List.find?_eq_none.mp hold slot hmem.1)

end Registry

variable {s : Filesystem} {w : Station} {id : ℕ}

/-- An operation of whatever user subscribes a watcher, drops one or sends events, and nothing else. -/
lemma registry_cases (h : Reachable s) (user : Option (UInt32 × UInt32)) (clock : Clock)
    (operation : Op) :
    (∃ path recursive, Call.sent s (.op user clock operation) = [] ∧
      ((Call.op user clock operation).exec s).watchers = (s.watchers.subscribe path recursive).2) ∨
    (∃ id, operation = .unwatch id ∧ Call.sent s (.op user clock operation) = [] ∧
      ((Call.op user clock operation).exec s).watchers = s.watchers.drop id) ∨
    ((Call.op user clock operation).exec s).watchers
      = (Call.sent s (.op user clock operation)).foldl WatchRegistry.emit s.watchers := by
  rcases operation.watch_cases with ⟨path, recursive, rfl⟩ | ⟨id, rfl⟩ | ⟨hwatch, hunwatch⟩
  · have hsent : Call.sent s (.op user clock (.watch path recursive)) = [] := ite_self _
    rw [hsent, exec_op, asUser_watchers, ← actAs_watchers s user]
    rcases watch_state clock path recursive with hsame | hsub
    · exact Or.inr (Or.inr (congrArg watchers hsame))
    · exact Or.inl ⟨path, recursive, rfl, congrArg watchers hsub⟩
  · refine Or.inr (Or.inl ⟨id, rfl, ite_self _, ?_⟩)
    rw [exec_op, asUser_watchers, ← actAs_watchers s user]
    rfl
  · exact Or.inr (Or.inr (Call.watchers_exec h user operation hwatch hunwatch))

lemma received_of_slotOf {slot : WatchSlot} (hslot : slotOf s.watchers id = some slot) :
    s.received id = some slot.tx :=
  congrArg (Option.map WatchSlot.tx) hslot

lemma received_eq_some {evs : List Event} :
    s.received id = some evs ↔ ∃ slot, slotOf s.watchers id = some slot ∧ slot.tx = evs :=
  Option.map_eq_some_iff

namespace Station

variable {act : Act}

lemma Sound.op (h : w.Sound) (user : Option (UInt32 × UInt32)) (clock : Clock) (operation : Op) :
    ((Act.op user clock operation).exec w).Sound := by
  have hreachable : Reachable ((Call.op user clock operation).exec w.fs) := .next h.reachable trivial
  rcases registry_cases h.reachable user clock operation with
    ⟨path, recursive, -, hreg⟩ | ⟨id', -, -, hreg⟩ | hreg
  · refine ⟨hreachable, fun id hid => ?_, fun id evs hevs => ?_⟩
    · refine h.unused id (Nat.le_of_succ_le (Nat.le_trans (Nat.le_of_eq ?_) hid))
      exact (congrArg WatchRegistry.nextId hreg).symm
    · obtain ⟨slot, hslot, rfl⟩ := received_eq_some.mp hevs
      rcases of_slotOf_subscribe (hreg ▸ hslot) with hold | ⟨rfl, -⟩
      · exact h.hears id _ (received_of_slotOf hold)
      · change w.heard _ <+: _
        rw [h.unused _ le_rfl]
        exact List.nil_prefix
  · refine ⟨hreachable, fun id hid => ?_, fun id evs hevs => ?_⟩
    · exact h.unused id (Nat.le_trans (Nat.le_of_eq (congrArg WatchRegistry.nextId hreg).symm) hid)
    · obtain ⟨slot, hslot, rfl⟩ := received_eq_some.mp hevs
      exact h.hears id _ (received_of_slotOf (of_slotOf_drop (hreg ▸ hslot)))
  · refine ⟨hreachable, fun id hid => ?_, fun id evs hevs => ?_⟩
    · refine h.unused id (Nat.le_trans (Nat.le_of_eq ?_) hid)
      exact ((congrArg WatchRegistry.nextId hreg).trans (nextId_foldl_emit _ _)).symm
    · obtain ⟨slot', hslot', rfl⟩ := received_eq_some.mp hevs
      have hmapped := (slotOf_foldl_emit _ w.fs.watchers id).symm.trans (hreg ▸ hslot')
      obtain ⟨slot, hslot, rfl⟩ := Option.map_eq_some_iff.mp hmapped
      exact (h.hears id _ (received_of_slotOf hslot)).trans (List.prefix_append _ _)

lemma prefix_concat_get {α : Type} {l l' : List α} (h : l <+: l') :
    l ++ (l'[l.length]?).toList <+: l' := by
  obtain ⟨t, rfl⟩ := h
  rw [List.getElem?_append_right le_rfl, Nat.sub_self]
  cases t with
  | nil => exact List.prefix_rfl
  | cons a t => exact ⟨t, List.append_assoc l [a] t⟩

lemma Sound.receive (h : w.Sound) (id : ℕ) : ((Act.receive id).exec w).Sound := by
  refine ⟨h.reachable, fun id' hid => ?_, fun id' evs hevs => ?_⟩
  · change Function.update w.heard id _ id' = []
    by_cases heq : id' = id
    · subst heq
      have hnone : slotOf w.fs.watchers id' = none := by
        refine Option.eq_none_iff_forall_ne_some.mpr fun slot hslot => ?_
        exact absurd (slotOf_lt_nextId (bounded_reachable h.reachable) hslot) (Nat.not_lt.mpr hid)
      rw [Function.update_self, h.unused id' hid, tryRecv, hnone]
      rfl
    · rw [Function.update_of_ne heq]
      exact h.unused id' hid
  · change Function.update w.heard id _ id' <+: evs
    have hheard := h.hears id' evs hevs
    by_cases heq : id' = id
    · subst heq
      obtain ⟨slot, hslot, rfl⟩ := received_eq_some.mp hevs
      rw [Function.update_self, tryRecv, show slotOf w.fs.watchers id' = some slot from hslot]
      exact prefix_concat_get hheard
    · rw [Function.update_of_ne heq]
      exact hheard

/-- Whatever is done, watchers have heard the first of the events that were sent to them. -/
lemma Sound.after (h : w.Sound) (acts : List Act) : (Run.after Act.exec acts w).Sound := by
  induction acts generalizing w with
  | nil => exact h
  | cons act acts ih =>
    refine ih ?_
    cases act with
    | op user clock operation => exact h.op user clock operation
    | receive id => exact h.receive id

/-- What has been heard and what waits are what was sent. -/
lemma Sound.heard_append_pending (h : w.Sound) {evs : List Event} (hevs : w.fs.received id = some evs) :
    w.heard id ++ w.pending id = evs := by
  rw [pending, hevs]
  exact (List.prefix_iff_eq_append.mp (h.hears id evs hevs))

/-! ### The log of all events -/

lemma accepts_of_slotOf {slot : WatchSlot} (hslot : slotOf w.fs.watchers id = some slot) :
    w.accepts id = matchesSlot slot := by
  funext ev
  rw [accepts, show slotOf w.fs.watchers id = some slot from hslot]

/-- Each step sends the same events to everybody who stays. -/
lemma Sound.sends (h : w.Sound) (act : Act) :
    Broadcast.Sends Act.exec Act.sent (fun w id => w.fs.received id) accepts Act.Spares w act := by
  cases act with
  | receive id =>
    refine fun id' evs hevs _ => ⟨?_, rfl⟩
    exact hevs.trans (congrArg some (List.append_nil evs).symm)
  | op user clock operation =>
    suffices htaking : ∀ id slot, slotOf w.fs.watchers id = some slot → operation ≠ .unwatch id →
        slotOf ((Call.op user clock operation).exec w.fs).watchers id
          = some (taking (Call.sent w.fs (.op user clock operation)) slot) by
      intro id q hq hspares
      obtain ⟨slot, hslot, rfl⟩ := received_eq_some.mp hq
      have hslot' := htaking id slot hslot hspares
      have haccepts : ((Act.op user clock operation).exec w).accepts id
          = matchesSlot (taking (Call.sent w.fs (.op user clock operation)) slot) :=
        accepts_of_slotOf hslot'
      rw [haccepts, accepts_of_slotOf hslot]
      exact ⟨received_of_slotOf hslot', rfl⟩
    intro id slot hslot hspares
    rcases registry_cases h.reachable user clock operation with
      ⟨path, recursive, hsent, hreg⟩ | ⟨id', rfl, hsent, hreg⟩ | hreg
    · rw [hreg, hsent, taking_nil]
      exact slotOf_subscribe hslot path recursive
    · rw [hreg, hsent, taking_nil]
      refine slotOf_drop hslot ?_
      rintro rfl
      exact hspares rfl
    · rw [hreg, slotOf_foldl_emit, hslot]
      rfl

end Station

/-- A subscription that is answered has a channel of its own, with nothing in it. -/
lemma slotOf_watched (h : Reachable s) {user : Option (UInt32 × UInt32)} {clock : Clock} {path : Str}
    {recursive : Bool}
    (hok : ((Call.op user clock (.watch path recursive)).outcome s).result = .ok (.slot id)) :
    slotOf ((Call.op user clock (.watch path recursive)).exec s).watchers id
      = some ⟨id, path, recursive, []⟩ := by
  rw [outcome_op, asUser_result, Op.run, answer_apply] at hok
  rw [exec_op, asUser_watchers, Op.run, answer_apply]
  rcases watch_outcome (s := s.actAs user) path recursive with ⟨x, hx⟩ | hrun
  · rw [hx] at hok
    cases hok
  · rw [hrun] at hok ⊢
    obtain rfl := Reply.slot.inj (Except.ok.inj hok)
    rw [actAs_watchers]
    exact slotOf_subscribe_new (bounded_reachable h) path recursive

/-- Whatever is called and received in whatever order: a watcher has heard, or will hear next, the
events that have been sent since its subscription and match its path, each of them once and in the order
in which they were sent. -/
theorem watchers_hear (h : Reachable s) (acts : List Act) {i j : ℕ} {user : Option (UInt32 × UInt32)}
    {clock : Clock} {path : Str} {recursive : Bool} {id : ℕ}
    (hact : acts[i]? = some (.op user clock (.watch path recursive))) (hij : i < j)
    (hj : j ≤ acts.length)
    (hok : ((Call.op user clock (.watch path recursive)).outcome
      (Run.after Act.exec (acts.take i) ⟨s, fun _ => []⟩).fs).result = .ok (.slot id))
    (hspares : ∀ act ∈ (acts.take j).drop (i + 1), act.Spares id) :
    (Run.after Act.exec (acts.take j) ⟨s, fun _ => []⟩).heard id
        ++ (Run.after Act.exec (acts.take j) ⟨s, fun _ => []⟩).pending id
      = (((Broadcast.log Act.exec Act.sent ⟨s, fun _ => []⟩ acts).take j).drop (i + 1)).flatten.filter
          (matchesSlot ⟨id, path, recursive, []⟩) := by
  have hstart : (⟨s, fun _ => []⟩ : Station).Sound := ⟨h, fun _ _ => rfl, fun _ _ _ => List.nil_prefix⟩
  have hbefore := hstart.after (acts.take i)
  have hstep : Run.after Act.exec (acts.take (i + 1)) ⟨s, fun _ => []⟩
      = (Act.op user clock (.watch path recursive)).exec
        (Run.after Act.exec (acts.take i) ⟨s, fun _ => []⟩) := by
    rw [List.take_add_one, hact, Run.after, List.foldl_append]
    rfl
  have hslot : slotOf (Run.after Act.exec (acts.take (i + 1)) ⟨s, fun _ => []⟩).fs.watchers id
      = some ⟨id, path, recursive, []⟩ := by
    rw [hstep]
    exact slotOf_watched hbefore.reachable hok
  have hreceived := Broadcast.box_after (fun w act (hw : Station.Sound w) => hw.sends act) acts
    (fun i _ => hstart.after (acts.take i)) hij hj (received_of_slotOf hslot) hspares
  rw [(hstart.after (acts.take j)).heard_append_pending hreceived, Station.accepts_of_slotOf hslot]
  rfl

/-- Two watchers, one of all and one of a directory, who read at different times. -/
def twoWatchers : List Act :=
  [.op none ⟨0, 0⟩ (.mkdir ['/', 'a'] 0o755), .op none ⟨0, 0⟩ (.watch ['/'] true),
    .op none ⟨0, 0⟩ (.watch ['/', 'a'] false), .op none ⟨0, 1⟩ (.mkdir ['/', 'a', '/', 'b'] 0o755),
    .receive 2, .op none ⟨0, 2⟩ (.mkdir ['/', 'c'] 0o755), .op none ⟨0, 3⟩ (.rmdir ['/', 'a', '/', 'b']),
    .op none ⟨0, 0⟩ (.unwatch 1)]

theorem watchers_hear_twoWatchers :
    (Run.after Act.exec twoWatchers ⟨newFs, fun _ => []⟩).heard 2
        ++ (Run.after Act.exec twoWatchers ⟨newFs, fun _ => []⟩).pending 2
      = [⟨.create, ['/', 'a', '/', 'b'], none, none, .dir, 3, 1⟩,
        ⟨.remove, ['/', 'a', '/', 'b'], none, none, .dir, 3, 3⟩] := by
  have hok : ((Call.op none ⟨0, 0⟩ (.watch ['/', 'a'] false)).outcome
      (Run.after Act.exec (twoWatchers.take 2) ⟨newFs, fun _ => []⟩).fs).result = .ok (.slot 2) := by
    decide +kernel
  have hspares : ∀ act ∈ (twoWatchers.take 8).drop (2 + 1), act.Spares 2 := by decide
  refine (watchers_hear (j := 8) (.start fresh_newFs) twoWatchers rfl (by decide) (by decide) hok
    hspares).trans ?_
  decide +kernel

end Filesystem

end SqliteFs

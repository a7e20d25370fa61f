import SqliteFs.Python.Rename

/-!
# The effect of every call in the Python library

Every call of a run has an effect on the core of the state, and where the effect has a label of
its own, the call is the one that asks for it.
-/

namespace SqliteFs

open Txn

namespace Python

namespace Filesystem

variable {s : Filesystem}

/-- The state as `user` sees it. -/
def actAs (s : Filesystem) : Option (ℤ × ℤ) → Filesystem
  | none => s
  | some (uid, gid) => { s with uid := uid, gid := gid }

section ActAs
variable (s) (user : Option (ℤ × ℤ))

@[simp] lemma actAs_conn : (s.actAs user).conn = s.conn := by cases user <;> rfl
@[simp] lemma actAs_readonly : (s.actAs user).readonly = s.readonly := by cases user <;> rfl
@[simp] lemma actAs_fdTable : (s.actAs user).fdTable = s.fdTable := by cases user <;> rfl
@[simp] lemma actAs_chunkSizeVal : (s.actAs user).chunkSizeVal = s.chunkSizeVal := by
  cases user <;> rfl
@[simp] lemma actAs_core : (s.actAs user).core = s.core := by cases user <;> rfl

end ActAs

lemma answer_apply {α : Type} (f : α → Reply) (p : Action α) :
    answer f p s = ⟨(p s).result.map f, (p s).state, (p s).commits⟩ := by
  unfold answer
  cases hp : p s with
  | mk r s' l =>
    cases r with
    | error e => exact Prog.bind_apply_error hp
    | ok a =>
      rw [Prog.bind_apply_ok hp]
      exact congrArg _ (List.append_nil l)

lemma asUser_core {α : Type} {user : Option (ℤ × ℤ)} {p : Action α} :
    (asUser user p s).state.core = (p (s.actAs user)).state.core := by
  cases user <;> rfl

lemma asUser_conn {α : Type} {user : Option (ℤ × ℤ)} {p : Action α} :
    (asUser user p s).state.conn = (p (s.actAs user)).state.conn := by
  cases user <;> rfl

/-- The operation asks for an effect with this label. -/
def Op.Asks (s : Filesystem) : Op → Label → Prop
  | _, .plain => True
  | .closeFd fd, .closes fd' => fd' = fd
  | .rename src dst noreplace exchange, .replaces e q m t =>
    exchange = false ∧ MayReplace s src dst noreplace e q m t
  | .rename src dst noreplace exchange, .swaps e t =>
    (noreplace = false ∧ exchange = true) ∧ MaySwap s src dst e t
  | _, _ => False

/-- The call asks for an effect with this label. -/
def Call.Asks (s : Filesystem) : Call → Label → Prop
  | .op user _ operation, l => operation.Asks (s.actAs user) l
  | .reopen .., l => l = .reopens

lemma effect_of_does {α : Type} {p : Action α} {labels labels' : Label → Prop} {f : α → Reply}
    (h : Does s labels p) (hplain : labels' .plain) (hlabels : ∀ l, labels l → labels' l) :
    ∃ l, labels' l ∧ Effect s.core l (answer f p s).state.core := by
  rw [answer_apply]
  rcases h with ⟨e, he⟩ | ⟨l, hl, he⟩
  · rw [he]
    exact ⟨_, hplain, effect_refl s⟩
  · exact ⟨l, hlabels l hl, he⟩

lemma effect_of_plain {α : Type} {p : Action α} {labels : Label → Prop} {f : α → Reply}
    (h : DoesPlain s p) (hplain : labels .plain) :
    ∃ l, labels l ∧ Effect s.core l (answer f p s).state.core := by
  refine effect_of_does h hplain ?_
  rintro l rfl
  exact hplain

/-- Every operation has an effect that it asks for. -/
theorem Op.effect (operation : Op) (s : Filesystem) (env : Env) :
    ∃ l, operation.Asks s l ∧ Effect s.core l (operation.run env s).state.core := by
  cases operation with
  | mkdir path mode => exact effect_of_plain mkdir_does trivial
  | rmdir path => exact effect_of_plain rmdir_does trivial
  | readdir path => exact effect_of_plain readdir_does trivial
  | stat path followSymlinks => exact effect_of_plain stat_does trivial
  | exists_ path =>
    refine ⟨.plain, trivial, ?_⟩
    rw [Op.run, answer_apply, exists_core]
    exact effect_refl s
  | chmod path mode followSymlinks => exact effect_of_plain chmod_does trivial
  | chown path uid gid followSymlinks => exact effect_of_plain chown_does trivial
  | utimes path atimeNs mtimeNs followSymlinks => exact effect_of_plain utimes_does trivial
  | create path mode flags => exact effect_of_plain open_does trivial
  | open_ path flags mode => exact effect_of_plain open_does trivial
  | closeFd fd =>
    refine effect_of_does closeFd_does trivial ?_
    rintro l rfl
    rfl
  | read fd size offset => exact effect_of_plain read_does trivial
  | write fd data offset => exact effect_of_plain write_does trivial
  | truncateFd fd size => exact effect_of_plain truncateFd_does trivial
  | truncate path size => exact effect_of_plain truncate_does trivial
  | fsync fd => exact effect_of_plain (does_pure _) trivial
  | unlink path => exact effect_of_plain unlink_does trivial
  | symlink target linkpath => exact effect_of_plain symlink_does trivial
  | readlink path => exact effect_of_plain readlink_does trivial
  | link src dst => exact effect_of_plain link_does trivial
  | getxattr path name => exact effect_of_plain getxattr_does trivial
  | setxattr path name value flags => exact effect_of_plain setxattr_does trivial
  | listxattr path => exact effect_of_plain listxattr_does trivial
  | removexattr path name => exact effect_of_plain removexattr_does trivial
  | rename src dst noreplace exchange =>
    refine effect_of_does rename_does trivial ?_
    rintro l (rfl | ⟨rfl, e, q, m, t, rfl, hmay⟩ | ⟨rfl, rfl, e, t, rfl, hmay⟩)
    · trivial
    · exact ⟨rfl, hmay⟩
    · exact ⟨⟨rfl, rfl⟩, hmay⟩
  | posixLock fd op start length => exact effect_of_plain posixLock_does trivial
  | ofdLock fd op start length => exact effect_of_plain ofdLock_does trivial
  | flock fd op => exact effect_of_plain flock_does trivial
  | posixGetlk fd start length => exact effect_of_plain posixGetlk_does trivial
  | ofdGetlk fd start length => exact effect_of_plain ofdGetlk_does trivial
  | watch path recursive => exact effect_of_plain watch_does trivial
  | closeWatcher id => exact effect_of_plain closeWatcher_does trivial
  | nextEvent id => exact effect_of_plain nextEvent_does trivial

/-- Every call has an effect that it asks for. -/
theorem Call.effect (call : Call) (s : Filesystem) :
    ∃ l, call.Asks s l ∧ Effect s.core l (call.exec s).core := by
  cases call with
  | op user env operation =>
    obtain ⟨l, hl, h⟩ := operation.effect (s.actAs user) env
    refine ⟨l, hl, ?_⟩
    rw [actAs_core] at h
    rw [Call.exec, Call.outcome, asUser_core]
    exact h
  | reopen readonly uid gid => exact ⟨_, rfl, .reopens⟩

/-- What holds of a core at the start and is kept by every effect that the run allows holds
along the run. -/
theorem runsTo_core {Ok : Filesystem → Call → Prop} {P : Core → Prop}
    (hfresh : ∀ s, Fresh s → P s.core)
    (heffect : ∀ (s : Filesystem) (call : Call) (l : Label) (c : Core), Ok s call →
      call.Asks s l → P s.core → Effect s.core l c → P c)
    {s : Filesystem} (h : RunsTo Ok s) : P s.core := by
  refine Run.invariant (P := fun s => P s.core) hfresh (fun s call _ hok hs => ?_) h
  obtain ⟨l, hl, he⟩ := call.effect s
  exact heffect s call l _ hok hl hs he

end Filesystem

end Python

end SqliteFs

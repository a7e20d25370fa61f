import SqliteFs.Python.Resolution

/-!
# How symlinks are substituted

Resolution walks along a path up to the first symlink that it has to follow, puts the symlink's
target in its place and starts again. Without the counter of traversed symlinks this might go on
forever. With it, resolution makes the same substitutions, up to the limit.
-/

namespace SqliteFs

namespace Python

namespace Filesystem

variable {d : Db} {uid gid : ℤ} {follow : Bool} {path path' : Str} {i n : ℕ}

/-! ### The walk up to a symlink -/

/-- A symlink on a path, with the names before and behind it. -/
structure Link where
  behind : List Str
  inode : ℕ
  rest : List Str
  deriving DecidableEq

/-- The walk along a path, up to its end or to the first symlink that has to be followed. -/
def scan (d : Db) (uid gid : ℤ) (follow : Bool) : List Str → ℕ → List Str → Res (ℕ ⊕ Link)
  | _, cur, [] => .ok (.inl cur)
  | done, cur, name :: rest => do
    let curNode ← Nodes.get d cur
    check (curNode.kind = .dir) (.notADirectory [.repr name, .lit " has non-dir ancestor"])
    requireAccess curNode.mode curNode.uid curNode.gid uid gid Access.X
    let entry ← Entries.get d cur name
    let child ← Nodes.get d entry.inode
    if child.kind = .symlink ∧ (rest ≠ [] ∨ follow) then .ok (.inr ⟨done, child.inode, rest⟩)
    else scan d uid gid follow (done ++ [name]) child.inode rest

/-- The walk along a path from the root. -/
def scanPath (d : Db) (uid gid : ℤ) (follow : Bool) (path : Str) : Res (ℕ ⊕ Link) := do
  let components ← parsePath path
  scan d uid gid follow [] ROOT_INODE components

/-- The path that takes the place of one with this symlink on it. -/
def Link.rewritten (d : Db) (link : Link) : Res Str := do
  let targetBytes ← Symlinks.get d link.inode
  let target ← decodeTarget targetBytes
  return substitute link.behind target link.rest

def tooManySymlinks (path : Str) : Exc := .symlinkLoop [.lit "too many symlinks resolving ", .repr path]

/-- What resolution does where the walk has ended. -/
def resume (d : Db) (path : Str) (again : Option (Str → Res ℕ)) : ℕ ⊕ Link → Res ℕ
  | .inl i => .ok i
  | .inr link =>
    match again with
    | none => raise (tooManySymlinks path)
    | some again => link.rewritten d >>= again

lemma walk_eq_scan {again : Option (Str → Res ℕ)} {rest : List Str} : ∀ {done : List Str} {cur : ℕ},
    walk d uid gid path follow again done cur rest
      = scan d uid gid follow done cur rest >>= resume d path again := by
  induction rest with
  | nil =>
    intro done cur
    rw [walk, scan]
    rfl
  | cons name rest ih =>
    intro done cur
    rw [walk, scan, bind_assoc]
    refine bind_congr fun curNode => ?_
    rw [bind_assoc]
    refine bind_congr fun _ => ?_
    rw [bind_assoc]
    refine bind_congr fun _ => ?_
    rw [bind_assoc]
    refine bind_congr fun entry => ?_
    rw [bind_assoc]
    refine bind_congr fun child => ?_
    split_ifs
    · cases again with
      | none => rfl
      | some again =>
        change _ = Link.rewritten d _ >>= again
        unfold Link.rewritten
        simp only [bind_assoc, pure_bind]
    · exact ih

/-- What resolution does with a path in which it has substituted a symlink. -/
def deeper (d : Db) (uid gid : ℤ) (follow : Bool) : ℕ → Option (Str → Res ℕ)
  | 0 => none
  | budget + 1 => some (resolvePathWith d uid gid follow budget)

lemma resolvePathWith_eq (budget : ℕ) (path : Str) : resolvePathWith d uid gid follow budget path =
    scanPath d uid gid follow path >>= resume d path (deeper d uid gid follow budget) := by
  unfold scanPath
  rw [bind_assoc]
  cases budget with
  | zero =>
    rw [resolvePathWith]
    exact bind_congr fun _ => walk_eq_scan
  | succ budget =>
    rw [resolvePathWith]
    exact bind_congr fun _ => walk_eq_scan

/-! ### Unbounded substitution -/

/-- Resolution of the path substitutes a symlink, which leads to another path. -/
def Substitutes (d : Db) (uid gid : ℤ) (follow : Bool) (path path' : Str) : Prop :=
  ∃ link, scanPath d uid gid follow path = .ok (.inr link) ∧ link.rewritten d = .ok path'

/-- `n` substitutions, one after the other, make one path of the other. -/
def Substituted (d : Db) (uid gid : ℤ) (follow : Bool) : ℕ → Str → Str → Prop
  | 0, path, path' => path = path'
  | n + 1, path, path' => ∃ p, Substitutes d uid gid follow path p ∧
      Substituted d uid gid follow n p path'

/-- Without a bound on symlinks, resolution of the path ends with a result, once it has come to
so many symlinks that it has to follow. -/
inductive Ends (d : Db) (uid gid : ℤ) (follow : Bool) : Str → ℕ → Res ℕ → Prop
  | fails {path : Str} {e : Halt} : scanPath d uid gid follow path = .error e →
      Ends d uid gid follow path 0 (.error e)
  | arrives {path : Str} {i : ℕ} : scanPath d uid gid follow path = .ok (.inl i) →
      Ends d uid gid follow path 0 (.ok i)
  | unreadable {path : Str} {link : Link} {e : Halt} :
      scanPath d uid gid follow path = .ok (.inr link) → link.rewritten d = .error e →
      Ends d uid gid follow path 1 (.error e)
  | substitutes {path path' : Str} {n : ℕ} {r : Res ℕ} :
      Substitutes d uid gid follow path path' → Ends d uid gid follow path' n r →
      Ends d uid gid follow path (n + 1) r

/-- Resolution of the path ends without another substitution when `budget` more symlinks may be
traversed. -/
inductive Stops (d : Db) (uid gid : ℤ) (follow : Bool) (path : Str) (budget : ℕ) : Res ℕ → Prop
  | fails {e : Halt} : scanPath d uid gid follow path = .error e →
      Stops d uid gid follow path budget (.error e)
  | arrives {i : ℕ} : scanPath d uid gid follow path = .ok (.inl i) →
      Stops d uid gid follow path budget (.ok i)
  | unreadable {link : Link} {e : Halt} : scanPath d uid gid follow path = .ok (.inr link) →
      0 < budget → link.rewritten d = .error e → Stops d uid gid follow path budget (.error e)
  | tooMany {link : Link} : scanPath d uid gid follow path = .ok (.inr link) → budget = 0 →
      Stops d uid gid follow path budget (raise (tooManySymlinks path))

/-- Substitution goes on forever. -/
def NeverEnds (d : Db) (uid gid : ℤ) (follow : Bool) (path : Str) : Prop :=
  ∀ n, ∃ path', Substituted d uid gid follow n path path'

section
variable {p : Str} {r : Res ℕ} {m : ℕ}

lemma Substitutes.unique (h : Substitutes d uid gid follow path path')
    (h' : Substitutes d uid gid follow path p) : path' = p := by
  obtain ⟨link, hscan, hlink⟩ := h
  obtain ⟨link', hscan', hlink'⟩ := h'
  obtain rfl := Sum.inr.inj (Except.ok.inj (hscan.symm.trans hscan'))
  exact Except.ok.inj (hlink.symm.trans hlink')

lemma Ends.of_substituted : ∀ {n : ℕ} {path : Str}, Substituted d uid gid follow n path path' →
    Ends d uid gid follow path' m r → Ends d uid gid follow path (n + m) r := by
  intro n
  induction n with
  | zero =>
    rintro path rfl h
    rw [Nat.zero_add]
    exact h
  | succ n ih =>
    rintro path ⟨p, hp, hn⟩ h
    rw [Nat.succ_add]
    exact .substitutes hp (ih hn h)

lemma Ends.of_substitutes (hsub : Substitutes d uid gid follow path p)
    (h : Ends d uid gid follow path n r) : ∃ k, n = k + 1 ∧ Ends d uid gid follow p k r := by
  obtain ⟨link, hscan, hlink⟩ := id hsub
  cases h with
  | fails hscan' => cases hscan.symm.trans hscan'
  | arrives hscan' => cases hscan.symm.trans hscan'
  | unreadable hscan' hlink' =>
    cases hscan.symm.trans hscan'
    cases hlink.symm.trans hlink'
  | substitutes hsub' hends =>
    rw [← hsub.unique hsub'] at hends
    exact ⟨_, rfl, hends⟩

lemma Ends.rest_of_substituted : ∀ {n m : ℕ} {path : Str}, Substituted d uid gid follow n path p →
    Ends d uid gid follow path m r → ∃ k ≤ m, Ends d uid gid follow p k r := by
  intro n
  induction n with
  | zero =>
    rintro m path rfl h
    exact ⟨m, le_rfl, h⟩
  | succ n ih =>
    rintro m path ⟨q, hq, hn⟩ h
    obtain ⟨k, rfl, hends⟩ := h.of_substitutes hq
    obtain ⟨k', hk', hrest⟩ := ih hn hends
    exact ⟨k', hk'.trans (Nat.le_succ k), hrest⟩

/-- What ends does not go on forever. -/
lemma Ends.not_neverEnds (h : Ends d uid gid follow path n r) : ¬ NeverEnds d uid gid follow path := by
  induction h with
  | fails hscan =>
    intro hnever
    obtain ⟨_, _, ⟨link, hscan', -⟩, -⟩ := hnever 1
    cases hscan.symm.trans hscan'
  | arrives hscan =>
    intro hnever
    obtain ⟨_, _, ⟨link, hscan', -⟩, -⟩ := hnever 1
    cases hscan.symm.trans hscan'
  | unreadable hscan hlink =>
    intro hnever
    obtain ⟨_, _, ⟨link, hscan', hlink'⟩, -⟩ := hnever 1
    cases hscan.symm.trans hscan'
    cases hlink.symm.trans hlink'
  | substitutes hsub _ ih =>
    refine fun hnever => ih fun n => ?_
    obtain ⟨path', p, hp, hn⟩ := hnever (n + 1)
    rw [hsub.unique hp]
    exact ⟨path', hn⟩

end

/-! ### What the bound makes of it -/

section
variable {budget : ℕ} {r : Res ℕ}

/-- One call of `_resolve_path`. -/
lemma resolvePathWith_step (budget : ℕ) (path : Str) :
    Stops d uid gid follow path budget (resolvePathWith d uid gid follow budget path) ∨
      ∃ b path', budget = b + 1 ∧ Substitutes d uid gid follow path path' ∧
        resolvePathWith d uid gid follow budget path = resolvePathWith d uid gid follow b path' := by
  rw [resolvePathWith_eq]
  cases hscan : scanPath d uid gid follow path with
  | error e => exact Or.inl (.fails hscan)
  | ok stop =>
    cases stop with
    | inl i => exact Or.inl (.arrives hscan)
    | inr link =>
      cases budget with
      | zero => exact Or.inl (.tooMany hscan rfl)
      | succ b =>
        change Stops d uid gid follow path (b + 1)
          (link.rewritten d >>= resolvePathWith d uid gid follow b) ∨ ∃ b' path', b + 1 = b' + 1 ∧ _ ∧
            link.rewritten d >>= resolvePathWith d uid gid follow b = _
        cases hlink : link.rewritten d with
        | error e => exact Or.inl (.unreadable hscan b.succ_pos hlink)
        | ok path' => exact Or.inr ⟨b, path', rfl, ⟨link, hscan, hlink⟩, rfl⟩

/-- Resolution makes some substitutions, not more than it may, and stops. -/
lemma resolvePathWith_stops (d : Db) (uid gid : ℤ) (follow : Bool) :
    ∀ (budget : ℕ) (path : Str), ∃ n ≤ budget, ∃ path', Substituted d uid gid follow n path path' ∧
      Stops d uid gid follow path' (budget - n) (resolvePathWith d uid gid follow budget path) := by
  intro budget
  induction budget with
  | zero =>
    intro path
    rcases resolvePathWith_step 0 path with hstop | ⟨b, path', hb, -⟩
    · exact ⟨0, le_rfl, path, rfl, hstop⟩
    · cases hb
  | succ budget ih =>
    intro path
    rcases resolvePathWith_step (budget + 1) path with hstop | ⟨b, p, hb, hsub, hres⟩
    · exact ⟨0, Nat.zero_le _, path, rfl, hstop⟩
    · obtain rfl := Nat.succ.inj hb
      obtain ⟨n, hn, path', hpath', hstop⟩ := ih p
      rw [hres]
      refine ⟨n + 1, Nat.succ_le_succ hn, path', ⟨p, hsub, hpath'⟩, ?_⟩
      rwa [Nat.succ_sub_succ]

/-- What resolution without a bound comes to over so many symlinks, resolution comes to as well if
it may traverse them. -/
lemma resolvePathWith_of_ends (h : Ends d uid gid follow path n r) :
    ∀ {budget : ℕ}, n ≤ budget → resolvePathWith d uid gid follow budget path = r := by
  induction h with
  | fails hscan =>
    intro budget _
    rw [resolvePathWith_eq, hscan]
    rfl
  | arrives hscan =>
    intro budget _
    rw [resolvePathWith_eq, hscan]
    rfl
  | @unreadable path link e hscan hlink =>
    intro budget hn
    obtain ⟨b, rfl⟩ := Nat.exists_eq_succ_of_ne_zero (Nat.one_le_iff_ne_zero.mp hn)
    rw [resolvePathWith_eq, hscan]
    change link.rewritten d >>= resolvePathWith d uid gid follow b = _
    rw [hlink]
    rfl
  | @substitutes path path' n r hsub _ ih =>
    intro budget hn
    obtain ⟨link, hscan, hlink⟩ := hsub
    obtain ⟨b, rfl⟩ := Nat.exists_eq_succ_of_ne_zero (Nat.pos_iff_ne_zero.mp (Nat.lt_of_lt_of_le n.succ_pos hn))
    rw [resolvePathWith_eq, hscan]
    change link.rewritten d >>= resolvePathWith d uid gid follow b = _
    rw [hlink]
    exact ih (Nat.le_of_succ_le_succ hn)

/-- Substitution ends in one way. -/
lemma Ends.unique {m : ℕ} {r' : Res ℕ} (h : Ends d uid gid follow path n r)
    (h' : Ends d uid gid follow path m r') : r = r' :=
  (resolvePathWith_of_ends h (le_max_left n m)).symm.trans
    (resolvePathWith_of_ends h' (le_max_right n m))

end

/-! ### What else can go wrong -/

/-- The exception that resolution raises at its bound. -/
def IsSymlinkLoop (x : Exc) : Prop := ∃ msg, x = .symlinkLoop msg

/-- What goes wrong here is an exception, and none of these. -/
def Avoids {α : Type} (P : Exc → Prop) (r : Res α) : Prop :=
  ∀ e, r = .error e → ∃ x, e = .raised x ∧ ¬ P x

namespace Avoids

variable {α β : Type} {P : Exc → Prop} {x : Exc}

lemma ok (a : α) : Avoids P (.ok a : Res α) := fun _ h => nomatch h

lemma raise (hx : ¬ P x) : Avoids P (Python.raise x : Res α) := by
  rintro _ ⟨⟩
  exact ⟨x, rfl, hx⟩

lemma check {c : Prop} [Decidable c] (hx : ¬ P x) : Avoids P (Python.check c x) := by
  unfold Python.check
  split_ifs
  · exact .ok _
  · exact .raise hx

lemma rowOr {o : Option α} (hx : ¬ P x) : Avoids P (Python.rowOr o x) := by
  cases o with
  | none => exact .raise hx
  | some a => exact .ok a

lemma of_error {r : Res α} {e : Halt} (h : Avoids P r) (hr : r = .error e) :
    Avoids P (.error e : Res β) := by
  rintro _ ⟨⟩
  exact h e hr

lemma bind {r : Res α} {f : α → Res β} (hr : Avoids P r) (hf : ∀ a, Avoids P (f a)) :
    Avoids P (r >>= f) := by
  cases r with
  | error e => exact hr.of_error rfl
  | ok a => exact hf a

lemma forM {f : α → Res PUnit} (hf : ∀ a, Avoids P (f a)) : ∀ l : List α, Avoids P (l.forM f)
  | [] => .ok _
  | a :: l => .bind (hf a) fun _ => forM hf l

end Avoids

lemma parsePath_avoids (path : Str) : Avoids IsSymlinkLoop (parsePath path) := by
  unfold parsePath
  refine .bind (.check ?_) fun _ => .bind (.check ?_) fun _ => .bind (.check ?_) fun _ => ?_
  · rintro ⟨_, ⟨⟩⟩
  · rintro ⟨_, ⟨⟩⟩
  · rintro ⟨_, ⟨⟩⟩
  by_cases hroot : path = ['/']
  · rw [if_pos hroot]
    exact .ok _
  rw [if_neg hroot]
  refine .bind (.forM (fun c => ?_) _) fun _ => .ok _
  unfold checkComponent
  refine .bind (.check ?_) fun _ => .bind (.check ?_) fun _ => .bind (.check ?_) fun _ => .check ?_
  · rintro ⟨_, ⟨⟩⟩
  · rintro ⟨_, ⟨⟩⟩
  · rintro ⟨_, ⟨⟩⟩
  · rintro ⟨_, ⟨⟩⟩

section Walk
variable {P : Exc → Prop} (hmissing : ∀ msg, ¬ P (.notFound msg))
include hmissing

/-- A walk fails at what is missing, at what is no directory, or at a directory that the caller may
not search. -/
lemma scan_avoids (hdir : ∀ msg, ¬ P (.notADirectory msg)) (hdenied : ∀ msg, ¬ P (.permissionDenied msg))
    {rest : List Str} : ∀ {done : List Str} {cur : ℕ},
      Avoids P (scan d uid gid follow done cur rest) := by
  induction rest with
  | nil =>
    intro done cur
    rw [scan]
    exact .ok _
  | cons name rest ih =>
    intro done cur
    rw [scan]
    refine .bind (.rowOr (hmissing _)) fun dir => .bind (.check (hdir _)) fun _ =>
      .bind (.check (hdenied _)) fun _ => ?_
    refine .bind (.rowOr (hmissing _)) fun e => .bind (.rowOr (hmissing _)) fun child => ?_
    split_ifs
    · exact .ok _
    · exact ih

lemma rewritten_avoids (hinvalid : ∀ msg, ¬ P (.invalidArgument msg)) (link : Link) :
    Avoids P (link.rewritten d) := by
  unfold Link.rewritten
  exact .bind (.rowOr (hmissing _)) fun _ => .bind (.rowOr (hinvalid _)) fun _ => .ok _

end Walk

lemma Ends.avoids {r : Res ℕ} (h : Ends d uid gid follow path n r) : Avoids IsSymlinkLoop r := by
  have hmissing : ∀ msg, ¬ IsSymlinkLoop (.notFound msg) := by
    rintro msg ⟨_, ⟨⟩⟩
  induction h with
  | @fails path _ hscan =>
    have havoids : Avoids IsSymlinkLoop (scanPath d uid gid follow path) := by
      refine .bind (parsePath_avoids _) fun _ => scan_avoids hmissing ?_ ?_
      · rintro msg ⟨_, ⟨⟩⟩
      · rintro msg ⟨_, ⟨⟩⟩
    exact havoids.of_error hscan
  | arrives => exact .ok _
  | @unreadable _ link _ _ hlink =>
    have havoids : Avoids IsSymlinkLoop (link.rewritten d) := by
      refine rewritten_avoids hmissing ?_ link
      rintro msg ⟨_, ⟨⟩⟩
    exact havoids.of_error hlink
  | substitutes _ _ ih => exact ih

/-- Resolution with a bound ends as without, or it has met too many symlinks. -/
lemma resolvePathWith_cases (d : Db) (uid gid : ℤ) (follow : Bool) (budget : ℕ) (path : Str) :
    (∃ n ≤ budget, Ends d uid gid follow path n (resolvePathWith d uid gid follow budget path)) ∨
      ∃ msg, resolvePathWith d uid gid follow budget path = raise (.symlinkLoop msg) := by
  obtain ⟨n, hn, path', hsub, hstop⟩ := resolvePathWith_stops d uid gid follow budget path
  generalize resolvePathWith d uid gid follow budget path = r at hstop ⊢
  cases hstop with
  | fails hscan => exact Or.inl ⟨n, hn, .of_substituted hsub (.fails hscan)⟩
  | arrives hscan => exact Or.inl ⟨n, hn, .of_substituted hsub (.arrives hscan)⟩
  | unreadable hscan hpos hlink =>
    exact Or.inl ⟨n + 1, by omega, .of_substituted hsub (.unreadable hscan hlink)⟩
  | tooMany => exact Or.inr ⟨_, rfl⟩

/-- Resolution makes at most `MAXSYMLINKS` substitutions and returns. It never returns an inode if
substitution without a bound does not come to one: then it raises `SymlinkLoop`, unless a step
fails before, and always if substitution goes on forever. It never raises `SymlinkLoop` if
substitution ends after at most `MAXSYMLINKS` symlinks. -/
theorem resolvePathAs_ends (d : Db) (uid gid : ℤ) (path : Str) (follow : Bool) :
    (∃ n ≤ MAXSYMLINKS, ∃ path', Substituted d uid gid follow n path path' ∧
      Stops d uid gid follow path' (MAXSYMLINKS - n) (resolvePathAs d uid gid path follow)) ∧
    resolvePathAs d uid gid path follow ≠ .error .diverge ∧
    ((∀ n i, ¬ Ends d uid gid follow path n (.ok i)) →
      ∃ x, resolvePathAs d uid gid path follow = raise x ∧
        (IsSymlinkLoop x ∨ ∃ n ≤ MAXSYMLINKS, Ends d uid gid follow path n (raise x))) ∧
    (NeverEnds d uid gid follow path →
      ∃ x, resolvePathAs d uid gid path follow = raise x ∧ IsSymlinkLoop x) ∧
    ∀ n r, Ends d uid gid follow path n r → n ≤ MAXSYMLINKS →
      resolvePathAs d uid gid path follow = r ∧
        ∀ x, IsSymlinkLoop x → resolvePathAs d uid gid path follow ≠ raise x := by
  have hcases := resolvePathWith_cases d uid gid follow MAXSYMLINKS path
  refine ⟨resolvePathWith_stops d uid gid follow _ path, ?_, fun hnone => ?_, fun hnever => ?_, fun n r hends hn => ?_⟩
  · intro hdiverge
    rcases hcases with ⟨n, -, hends⟩ | ⟨msg, hloop⟩
    · obtain ⟨x, hx, -⟩ := hends.avoids _ hdiverge
      cases hx
    · cases hdiverge.symm.trans hloop
  · rcases hcases with ⟨n, hn, hends⟩ | ⟨msg, hloop⟩
    · cases hres : resolvePathWith d uid gid follow MAXSYMLINKS path with
      | ok i => exact absurd (hres ▸ hends) (hnone n i)
      | error e =>
        obtain ⟨x, rfl, -⟩ := hends.avoids e hres
        rw [hres] at hends
        exact ⟨x, hres, Or.inr ⟨n, hn, hends⟩⟩
    · exact ⟨_, hloop, Or.inl ⟨msg, rfl⟩⟩
  · rcases hcases with ⟨n, -, hends⟩ | ⟨msg, hloop⟩
    · exact absurd hnever hends.not_neverEnds
    · exact ⟨_, hloop, msg, rfl⟩
  · have hres : resolvePathAs d uid gid path follow = r := resolvePathWith_of_ends hends hn
    refine ⟨hres, fun x hx hraise => ?_⟩
    obtain ⟨y, hy, hnot⟩ := hends.avoids _ (hres.symm.trans hraise)
    cases hy
    exact hnot hx

end Filesystem

end Python

end SqliteFs

import SqliteFs.Python.Substitution
import SqliteFs.Python.SharedTables
import SqliteFs.Python.Changes

/-!
# Resolution through a symlink

A path that goes through a symlink is resolved as if it went on from where the symlink's target
leads to. The names behind the symlink are put behind the target, with a slash between them, so
this fails where the target, or a target that takes its place, already ends in a slash.
-/

namespace SqliteFs

namespace Python

namespace Filesystem

variable {d : Db} {uid gid : ℤ} {follow : Bool} {path path' p t : Str} {i n m cur : ℕ}
  {l rest done : List Str} {link : Link}

/-! ### Walks and the names behind them -/

/-- A round of the walk comes to `child`. -/
structure Visits (d : Db) (uid gid : ℤ) (cur : ℕ) (name : Str) (child : NodesRow) : Prop where
  dir : ∃ dir, Nodes.get d cur = .ok dir ∧ dir.kind = .dir ∧
    checkAccess dir.mode dir.uid dir.gid uid gid Access.X = true
  child : ∃ e, Entries.get d cur name = .ok e ∧ Nodes.get d e.inode = .ok child

section Rounds
variable {name : Str} {child : NodesRow}

lemma Visits.scan_cons (h : Visits d uid gid cur name child) : scan d uid gid follow done cur (name :: l)
    = if child.kind = .symlink ∧ (l ≠ [] ∨ follow) then .ok (.inr ⟨done, child.inode, l⟩)
      else scan d uid gid follow (done ++ [name]) child.inode l := by
  obtain ⟨⟨dir, hdir, hkind, haccess⟩, e, he, hchild⟩ := h
  rw [scan, hdir]
  change (check (dir.kind = .dir) _ >>= _) = _
  rw [check_bind hkind]
  change (check _ _ >>= _) = _
  rw [check_bind haccess, he]
  change (Nodes.get d e.inode >>= _) = _
  rw [hchild]
  rfl

lemma visits_of_scan {stop : ℕ ⊕ Link}
    (h : scan d uid gid follow done cur (name :: l) = .ok stop) :
    ∃ child, Visits d uid gid cur name child := by
  rw [scan] at h
  obtain ⟨dir, hdir, h₁⟩ := bind_res_eq_ok.mp h
  obtain ⟨hkind, h₂⟩ := check_bind_eq_ok.mp h₁
  obtain ⟨_, haccess, h₃⟩ := bind_res_eq_ok.mp h₂
  obtain ⟨e, he, h₄⟩ := bind_res_eq_ok.mp h₃
  obtain ⟨child, hchild, -⟩ := bind_res_eq_ok.mp h₄
  exact ⟨child, ⟨dir, hdir, hkind, requireAccess_eq_ok.mp haccess⟩, e, he, hchild⟩

lemma Visits.edge (h : Visits d uid gid cur name child) :
    ∃ e ∈ d.entries, e.parent = cur ∧ e.name = name ∧ e.inode = child.inode := by
  obtain ⟨-, e, he, hchild⟩ := h
  obtain ⟨hmem, hparent, hname⟩ := Entries.get_eq_ok.mp he
  exact ⟨e, hmem, hparent, hname, (KeyTable.find?_eq_some.mp (Nodes.get_eq_ok.mp hchild)).2.symm⟩

lemma Visits.kind (h : Visits d uid gid cur name child) :
    d.skeleton.kind child.inode = some child.kind := by
  obtain ⟨-, e, -, hchild⟩ := h
  have hinode : child.inode = e.inode := (KeyTable.find?_eq_some.mp (Nodes.get_eq_ok.mp hchild)).2
  exact hinode ▸ Nodes.kind_of_get hchild

end Rounds

/-- A walk that meets a symlink meets it also with more names behind it. -/
lemma scan_append_link (hrest : rest ≠ []) : ∀ {done : List Str} {cur : ℕ},
    scan d uid gid true done cur l = .ok (.inr link) →
      scan d uid gid follow done cur (l ++ rest)
        = .ok (.inr ⟨link.behind, link.inode, link.rest ++ rest⟩) := by
  induction l with
  | nil =>
    intro done cur h
    cases h
  | cons name l ih =>
    intro done cur h
    obtain ⟨child, hvisits⟩ := visits_of_scan h
    rw [hvisits.scan_cons] at h
    rw [List.cons_append, hvisits.scan_cons]
    by_cases hlink : child.kind = .symlink
    · rw [if_pos ⟨hlink, Or.inr rfl⟩] at h
      rw [if_pos ⟨hlink, Or.inl (List.append_ne_nil_of_right_ne_nil _ hrest)⟩]
      cases h
      rfl
    · rw [if_neg fun hs => hlink hs.1] at h ⊢
      exact ih h

/-- The names of a walk that comes to `i` lead there. -/
lemma leads_of_scan : ∀ {done : List Str} {cur : ℕ},
    scan d uid gid true done cur l = .ok (.inl i) → d.skeleton.Leads cur l i := by
  induction l with
  | nil =>
    intro done cur h
    cases h
    rfl
  | cons name l ih =>
    intro done cur h
    obtain ⟨child, hvisits⟩ := visits_of_scan h
    obtain ⟨e, he, hparent, hname, hinode⟩ := hvisits.edge
    rw [hvisits.scan_cons] at h
    by_cases hlink : child.kind = .symlink
    · rw [if_pos ⟨hlink, Or.inr rfl⟩] at h
      cases h
    · rw [if_neg fun hs => hlink hs.1] at h
      exact ⟨e, he, hparent, hname, hinode ▸ ih h⟩

/-- A walk that ends at a symlink meets it if it has to be followed. -/
lemma scan_final_link {name : Str} (hkind : d.skeleton.kind i = some .symlink)
    (hfollow : rest ≠ [] ∨ follow = true) : ∀ {done : List Str} {cur : ℕ},
    scan d uid gid false done cur (l ++ [name]) = .ok (.inl i) →
      scan d uid gid follow done cur (l ++ name :: rest) = .ok (.inr ⟨done ++ l, i, rest⟩) := by
  induction l with
  | nil =>
    intro done cur h
    obtain ⟨child, hvisits⟩ := visits_of_scan h
    rw [List.nil_append, hvisits.scan_cons, if_neg (by simp), scan] at h
    cases h
    rw [hvisits.kind] at hkind
    rw [List.nil_append, hvisits.scan_cons, if_pos ⟨Option.some.inj hkind, hfollow⟩, List.append_nil]
  | cons m l ih =>
    intro done cur h
    obtain ⟨child, hvisits⟩ := visits_of_scan h
    rw [List.cons_append, hvisits.scan_cons] at h ⊢
    by_cases hlink : child.kind = .symlink
    · rw [if_pos ⟨hlink, Or.inl (by simp)⟩] at h
      cases h
    · rw [if_neg fun hs => hlink hs.1] at h ⊢
      rw [ih h, List.append_assoc, List.singleton_append]

/-! ### Substitution with names behind the path -/

lemma substitute_append {target : Str} (l : List Str) (hrest : rest ≠ []) :
    substitute done target (l ++ rest) = substitute done target l ++ joinPath rest := by
  unfold substitute
  dsimp only
  rw [if_neg (List.append_ne_nil_of_right_ne_nil l hrest), List.append_assoc]
  refine congrArg _ ?_
  by_cases hl : l = []
  · rw [if_pos hl, hl]
    rfl
  · rw [if_neg hl, joinPath_append hl hrest]
    rfl

lemma rewritten_append (hrest : rest ≠ []) (h : link.rewritten d = .ok p) :
    (⟨link.behind, link.inode, link.rest ++ rest⟩ : Link).rewritten d = .ok (p ++ joinPath rest) := by
  obtain ⟨bytes, hbytes, h₁⟩ := bind_res_eq_ok.mp h
  obtain ⟨target, htarget, h₂⟩ := bind_res_eq_ok.mp h₁
  cases h₂
  refine bind_res_eq_ok.mpr ⟨bytes, hbytes, bind_res_eq_ok.mpr ⟨target, htarget, ?_⟩⟩
  rw [substitute_append _ hrest]
  rfl

/-- Neither the path nor one that substitution makes of it ends in a slash. -/
def NoSlashAtEnd (d : Db) (uid gid : ℤ) (path : Str) : Prop :=
  ∀ n p, Substituted d uid gid true n path p → p.getLast? ≠ some '/'

lemma noSlashAtEnd_of_substitutes (h : Substitutes d uid gid true t p) :
    NoSlashAtEnd d uid gid t ↔ t.getLast? ≠ some '/' ∧ NoSlashAtEnd d uid gid p := by
  constructor
  · exact fun hno => ⟨hno 0 t rfl, fun n p' hn => hno (n + 1) p' ⟨p, h, hn⟩⟩
  · rintro ⟨ht, hp⟩ n p' hn
    cases n with
    | zero =>
      obtain rfl : t = p' := hn
      exact ht
    | succ n =>
      obtain ⟨q, hq, hn⟩ := hn
      rw [← h.unique hq] at hn
      exact hp n p' hn

lemma noSlashAtEnd_of_arrives (h : scanPath d uid gid true t = .ok (.inl i)) :
    NoSlashAtEnd d uid gid t ↔ t.getLast? ≠ some '/' := by
  refine ⟨fun hno => hno 0 t rfl, fun ht n p hn => ?_⟩
  cases n with
  | zero =>
    obtain rfl : t = p := hn
    exact ht
  | succ n =>
    obtain ⟨q, ⟨link, hlink, -⟩, -⟩ := hn
    cases h.symm.trans hlink

/-- What becomes of a path that leads to `i`, with names behind it: the path of `i` with these
names behind it, unless a slash at the end of a path on the way doubles. -/
lemma substituted_behind (hvalid : ∀ c ∈ rest, ValidName c) (hrest : rest ≠ [])
    (h : Ends d uid gid true t m (.ok i)) :
    (∀ n q, Substituted d uid gid follow n (t ++ joinPath rest) q → q.len ≤ PATH_MAX) →
      (NoSlashAtEnd d uid gid t ∧ ∃ k c, d.skeleton.Leads ROOT_INODE c i ∧
        Substituted d uid gid follow k (t ++ joinPath rest) (joinPath (c ++ rest))) ∨
      (¬ NoSlashAtEnd d uid gid t ∧ ∃ k q msg,
        Substituted d uid gid follow k (t ++ joinPath rest) q ∧
          scanPath d uid gid follow q = raise (.pathSyntaxError msg)) := by
  generalize hr : (Except.ok i : Res ℕ) = r at h
  induction h with
  | fails => cases hr
  | unreadable => cases hr
  | @arrives t j hscan =>
    obtain rfl := Except.ok.inj hr
    intro hfits
    obtain ⟨c, hparse, hwalk⟩ := bind_res_eq_ok.mp hscan
    have hlen := hfits 0 _ rfl
    rw [noSlashAtEnd_of_arrives hscan]
    by_cases hlast : t.getLast? = some '/'
    · obtain ⟨msg, herr⟩ := parsePath_doubleSlash hparse hlast hvalid hrest hlen
      refine Or.inr ⟨not_not.mpr hlast, 0, _, msg, rfl, ?_⟩
      rw [scanPath, herr]
      rfl
    · obtain ⟨heq, -⟩ := parsePath_behind hparse hlast hvalid hrest hlen
      exact Or.inl ⟨hlast, 0, c, leads_of_scan hwalk, heq⟩
  | @substitutes t p n r hsub _ ih =>
    intro hfits
    obtain ⟨link, hscan, hlink⟩ := id hsub
    obtain ⟨c, hparse, hwalk⟩ := bind_res_eq_ok.mp hscan
    have hlen := hfits 0 _ rfl
    rw [noSlashAtEnd_of_substitutes hsub]
    by_cases hlast : t.getLast? = some '/'
    · obtain ⟨msg, herr⟩ := parsePath_doubleSlash hparse hlast hvalid hrest hlen
      refine Or.inr ⟨fun hno => hno.1 hlast, 0, _, msg, rfl, ?_⟩
      rw [scanPath, herr]
      rfl
    · obtain ⟨-, hbehind⟩ := parsePath_behind hparse hlast hvalid hrest hlen
      have hnext : Substitutes d uid gid follow (t ++ joinPath rest) (p ++ joinPath rest) := by
        refine ⟨_, bind_res_eq_ok.mpr ⟨_, hbehind, scan_append_link hrest hwalk⟩, ?_⟩
        exact rewritten_append hrest hlink
      rcases ih hr fun n q hq => hfits (n + 1) q ⟨_, hnext, hq⟩ with
        ⟨hno, k, c, hc, hk⟩ | ⟨hno, k, q, msg, hk, hq⟩
      · exact Or.inl ⟨⟨hlast, hno⟩, k + 1, c, hc, _, hnext, hk⟩
      · exact Or.inr ⟨fun h => hno h.2, k + 1, q, msg, ⟨_, hnext, hk⟩, hq⟩

/-- Where substitution has ended, the path is that of the inode it has led to. -/
lemma arrives_of_ends (h : Ends d uid gid true t m (.ok i)) : ∃ c, d.skeleton.Leads ROOT_INODE c i ∧
    scanPath d uid gid true (joinPath c) = .ok (.inl i) := by
  generalize hr : (Except.ok i : Res ℕ) = r at h
  induction h with
  | fails => cases hr
  | unreadable => cases hr
  | substitutes _ _ ih => exact ih hr
  | arrives hscan =>
    obtain rfl := Except.ok.inj hr
    obtain ⟨c, hparse, hwalk⟩ := bind_res_eq_ok.mp hscan
    refine ⟨c, leads_of_scan hwalk, bind_res_eq_ok.mpr ⟨c, ?_, hwalk⟩⟩
    obtain ⟨hvalid, hlen, hpath⟩ := SqliteFs.parsePath_eq_ok.mp (parsePath_eq_ok.mp hparse)
    refine parsePath_eq_ok.mpr (SqliteFs.parsePath_joinPath hvalid (le_trans ?_ hlen))
    rcases hpath with rfl | ⟨-, rfl⟩
    · exact le_rfl
    · rw [Str.len_append]
      exact Nat.le_add_right _ _

/-- A walk that meets no symlink before its last name, and does not follow that, comes to an end. -/
lemma scan_ne_link {name : Str} (hno : ∀ init, init <+: l → ∀ j, d.skeleton.Leads cur init j →
      d.skeleton.kind j ≠ some .symlink) :
    scan d uid gid false done cur (l ++ [name]) ≠ .ok (.inr link) := by
  induction l generalizing cur done with
  | nil =>
    intro h
    obtain ⟨child, hvisits⟩ := visits_of_scan h
    rw [List.nil_append, hvisits.scan_cons, if_neg (by simp), scan] at h
    cases h
  | cons m l ih =>
    intro h
    obtain ⟨child, hvisits⟩ := visits_of_scan h
    obtain ⟨e, he, hparent, hname, hinode⟩ := hvisits.edge
    have hlink : ¬ child.kind = .symlink := by
      intro hlink
      refine hno [m] (List.cons_prefix_cons.mpr ⟨rfl, List.nil_prefix⟩) child.inode
        ⟨e, he, hparent, hname, hinode⟩ ?_
      rw [hvisits.kind, hlink]
    rw [List.cons_append, hvisits.scan_cons, if_neg fun hs => hlink hs.1] at h
    refine ih (fun init hinit j hj => ?_) h
    exact hno (m :: init) (List.cons_prefix_cons.mpr ⟨rfl, hinit⟩) j
      ⟨e, he, hparent, hname, hinode ▸ hj⟩

/-! ### Kinds of errors -/

end Filesystem

/-- The exception without its message. -/
def Exc.kind : Exc → Exc
  | .pathSyntaxError _ => .pathSyntaxError []
  | .nameTooLong _ => .nameTooLong []
  | .notFound _ => .notFound []
  | .alreadyExists _ => .alreadyExists []
  | .notADirectory _ => .notADirectory []
  | .isADirectory _ => .isADirectory []
  | .directoryNotEmpty _ => .directoryNotEmpty []
  | .permissionDenied _ => .permissionDenied []
  | .readOnlyFilesystem _ => .readOnlyFilesystem []
  | .invalidXattr _ => .invalidXattr []
  | .lockConflict _ => .lockConflict []
  | .badFileDescriptor _ => .badFileDescriptor []
  | .symlinkLoop _ => .symlinkLoop []
  | .invalidArgument _ => .invalidArgument []
  | .assertionError _ => .assertionError []
  | e => e

def Halt.kind : Halt → Halt
  | .raised e => .raised e.kind
  | .diverge => .diverge

/-- Both return the same, or both raise an exception of one kind. -/
def SameKind {α : Type} (r r' : Res α) : Prop := r.mapError Halt.kind = r'.mapError Halt.kind

instance {α : Type} [DecidableEq α] (r r' : Res α) : Decidable (SameKind r r') :=
  inferInstanceAs (Decidable (_ = _))

def IsPathSyntaxError (x : Exc) : Prop := ∃ msg, x = .pathSyntaxError msg

lemma sameKind_pathSyntaxError {α : Type} {msg : Msg} {r : Res α} :
    SameKind (raise (.pathSyntaxError msg)) r ↔ ∃ x, r = raise x ∧ IsPathSyntaxError x := by
  constructor
  · intro h
    cases r with
    | ok a => cases h
    | error e =>
      cases e with
      | diverge => cases h
      | raised x =>
        cases x with
        | pathSyntaxError msg' => exact ⟨_, rfl, msg', rfl⟩
        | _ => cases h
  · rintro ⟨_, rfl, msg', rfl⟩
    rfl

namespace Filesystem

/-- Within the bound, substitution makes of the path a text that is no path. -/
def Garbled (d : Db) (uid gid : ℤ) (follow : Bool) (path : Str) : Prop :=
  ∃ n ≤ MAXSYMLINKS, ∃ p x, Substituted d uid gid follow n path p ∧ parsePath p = raise x ∧
    IsPathSyntaxError x

lemma syntaxError_iff_garbled {d : Db} {uid gid : ℤ} {follow : Bool} {path : Str} :
    (∃ x, resolvePathAs d uid gid path follow = raise x ∧ IsPathSyntaxError x) ↔
      Garbled d uid gid follow path := by
  have hmissing : ∀ msg, ¬ IsPathSyntaxError (.notFound msg) := by
    rintro msg ⟨_, ⟨⟩⟩
  constructor
  · rintro ⟨x, hres, hx⟩
    obtain ⟨n, hn, p, hsub, hstop⟩ := resolvePathWith_stops d uid gid follow MAXSYMLINKS path
    rw [show resolvePathWith d uid gid follow MAXSYMLINKS path = raise x from hres] at hstop
    generalize hr : (raise x : Res ℕ) = r at hstop
    cases hstop with
    | fails hscan =>
      cases hr
      cases hparse : parsePath p with
      | error e =>
        rw [scanPath, hparse] at hscan
        cases hscan
        exact ⟨n, hn, p, x, hsub, hparse, hx⟩
      | ok l =>
        rw [scanPath, hparse] at hscan
        have havoids : Avoids IsPathSyntaxError (scan d uid gid follow [] ROOT_INODE l) := by
          refine scan_avoids hmissing ?_ ?_
          · rintro msg ⟨_, ⟨⟩⟩
          · rintro msg ⟨_, ⟨⟩⟩
        obtain ⟨y, hy, hnot⟩ := havoids _ hscan
        cases hy
        exact absurd hx hnot
    | arrives => cases hr
    | @unreadable link e _ _ hlink =>
      cases hr
      have havoids : Avoids IsPathSyntaxError (link.rewritten d) := by
        refine rewritten_avoids hmissing ?_ link
        rintro msg ⟨_, ⟨⟩⟩
      obtain ⟨y, hy, hnot⟩ := havoids _ hlink
      cases hy
      exact absurd hx hnot
    | tooMany =>
      cases hr
      obtain ⟨msg, hmsg⟩ := hx
      cases hmsg
  · rintro ⟨n, hn, p, x, hsub, hparse, hx⟩
    have hfails : scanPath d uid gid follow p = raise x := by
      rw [scanPath, hparse]
      rfl
    exact ⟨x, resolvePathWith_of_ends (.of_substituted hsub (.fails hfails)) hn, hx⟩

/-! ### Through the symlink -/

/-- The symlink `i`, named by the path `before/name`, has the target `t`. -/
structure NamesLink (d : Db) (uid gid : ℤ) (before : List Str) (name : Str) (i : ℕ) (t : Str) :
    Prop where
  resolved : resolvePathAs d uid gid (joinPath (before ++ [name])) false = .ok i
  direct : TraversesNoSymlink d.skeleton (joinPath (before ++ [name]))
  kind : d.skeleton.kind i = some .symlink
  target : ∃ bytes, Symlinks.get d i = .ok bytes ∧ decodeUtf8 bytes = some t

section Through
variable {d : Db} {uid gid : ℤ} {follow : Bool} {path t name : Str} {before rest c : List Str}
  {i j n : ℕ} {r : Res ℕ}

lemma NamesLink.scanPath (h : NamesLink d uid gid before name i t)
    (hparse : parsePath path = .ok (before ++ name :: rest)) (hfollow : rest ≠ [] ∨ follow = true) :
    scanPath d uid gid follow path = .ok (.inr ⟨before, i, rest⟩) := by
  have hres : resolvePathWith d uid gid false MAXSYMLINKS (joinPath (before ++ [name])) = .ok i :=
    h.resolved
  rw [resolvePathWith_eq] at hres
  obtain ⟨stop, hscan, hresume⟩ := bind_res_eq_ok.mp hres
  obtain ⟨l, hjoin, hwalk⟩ := bind_res_eq_ok.mp hscan
  have hshared : SqliteFs.parsePath (joinPath (before ++ [name])) = .ok (before ++ [name]) := by
    have hvalid := (SqliteFs.parsePath_eq_ok.mp (parsePath_eq_ok.mp hparse)).1
    have hlen := (SqliteFs.parsePath_eq_ok.mp (parsePath_eq_ok.mp hjoin)).2.1
    refine SqliteFs.parsePath_joinPath (fun c hc => hvalid c ?_) hlen
    simpa using Or.imp_right Or.inl (by simpa using hc)
  obtain rfl : l = before ++ [name] := by
    rw [parsePath_eq_ok, hshared] at hjoin
    exact (Except.ok.inj hjoin).symm
  refine bind_res_eq_ok.mpr ⟨_, hparse, scan_final_link h.kind hfollow ?_⟩
  cases stop with
  | inl j =>
    cases hresume
    exact hwalk
  | inr link =>
    exact absurd hwalk (scan_ne_link fun init hinit j => h.direct _ _ hshared init hinit j)

lemma NamesLink.substitutes (h : NamesLink d uid gid before name i t)
    (habsolute : t.head? = some '/') (hparse : parsePath path = .ok (before ++ name :: rest))
    (hfollow : rest ≠ [] ∨ follow = true) : Substitutes d uid gid follow path
      (t ++ if rest = [] then [] else joinPath rest) := by
  obtain ⟨bytes, hbytes, htarget⟩ := h.target
  refine ⟨_, h.scanPath hparse hfollow, bind_res_eq_ok.mpr ⟨bytes, hbytes, ?_⟩⟩
  refine bind_res_eq_ok.mpr ⟨t, rowOr_eq_ok.mpr htarget, ?_⟩
  unfold substitute
  rw [if_pos habsolute]
  rfl

/-- The path through a symlink comes to the same inode, or fails in the same way, as the rest of
it does from where the target leads to, if and only if there is no rest, or neither the target nor
a path that substitution makes of it ends in a slash, or substitution makes no path of the rest. -/
theorem resolve_through_link_iff {s : Filesystem} (hs : Reachable s)
    (hparse : parsePath path = .ok (before ++ name :: rest))
    (hlink : NamesLink s.conn uid gid before name i t) (habsolute : t.head? = some '/')
    (htarget : resolvePathAs s.conn uid gid t true = .ok j)
    (hdir : s.conn.skeleton.kind j = some .dir) (hc : s.conn.skeleton.Leads ROOT_INODE c j)
    (hfollow : rest ≠ [] ∨ follow = true) (hends : Ends s.conn uid gid follow path n r)
    (hn : n ≤ MAXSYMLINKS)
    (hfits : ∀ n p, Substituted s.conn uid gid follow n path p → p.len ≤ PATH_MAX) :
    SameKind (resolvePathAs s.conn uid gid path follow)
        (resolvePathAs s.conn uid gid (joinPath (c ++ rest)) follow) ↔
      (rest = [] ∨ NoSlashAtEnd s.conn uid gid t) ∨
        Garbled s.conn uid gid follow (joinPath (c ++ rest)) := by
  have hsub := hlink.substitutes habsolute hparse hfollow
  have hres : resolvePathAs s.conn uid gid path follow = r := resolvePathWith_of_ends hends hn
  obtain ⟨m, hm⟩ : ∃ m, Ends s.conn uid gid true t m (.ok j) := by
    rcases resolvePathWith_cases s.conn uid gid true MAXSYMLINKS t with ⟨m, -, hm⟩ | ⟨msg, hloop⟩
    · rw [show resolvePathWith s.conn uid gid true MAXSYMLINKS t = .ok j from htarget] at hm
      exact ⟨m, hm⟩
    · cases htarget.symm.trans hloop
  by_cases hrest : rest = []
  · subst hrest
    obtain rfl : follow = true := hfollow.resolve_left fun h => h rfl
    rw [if_pos rfl, List.append_nil] at hsub
    obtain ⟨k, rfl, hk⟩ := hends.of_substitutes hsub
    obtain ⟨c', hc', harrives⟩ := arrives_of_ends hm
    obtain rfl : c' = c := (shaped_runsTo hs).leads_unique hdir hc' hc
    have hown : resolvePathAs s.conn uid gid (joinPath (c' ++ [])) true = .ok j := by
      rw [List.append_nil]
      exact resolvePathWith_of_ends (.arrives harrives) (Nat.zero_le _)
    rw [hres, hown, hk.unique hm]
    exact iff_of_true rfl (Or.inl (Or.inl rfl))
  · rw [if_neg hrest] at hsub
    have hvalid : ∀ c ∈ rest, ValidName c := by
      intro c hc
      refine (SqliteFs.parsePath_eq_ok.mp (parsePath_eq_ok.mp hparse)).1 c ?_
      exact List.mem_append_right _ (List.mem_cons_of_mem _ hc)
    rcases substituted_behind hvalid hrest hm fun n q hq => hfits (n + 1) q ⟨_, hsub, hq⟩ with
      ⟨hno, k, c', hc', hk⟩ | ⟨hno, k, q, msg, hk, hq⟩
    · obtain rfl : c' = c := (shaped_runsTo hs).leads_unique hdir hc' hc
      have hway : Substituted s.conn uid gid follow (k + 1) path (joinPath (c' ++ rest)) :=
        ⟨_, hsub, hk⟩
      obtain ⟨k', hk', hends'⟩ := hends.rest_of_substituted hway
      have hown : resolvePathAs s.conn uid gid (joinPath (c' ++ rest)) follow = r :=
        resolvePathWith_of_ends hends' (hk'.trans hn)
      rw [hres, hown]
      exact iff_of_true rfl (Or.inl (Or.inr hno))
    · have hfails : Ends s.conn uid gid follow path (k + 1 + 0) (raise (.pathSyntaxError msg)) :=
        .of_substituted ⟨_, hsub, hk⟩ (.fails hq)
      rw [hres, hends.unique hfails, sameKind_pathSyntaxError, syntaxError_iff_garbled, or_iff_right]
      rintro (h | h)
      · exact hrest h
      · exact hno h

/-- A directory `/d` with a file in it, and the symlink `/l` to the directory. -/
def linkToDir : Filesystem :=
  newFsAfter [.mkdir ['/', 'd'] 0o755, .create ['/', 'd', '/', 'f'] 0o644 0,
    .symlink [0x2F, 0x64] ['/', 'l']]

/-- A file `/f` and the symlink `/l` to the root. -/
def linkToRoot : Filesystem := newFsAfter [.create ['/', 'f'] 0o644 0, .symlink [0x2F] ['/', 'l']]

/-- A path right below the root traverses the root only. -/
lemma traversesNoSymlink_below_root {k : SqliteFs.Db} (name : Str) (hpath : SqliteFs.parsePath path = .ok [name])
    (hroot : k.kind ROOT_INODE ≠ some .symlink) : TraversesNoSymlink k path := by
  intro l m hparse init hinit i hleads
  obtain rfl : l = [] := by
    have hlen := congrArg List.length (Except.ok.inj (hpath.symm.trans hparse))
    simpa using hlen
  obtain rfl := List.prefix_nil.mp hinit
  obtain rfl : ROOT_INODE = i := hleads
  exact hroot

theorem resolve_through_link_iff_linkToDir :
    SameKind (resolvePathAs linkToDir.conn 0 0 ['/', 'l', '/', 'f'] true)
        (resolvePathAs linkToDir.conn 0 0 (joinPath ([['d']] ++ [['f']])) true) ↔
      (([['f']] : List Str) = [] ∨ NoSlashAtEnd linkToDir.conn 0 0 ['/', 'd']) ∨
        Garbled linkToDir.conn 0 0 true (joinPath ([['d']] ++ [['f']])) := by
  have hparse : parsePath ['/', 'l', '/', 'f'] = .ok ([] ++ ['l'] :: [['f']]) := by decide +kernel
  have hlink : NamesLink linkToDir.conn 0 0 [] ['l'] 4 ['/', 'd'] :=
    ⟨by decide +kernel, traversesNoSymlink_below_root ['l'] (by decide +kernel) (by decide +kernel),
      by decide +kernel, [0x2F, 0x64], by decide +kernel, by decide +kernel⟩
  have hsub : Substitutes linkToDir.conn 0 0 true ['/', 'l', '/', 'f'] ['/', 'd', '/', 'f'] :=
    ⟨⟨[], 4, [['f']]⟩, by decide +kernel, by decide +kernel⟩
  have harrives : scanPath linkToDir.conn 0 0 true ['/', 'd', '/', 'f'] = .ok (.inl 3) := by
    decide +kernel
  have htarget : resolvePathAs linkToDir.conn 0 0 ['/', 'd'] true = .ok 2 := by decide +kernel
  refine resolve_through_link_iff (reachable_newFsAfter _) hparse hlink rfl htarget
    (by decide +kernel) ⟨⟨1, ['d'], 2⟩, by decide +kernel, rfl, rfl, rfl⟩ (Or.inr rfl)
    (.substitutes hsub (.arrives harrives)) (by decide) ?_
  rintro (_ | _ | n) p hp
  · obtain rfl : ['/', 'l', '/', 'f'] = p := hp
    decide
  · obtain ⟨q, hq, rfl⟩ := hp
    rw [← hsub.unique hq]
    decide
  · obtain ⟨q, hq, q', ⟨link, hscan, -⟩, -⟩ := hp
    rw [← hsub.unique hq] at hscan
    cases harrives.symm.trans hscan

/-- The root with another path behind it has two slashes. -/
theorem not_resolve_through_link : ¬ ∀ (s : Filesystem) (follow : Bool)
    (path t name : Str) (before rest c : List Str) (i j n : ℕ) (r : Res ℕ), Reachable s →
      parsePath path = .ok (before ++ name :: rest) → NamesLink s.conn 0 0 before name i t →
      t.head? = some '/' → resolvePathAs s.conn 0 0 t true = .ok j →
      s.conn.skeleton.kind j = some .dir → s.conn.skeleton.Leads ROOT_INODE c j →
      rest ≠ [] ∨ follow = true → Ends s.conn 0 0 follow path n r → n ≤ MAXSYMLINKS →
      (∀ n p, Substituted s.conn 0 0 follow n path p → p.len ≤ PATH_MAX) →
      SameKind (resolvePathAs s.conn 0 0 path follow)
        (resolvePathAs s.conn 0 0 (joinPath (c ++ rest)) follow) := by
  intro h
  have hsub : Substitutes linkToRoot.conn 0 0 true ['/', 'l', '/', 'f'] ['/', '/', 'f'] :=
    ⟨⟨[], 3, [['f']]⟩, by decide +kernel, by decide +kernel⟩
  have hfails : scanPath linkToRoot.conn 0 0 true ['/', '/', 'f']
      = raise (.pathSyntaxError [.lit "empty component in path ", .repr ['/', '/', 'f']]) := by
    decide +kernel
  have hsame := h linkToRoot true ['/', 'l', '/', 'f'] ['/'] ['l'] [] [['f']] [] 3 1 1 _
    (reachable_newFsAfter _) (by decide +kernel)
    ⟨by decide +kernel, traversesNoSymlink_below_root ['l'] (by decide +kernel) (by decide +kernel),
      by decide +kernel, [0x2F], by decide +kernel, by decide +kernel⟩
    rfl (by decide +kernel) (by decide +kernel) rfl (Or.inr rfl)
    (.substitutes hsub (.fails hfails)) (by decide) ?_
  · exact absurd hsame (by decide +kernel)
  rintro (_ | _ | n) p hp
  · obtain rfl : ['/', 'l', '/', 'f'] = p := hp
    decide
  · obtain ⟨q, hq, rfl⟩ := hp
    rw [← hsub.unique hq]
    decide
  · obtain ⟨q, hq, q', ⟨link, hscan, -⟩, -⟩ := hp
    rw [← hsub.unique hq] at hscan
    cases hfails.symm.trans hscan

end Through

end Filesystem

end Python

end SqliteFs

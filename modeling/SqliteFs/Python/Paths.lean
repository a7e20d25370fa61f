import SqliteFs.Python.Types
import SqliteFs.PathGrammar

/-!
# Path grammar, access checks and text in the Python library
-/

namespace SqliteFs

namespace Python

/-! ### paths.py -/

/-- The checks that `parsePath` makes on one component. -/
def checkComponent (path component : Str) : Res PUnit := do
  check (component ≠ []) (.pathSyntaxError [.lit "empty component in path ", .repr path])
  check (¬ (component = ['.'] ∨ component = ['.', '.']))
    (.pathSyntaxError [.lit "'.' and '..' are not permitted: ", .repr path])
  check ('\x00' ∉ component) (.pathSyntaxError [.lit "embedded NUL in path ", .repr path])
  check (component.len ≤ NAME_MAX)
    (.nameTooLong [.lit "component ", .repr component, .lit " exceeds NAME_MAX (", .num NAME_MAX,
      .lit ")"])

def parsePath (path : Str) : Res (List Str) := do
  check (path ≠ []) (.pathSyntaxError [.lit "path is empty"])
  check (path.len ≤ PATH_MAX)
    (.pathSyntaxError [.lit "path exceeds PATH_MAX (", .num PATH_MAX, .lit ")"])
  check (path.head? = some '/')
    (.pathSyntaxError [.lit "path must be absolute, got ", .repr path])
  if path = ['/'] then return []
  let trimmed := if path.getLast? = some '/' then path.tail.dropLast else path.tail
  let components := trimmed.splitOn '/'
  components.forM (checkComponent path)
  return components

example : parsePath ['/', 'a', '/', 'b', '/'] = .ok [['a'], ['b']] := by decide

/-! ### perms.py -/

def checkAccess (nodeMode nodeUid nodeGid callerUid callerGid : ℤ) (access : Access) : Bool :=
  if callerUid = 0 then
    if access.contains Access.X then nodeMode.land 0o111 ≠ 0 else true
  else
    let bits :=
      if callerUid = nodeUid then (nodeMode >>> 6).land 0o7
      else if callerGid = nodeGid then (nodeMode >>> 3).land 0o7
      else nodeMode.land 0o7
    let required := access.value
    bits.land required = required

def requireAccess (nodeMode nodeUid nodeGid callerUid callerGid : ℤ) (access : Access) :
    Res PUnit :=
  check (checkAccess nodeMode nodeUid nodeGid callerUid callerGid access)
    (.permissionDenied [.lit "access ", .access access, .lit " denied: caller=(", .num callerUid,
      .lit ",", .num callerGid, .lit "), node=(", .num nodeUid, .lit ",", .num nodeGid, .lit ",0o",
      .octal nodeMode, .lit ")"])

/-! ### Text -/

/-- The six bits that a continuation byte of UTF-8 carries. -/
def continuation (b : UInt8) : Option ℕ :=
  if 0x80 ≤ b ∧ b < 0xC0 then some (b.toNat - 0x80) else none

/-- `bytes.decode("utf-8")`, or `none` for a `UnicodeDecodeError`: overlong forms, surrogates and
what lies beyond the last code point are refused. -/
def decodeUtf8 : Bytes → Option Str
  | [] => some []
  | b :: rest =>
    if b < 0x80 then (decodeUtf8 rest).map (Char.ofNat b.toNat :: ·)
    else match rest with
      | [] => none
      | c₁ :: rest =>
        (continuation c₁).bind fun n₁ =>
        if 0xC2 ≤ b ∧ b < 0xE0 then
          (decodeUtf8 rest).map (Char.ofNat ((b.toNat - 0xC0) * 0x40 + n₁) :: ·)
        else match rest with
          | [] => none
          | c₂ :: rest =>
            (continuation c₂).bind fun n₂ =>
            let n := ((b.toNat - 0xE0) * 0x40 + n₁) * 0x40 + n₂
            if 0xE0 ≤ b ∧ b < 0xF0 then
              if 0x800 ≤ n ∧ ¬ (0xD800 ≤ n ∧ n < 0xE000)
              then (decodeUtf8 rest).map (Char.ofNat n :: ·) else none
            else match rest with
              | [] => none
              | c₃ :: rest =>
                (continuation c₃).bind fun n₃ =>
                let n := (((b.toNat - 0xF0) * 0x40 + n₁) * 0x40 + n₂) * 0x40 + n₃
                if 0xF0 ≤ b ∧ 0x10000 ≤ n ∧ n < 0x110000
                then (decodeUtf8 rest).map (Char.ofNat n :: ·) else none

example : decodeUtf8 [0x2F, 0xC3, 0xA9, 0xE2, 0x82, 0xAC] = some ['/', 'é', '€'] := by decide

/-! ### Both libraries accept the same paths -/

section
variable {path component : Str} {components : List Str} {u : PUnit}

lemma check_bind_eq_ok {α : Type} {c : Prop} [Decidable c] {e : Exc} {f : PUnit → Res α} {a : α} :
    (check c e >>= f) = .ok a ↔ c ∧ f ⟨⟩ = .ok a := by
  by_cases h : c
  · rw [check, if_pos h, and_iff_right h]
    rfl
  · rw [check, if_neg h]
    exact iff_of_false (fun hf => nomatch hf) fun hf => h hf.1

lemma check_bind {α : Type} {c : Prop} [Decidable c] {e : Exc} {f : PUnit → Res α} (h : c) :
    (check c e >>= f) = f ⟨⟩ := by
  rw [check, if_pos h]
  rfl

lemma checkComponent_eq_ok (hslash : '/' ∉ component) :
    checkComponent path component = .ok u ↔ ValidName component := by
  unfold checkComponent
  rw [check_bind_eq_ok, check_bind_eq_ok, check_bind_eq_ok, check_eq_ok]
  constructor
  · rintro ⟨hempty, hdots, hnul, hfits⟩
    exact ⟨hempty, hdots, hnul, hfits, hslash⟩
  · exact fun h => ⟨h.nonempty, h.notDots, h.noNul, h.fits⟩

lemma forM_checkComponent_eq_ok (hslash : ∀ c ∈ components, '/' ∉ c) :
    components.forM (checkComponent path) = .ok u ↔ ∀ c ∈ components, ValidName c := by
  induction components with
  | nil => simp [pure, Except.pure]
  | cons c components ih =>
    rw [List.forall_mem_cons] at hslash ⊢
    change (checkComponent path c >>= fun _ => components.forM (checkComponent path)) = .ok u ↔ _
    constructor
    · intro h
      cases hc : checkComponent path c with
      | error e =>
        rw [hc] at h
        cases h
      | ok v =>
        rw [hc] at h
        exact ⟨(checkComponent_eq_ok hslash.1).mp hc, (ih hslash.2).mp h⟩
    · rintro ⟨hvalid, hrest⟩
      rw [(checkComponent_eq_ok (u := ⟨⟩) hslash.1).mpr hvalid]
      exact (ih hslash.2).mpr hrest

/-- The Python library accepts a path as the Rust port does, and makes the same of it. -/
theorem parsePath_eq_ok :
    parsePath path = .ok components ↔ SqliteFs.parsePath path = .ok components := by
  unfold parsePath SqliteFs.parsePath
  rw [check_bind_eq_ok, check_bind_eq_ok, check_bind_eq_ok]
  by_cases hempty : path = []
  · rw [if_pos hempty]
    exact iff_of_false (fun h => h.1 hempty) (fun h => nomatch h)
  by_cases hlen : path.len > PATH_MAX
  · rw [if_neg hempty, if_pos hlen]
    exact iff_of_false (fun h => absurd h.2.1 (not_le.mpr hlen)) (fun h => nomatch h)
  by_cases hhead : path.head? = some '/'
  swap
  · rw [if_neg hempty, if_neg hlen, if_pos hhead]
    exact iff_of_false (fun h => hhead h.2.2.1) (fun h => nomatch h)
  rw [if_neg hempty, if_neg hlen, if_neg (not_not.mpr hhead)]
  simp only [ne_eq, hempty, not_false_eq_true, not_lt.mp hlen, hhead, true_and]
  by_cases hroot : path = ['/']
  · rw [if_pos hroot, if_pos hroot]
    simp only [pure, Except.pure, Except.ok.injEq]
  rw [if_neg hroot, if_neg hroot]
  obtain ⟨c, rest, rfl⟩ := List.exists_cons_of_ne_nil hempty
  have hrest : rest ≠ [] := by
    rintro rfl
    simp only [List.head?_cons, Option.some.injEq] at hhead
    exact hroot (by rw [hhead])
  have htrim : (if (c :: rest).getLast? = some '/' then (c :: rest).tail.dropLast
      else (c :: rest).tail) = stripSlash rest := by
    rw [List.getLast?_cons_of_ne_nil hrest]
    rfl
  have hslash : ∀ c ∈ (stripSlash rest).splitOn '/', '/' ∉ c := fun c hc => noSlash_of_mem_splitOn hc
  rw [htrim, List.tail_cons, mapM_checkComponent_eq_ok hslash]
  constructor
  · intro h
    cases hforM : ((stripSlash rest).splitOn '/').forM (checkComponent (c :: rest)) with
    | error e =>
      rw [hforM] at h
      cases h
    | ok v =>
      rw [hforM] at h
      exact ⟨(Except.ok.inj h).symm, (forM_checkComponent_eq_ok hslash).mp hforM⟩
  · rintro ⟨rfl, hvalid⟩
    rw [(forM_checkComponent_eq_ok (u := ⟨⟩) hslash).mpr hvalid]
    rfl

/-! ### Names behind a path -/

section Behind
variable {names : List Str}

/-- Names behind a path without a slash at its end. -/
lemma parsePath_behind (hparse : parsePath path = .ok components)
    (hlast : path.getLast? ≠ some '/') (hnames : ∀ c ∈ names, ValidName c) (hne : names ≠ [])
    (hlen : (path ++ joinPath names).len ≤ PATH_MAX) :
    path ++ joinPath names = joinPath (components ++ names) ∧
      parsePath (path ++ joinPath names) = .ok (components ++ names) := by
  obtain ⟨hvalid, -, hpath⟩ := SqliteFs.parsePath_eq_ok.mp (parsePath_eq_ok.mp hparse)
  have hjoin : path = joinPath components := by
    rcases hpath with hpath | ⟨-, rfl⟩
    · exact hpath
    · exact absurd List.getLast?_concat hlast
  have hcomponents : components ≠ [] := by
    rintro rfl
    rw [hjoin] at hlast
    exact hlast rfl
  have heq : path ++ joinPath names = joinPath (components ++ names) := by
    rw [joinPath_append hcomponents hne, hjoin]
    rfl
  refine ⟨heq, parsePath_eq_ok.mpr ?_⟩
  rw [heq] at hlen ⊢
  refine SqliteFs.parsePath_joinPath (fun c hc => ?_) hlen
  rcases List.mem_append.mp hc with hc | hc
  · exact hvalid c hc
  · exact hnames c hc

lemma forM_checkComponent_empty (hvalid : ∀ c ∈ components, ValidName c) :
    (components ++ [] :: names).forM (checkComponent path)
      = raise (.pathSyntaxError [.lit "empty component in path ", .repr path]) := by
  induction components with
  | nil => rfl
  | cons c components ih =>
    rw [List.forall_mem_cons] at hvalid
    change (checkComponent path c >>= fun _ =>
      (components ++ [] :: names).forM (checkComponent path)) = _
    rw [(checkComponent_eq_ok (u := ⟨⟩) hvalid.1.noSlash).mpr hvalid.1]
    exact ih hvalid.2

/-- Names behind a path with a slash at its end are not accepted: there are two slashes then. -/
lemma parsePath_doubleSlash (hparse : parsePath path = .ok components)
    (hlast : path.getLast? = some '/') (hnames : ∀ c ∈ names, ValidName c) (hne : names ≠ [])
    (hlen : (path ++ joinPath names).len ≤ PATH_MAX) :
    ∃ msg, parsePath (path ++ joinPath names) = raise (.pathSyntaxError msg) := by
  obtain ⟨hvalid, -, hpath⟩ := SqliteFs.parsePath_eq_ok.mp (parsePath_eq_ok.mp hparse)
  have hrest := List.splitOn_intercalate '/' (fun c hc => (hnames c hc).noSlash) hne
  have hnil : List.intercalate ['/'] names ≠ [] := by
    intro hempty
    rw [hempty, List.splitOn_nil] at hrest
    exact (hnames [] (hrest ▸ List.mem_singleton_self _)).nonempty rfl
  have hsplit : (path ++ joinPath names).head? = some '/' ∧
      (path ++ joinPath names).tail.splitOn '/' = components ++ [] :: names := by
    rcases hpath with rfl | ⟨hcomponents, rfl⟩
    · obtain rfl : components = [] := by
        by_contra hcomponents
        refine getLast?_intercalate hvalid ?_
        rw [← hlast, joinPath, List.getLast?_cons_of_ne_nil fun h => ?_]
        exact hcomponents ((joinPath_eq_root hvalid).mp (congrArg _ h))
      refine ⟨rfl, ?_⟩
      change ([] ++ '/' :: List.intercalate ['/'] names).splitOn '/' = [] ++ [] :: names
      rw [List.splitOn_append_cons_self, List.splitOn_nil, hrest]
      rfl
    · refine ⟨rfl, ?_⟩
      change (List.intercalate ['/'] components ++ ['/'] ++
        '/' :: List.intercalate ['/'] names).splitOn '/' = _
      rw [List.append_assoc, List.singleton_append, List.splitOn_append_cons_self,
        List.splitOn_intercalate '/' (fun c hc => (hvalid c hc).noSlash) hcomponents]
      refine congrArg _ ?_
      change ([] ++ '/' :: List.intercalate ['/'] names).splitOn '/' = [] :: names
      rw [List.splitOn_append_cons_self, List.splitOn_nil, hrest]
      rfl
  have hend : ¬ (path ++ joinPath names).getLast? = some '/' := by
    rw [List.getLast?_append_of_ne_nil _ (joinPath_ne_nil names), joinPath,
      List.getLast?_cons_of_ne_nil hnil]
    exact getLast?_intercalate hnames
  have hroot : path ++ joinPath names ≠ ['/'] := by
    intro heq
    rw [heq] at hend
    exact hend rfl
  have hempty : path ++ joinPath names ≠ [] :=
    List.append_ne_nil_of_right_ne_nil _ (joinPath_ne_nil names)
  refine ⟨[.lit "empty component in path ", .repr (path ++ joinPath names)], ?_⟩
  unfold parsePath
  rw [check_bind hempty, check_bind hlen, check_bind hsplit.1, if_neg hroot, if_neg hend]
  dsimp only
  rw [hsplit.2, forM_checkComponent_empty hvalid]
  rfl

end Behind

end

end Python

end SqliteFs

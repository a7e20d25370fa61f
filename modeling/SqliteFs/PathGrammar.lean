import SqliteFs.Paths

/-!
# The language of paths

`parsePath` accepts the paths of bounded length that are valid names, each behind a slash, with or
without a slash at the end; the components it returns determine the path up to that slash.
-/

namespace SqliteFs

/-- What may name an entry. -/
structure ValidName (c : Str) : Prop where
  nonempty : c ≠ []
  notDots : ¬ (c = ['.'] ∨ c = ['.', '.'])
  noNul : '\x00' ∉ c
  fits : c.len ≤ NAME_MAX
  noSlash : '/' ∉ c

section
variable {path part r : Str} {components l : List Str}

lemma checkComponent_eq_ok (hslash : '/' ∉ part) :
    checkComponent path part = .ok r ↔ r = part ∧ ValidName part := by
  unfold checkComponent
  constructor
  · intro h
    split_ifs at h with hempty hdots hnul hlong
    · cases h
    · cases h
    · cases h
    · cases h
    · exact ⟨(Except.ok.inj h).symm, hempty, hdots, hnul, not_lt.mp hlong, hslash⟩
  · rintro ⟨rfl, h⟩
    rw [if_neg h.nonempty, if_neg h.notDots, if_neg h.noNul, if_neg (not_lt.mpr h.fits)]

lemma mapM_checkComponent_eq_ok {parts : List Str} (hslash : ∀ c ∈ parts, '/' ∉ c) :
    parts.mapM (checkComponent path) = .ok l ↔ l = parts ∧ ∀ c ∈ parts, ValidName c := by
  induction parts generalizing l with
  | nil => simp [eq_comm, pure, Except.pure]
  | cons c parts ih =>
    rw [List.forall_mem_cons] at hslash ⊢
    rw [List.mapM_cons]
    constructor
    · intro h
      cases hc : checkComponent path c with
      | error e =>
        rw [hc] at h
        cases h
      | ok r =>
        cases hrest : parts.mapM (checkComponent path) with
        | error e =>
          rw [hc, hrest] at h
          cases h
        | ok rs =>
          rw [hc, hrest] at h
          obtain ⟨rfl, hvalid⟩ := (checkComponent_eq_ok hslash.1).mp hc
          obtain ⟨rfl, hrest⟩ := (ih hslash.2).mp hrest
          exact ⟨(Except.ok.inj h).symm, hvalid, hrest⟩
    · rintro ⟨rfl, hvalid, hrest⟩
      rw [(checkComponent_eq_ok hslash.1).mpr ⟨rfl, hvalid⟩, (ih hslash.2).mpr ⟨rfl, hrest⟩]
      rfl

/-- The parts between the slashes have none. -/
lemma noSlash_of_mem_splitOn {s : Str} {c : Str} (hc : c ∈ s.splitOn '/') : '/' ∉ c := by
  induction s generalizing c with
  | nil =>
    rw [List.splitOn_nil, List.mem_singleton] at hc
    rw [hc]
    exact List.not_mem_nil
  | cons x s ih =>
    rw [List.splitOn_cons_eq_if_modifyHead] at hc
    split_ifs at hc with hx
    · rcases List.mem_cons.mp hc with rfl | hc
      · exact List.not_mem_nil
      · exact ih hc
    · obtain ⟨first, rest, hsplit⟩ := List.exists_cons_of_ne_nil (List.splitOn_ne_nil '/' s)
      rw [hsplit, List.modifyHead_cons] at hc
      rw [hsplit] at ih
      rcases List.mem_cons.mp hc with rfl | hc
      · rw [List.mem_cons, not_or]
        exact ⟨fun heq => hx (beq_iff_eq.mpr heq.symm), ih List.mem_cons_self⟩
      · exact ih (List.mem_cons_of_mem _ hc)

/-! ### The slash at the end -/

/-- Valid names in a row do not end in a slash. -/
lemma getLast?_intercalate (h : ∀ c ∈ components, ValidName c) :
    (List.intercalate ['/'] components).getLast? ≠ some '/' := by
  intro hlast
  obtain ⟨s, hs⟩ := List.getLast?_eq_some_iff.mp hlast
  have hne : components ≠ [] := by
    rintro rfl
    cases s <;> cases hs
  have hsplit := List.splitOn_intercalate '/' (fun c hc => (h c hc).noSlash) hne
  rw [hs, List.splitOn_append_cons_self, List.splitOn_nil] at hsplit
  have hempty : [] ∈ components := by
    rw [← hsplit]
    exact List.mem_append_right _ (List.mem_singleton_self _)
  exact (h [] hempty).nonempty rfl

lemma stripSlash_intercalate (h : ∀ c ∈ components, ValidName c) :
    stripSlash (List.intercalate ['/'] components) = List.intercalate ['/'] components :=
  if_neg (getLast?_intercalate h)

lemma stripSlash_concat (s : Str) : stripSlash (s ++ ['/']) = s := by
  unfold stripSlash
  rw [if_pos List.getLast?_concat, List.dropLast_concat]

lemma eq_or_eq_of_stripSlash (s : Str) : s = stripSlash s ∨ s = stripSlash s ++ ['/'] := by
  unfold stripSlash
  split_ifs with h
  · obtain ⟨t, rfl⟩ := List.getLast?_eq_some_iff.mp h
    rw [List.dropLast_concat]
    exact Or.inr rfl
  · exact Or.inl rfl

/-! ### parsePath -/

lemma joinPath_ne_nil (components : List Str) : joinPath components ≠ [] := List.cons_ne_nil _ _

/-- Backwards from the end, what is before the last slash begins with it. -/
lemma dropWhile_reverse (r : Str) (hpart : '/' ∉ part) :
    (r ++ '/' :: part).reverse.dropWhile (· ≠ '/') = '/' :: r.reverse := by
  have hstop : ∀ c ∈ part.reverse, decide (c ≠ '/') = true := by
    intro c hc
    refine decide_eq_true ?_
    rintro rfl
    exact hpart (List.mem_reverse.mp hc)
  rw [List.reverse_append, List.reverse_cons, List.append_assoc,
    List.dropWhile_append_of_pos hstop]
  rfl

lemma joinPath_concat (init : List Str) (name : Str) : joinPath (init ++ [name]) =
    if init = [] then '/' :: name else joinPath init ++ '/' :: name := by
  induction init with
  | nil => rw [if_pos rfl, List.nil_append, joinPath, List.intercalate_singleton]
  | cons c init ih =>
    rw [if_neg (List.cons_ne_nil c init)]
    cases init with
    | nil => simp [joinPath]
    | cons c' init =>
      rw [if_neg (List.cons_ne_nil c' init)] at ih
      have htail : List.intercalate ['/'] (c' :: init ++ [name])
          = List.intercalate ['/'] (c' :: init) ++ '/' :: name := (List.cons.inj ih).2
      rw [List.cons_append] at htail
      rw [joinPath, List.cons_append, List.cons_append, List.intercalate_cons_cons, htail, joinPath,
        List.intercalate_cons_cons]
      simp

lemma joinPath_eq_root (h : ∀ c ∈ components, ValidName c) :
    joinPath components = ['/'] ↔ components = [] := by
  constructor
  · intro hjoin
    by_contra hne
    have hsplit := List.splitOn_intercalate '/' (fun c hc => (h c hc).noSlash) hne
    rw [(List.cons.inj hjoin).2, List.splitOn_nil] at hsplit
    exact (h [] (hsplit ▸ List.mem_singleton_self _)).nonempty rfl
  · rintro rfl
    rfl

/-- What `parsePath` accepts, and what it makes of it. -/
theorem parsePath_eq_ok : parsePath path = .ok components ↔
    (∀ c ∈ components, ValidName c) ∧ path.len ≤ PATH_MAX ∧
      (path = joinPath components ∨ components ≠ [] ∧ path = joinPath components ++ ['/']) := by
  unfold parsePath
  constructor
  · intro h
    split_ifs at h with hempty hlong hhead hroot
    · cases h
    · cases h
    · cases h
    · obtain rfl := Except.ok.inj h
      exact ⟨fun c hc => absurd hc List.not_mem_nil, not_lt.mp hlong, Or.inl hroot⟩
    · obtain ⟨rfl, hvalid⟩ :=
        (mapM_checkComponent_eq_ok fun c hc => noSlash_of_mem_splitOn hc).mp h
      refine ⟨hvalid, not_lt.mp hlong, ?_⟩
      have hjoin : joinPath ((stripSlash path.tail).splitOn '/') = '/' :: stripSlash path.tail := by
        rw [joinPath, List.intercalate_splitOn]
      have hpath : path = '/' :: path.tail := (List.cons_head?_tail (not_not.mp hhead)).symm
      rw [hjoin]
      rcases eq_or_eq_of_stripSlash path.tail with htail | htail
      · exact Or.inl (hpath.trans (congrArg _ htail))
      · exact Or.inr ⟨List.splitOn_ne_nil _ _, hpath.trans (congrArg _ htail)⟩
  · rintro ⟨hvalid, hlen, hpath⟩
    have hhead : path.head? = some '/' := by
      rcases hpath with rfl | ⟨-, rfl⟩
      · rfl
      · rfl
    have hempty : path ≠ [] := by
      rintro rfl
      cases hhead
    rw [if_neg hempty, if_neg (not_lt.mpr hlen), if_neg (not_not.mpr hhead)]
    by_cases hroot : path = ['/']
    · rw [if_pos hroot]
      rcases hpath with rfl | ⟨-, rfl⟩
      · rw [(joinPath_eq_root hvalid).mp hroot]
      · exact absurd (List.append_eq_nil_iff.mp (List.cons.inj hroot).2).2 (List.cons_ne_nil _ _)
    · rw [if_neg hroot]
      have hne : components ≠ [] := by
        rcases hpath with rfl | ⟨hne, -⟩
        · exact fun hnil => hroot ((joinPath_eq_root hvalid).mpr hnil)
        · exact hne
      have hstrip : stripSlash path.tail = List.intercalate ['/'] components := by
        rcases hpath with rfl | ⟨-, rfl⟩
        · exact stripSlash_intercalate hvalid
        · exact stripSlash_concat _
      have hsplit := List.splitOn_intercalate '/' (fun c hc => (hvalid c hc).noSlash) hne
      rw [hstrip, hsplit]
      exact (mapM_checkComponent_eq_ok fun c hc => (hvalid c hc).noSlash).mpr ⟨rfl, hvalid⟩

lemma parsePath_joinPath (hvalid : ∀ c ∈ components, ValidName c)
    (hlen : (joinPath components).len ≤ PATH_MAX) :
    parsePath (joinPath components) = .ok components :=
  parsePath_eq_ok.mpr ⟨hvalid, hlen, Or.inl rfl⟩

lemma parsePath_tooLong (hne : path ≠ []) (hlen : ¬ path.len ≤ PATH_MAX) : parsePath path =
    err (.pathSyntax [.lit "path exceeds PATH_MAX (", .num PATH_MAX, .lit ")"]) := by
  unfold parsePath
  rw [if_neg hne, if_pos (not_le.mp hlen)]

/-! ### Lengths -/

lemma Str.len_cons (c : Char) (s : Str) : Str.len (c :: s) = c.utf8Size + s.len := by
  rw [len, List.map_cons, List.sum_cons, len]

lemma Str.len_append (s t : Str) : Str.len (s ++ t) = s.len + t.len := by
  rw [len, List.map_append, List.sum_append, len, len]

lemma Str.len_slash (s : Str) : Str.len ('/' :: s) = s.len + 1 := by
  rw [len_cons, Nat.add_comm]
  rfl

/-- A path is as long as its names with their slashes. -/
lemma len_joinPath : ∀ (components : List Str), components ≠ [] →
    (joinPath components).len = (components.map fun c => c.len + 1).sum
  | [c], _ => by
    rw [joinPath, List.intercalate_singleton, Str.len_slash, List.map_singleton,
      List.sum_singleton]
  | c :: c' :: rest, _ => by
    have ih := len_joinPath (c' :: rest) (List.cons_ne_nil _ _)
    rw [joinPath, List.intercalate_cons_cons, Str.len_slash, List.append_assoc, Str.len_append,
      List.singleton_append, List.map_cons, List.sum_cons, ← ih, joinPath]
    exact Nat.add_right_comm _ _ _

lemma len_joinPath_le (components : List Str) : (joinPath components).len ≤
    1 + (components.map fun c => c.len + 1).sum := by
  cases components with
  | nil => exact le_rfl
  | cons c rest =>
    rw [len_joinPath _ (List.cons_ne_nil c rest)]
    exact Nat.le_add_left _ _

/-- The path of the directory above is shorter. -/
lemma len_joinPath_dropLast (init : List Str) (name : Str) :
    (joinPath init).len ≤ (joinPath (init ++ [name])).len := by
  rw [len_joinPath (init ++ [name]) (by simp), List.map_append, List.sum_append]
  refine (len_joinPath_le init).trans ?_
  rw [List.map_singleton, List.sum_singleton]
  omega

/-- The path of the directory above parses to the names before the last. -/
lemma parsePath_init {init : List Str} {name : Str} (h : parsePath path = .ok (init ++ [name])) :
    parsePath (joinPath init) = .ok init := by
  obtain ⟨hvalid, hlen, hpath⟩ := parsePath_eq_ok.mp h
  refine parsePath_joinPath (fun c hc => hvalid c (List.mem_append_left _ hc)) ?_
  refine (len_joinPath_dropLast init name).trans (le_trans ?_ hlen)
  rcases hpath with rfl | ⟨-, rfl⟩
  · exact le_rfl
  · rw [Str.len_append]
    exact Nat.le_add_right _ _

/-! ### Below a path -/

/-- `{path}/{suffix}`, with one slash between them. -/
def below (path suffix : Str) : Str := stripSlash path ++ '/' :: suffix

/-- The names of a suffix: valid, with slashes between them and perhaps one behind them. -/
def SuffixNames (suffix : Str) (names : List Str) : Prop :=
  (∀ c ∈ names, ValidName c) ∧ (suffix = List.intercalate ['/'] names ∨
    names ≠ [] ∧ suffix = List.intercalate ['/'] names ++ ['/'])

lemma joinPath_append {names : List Str} (hc : components ≠ []) (hn : names ≠ []) :
    joinPath (components ++ names) = joinPath components ++ '/' :: List.intercalate ['/'] names := by
  induction components with
  | nil => exact absurd rfl hc
  | cons c rest ih =>
    cases rest with
    | nil =>
      obtain ⟨n, names, rfl⟩ := List.exists_cons_of_ne_nil hn
      simp [joinPath]
    | cons c' rest =>
      have htail := (List.cons.inj (ih (List.cons_ne_nil c' rest))).2
      rw [joinPath, List.cons_append, List.cons_append, List.intercalate_cons_cons, joinPath,
        List.intercalate_cons_cons]
      rw [List.cons_append] at htail
      rw [htail]
      simp

lemma stripSlash_of_parsePath (hparse : parsePath path = .ok components) (hc : components ≠ []) :
    stripSlash path = joinPath components := by
  obtain ⟨hvalid, -, hpath⟩ := parsePath_eq_ok.mp hparse
  rcases hpath with rfl | ⟨-, rfl⟩
  · refine if_neg fun hlast => getLast?_intercalate hvalid ?_
    have hne : List.intercalate ['/'] components ≠ [] := by
      intro hnil
      refine hc ((joinPath_eq_root hvalid).mp ?_)
      rw [joinPath, hnil]
    rw [← hlast, joinPath, List.getLast?_cons_of_ne_nil hne]
  · exact stripSlash_concat _

/-- The names of a path and of what is below it, between slashes, are those of both. -/
lemma eq_append_of_intercalate {l : List Str} {suffix : Str} (hc : components ≠ [])
    (hvalid : ∀ c ∈ components, ValidName c) (hl : ∀ c ∈ l, ValidName c)
    (h : List.intercalate ['/'] components ++ '/' :: suffix = List.intercalate ['/'] l) :
    l = components ++ suffix.splitOn '/' := by
  have hne : l ≠ [] := by
    rintro rfl
    exact absurd h (by simp)
  rw [← List.splitOn_intercalate '/' (fun c hc => (hl c hc).noSlash) hne, ← h]
  rw [List.splitOn_append_cons_self,
    List.splitOn_intercalate '/' (fun c hc => (hvalid c hc).noSlash) hc]

/-- How `parsePath` reads what is below a path. -/
lemma parsePath_below {suffix : Str} (hparse : parsePath path = .ok components)
    (hc : components ≠ []) (hlen : (below path suffix).len ≤ PATH_MAX) :
    parsePath (below path suffix) = .ok l ↔ ∃ names, l = components ++ names ∧
      SuffixNames suffix names := by
  have hvalid := (parsePath_eq_ok.mp hparse).1
  have hbelow : below path suffix = joinPath components ++ '/' :: suffix := by
    rw [below, stripSlash_of_parsePath hparse hc]
  rw [parsePath_eq_ok, and_iff_right hlen, hbelow]
  constructor
  · rintro ⟨hl, heq | ⟨hne, heq⟩⟩
    · obtain rfl := eq_append_of_intercalate hc hvalid hl (List.cons.inj heq).2
      refine ⟨_, rfl, fun c hcr => hl c (List.mem_append_right _ hcr), Or.inl ?_⟩
      rw [List.intercalate_splitOn]
    · replace heq : List.intercalate ['/'] components ++ '/' :: suffix =
          List.intercalate ['/'] l ++ ['/'] := (List.cons.inj heq).2
      rcases List.eq_nil_or_concat suffix with rfl | ⟨suffix, x, rfl⟩
      · -- nothing but the slash
        have hsame := (List.append_inj' heq rfl).1
        refine ⟨[], ?_, fun c hcr => absurd hcr List.not_mem_nil, Or.inl rfl⟩
        have hsplit := List.splitOn_intercalate '/' (fun c hc => (hl c hc).noSlash) hne
        rw [← hsame, List.splitOn_intercalate '/' (fun c hc => (hvalid c hc).noSlash) hc] at hsplit
        rw [← hsplit, List.append_nil]
      · rw [List.concat_eq_append] at heq ⊢
        rw [← List.cons_append, ← List.append_assoc] at heq
        obtain ⟨hsame, hx⟩ := List.append_inj' heq rfl
        obtain ⟨rfl, -⟩ := List.cons.inj hx
        obtain rfl := eq_append_of_intercalate hc hvalid hl hsame
        refine ⟨_, rfl, fun c hcr => hl c (List.mem_append_right _ hcr),
          Or.inr ⟨List.splitOn_ne_nil _ _, ?_⟩⟩
        rw [List.intercalate_splitOn]
  · rintro ⟨names, rfl, hnames, hsuffix⟩
    refine ⟨fun c hcl => (List.mem_append.mp hcl).elim (hvalid c) (hnames c), ?_⟩
    rcases eq_or_ne names [] with rfl | hne
    · obtain rfl : suffix = [] := by
        rcases hsuffix with h | ⟨h, -⟩
        · exact h
        · exact absurd rfl h
      rw [List.append_nil]
      exact Or.inr ⟨hc, rfl⟩
    · rw [joinPath_append hc hne]
      rcases hsuffix with rfl | ⟨-, rfl⟩
      · exact Or.inl rfl
      · refine Or.inr ⟨List.append_ne_nil_of_left_ne_nil hc names, ?_⟩
        rw [List.append_assoc, List.cons_append]

end

end SqliteFs

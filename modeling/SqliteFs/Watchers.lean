import SqliteFs.Runtime
import SqliteFs.PathGrammar

/-!
# Which events reach a watcher

A watcher is meant to see what happens in its directory, or anywhere below it if it is recursive.
The registry compares the texts of paths, which may end in a slash or not. A watched path that ends
in one sees nothing; an event path that ends in one is taken for what lies in it.
-/

namespace SqliteFs

variable {path watched name : Str} {components names l : List Str} {slot : WatchSlot} {ev : Event}

/-! ### Texts of paths -/

/-- A path that is written with a slash at its end. -/
def EndsInSlash (path : Str) : Prop := path ≠ ['/'] ∧ path.getLast? = some '/'

instance (path : Str) : Decidable (EndsInSlash path) := inferInstanceAs (Decidable (_ ∧ _))

lemma getLast?_joinPath (hvalid : ∀ c ∈ components, ValidName c) (hne : components ≠ []) :
    (joinPath components).getLast? ≠ some '/' := by
  have hnil : List.intercalate ['/'] components ≠ [] := by
    intro hempty
    exact hne ((joinPath_eq_root hvalid).mp (congrArg _ hempty))
  rw [joinPath, List.getLast?_cons_of_ne_nil hnil]
  exact getLast?_intercalate hvalid

/-- A path is its names with slashes, and perhaps a slash more. -/
lemma spelling (h : parsePath path = .ok components) :
    if EndsInSlash path then components ≠ [] ∧ path = joinPath components ++ ['/']
      else path = joinPath components := by
  obtain ⟨hvalid, -, hpath⟩ := parsePath_eq_ok.mp h
  by_cases hend : EndsInSlash path
  · rw [if_pos hend]
    refine hpath.resolve_left ?_
    rintro rfl
    refine getLast?_joinPath hvalid ?_ hend.2
    rintro rfl
    exact hend.1 rfl
  · rw [if_neg hend]
    refine hpath.resolve_right ?_
    rintro ⟨hne, rfl⟩
    refine hend ⟨?_, List.getLast?_concat⟩
    intro hroot
    exact joinPath_ne_nil components (List.append_left_eq_self.mp hroot)

lemma parentOfPath_append (a : Str) (hname : '/' ∉ name) :
    parentOfPath (a ++ '/' :: name) = if a = [] then ['/'] else a := by
  unfold parentOfPath
  rw [dropWhile_reverse a hname, List.drop_one, List.tail_cons]
  simp only [List.reverse_eq_nil_iff, List.reverse_reverse]

lemma parentOfPath_joined (hvalid : ∀ c ∈ components, ValidName c) :
    parentOfPath (joinPath components) = joinPath components.dropLast := by
  rcases List.eq_nil_or_concat components with rfl | ⟨init, name, rfl⟩
  · rfl
  · rw [List.concat_eq_append] at hvalid ⊢
    have hname : '/' ∉ name := (hvalid name (List.mem_append_right _ (List.mem_singleton_self _))).noSlash
    rw [List.dropLast_concat, joinPath_concat]
    by_cases hinit : init = []
    · rw [if_pos hinit, hinit]
      exact parentOfPath_append [] hname
    · rw [if_neg hinit, parentOfPath_append _ hname, if_neg (joinPath_ne_nil init)]

/-- Texts of names are different if the names are. -/
lemma joinPath_eq_watched (hw : parsePath watched = .ok names) (hvalid : ∀ c ∈ l, ValidName c) :
    joinPath l = watched ↔ ¬ EndsInSlash watched ∧ l = names := by
  have hspell := spelling hw
  constructor
  · rintro rfl
    have hparse := parsePath_joinPath hvalid (parsePath_eq_ok.mp hw).2.1
    refine ⟨fun hend => ?_, Except.ok.inj (hparse.symm.trans hw)⟩
    refine getLast?_joinPath hvalid ?_ hend.2
    rintro rfl
    exact hend.1 rfl
  · rintro ⟨hend, rfl⟩
    rw [if_neg hend] at hspell
    exact hspell.symm

/-- What is behind the names `l` and a slash, in the text of other names. -/
lemma joinPath_below (hl : ∀ c ∈ l, ValidName c) (hne : l ≠ [])
    (hvalid : ∀ c ∈ components, ValidName c) :
    joinPath l ++ ['/'] <+: joinPath components ↔ l <+: components ∧ l ≠ components := by
  constructor
  · rintro ⟨suffix, hsuffix⟩
    rw [List.append_assoc, List.singleton_append] at hsuffix
    obtain rfl := eq_append_of_intercalate hne hl hvalid (List.cons.inj hsuffix).2
    refine ⟨List.prefix_append _ _, fun heq => ?_⟩
    exact List.splitOn_ne_nil '/' suffix (List.append_right_eq_self.mp heq.symm)
  · rintro ⟨⟨rest, rfl⟩, hother⟩
    have hrest : rest ≠ [] := by
      rintro rfl
      exact hother (List.append_nil l).symm
    rw [joinPath_append hne hrest]
    exact ⟨List.intercalate ['/'] rest, by rw [List.append_assoc, List.singleton_append]⟩

/-- No names have two slashes between them. -/
lemma not_doubleSlash (hl : ∀ c ∈ l, ValidName c) (hne : l ≠ [])
    (hvalid : ∀ c ∈ components, ValidName c) :
    ¬ joinPath l ++ ['/'] ++ ['/'] <+: joinPath components := by
  rintro ⟨suffix, hsuffix⟩
  rw [List.append_assoc, List.append_assoc] at hsuffix
  obtain rfl := eq_append_of_intercalate hne hl hvalid (List.cons.inj hsuffix).2
  refine (hvalid [] (List.mem_append_right _ ?_)).nonempty rfl
  change [] ∈ ([] ++ '/' :: suffix).splitOn '/'
  rw [List.splitOn_append_cons_self, List.splitOn_nil]
  exact List.mem_append_left _ (List.mem_singleton_self _)

/-! ### What a path match means -/

/-- Below a watched path other than the root is what goes on with a slash. -/
lemma pathMatches_recursive (hroot : watched ≠ ['/']) :
    pathMatches path watched true = true ↔ watched ++ ['/'] <+: path := by
  unfold pathMatches
  rw [if_pos rfl, Bool.and_eq_true, Bool.and_eq_true, Bool.or_eq_true, Bool.or_eq_true,
    List.isPrefixOf_iff_prefix, decide_eq_true_iff, decide_eq_true_iff, decide_eq_true_iff,
    decide_eq_true_iff]
  constructor
  · rintro ⟨⟨⟨suffix, rfl⟩, hnext⟩, hother⟩
    cases suffix with
    | nil => exact absurd (List.append_nil watched) hother
    | cons c suffix =>
      have hc : c = '/' := by
        simpa [hroot] using hnext
      rw [hc]
      exact ⟨suffix, by rw [List.append_assoc, List.singleton_append]⟩
  · rintro ⟨suffix, rfl⟩
    rw [List.append_assoc, List.singleton_append]
    refine ⟨⟨List.prefix_append _ _, Or.inl (Or.inr ?_)⟩, fun heq => ?_⟩
    · rw [List.getElem?_append_right le_rfl, Nat.sub_self]
      rfl
    · exact List.cons_ne_nil _ _ (List.append_right_eq_self.mp heq)

lemma pathMatches_slash (hstart : ['/'] <+: path) :
    pathMatches path ['/'] true = true ↔ path ≠ ['/'] := by
  unfold pathMatches
  rw [if_pos rfl, Bool.and_eq_true, Bool.and_eq_true, List.isPrefixOf_iff_prefix,
    and_iff_right hstart, Bool.or_eq_true, and_iff_right (Or.inr (decide_eq_true rfl)),
    decide_eq_true_iff]

/-- Everything lies below the root but the root. -/
lemma pathMatches_belowRoot (hp : parsePath path = .ok components) :
    pathMatches path ['/'] true = true ↔ path ≠ ['/'] := by
  refine pathMatches_slash ?_
  obtain ⟨-, -, rfl | ⟨-, rfl⟩⟩ := parsePath_eq_ok.mp hp
  · exact ⟨_, rfl⟩
  · exact ⟨_, rfl⟩

section Matches
variable (hw : parsePath watched = .ok names) (hp : parsePath path = .ok components)
include hw hp

/-- Without a slash at its end, a path is watched by what watches its parent; with one, by what
watches the path itself. -/
lemma pathMatches_parent : pathMatches path watched false = true ↔ ¬ EndsInSlash watched ∧
    if EndsInSlash path then components = names else components.dropLast = names := by
  have hvalid := (parsePath_eq_ok.mp hp).1
  have hspell := spelling hp
  have hmatch : pathMatches path watched false = true ↔ parentOfPath path = watched :=
    decide_eq_true_iff
  rw [hmatch]
  by_cases hend : EndsInSlash path
  · rw [if_pos hend] at hspell ⊢
    rw [hspell.2, parentOfPath_append _ List.not_mem_nil, if_neg (joinPath_ne_nil components)]
    exact joinPath_eq_watched hw hvalid
  · rw [if_neg hend] at hspell ⊢
    rw [hspell, parentOfPath_joined hvalid]
    exact joinPath_eq_watched hw fun c hc => hvalid c (List.dropLast_subset _ hc)

/-- Nothing goes on with a slash where there is one already. -/
lemma not_isPrefix_of_endsInSlash (hend : EndsInSlash watched) : ¬ watched ++ ['/'] <+: path := by
  intro hstart
  obtain ⟨hvalid, -, -⟩ := parsePath_eq_ok.mp hp
  obtain ⟨hnames, -, -⟩ := parsePath_eq_ok.mp hw
  have hspell := spelling hp
  have hspell' := spelling hw
  rw [if_pos hend] at hspell'
  have hnot := not_doubleSlash hnames hspell'.1 hvalid
  rw [hspell'.2] at hstart
  by_cases hslash : EndsInSlash path
  · rw [if_pos hslash] at hspell
    rw [hspell.2] at hstart
    rcases List.prefix_concat_iff.mp hstart with heq | hstart
    · refine getLast?_joinPath hvalid hspell.1 ?_
      rw [← List.append_cancel_right heq]
      exact List.getLast?_concat
    · exact hnot hstart
  · rw [if_neg hslash] at hspell
    exact hnot (hspell ▸ hstart)

/-- What goes on with a slash has more names, or the same and a slash. -/
lemma isPrefix_iff (hend : ¬ EndsInSlash watched) (hne : names ≠ []) :
    watched ++ ['/'] <+: path ↔ names <+: components ∧ (names ≠ components ∨ EndsInSlash path) := by
  obtain ⟨hvalid, -, -⟩ := parsePath_eq_ok.mp hp
  obtain ⟨hnames, -, -⟩ := parsePath_eq_ok.mp hw
  have hspell := spelling hp
  have hspell' := spelling hw
  rw [if_neg hend] at hspell'
  by_cases hslash : EndsInSlash path
  · rw [if_pos hslash] at hspell
    rw [and_iff_left (Or.inr hslash), hspell.2, hspell', List.prefix_concat_iff,
      joinPath_below hnames hne hvalid]
    constructor
    · rintro (heq | hbelow)
      · have hsame : watched = joinPath components := hspell'.trans (List.append_cancel_right heq)
        exact ((joinPath_eq_watched hw hvalid).mp hsame.symm).2 ▸ List.prefix_rfl
      · exact hbelow.1
    · intro hstart
      by_cases hsame : names = components
      · exact Or.inl (by rw [hsame])
      · exact Or.inr ⟨hstart, hsame⟩
  · rw [if_neg hslash] at hspell
    rw [or_iff_left hslash, hspell, hspell']
    exact joinPath_below hnames hne hvalid

/-- A watched path without a slash at its end watches all that goes on with a slash. -/
lemma pathMatches_below : pathMatches path watched true = true ↔ ¬ EndsInSlash watched ∧
    names <+: components ∧ (names ≠ components ∨ EndsInSlash path) := by
  have hspell := spelling hp
  have hspell' := spelling hw
  by_cases hroot : watched = ['/']
  · subst hroot
    have hnot : ¬ EndsInSlash ['/'] := fun h => h.1 rfl
    rw [if_neg hnot] at hspell'
    obtain rfl := (joinPath_eq_root (parsePath_eq_ok.mp hw).1).mp hspell'.symm
    rw [pathMatches_belowRoot hp, and_iff_right hnot, and_iff_right List.nil_prefix]
    by_cases hslash : EndsInSlash path
    · exact iff_of_true hslash.1 (Or.inr hslash)
    · rw [if_neg hslash] at hspell
      rw [or_iff_left hslash, hspell, ne_eq, joinPath_eq_root (parsePath_eq_ok.mp hp).1, ne_comm,
        ne_eq]
  rw [pathMatches_recursive hroot]
  by_cases hend : EndsInSlash watched
  · exact iff_of_false (not_isPrefix_of_endsInSlash hw hp hend) fun h => h.1 hend
  rw [if_neg hend] at hspell'
  have hne : names ≠ [] := by
    rintro rfl
    exact hroot hspell'
  rw [and_iff_right hend]
  exact isPrefix_iff hw hp hend hne

end Matches

/-! ### Which events a slot receives -/

/-- The paths of an event that watchers are asked about. -/
def eventPaths (ev : Event) : List Str :=
  match ev.kind with
  | .move =>
    let v := ev.srcPath.toList ++ ev.dstPath.toList
    if v = [] then [ev.path] else v
  | _ => [ev.path]

/-- The path lies in the watched directory, or anywhere below it if the watcher is recursive. -/
def Inside (slot : WatchSlot) (path : Str) : Prop :=
  ∃ names components, parsePath slot.path = .ok names ∧ parsePath path = .ok components ∧
    if slot.recursive then names <+: components ∧ names ≠ components
    else components.dropLast = names

/-- The slashes at the ends of the paths do no harm. -/
structure SlashesAgree (slot : WatchSlot) (ev : Event) : Prop where
  /-- Where the watched path ends in one, nothing lies inside. -/
  watched : EndsInSlash slot.path → ∀ p ∈ eventPaths ev, ¬ Inside slot p
  /-- Where it does not and something lies inside, something is seen. -/
  seen : ¬ EndsInSlash slot.path → (∃ p ∈ eventPaths ev, Inside slot p) →
    slot.recursive = true ∨ (∃ p ∈ eventPaths ev, Inside slot p ∧ ¬ EndsInSlash p) ∨
      slot.path ++ ['/'] ∈ eventPaths ev
  /-- The watched directory itself, written with a slash, is not taken for what lies inside. -/
  itself : ¬ EndsInSlash slot.path → slot.path ++ ['/'] ∈ eventPaths ev →
    ∃ p ∈ eventPaths ev, Inside slot p

section Slots

lemma matchesSlot_iff : matchesSlot slot ev = true ↔
    ∃ p ∈ eventPaths ev, pathMatches p slot.path slot.recursive = true :=
  List.any_eq_true

section Parsed
variable (hw : parsePath slot.path = .ok names) (hp : parsePath path = .ok components)
include hw hp

lemma inside_iff : Inside slot path ↔
    if slot.recursive then names <+: components ∧ names ≠ components
    else components.dropLast = names := by
  constructor
  · rintro ⟨names', components', hw', hp', h⟩
    obtain rfl := Except.ok.inj (hw.symm.trans hw')
    obtain rfl := Except.ok.inj (hp.symm.trans hp')
    exact h
  · exact fun h => ⟨names, components, hw, hp, h⟩

/-- The watched path with a slash behind it has its names. -/
lemma eq_watched_slash (hend : ¬ EndsInSlash slot.path) :
    path = slot.path ++ ['/'] ↔ EndsInSlash path ∧ components = names := by
  have hvalid := (parsePath_eq_ok.mp hp).1
  have hspell := spelling hp
  have hwatched := joinPath_eq_watched hw hvalid
  constructor
  · rintro rfl
    have hslash : EndsInSlash (slot.path ++ ['/']) := by
      refine ⟨fun hroot => ?_, List.getLast?_concat⟩
      have hempty : slot.path = [] := List.append_left_eq_self.mp hroot
      rw [hempty] at hw
      cases hw
    rw [if_pos hslash] at hspell
    exact ⟨hslash, (hwatched.mp (List.append_cancel_right hspell.2).symm).2⟩
  · rintro ⟨hslash, rfl⟩
    rw [if_pos hslash] at hspell
    rw [hspell.2, hwatched.mpr ⟨hend, rfl⟩]

/-- What the comparison of texts finds. -/
lemma pathMatches_iff : pathMatches path slot.path slot.recursive = true ↔
    ¬ EndsInSlash slot.path ∧ (Inside slot path ∧ (slot.recursive = true ∨ ¬ EndsInSlash path) ∨
      path = slot.path ++ ['/']) := by
  have hinside := inside_iff hw hp
  cases hrec : slot.recursive with
  | false =>
    rw [hrec, if_neg Bool.false_ne_true] at hinside
    rw [pathMatches_parent hw hp]
    refine and_congr_right fun hend => ?_
    rw [eq_watched_slash hw hp hend, hinside]
    by_cases hslash : EndsInSlash path
    · simp [hslash]
    · simp [hslash]
  | true =>
    rw [hrec, if_pos rfl] at hinside
    rw [pathMatches_below hw hp]
    refine and_congr_right fun hend => ?_
    rw [eq_watched_slash hw hp hend, hinside]
    constructor
    · rintro ⟨hstart, hother⟩
      by_cases hsame : names = components
      · exact Or.inr ⟨hother.resolve_left (not_not.mpr hsame), hsame.symm⟩
      · exact Or.inl ⟨⟨hstart, hsame⟩, Or.inl rfl⟩
    · rintro (⟨⟨hstart, hother⟩, -⟩ | ⟨hslash, rfl⟩)
      · exact ⟨hstart, Or.inl hother⟩
      · exact ⟨List.prefix_rfl, Or.inr hslash⟩

end Parsed

/-- A slot receives the events with a path inside if and only if the slashes do no harm. -/
theorem matchesSlot_iff_inside (hw : parsePath slot.path = .ok names)
    (hev : ∀ p ∈ eventPaths ev, ∃ components, parsePath p = .ok components) :
    (matchesSlot slot ev = true ↔ ∃ p ∈ eventPaths ev, Inside slot p) ↔ SlashesAgree slot ev := by
  have hmatch : ∀ p ∈ eventPaths ev, (pathMatches p slot.path slot.recursive = true ↔
      ¬ EndsInSlash slot.path ∧ (Inside slot p ∧ (slot.recursive = true ∨ ¬ EndsInSlash p) ∨
        p = slot.path ++ ['/'])) := by
    intro p hp
    obtain ⟨components, hparse⟩ := hev p hp
    exact pathMatches_iff hw hparse
  rw [matchesSlot_iff]
  constructor
  · intro h
    refine ⟨fun hend p hp hin => ?_, fun hend hin => ?_, fun hend hmem => ?_⟩
    · obtain ⟨q, hq, hqm⟩ := h.mpr ⟨p, hp, hin⟩
      exact ((hmatch q hq).mp hqm).1 hend
    · obtain ⟨q, hq, hqm⟩ := h.mpr hin
      rcases ((hmatch q hq).mp hqm).2 with ⟨hin', hrec | hslash⟩ | rfl
      · exact Or.inl hrec
      · exact Or.inr (Or.inl ⟨q, hq, hin', hslash⟩)
      · exact Or.inr (Or.inr hq)
    · exact h.mp ⟨_, hmem, (hmatch _ hmem).mpr ⟨hend, Or.inr rfl⟩⟩
  · rintro ⟨hwatched, hseen, hitself⟩
    constructor
    · rintro ⟨p, hp, hpm⟩
      obtain ⟨hend, ⟨hin, -⟩ | rfl⟩ := (hmatch p hp).mp hpm
      · exact ⟨p, hp, hin⟩
      · exact hitself hend hp
    · rintro ⟨p, hp, hin⟩
      have hend : ¬ EndsInSlash slot.path := fun hend => hwatched hend p hp hin
      rcases hseen hend ⟨p, hp, hin⟩ with hrec | ⟨q, hq, hin', hslash⟩ | hmem
      · exact ⟨p, hp, (hmatch p hp).mpr ⟨hend, Or.inl ⟨hin, Or.inl hrec⟩⟩⟩
      · exact ⟨q, hq, (hmatch q hq).mpr ⟨hend, Or.inl ⟨hin', Or.inr hslash⟩⟩⟩
      · exact ⟨_, hmem, (hmatch _ hmem).mpr ⟨hend, Or.inr rfl⟩⟩

/-- A watcher of `/d`, written with a slash at the end. -/
def slashSlot : WatchSlot := ⟨1, ['/', 'd', '/'], false, []⟩

/-- A watcher of `/d`. -/
def dirSlot : WatchSlot := ⟨1, ['/', 'd'], false, []⟩

/-- The event that a file has been made in `/d`. -/
def madeFile : Event := ⟨.create, ['/', 'd', '/', 'f'], none, none, .file, 3, 0⟩

theorem matchesSlot_iff_inside_madeFile :
    (matchesSlot dirSlot madeFile = true ↔ ∃ p ∈ eventPaths madeFile, Inside dirSlot p) ↔
      SlashesAgree dirSlot madeFile :=
  matchesSlot_iff_inside (show parsePath dirSlot.path = .ok [['d']] by decide) fun p hp =>
    ⟨[['d'], ['f']], List.mem_singleton.mp hp ▸ by decide⟩

/-- The watcher does not see a file made in its directory. -/
theorem not_matchesSlot_iff_inside : ¬ ∀ (slot : WatchSlot) (ev : Event) (names : List Str),
    parsePath slot.path = .ok names →
      (∀ p ∈ eventPaths ev, ∃ components, parsePath p = .ok components) →
        (matchesSlot slot ev = true ↔ ∃ p ∈ eventPaths ev, Inside slot p) := by
  intro h
  have hin : Inside slashSlot ['/', 'd', '/', 'f'] :=
    ⟨[['d']], [['d'], ['f']], by decide, by decide, rfl⟩
  have hiff := h slashSlot madeFile [['d']] (by decide) fun p hp =>
    ⟨[['d'], ['f']], List.mem_singleton.mp hp ▸ by decide⟩
  exact absurd (hiff.mpr ⟨_, List.mem_singleton_self _, hin⟩) (by decide)

end Slots

end SqliteFs

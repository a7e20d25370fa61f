import SqliteFs.Filesystem.Resolution

/-!
# Paths and the paths of their parents

To find the directory of a path, `resolveParentAndName` parses the path, joins all names but the last
to a path again, and resolves that, which parses it a second time. Both parses agree.
-/

namespace SqliteFs

namespace Filesystem

variable {d : Db} {path path' name : Str} {init components : List Str} {i p : ℕ}

/-- The grammar of paths, with the root apart. -/
lemma parsePath_grammar : parsePath path = .ok components ↔ (path = ['/'] ∧ components = []) ∨
    (path.len ≤ PATH_MAX ∧ components ≠ [] ∧ (∀ c ∈ components, ValidName c) ∧
      (path = joinPath components ∨ path = joinPath components ++ ['/'])) := by
  rw [parsePath_eq_ok]
  constructor
  · rintro ⟨hvalid, hlen, hpath⟩
    rcases eq_or_ne components [] with rfl | hne
    · rcases hpath with rfl | ⟨hne, -⟩
      · exact Or.inl ⟨rfl, rfl⟩
      · exact absurd rfl hne
    · exact Or.inr ⟨hlen, hne, hvalid, hpath.imp_right And.right⟩
  · rintro (⟨rfl, rfl⟩ | ⟨hlen, hne, hvalid, hpath⟩)
    · exact ⟨fun c hc => absurd hc List.not_mem_nil, by decide, Or.inl rfl⟩
    · exact ⟨hvalid, hlen, hpath.imp_right fun h => ⟨hne, h⟩⟩

/-- The parent is what the path of the other names resolves to. -/
lemma resolveParentAndName_concat (h : parsePath path = .ok (init ++ [name])) :
    resolveParentAndName d path
      = (resolveToInode d (joinPath init) >>= fun p => .ok (p, name)) := by
  unfold resolveParentAndName
  rw [h]
  simp only [bind, Except.bind, List.getLast?_concat, List.dropLast_concat]
  split_ifs with hnil
  · rw [hnil, resolveToInode, show joinPath [] = ['/'] from rfl,
      parsePath_grammar.mpr (Or.inl ⟨rfl, rfl⟩)]
    rfl
  · rfl

/-- A walk over one name more ends one entry further. -/
lemma walk_concat : ∀ {cur : ℕ} (init : List Str), walk d path cur (init ++ [name]) = .ok i →
    walk d path' cur init = .ok p → ∃ e, Entries.get d p name = .ok e ∧ e.inode = i
  | cur, [], h, h' => by
    obtain ⟨e, he, hi⟩ := bind_eq_ok.mp h
    obtain rfl := Except.ok.inj h'
    exact ⟨e, he, Except.ok.inj hi⟩
  | cur, m :: rest, h, h' => by
    have hstep : ∃ e, Entries.get d cur m = .ok e ∧
        walk d path e.inode (rest ++ [name]) = .ok i := by
      obtain ⟨x, l, hl⟩ := List.exists_cons_of_ne_nil (List.concat_ne_nil name rest)
      rw [List.cons_append, hl, walk] at h
      · obtain ⟨row, -, h⟩ := bind_eq_ok.mp h
        split_ifs at h
        · cases h
        · obtain ⟨e, he, h⟩ := bind_eq_ok.mp h
          exact ⟨e, he, hl.symm ▸ h⟩
      · exact List.cons_ne_nil x l
    obtain ⟨e, he, hrest⟩ := hstep
    refine walk_concat rest hrest ?_
    cases rest with
    | nil =>
      obtain ⟨e', he', hp⟩ := bind_eq_ok.mp h'
      obtain rfl := Except.ok.inj (he.symm.trans he')
      exact hp
    | cons x l =>
      obtain ⟨row, -, h'⟩ := bind_eq_ok.mp h'
      split_ifs at h'
      · cases h'
      · obtain ⟨e', he', h'⟩ := bind_eq_ok.mp h'
        obtain rfl := Except.ok.inj (he.symm.trans he')
        exact h'

/-- `parsePath` accepts exactly the strings of its grammar. What it makes of a path other than `/`
determines, in every database, the parent that `resolveParentAndName` finds, and where both the
parent and the path resolve, the path leads to the entry of its last name there. -/
theorem parsePath_iff_and_parent (path : Str) :
    (∀ components, parsePath path = .ok components ↔ (path = ['/'] ∧ components = []) ∨
      (path.len ≤ PATH_MAX ∧ components ≠ [] ∧ (∀ c ∈ components, ValidName c) ∧
        (path = joinPath components ∨ path = joinPath components ++ ['/']))) ∧
    ∀ components, parsePath path = .ok components → path ≠ ['/'] →
      ∃ init name, components = init ++ [name] ∧ parsePath (joinPath init) = .ok init ∧
        ∀ d : Db,
          resolveParentAndName d path
            = (resolveToInode d (joinPath init) >>= fun p => .ok (p, name)) ∧
          ∀ p n i, resolveParentAndName d path = .ok (p, n) → resolveToInode d path = .ok i →
            ∃ e, Entries.get d p n = .ok e ∧ e.inode = i := by
  refine ⟨fun _ => parsePath_grammar, fun components hparse hroot => ?_⟩
  rcases List.eq_nil_or_concat components with rfl | ⟨init, name, rfl⟩
  · rcases parsePath_grammar.mp hparse with ⟨h, -⟩ | ⟨-, hne, -⟩
    · exact absurd h hroot
    · exact absurd rfl hne
  · rw [List.concat_eq_append] at hparse
    refine ⟨init, name, List.concat_eq_append, parsePath_init hparse, fun d => ?_⟩
    have hparent := resolveParentAndName_concat (d := d) hparse
    refine ⟨hparent, fun p n i hp hi => ?_⟩
    rw [hparent] at hp
    obtain ⟨q, hq, hpair⟩ := bind_eq_ok.mp hp
    obtain ⟨rfl, rfl⟩ := Prod.mk.inj (Except.ok.inj hpair)
    obtain ⟨l, hl, hwalk⟩ := bind_eq_ok.mp hq
    rw [parsePath_init hparse] at hl
    obtain rfl := Except.ok.inj hl
    obtain ⟨l, hl, hi⟩ := bind_eq_ok.mp hi
    rw [hparse] at hl
    obtain rfl := Except.ok.inj hl
    exact walk_concat init hi hwalk

theorem parsePath_iff_and_parent_ab : ∃ init name,
    [['a'], ['b']] = init ++ [name] ∧ parsePath (joinPath init) = .ok init ∧ ∀ d : Db,
      resolveParentAndName d ['/', 'a', '/', 'b', '/']
        = (resolveToInode d (joinPath init) >>= fun p => .ok (p, name)) ∧
      ∀ p n i, resolveParentAndName d ['/', 'a', '/', 'b', '/'] = .ok (p, n) →
        resolveToInode d ['/', 'a', '/', 'b', '/'] = .ok i →
          ∃ e, Entries.get d p n = .ok e ∧ e.inode = i :=
  (parsePath_iff_and_parent ['/', 'a', '/', 'b', '/']).2 _ (by decide) (by decide)

end Filesystem

end SqliteFs

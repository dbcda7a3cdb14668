import GccXml.Front.Paths

namespace GccXml

/-! # `Front.FullPaths` — what `CollapseFullPath` gives

A full path has a root, and the rest of it is a way down from there: names to go down to, and `..` to go up. A relative
path goes on from the base, and `~` stands for a home directory, which is split like any other path. `fullPath` gives the
root and the way (`Lib.Moves`) that a path stands for.

`CollapseFullPath` follows the way over a stack of components in which the root is at the bottom. An upward step takes the
top off, whatever it is, so the first one too many takes the root off; what comes after it is put on an empty stack, and
joined as if its first name were a root. So the full path of the end of the way is returned if and only if the way never
goes up from the root, and this is the only condition on paths: the root, the separators, the home directory and the base
may be of any kind. Splitting and joining alone lose nothing but the kind of the separators. -/

/-- The roots of full paths, when home directories have been put in. -/
inductive IsRoot : List Char → Prop where
  | slash : IsRoot ['/']
  | network : IsRoot ['/', '/']
  | drive (c : Char) (hslash : isSlash c = false) : IsRoot [c, ':', '/']
  /-- A path relative to the working directory of a drive. -/
  | driveRelative (c : Char) (hslash : isSlash c = false) : IsRoot [c, ':']

variable {dirs : HomeDirectories} {fuel : Nat} {path base root cs : List Char} {components : List (List Char)}

theorem IsRoot.ne_nil (h : IsRoot root) : root ≠ [] := by
  cases h <;> exact List.cons_ne_nil _ _

theorem head_ne_slash {c : Char} (hc : isSlash c = false) : c ≠ '/' ∧ c ≠ '\\' := by
  simpa [isSlash] using hc

/-- A root is found again in front of components. -/
theorem splitPathRootComponent_append (h : IsRoot root) (hcs : ∀ c ∈ cs.head?, isSlash c = false) :
    splitPathRootComponent (root ++ cs) = (root, cs) := by
  have hhead : cs[0]? ≠ some '/' ∧ cs[0]? ≠ some '\\' := by
    cases cs with
    | nil => simp
    | cons c cs => simpa using head_ne_slash (hcs c rfl)
  unfold splitPathRootComponent
  cases h with
  | slash => simp [hhead.1, isSlash]
  | network => simp
  | drive c hslash => simp [head_ne_slash hslash, hslash]
  | driveRelative c hslash => simp [head_ne_slash hslash, hslash, hhead]

/-- What a root can be. -/
theorem splitPathRootComponent_root (path : List Char) :
    (splitPathRootComponent path).1 = [] ∨ IsRoot (splitPathRootComponent path).1 ∨
      (splitPathRootComponent path).1.head? = some '~' := by
  unfold splitPathRootComponent
  split
  · exact .inr (.inl .network)
  · split
    · exact .inl rfl
    · next c cs _ =>
        by_cases hslash : isSlash c = true
        · rw [if_pos hslash]
          exact .inr (.inl .slash)
        · have hslash' := Bool.eq_false_iff.mpr hslash
          rw [if_neg hslash]
          split
          · exact .inr (.inl (.drive c hslash'))
          · split
            · exact .inr (.inl (.driveRelative c hslash'))
            · split
              · exact .inr (.inr rfl)
              · exact .inl rfl

/-- Home directories are not given relative to home directories. -/
def PlainHomes (dirs : HomeDirectories) : Prop :=
  (∀ dir ∈ dirs.home, dir.chars.head? ≠ some '~') ∧ ∀ user, ∀ dir ∈ dirs.getpwnam user, dir.chars.head? ≠ some '~'

theorem homeDirectory_head (h : PlainHomes dirs) (root : List Char) : (homeDirectory dirs root).head? ≠ some '~' := by
  have hdropLast : ∀ cs : List Char, cs.head? ≠ some '~' → cs.dropLast.head? ≠ some '~' := by
    intro cs hcs
    match cs with
    | [] => exact hcs
    | [_] => simp
    | _ :: _ :: _ => exact hcs
  have hplain : (((if root.dropLast.length = 1 then dirs.home else dirs.getpwnam (root.dropLast.drop 1)).map
      CString.chars).getD []).head? ≠ some '~' := by
    split
    · cases hhome : dirs.home with
      | none => simp
      | some dir => exact h.1 dir hhome
    · cases hhome : dirs.getpwnam (root.dropLast.drop 1) with
      | none => simp
      | some dir => exact h.2 _ dir hhome
  unfold homeDirectory
  dsimp only
  generalize ((if root.dropLast.length = 1 then dirs.home else dirs.getpwnam (root.dropLast.drop 1)).map
    CString.chars).getD [] = homedir at hplain ⊢
  by_cases hslash : homedir.getLast? = some '/' ∨ homedir.getLast? = some '\\'
  · rw [if_pos hslash]
    exact hdropLast _ hplain
  · rw [if_neg hslash]
    exact hplain

/-- The parts of a path: a root, unless the path is relative, and components without slashes. -/
def IsSplit : List (List Char) → Prop
  | [] => False
  | root :: components =>
      (root = [] ∨ IsRoot root ∧ root.head? ≠ some '~') ∧ ∀ c ∈ components, ∀ x ∈ c, isSlash x = false

/-- A path whose home directory need not be put in. -/
theorem splitPath_plain (expandHomeDir : Bool) (h : (splitPathRootComponent path).1.head? ≠ some '~') :
    splitPath dirs expandHomeDir (fuel + 1) path =
        some ((splitPathRootComponent path).1 :: splitComponents (splitPathRootComponent path).2) ∧
      IsSplit ((splitPathRootComponent path).1 :: splitComponents (splitPathRootComponent path).2) := by
  refine ⟨?_, ?_, splitComponents_noSlash _⟩
  · unfold splitPath
    exact if_neg fun hexpand => h hexpand.2
  · rcases splitPathRootComponent_root path with hnil | hroot | htilde
    · exact .inl hnil
    · exact .inr ⟨hroot, h⟩
    · exact absurd htilde h

/-- A root begins like its path. -/
theorem splitPathRootComponent_head (h : path.head? ≠ some '~') : (splitPathRootComponent path).1.head? ≠ some '~' := by
  unfold splitPathRootComponent
  split
  · simp
  · split
    · simp
    · next c cs _ =>
        have hc : c ≠ '~' := by simpa using h
        split_ifs <;> simp [hc]

/-- **`SplitPath`** gives a root and components for every path. -/
theorem splitPath_isSplit (hhomes : PlainHomes dirs) (fuel : Nat) (path : List Char) :
    ∃ components, splitPath dirs true (fuel + 2) path = some components ∧ IsSplit components := by
  by_cases htilde : (splitPathRootComponent path).1.head? = some '~'
  · obtain ⟨hsplit, hroot, hslash⟩ := @splitPath_plain dirs fuel (homeDirectory dirs (splitPathRootComponent path).1) true
      (splitPathRootComponent_head (homeDirectory_head hhomes _))
    have hexpand : splitPath dirs true (fuel + 2) path = some ((splitPathRootComponent (homeDirectory dirs
        (splitPathRootComponent path).1)).1 :: (splitComponents (splitPathRootComponent (homeDirectory dirs
        (splitPathRootComponent path).1)).2 ++ splitComponents (splitPathRootComponent path).2)) := by
      unfold splitPath
      dsimp only
      rw [if_pos ⟨rfl, htilde⟩, hsplit]
      rfl
    refine ⟨_, hexpand, hroot, ?_⟩
    intro c hc
    rcases List.mem_append.mp hc with hhome | hrest
    · exact hslash c hhome
    · exact splitComponents_noSlash _ c hrest
  · obtain ⟨hsplit, hparts⟩ := @splitPath_plain dirs (fuel + 1) path true htilde
    exact ⟨_, hsplit, hparts⟩

/-- **A full path is split as it was joined.** -/
theorem splitPath_joinPath (expandHomeDir : Bool) (hroot : IsRoot root) (htilde : root.head? ≠ some '~')
    (hcomponents : ∀ c ∈ components, ∀ x ∈ c, isSlash x = false) (hfirst : components.head? ≠ some []) :
    splitPath dirs expandHomeDir (fuel + 1) (joinPath (root :: components)) = some (root :: components) := by
  obtain ⟨cs, hcs, hhead, hsplit⟩ : ∃ cs, joinPath (root :: components) = root ++ cs ∧
      (∀ c ∈ cs.head?, isSlash c = false) ∧ splitComponents cs = components := by
    cases components with
    | nil =>
        refine ⟨[], (List.append_nil _).symm, fun c hc => ?_, rfl⟩
        cases hc
    | cons c components =>
        obtain ⟨hc, hrest⟩ := List.forall_mem_cons.mp hcomponents
        obtain ⟨x, xs, rfl⟩ := List.exists_cons_of_ne_nil fun hnil : c = [] => hfirst (congrArg some hnil)
        refine ⟨_, rfl, ?_, ?_⟩
        · intro y hy
          cases hy
          exact hc x List.mem_cons_self
        · rw [splitComponents, if_neg (by simp), splitOnP_join hc hrest]
  have hparts := splitPathRootComponent_append hroot hhead
  rw [hcs]
  have hplain := @splitPath_plain dirs fuel (root ++ cs) expandHomeDir (by rw [hparts]; exact htilde)
  rw [hparts, hsplit] at hplain
  exact hplain.1

/-! ## Full paths -/

/-- The root of the full path that a path stands for, and the way from there. -/
def fullPath (dirs : HomeDirectories) (fuel : Nat) (path base : List Char) :
    Option (List Char × List (Move (List Char))) :=
  match splitPath dirs true fuel path, splitPath dirs true fuel base with
  | some ([] :: components), some (root :: baseComponents) => some (root, (baseComponents ++ components).map toMove)
  | some (root :: components), _ => some (root, components.map toMove)
  | _, _ => none

/-- The text of the full path at the end of a way. -/
def fullPathText (root : List Char) (moves : List (Move (List Char))) : List Char :=
  joinPath (root :: Move.follow [] moves)

theorem toMove_root (hroot : IsRoot root) : toMove root = .down root := by
  cases hroot with
  | slash => rfl
  | network => rfl
  | drive c _ => exact (if_neg (by simp)).trans (if_neg (by simp))
  | driveRelative c _ => exact (if_neg (by simp)).trans (if_neg (by simp))

theorem splitPathRootComponent_ne_nil (h : path.head? = some '/') : (splitPathRootComponent path).1 ≠ [] := by
  obtain ⟨cs, rfl⟩ := List.head?_eq_some_iff.mp h
  unfold splitPathRootComponent
  split
  · simp
  · simp [isSlash]

/-- A root on the stack, and the components on top of it. -/
theorem follow_root (root : List Char) (components : List (List Char)) :
    appendComponents [root] components =
      (if Move.StaysBelow 0 (components.map toMove) then [root] else []) ++ Move.follow [] (components.map toMove) := by
  rw [appendComponents_eq]
  exact Move.follow_cons root [] _

/-- The stack holds the root if the way stays below it, and then the names at the end of the way. -/
theorem outComponents_eq (hhomes : PlainHomes dirs) (hbase : base.head? = some '/') (fuel : Nat) (path : List Char) :
    ∃ root moves, IsRoot root ∧ root.head? ≠ some '~' ∧ fullPath dirs (fuel + 2) path base = some (root, moves) ∧
      (∀ c, .down c ∈ moves → IsName c) ∧
      outComponents dirs (fuel + 2) path base =
        some ((if Move.StaysBelow 0 moves then [root] else []) ++ Move.follow [] moves) := by
  obtain ⟨pathComponents, hpath, hsplit⟩ := splitPath_isSplit hhomes fuel path
  unfold fullPath outComponents
  rw [hpath]
  cases pathComponents with
  | nil => exact hsplit.elim
  | cons root components =>
      obtain ⟨hroot, hslash⟩ := hsplit
      rcases hroot with rfl | ⟨hroot, htilde⟩
      · -- a relative path: the root and the first components are those of the base
        have hbase' : (splitPathRootComponent base).1.head? ≠ some '~' :=
          splitPathRootComponent_head (by rw [hbase]; decide)
        obtain ⟨hsplit, hroot, hslash'⟩ := @splitPath_plain dirs (fuel + 1) base true hbase'
        generalize hrest : splitComponents (splitPathRootComponent base).2 = baseComponents at hsplit hslash'
        have hroot := hroot.resolve_left (splitPathRootComponent_ne_nil hbase)
        rw [hsplit]
        refine ⟨_, _, hroot.1, hroot.2, rfl, ?_, ?_⟩
        · intro c hc
          apply isName_of_down _ hc
          intro d hd
          exact (List.mem_append.mp hd).elim (hslash' d) (hslash d)
        · have hhead : ([] :: components).head? = some [] := rfl
          dsimp only
          rw [if_pos hhead, ← follow_root, appendComponents_eq, appendComponents_eq, appendComponents_eq, List.map_append,
            Move.follow_append]
          rfl
      · obtain ⟨r, rs, rfl⟩ := List.exists_cons_of_ne_nil hroot.ne_nil
        refine ⟨_, _, hroot, htilde, rfl, fun c hc => isName_of_down hslash hc, ?_⟩
        have hhead : ((r :: rs) :: components).head? ≠ some [] := by simp
        dsimp only
        rw [if_neg hhead, ← follow_root, appendComponents_eq, appendComponents_eq, List.map_cons, toMove_root hroot]
        rfl

/-- Without translations a path stays as it was joined. -/
theorem checkTranslationPath_nil (path : List Char) : checkTranslationPath [] path = path := by
  unfold checkTranslationPath
  split
  · rfl
  · exact List.dropLast_concat

/-- A full path that is collapsed again stays as it is. -/
theorem collapseFullPath_fullPath (hroot : IsRoot root) (htilde : root.head? ≠ some '~') {names : List (List Char)}
    (hnames : ∀ c ∈ names, IsName c) (fuel : Nat) (base : List Char) :
    collapseFullPath dirs [] (fuel + 2) (joinPath (root :: names)) base = some (joinPath (root :: names)) := by
  have hfirst : names.head? ≠ some [] := by
    intro heq
    exact (hnames [] (List.mem_of_mem_head? heq)).ne_nil rfl
  have hsplit := @splitPath_joinPath dirs (fuel + 1) root _ true hroot htilde (fun c hc => (hnames c hc).noSlash) hfirst
  have hmoves : names.map toMove = names.map Move.down := by
    apply List.map_congr_left
    intro c hc
    exact (hnames c hc).toMove
  have hhead : (root :: names).head? ≠ some [] := fun heq => hroot.ne_nil (Option.some.inj heq)
  rw [collapseFullPath, outComponents, hsplit]
  dsimp only
  rw [if_neg hhead, appendComponents_eq, List.map_cons, toMove_root hroot, hmoves, Move.follow, Move.follow_down,
    Option.map_some, checkTranslationPath_nil]
  rfl

/-- **`CollapseFullPath`.** Every path stands for a root and a way from there. What is returned is the full path of the end
of the way if and only if the way never goes up from the root; else it is the names at the end of the way, joined without
the root. A full path that is collapsed again stays as it is, and the translations are made afterwards. -/
theorem collapseFullPath_spec (hhomes : PlainHomes dirs) (hbase : base.head? = some '/') (fuel : Nat) (path : List Char) :
    ∃ root moves, IsRoot root ∧ fullPath dirs (fuel + 2) path base = some (root, moves) ∧
      (collapseFullPath dirs [] (fuel + 2) path base = some (fullPathText root moves) ↔ Move.StaysBelow 0 moves) ∧
      (¬ Move.StaysBelow 0 moves →
        collapseFullPath dirs [] (fuel + 2) path base = some (joinPath (Move.follow [] moves))) ∧
      (∀ base', collapseFullPath dirs [] (fuel + 2) (fullPathText root moves) base' = some (fullPathText root moves)) ∧
      ∀ translationMap, collapseFullPath dirs translationMap (fuel + 2) path base =
        (collapseFullPath dirs [] (fuel + 2) path base).map (checkTranslationPath translationMap) := by
  obtain ⟨root, moves, hroot, htilde, hfull, hnames, hout⟩ := outComponents_eq hhomes hbase fuel path
  have hcollapse : collapseFullPath dirs [] (fuel + 2) path base =
      some (joinPath ((if Move.StaysBelow 0 moves then [root] else []) ++ Move.follow [] moves)) := by
    rw [collapseFullPath, hout, Option.map_some, checkTranslationPath_nil]
  refine ⟨root, moves, hroot, hfull, ?_, ?_, ?_, ?_⟩
  · rw [hcollapse, fullPathText]
    by_cases hstays : Move.StaysBelow 0 moves
    · rw [if_pos hstays]
      exact iff_of_true rfl hstays
    · rw [if_neg hstays]
      refine iff_of_false (fun heq => ?_) hstays
      have hlength := length_joinPath_cons hroot.ne_nil (Move.follow [] moves)
      rw [← Option.some.inj heq] at hlength
      exact Nat.lt_irrefl _ hlength
  · intro hstays
    rw [hcollapse, if_neg hstays]
    rfl
  · intro base'
    apply collapseFullPath_fullPath hroot htilde
    intro c hc
    exact hnames c ((Move.mem_follow hc).resolve_left List.not_mem_nil)
  · intro translationMap
    rw [hcollapse, collapseFullPath, hout]
    rfl

/-! ## A path and its components -/

/-- What becomes of the slashes when a path is split and joined. -/
def unixSlash (c : Char) : Char := if c = '\\' then '/' else c

theorem unixSlash_of_isSlash {c : Char} (h : isSlash c = true) : unixSlash c = '/' := by
  simp only [isSlash, Bool.or_eq_true, decide_eq_true_iff] at h
  rcases h with rfl | rfl <;> rfl

theorem unixSlash_of_not {c : Char} (h : isSlash c = false) : unixSlash c = c := if_neg (head_ne_slash h).2

theorem join_splitComponents (root cs : List Char) :
    joinPath (root :: splitComponents cs) = root ++ cs.map unixSlash := by
  have hjoin : ∀ cs : List Char, ∃ c components, cs.splitOnP isSlash = c :: components ∧
      c ++ components.flatMap ('/' :: ·) = cs.map unixSlash := by
    intro cs
    induction cs with
    | nil => exact ⟨[], [], List.splitOnP_nil, rfl⟩
    | cons x cs ih =>
        obtain ⟨c, components, hsplit, hjoined⟩ := ih
        rw [List.splitOnP_cons_eq_if_modifyHead, hsplit, List.map_cons, ← hjoined]
        split
        · next hx => exact ⟨[], _, rfl, by rw [unixSlash_of_isSlash hx]; rfl⟩
        · next hx => exact ⟨_, _, rfl, by rw [unixSlash_of_not (Bool.eq_false_iff.mpr hx)]; rfl⟩
  unfold splitComponents
  split
  · next hnil => rw [hnil, joinPath, List.map_nil, List.append_nil]
  · obtain ⟨c, components, hsplit, hjoined⟩ := hjoin cs
    rw [hsplit, joinPath, hjoined]

theorem root_append_rest (h : path.head? ≠ some '~') :
    (splitPathRootComponent path).1 ++ (splitPathRootComponent path).2.map unixSlash = path.map unixSlash := by
  unfold splitPathRootComponent
  split
  · next hnetwork =>
      match path with
      | [] => simp at hnetwork
      | [_] => simp at hnetwork
      | c :: d :: cs =>
          have hslash : unixSlash c = '/' ∧ unixSlash d = '/' := by
            simp only [List.getElem?_cons_zero, List.getElem?_cons_succ, Option.some.injEq] at hnetwork
            rcases hnetwork with ⟨rfl, rfl⟩ | ⟨rfl, rfl⟩ <;> exact ⟨rfl, rfl⟩
          rw [List.map_cons, List.map_cons, hslash.1, hslash.2]
          rfl
  · split
    · rfl
    · next c cs _ =>
        have hc : c ≠ '~' := by simpa using h
        by_cases hslash : isSlash c = true
        · rw [if_pos hslash, List.map_cons, unixSlash_of_isSlash hslash]
          rfl
        · rw [if_neg hslash, List.map_cons, unixSlash_of_not (Bool.eq_false_iff.mpr hslash)]
          split
          · next hdrive =>
              match cs with
              | [] => simp at hdrive
              | [_] => simp at hdrive
              | d :: e :: cs =>
                  have hpart : d = ':' ∧ unixSlash e = '/' := by
                    simp only [List.getElem?_cons_zero, List.getElem?_cons_succ, Option.some.injEq] at hdrive
                    obtain ⟨rfl, rfl | rfl⟩ := hdrive <;> exact ⟨rfl, rfl⟩
                  rw [hpart.1, List.map_cons, List.map_cons, hpart.2]
                  rfl
          · split
            · next hdrive =>
                match cs with
                | [] => simp at hdrive
                | d :: cs =>
                    obtain rfl : d = ':' := by simpa using hdrive
                    rfl
            · rw [List.map_cons, unixSlash_of_not (Bool.eq_false_iff.mpr hslash)]
              rfl

/-- **Splitting and joining.** A path that names no home directory is joined again from its components, with slashes of one
kind; and a root and components without slashes, of which the first is not empty, are split again from their path. -/
theorem split_join_round_trip (dirs : HomeDirectories) (expandHomeDir : Bool) (fuel : Nat) :
    (∀ path : List Char, path.head? ≠ some '~' →
      ∃ components, splitPath dirs expandHomeDir (fuel + 1) path = some components ∧
        joinPath components = path.map unixSlash) ∧
    ∀ root components, IsRoot root → root.head? ≠ some '~' → (∀ c ∈ components, ∀ x ∈ c, isSlash x = false) →
      components.head? ≠ some [] →
        splitPath dirs expandHomeDir (fuel + 1) (joinPath (root :: components)) = some (root :: components) := by
  constructor
  · intro path htilde
    refine ⟨_, (splitPath_plain expandHomeDir (splitPathRootComponent_head htilde)).1, ?_⟩
    rw [join_splitComponents, root_append_rest htilde]
  · intro root components hroot htilde hslash hfirst
    exact splitPath_joinPath expandHomeDir hroot htilde hslash hfirst

/-- A user with a home directory. -/
def userHome : HomeDirectories where
  home := some ⟨"/home/u".toList, by decide⟩
  getpwnam _ := none

/-- A path with a drive, and the root `c:/` with three components, of which one is empty. -/
theorem split_join_round_trip_drive :
    (∃ components, splitPath userHome true 1 "c:\\a//b".toList = some components ∧
      joinPath components = "c:/a//b".toList) ∧
    splitPath userHome true 1 (joinPath [['c', ':', '/'], ['a'], [], ['b']]) =
      some [['c', ':', '/'], ['a'], [], ['b']] := by
  obtain ⟨hjoin, hsplit⟩ := split_join_round_trip userHome true 0
  exact ⟨hjoin "c:\\a//b".toList (by decide),
    hsplit ['c', ':', '/'] [['a'], [], ['b']] (.drive 'c' rfl) (by decide) (by simp [isSlash]) (by decide)⟩

theorem collapseFullPath_spec_home :
    ∃ root moves, IsRoot root ∧ fullPath userHome 2 "~/a/../b".toList "/w".toList = some (root, moves) ∧
      (collapseFullPath userHome [] 2 "~/a/../b".toList "/w".toList = some (fullPathText root moves) ↔
        Move.StaysBelow 0 moves) ∧
      (¬ Move.StaysBelow 0 moves →
        collapseFullPath userHome [] 2 "~/a/../b".toList "/w".toList = some (joinPath (Move.follow [] moves))) ∧
      (∀ base', collapseFullPath userHome [] 2 (fullPathText root moves) base' = some (fullPathText root moves)) ∧
      ∀ translationMap, collapseFullPath userHome translationMap 2 "~/a/../b".toList "/w".toList =
        (collapseFullPath userHome [] 2 "~/a/../b".toList "/w".toList).map (checkTranslationPath translationMap) := by
  have hhomes : PlainHomes userHome := by
    refine ⟨?_, ?_⟩
    · rintro dir ⟨⟩
      decide
    · rintro user dir ⟨⟩
  exact @collapseFullPath_spec userHome "/w".toList hhomes (by decide) 0 "~/a/../b".toList

/-- A path that goes up from the root loses it, and the slash that came after it as well. -/
example : collapseFullPath userHome [] 2 "/../a/b".toList "/w".toList = some "ab".toList := by decide

end GccXml

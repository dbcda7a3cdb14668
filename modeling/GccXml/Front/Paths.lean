import GccXml.Lib.Moves
import GccXml.Front.FindFlags

namespace GccXml

/-! # `Front.Paths` — full paths

`gxSystemTools::CollapseDirectory` is `SystemTools::CollapseFullPath`: it splits a path into its root and its
components, puts the components of the working directory before those of a relative path, removes what `.` and `..`
make superfluous, and joins the rest. The root lies on the same stack as the components.

The functions come first, as they are in `SystemTools.cxx`. Appending components is then seen as following moves on a
stack (`Lib.Moves`): a name pushes, `..` pops and the others stay. What splitting does to names joined with slashes is
the library's lemma about splitting, put into the words of this code. The theorems about full paths are in
`Front.FullPaths`. -/

/-! ## Splitting and joining -/

def isSlash (c : Char) : Bool := c = '/' || c = '\\'

/-- `SplitPathRootComponent`: the root, and what is left of the path. -/
def splitPathRootComponent (p : List Char) : List Char × List Char :=
  if (p[0]? = some '/' ∧ p[1]? = some '/') ∨ (p[0]? = some '\\' ∧ p[1]? = some '\\') then (['/', '/'], p.drop 2)
  else
    match p with
    | [] => ([], [])
    | c :: cs =>
        if isSlash c then (['/'], cs)
        else if cs[0]? = some ':' ∧ (cs[1]? = some '/' ∨ cs[1]? = some '\\') then ([c, ':', '/'], cs.drop 2)
        else if cs[0]? = some ':' then ([c, ':'], cs.drop 1)
        else if c = '~' then
          ('~' :: (cs.takeWhile (· ≠ '/') ++ ['/']), (cs.dropWhile (· ≠ '/')).drop 1)
        else ([], c :: cs)

/-- The loop of `SplitPath`. No component is stored when nothing is left behind the root. -/
def splitComponents (c : List Char) : List (List Char) := if c = [] then [] else c.splitOnP isSlash

/-- The directory that a root `~/` or `~user/` stands for, without the slash at its end. -/
def homeDirectory (dirs : HomeDirectories) (root : List Char) : List Char :=
  let root := root.dropLast
  let homedir := ((if root.length = 1 then dirs.home else dirs.getpwnam (root.drop 1)).map CString.chars).getD []
  if homedir.getLast? = some '/' ∨ homedir.getLast? = some '\\' then homedir.dropLast else homedir

/-- `SplitPath`. The path of a home directory is split in the same way, so that the recursion needs fuel. -/
def splitPath (dirs : HomeDirectories) (expandHomeDir : Bool) : Nat → List Char → Option (List (List Char))
  | 0, _ => none
  | fuel + 1, p =>
      let (root, c) := splitPathRootComponent p
      if expandHomeDir ∧ root.head? = some '~' then
        (splitPath dirs true fuel (homeDirectory dirs root)).map (· ++ splitComponents c)
      else some (root :: splitComponents c)

/-- `JoinPath`: there is no slash before the second component. -/
def joinPath : List (List Char) → List Char
  | [] => []
  | [root] => root
  | root :: c :: components => root ++ (c ++ components.flatMap ('/' :: ·))

/-! ## Collapsing -/

/-- `SystemToolsAppendComponents`. -/
def appendComponents (outComponents components : List (List Char)) : List (List Char) :=
  components.foldl (fun out c =>
    if c = ['.', '.'] then (if out ≠ [] then out.dropLast else out)
    else if ¬ c = ['.'] ∧ ¬ c = [] then out ++ [c]
    else out) outComponents

/-- `CheckTranslationPath`, with the entries of the table in their order. -/
def checkTranslationPath (translationMap : List (List Char × List Char)) (path : List Char) : List Char :=
  if path.length < 2 then path
  else
    (translationMap.foldl (fun path it => if it.1.isPrefixOf path then it.2 ++ path.drop it.1.length else path)
      (path ++ ['/'])).dropLast

/-- The components that `CollapseFullPath` appends to each other. A relative path has no root; the one of the base is put
on the stack as it is. -/
def outComponents (dirs : HomeDirectories) (fuel : Nat) (path base : List Char) : Option (List (List Char)) :=
  match splitPath dirs true fuel path with
  | none => none
  | some pathComponents =>
      if pathComponents.head? = some [] then
        match splitPath dirs true fuel base with
        | some (root :: baseComponents) => some (appendComponents (appendComponents [root] baseComponents) pathComponents)
        | _ => none
      else some (appendComponents [] pathComponents)

/-- `CollapseFullPath`, with the given base path or the current working directory. -/
def collapseFullPath (dirs : HomeDirectories) (translationMap : List (List Char × List Char)) (fuel : Nat)
    (path base : List Char) : Option (List Char) :=
  (outComponents dirs fuel path base).map fun out => checkTranslationPath translationMap (joinPath out)

/-! ## Components -/

/-- The move that a component of a path stands for. -/
def toMove (c : List Char) : Move (List Char) :=
  if c = ['.', '.'] then .up else if c = ['.'] ∨ c = [] then .stay else .down c

/-- The stack of components follows the moves. -/
theorem appendComponents_eq (out components : List (List Char)) :
    appendComponents out components = Move.follow out (components.map toMove) := by
  induction components generalizing out with
  | nil => rfl
  | cons c components ih =>
      have hstep : appendComponents out (c :: components) = appendComponents
          (if c = ['.', '.'] then (if out ≠ [] then out.dropLast else out)
            else if ¬ c = ['.'] ∧ ¬ c = [] then out ++ [c] else out) components := rfl
      rw [hstep, ih, List.map_cons, toMove]
      by_cases hup : c = ['.', '.']
      · rw [if_pos hup, if_pos hup]
        cases out <;> rfl
      · rw [if_neg hup, if_neg hup]
        by_cases hstay : c = ['.'] ∨ c = []
        · rw [if_pos hstay, if_neg (by tauto)]
          rfl
        · rw [if_neg hstay, if_pos (by tauto)]
          rfl

/-- A component that is a name. -/
structure IsName (c : List Char) : Prop where
  ne_nil : c ≠ []
  ne_dot : c ≠ ['.']
  ne_dots : c ≠ ['.', '.']
  noSlash : ∀ x ∈ c, isSlash x = false

theorem IsName.toMove {c : List Char} (h : IsName c) : GccXml.toMove c = .down c := by
  rw [GccXml.toMove, if_neg h.ne_dots, if_neg (not_or.mpr ⟨h.ne_dot, h.ne_nil⟩)]

theorem splitOnP_noSlash (cs : List Char) : ∀ c ∈ cs.splitOnP isSlash, ∀ x ∈ c, isSlash x = false := by
  induction cs with
  | nil => simp [List.splitOnP_nil]
  | cons x cs ih =>
      rw [List.splitOnP_cons_eq_if_modifyHead]
      split
      · intro c hc
        rcases List.mem_cons.mp hc with rfl | hmem
        · exact fun _ hx => absurd hx List.not_mem_nil
        · exact ih c hmem
      · next hx =>
          obtain ⟨first, more, hsplit⟩ := List.exists_cons_of_ne_nil (List.splitOnP_ne_nil isSlash cs)
          rw [hsplit] at ih ⊢
          intro c hc
          rcases List.mem_cons.mp hc with rfl | hmem
          · intro y hy
            rcases List.mem_cons.mp hy with rfl | hy
            · exact Bool.eq_false_iff.mpr hx
            · exact ih first List.mem_cons_self y hy
          · exact ih c (List.mem_cons_of_mem _ hmem)

theorem splitComponents_noSlash (cs : List Char) : ∀ c ∈ splitComponents cs, ∀ x ∈ c, isSlash x = false := by
  unfold splitComponents
  split
  · exact fun _ hc => absurd hc List.not_mem_nil
  · exact splitOnP_noSlash cs

/-- A component that leads down is a name. -/
theorem isName_of_down {components : List (List Char)} (hslash : ∀ c ∈ components, ∀ x ∈ c, isSlash x = false)
    {c : List Char} (h : .down c ∈ components.map toMove) : IsName c := by
  obtain ⟨d, hd, hmove⟩ := List.mem_map.mp h
  unfold toMove at hmove
  split at hmove
  · cases hmove
  · next hdots =>
      split at hmove
      · cases hmove
      · next hother =>
          cases hmove
          exact ⟨fun hnil => hother (.inr hnil), fun hdot => hother (.inl hdot), hdots, hslash c hd⟩

/-- Names joined with slashes are split into these names. -/
theorem splitOnP_join {c : List Char} (hc : ∀ x ∈ c, isSlash x = false) {components : List (List Char)}
    (hslash : ∀ d ∈ components, ∀ x ∈ d, isSlash x = false) :
    (c ++ components.flatMap ('/' :: ·)).splitOnP isSlash = c :: components := by
  induction components generalizing c with
  | nil => rw [List.flatMap_nil, List.append_nil, List.splitOnP_eq_singleton hc]
  | cons d components ih =>
      obtain ⟨hd, hslash⟩ := List.forall_mem_cons.mp hslash
      have happend : ∀ c : List Char, (∀ x ∈ c, isSlash x = false) → ∀ cs,
          (c ++ '/' :: cs).splitOnP isSlash = c :: cs.splitOnP isSlash := by
        intro c hc cs
        induction c with
        | nil => rw [List.nil_append, List.splitOnP_cons_eq_if_modifyHead, if_pos (by decide)]
        | cons x c ihc =>
            obtain ⟨hx, hc⟩ := List.forall_mem_cons.mp hc
            rw [List.cons_append, List.splitOnP_cons_eq_if_modifyHead, if_neg (Bool.eq_false_iff.mp hx), ihc hc]
            rfl
      rw [List.flatMap_cons, List.cons_append, happend c hc, ih hd hslash]

/-! ## Lengths -/

/-- With a root in front, the joined path is longer. -/
theorem length_joinPath_cons {root : List Char} (hroot : root ≠ []) (components : List (List Char)) :
    (joinPath components).length < (joinPath (root :: components)).length := by
  have hpos := List.length_pos_iff.mpr hroot
  match components with
  | [] => exact hpos
  | [c] =>
      rw [joinPath, joinPath, List.length_append, List.length_append]
      omega
  | c :: d :: components =>
      rw [joinPath, joinPath, List.flatMap_cons]
      simp only [List.length_append, List.length_cons]
      omega

end GccXml

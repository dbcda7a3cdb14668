import GccXml.Cpp.Include
import GccXml.Lib.Chain

namespace GccXml

/-! # `Cpp.Lookup` — what a search for a file finds

The loop of `_cpp_find_file` over a chain of directories, without the cache: the file it makes is that of the first
directory of the chain in which the name is present.

A directory is tried in `find_file_in_dir`, and there is one lemma for each way in which that comes out: a name that
the directory cannot make a path of, a precompiled header, a file that is missing, one that is there and cannot be
opened, and one that is opened. All but the first and the third end the search. `firstDir` is the same decision for a
chain, stated of the outside world and not of the file object.

The loop is an induction along the chain. `LoopEnds` says what it comes to, also when the cache is compiled in, because
only the heads of the two chains are looked up in it; `findLoop_spec` proves it for every chain that is no longer than
the fuel, which a chain of directories of the heap never is. -/

namespace Cpp

open Chain

/-! ## One directory -/

/-- The file name is there in the directory: a precompiled header that can be used, or a path that is not missing. -/
def isPresent (out : Outside) (validPch : ValidPch) (fname : Path) (dir : CppDir) : Bool :=
  match candidatePath fname dir with
  | none => false
  | some path => (pchOpenFile validPch fname path).isSome || ! (out.entry path).isMissing

/-- The file is what the name stands for in the directory: its path is the one tried there, and it is a precompiled
header, or open, or refused. -/
def Opened (out : Outside) (validPch : ValidPch) (fname : Path) (dir : CppDir) (file : CppFile) : Prop :=
  ∃ path, candidatePath fname dir = some path ∧ file.path = some path ∧ file.pch = pchOpenFile validPch fname path ∧
    (file.pch = none →
      match out.entry path with
      | .missing => False
      | .refused => file.errNo = .other
      | .file mtime contents _ => file.errNo = .ok ∧ file.st = ⟨mtime, contents.length⟩)

/-- What a file looks like before it is found: it has its name, its place in the search and no contents. -/
structure Unread (fname : Path) (file : CppFile) : Prop where
  name : file.name = fname
  pch : file.pch = none
  buffer : file.buffer = none
  bufferValid : file.bufferValid = false
  cmacroName : file.cmacroName = none
  stackCount : file.stackCount = 0
  onceOnly : file.onceOnly = false
  dontRead : file.dontRead = false

theorem unread_makeCppFile (dir : DirRef) (fname : Path) : Unread fname (makeCppFile dir fname) :=
  ⟨rfl, rfl, rfl, rfl, rfl, rfl, rfl, rfl⟩

section

variable {out : Outside} {validPch : ValidPch} {fname : Path} {file : CppFile} {dir : CppDir}

theorem findFileInDir_unnamed (hp : candidatePath file.name dir = none) :
    findFileInDir out validPch file dir = ({ file with errNo := .enoent, path := none }, false) := by
  simp only [findFileInDir, hp]

theorem findFileInDir_pch {path : Path} {entries : List PchEntry} (hp : candidatePath file.name dir = some path)
    (hpch : pchOpenFile validPch file.name path = some entries) :
    findFileInDir out validPch file dir = ({ file with path := some path, pch := some entries }, true) := by
  simp only [findFileInDir, hp, hpch]

theorem findFileInDir_missing {path : Path} (hp : candidatePath file.name dir = some path)
    (hpch : pchOpenFile validPch file.name path = none) (he : out.entry path = .missing) :
    findFileInDir out validPch file dir = ({ file with path := some file.name, errNo := .enoent }, false) := by
  simp only [findFileInDir, hp, hpch, openFile, Option.getD_some, he]
  rfl

theorem findFileInDir_refused {path : Path} (hp : candidatePath file.name dir = some path)
    (hpch : pchOpenFile validPch file.name path = none) (he : out.entry path = .refused) :
    findFileInDir out validPch file dir = ({ file with path := some path, errNo := .other }, true) := by
  simp only [findFileInDir, hp, hpch, openFile, Option.getD_some, he]
  rfl

theorem findFileInDir_file {path : Path} {mtime : Int} {contents : Contents} {readable : Bool}
    (hp : candidatePath file.name dir = some path) (hpch : pchOpenFile validPch file.name path = none)
    (he : out.entry path = .file mtime contents readable) :
    findFileInDir out validPch file dir =
      ({ file with path := some path, errNo := .ok, st := ⟨mtime, contents.length⟩ }, true) := by
  simp only [findFileInDir, hp, hpch, openFile, Option.getD_some, he]
  rfl

/-- A file that is not in the directory is left as it was, but for the error. -/
theorem findFileInDir_absent (hfile : Unread fname file) (h : isPresent out validPch fname dir = false) :
    ∃ file', findFileInDir out validPch file dir = (file', false) ∧ Unread fname file' ∧ file'.errNo = .enoent ∧
      file'.dir = file.dir := by
  have hname := hfile.name
  subst hname
  unfold isPresent at h
  cases hp : candidatePath file.name dir with
  | none => exact ⟨_, findFileInDir_unnamed hp, { hfile with }, rfl, rfl⟩
  | some path =>
      simp only [hp, Bool.or_eq_false_iff, Option.isSome_eq_false_iff, Option.isNone_iff_eq_none] at h
      obtain ⟨hpch, hentry⟩ := h
      cases he : out.entry path with
      | missing => exact ⟨_, findFileInDir_missing hp hpch he, { hfile with }, rfl, rfl⟩
      | refused => simp [he, Entry.isMissing] at hentry
      | file => simp [he, Entry.isMissing] at hentry

/-- A file that is in the directory is found there. -/
theorem findFileInDir_present (hfile : Unread fname file) (h : isPresent out validPch fname dir = true) :
    ∃ file', findFileInDir out validPch file dir = (file', true) ∧ Opened out validPch fname dir file' ∧
      file'.dir = file.dir ∧ Unread fname { file' with pch := none } := by
  have hname := hfile.name
  subst hname
  unfold isPresent at h
  cases hp : candidatePath file.name dir with
  | none => simp [hp] at h
  | some path =>
      simp only [hp] at h
      cases hpch : pchOpenFile validPch file.name path with
      | some entries =>
          exact ⟨_, findFileInDir_pch hp hpch, ⟨path, hp, rfl, hpch.symm, nofun⟩, rfl, { hfile with pch := rfl }⟩
      | none =>
          cases he : out.entry path with
          | missing => simp [hpch, he, Entry.isMissing] at h
          | refused =>
              refine ⟨_, findFileInDir_refused hp hpch he, ⟨path, hp, rfl, hfile.pch.trans hpch.symm, ?_⟩, rfl,
                { hfile with pch := rfl }⟩
              intro _
              rw [he]
          | file mtime contents readable =>
              refine ⟨_, findFileInDir_file hp hpch he, ⟨path, hp, rfl, hfile.pch.trans hpch.symm, ?_⟩, rfl,
                { hfile with pch := rfl }⟩
              intro _
              rw [he]
              exact ⟨rfl, rfl⟩

end

/-! ## A chain of directories -/

/-- The first directory of a chain in which the file name is present. -/
def firstDir (out : Outside) (validPch : ValidPch) (r : Reader) (fname : Path) (l : List DirRef) : Option DirRef :=
  l.find? fun d => isPresent out validPch fname (r.dir d)

/-- The file is what a search through `l` ends with: that of the first directory that has the name, or none. -/
structure FoundIn (out : Outside) (validPch : ValidPch) (r : Reader) (fname : Path) (l : List DirRef)
    (file : CppFile) : Prop where
  unread : Unread fname { file with pch := none }
  dir : file.dir = firstDir out validPch r fname l
  opened : ∀ d, file.dir = some d → Opened out validPch fname (r.dir d) file
  failed : file.dir = none → file.errNo = .enoent ∧ file.pch = none

/-- **What the loop ends with** on the chain `l`: the file of the first directory that has the name, or what the cache
knows of a later part of the chain. It makes a file only if the cache knows none for the heads of the two chains that it
comes to. -/
def LoopEnds (cache : Bool) (out : Outside) (validPch : ValidPch) (r : Reader) (fname : Path) (l : List DirRef)
    (result : Option FoundFile) : Prop :=
  (∃ file, result = some (.new file) ∧ FoundIn out validPch r fname l file ∧
    ∀ l₁ d l₂, l = l₁ ++ d :: l₂ → l₁ ≠ [] → firstDir out validPch r fname l₁ = none →
      cache = true ∧ (some d = r.bracketInclude ∨ some d = r.quoteInclude) → searchCache r fname d = none) ∨
  ∃ f l₁ d l₂, result = some (.cached f) ∧
    (cache = true ∧ (some d = r.bracketInclude ∨ some d = r.quoteInclude)) ∧ l = l₁ ++ d :: l₂ ∧
    firstDir out validPch r fname l₁ = none ∧ searchCache r fname d = some f

section

variable {cache : Bool} {out : Outside} {validPch : ValidPch} {r : Reader} {fname : Path} {file : CppFile}

theorem firstDir_cons_present {d : DirRef} {l : List DirRef} (h : isPresent out validPch fname (r.dir d) = true) :
    firstDir out validPch r fname (d :: l) = some d :=
  List.find?_cons_of_pos h

theorem firstDir_cons_absent {d : DirRef} {l : List DirRef} (h : isPresent out validPch fname (r.dir d) = false) :
    firstDir out validPch r fname (d :: l) = firstDir out validPch r fname l :=
  List.find?_cons_of_neg (by rw [h]; exact Bool.false_ne_true)

variable (cache) in
/-- A pass in a directory that has the name ends the loop. -/
theorem findPass_present {d : DirRef} (hfile : Unread fname file) (hdir : file.dir = some d)
    (h : isPresent out validPch fname (r.dir d) = true) :
    ∃ file', findPass cache out validPch r file = .leave (.new file') ∧ file'.dir = some d ∧
      Opened out validPch fname (r.dir d) file' ∧ Unread fname { file' with pch := none } := by
  obtain ⟨file', hfind, hopened, hdir', hunread⟩ := findFileInDir_present hfile h
  refine ⟨file', ?_, hdir'.trans hdir, hopened, hunread⟩
  simp only [findPass, hdir, hfind, if_true]

variable (cache) in
/-- A pass in a directory without the name goes on to the next one, unless there is none or the cache knows it. -/
theorem findPass_absent {d : DirRef} (hfile : Unread fname file) (hdir : file.dir = some d)
    (h : isPresent out validPch fname (r.dir d) = false) :
    ∃ file', Unread fname file' ∧ file'.errNo = .enoent ∧ file'.dir = r.next d ∧
      ((r.next d = none ∧ findPass cache out validPch r file = .leave (.new file')) ∨
        ∃ d', r.next d = some d' ∧
          (findPass cache out validPch r file = .again file' ∧
              (cache = true ∧ (some d' = r.bracketInclude ∨ some d' = r.quoteInclude) → searchCache r fname d' = none) ∨
            ∃ f, (cache = true ∧ (some d' = r.bracketInclude ∨ some d' = r.quoteInclude)) ∧
              searchCache r fname d' = some f ∧ findPass cache out validPch r file = .leave (.cached f))) := by
  obtain ⟨file', hfind, hunread, herr, -⟩ := findFileInDir_absent hfile h
  have hname : file'.name = fname := hunread.name
  refine ⟨{ file' with dir := r.next d }, { hunread with }, herr, rfl, ?_⟩
  cases hnext : r.next d with
  | none =>
      refine .inl ⟨rfl, ?_⟩
      simp only [findPass, hdir, hfind, hnext, Bool.false_eq_true, if_false]
  | some d' =>
      refine .inr ⟨d', rfl, ?_⟩
      simp only [findPass, hdir, hfind, hnext, Bool.false_eq_true, if_false, hname]
      -- the cache is asked again only at the heads of the two chains
      split
      · rename_i hcache
        cases hsearch : searchCache r fname d' with
        | none => exact .inl ⟨rfl, fun _ => rfl⟩
        | some f => exact .inr ⟨f, hcache, rfl, rfl⟩
      · rename_i hno
        exact .inl ⟨rfl, fun hcache => absurd hcache hno⟩

/-- A part of a chain that is not empty has its head. -/
theorem head_of_ne_nil {d e : DirRef} {l l₁ l₂ : List DirRef} (h : d :: l = l₁ ++ e :: l₂) (hne : l₁ ≠ []) :
    ∃ l₁', l₁ = d :: l₁' ∧ l = l₁' ++ e :: l₂ := by
  cases l₁ with
  | nil => exact absurd rfl hne
  | cons d' l₁' =>
      obtain ⟨rfl, hl⟩ := List.cons.inj h
      exact ⟨l₁', rfl, hl⟩

/-- A search ends in a directory that has the name. -/
theorem loopEnds_present {d : DirRef} {l : List DirRef} (hp : isPresent out validPch fname (r.dir d) = true)
    (hdir : file.dir = some d) (hopened : Opened out validPch fname (r.dir d) file)
    (hunread : Unread fname { file with pch := none }) :
    LoopEnds cache out validPch r fname (d :: l) (some (.new file)) := by
  refine .inl ⟨file, rfl, ⟨hunread, ?_, ?_, ?_⟩, ?_⟩
  · rw [hdir, firstDir_cons_present hp]
  · intro d' hd'
    obtain rfl : d = d' := Option.some.inj (hdir.symm.trans hd')
    exact hopened
  · intro hnone
    cases hdir.symm.trans hnone
  · -- nothing behind the directory is reached
    intro l₁ e l₂ hsplit hne habsent
    obtain ⟨l₁, rfl, -⟩ := head_of_ne_nil hsplit hne
    cases (firstDir_cons_present hp).symm.trans habsent

/-- A search ends at the end of the chain. -/
theorem loopEnds_last {d : DirRef} (hp : isPresent out validPch fname (r.dir d) = false) (hdir : file.dir = none)
    (herr : file.errNo = .enoent) (hunread : Unread fname file) :
    LoopEnds cache out validPch r fname [d] (some (.new file)) := by
  refine .inl ⟨file, rfl, ⟨{ hunread with pch := rfl }, ?_, ?_, fun _ => ⟨herr, hunread.pch⟩⟩, ?_⟩
  · rw [hdir, firstDir_cons_absent hp]
    rfl
  · intro d' hd'
    cases hd'.symm.trans hdir
  · intro l₁ e l₂ hsplit hne
    obtain ⟨l₁, -, htail⟩ := head_of_ne_nil hsplit hne
    cases l₁ <;> cases htail

/-- A search goes on behind a directory without the name. -/
theorem LoopEnds.cons_absent {d d' : DirRef} {l : List DirRef} {result : Option FoundFile}
    (h : LoopEnds cache out validPch r fname (d' :: l) result) (hp : isPresent out validPch fname (r.dir d) = false)
    (hunknown : cache = true ∧ (some d' = r.bracketInclude ∨ some d' = r.quoteInclude) →
      searchCache r fname d' = none) : LoopEnds cache out validPch r fname (d :: d' :: l) result := by
  obtain ⟨file, hresult, hfound, hknown⟩ | ⟨f, l₁, e, l₂, hresult, hcache, hsplit, habsent, hsearch⟩ := h
  · have hdir := hfound.dir.trans (firstDir_cons_absent hp).symm
    refine .inl ⟨file, hresult, ⟨hfound.unread, hdir, hfound.opened, hfound.failed⟩, ?_⟩
    intro l₁ e l₂ hsplit hne habsent
    obtain ⟨l₁, rfl, htail⟩ := head_of_ne_nil hsplit hne
    rw [firstDir_cons_absent hp] at habsent
    cases l₁ with
    | nil =>
        obtain ⟨rfl, -⟩ := List.cons.inj htail
        exact hunknown
    | cons e' l₁ => exact hknown _ e l₂ htail (List.cons_ne_nil e' l₁) habsent
  · rw [hsplit]
    exact .inr ⟨f, d :: l₁, e, l₂, hresult, hcache, rfl, (firstDir_cons_absent hp).trans habsent, hsearch⟩

variable (cache out validPch) in
/-- **The loop of `_cpp_find_file`.** On a chain that is no longer than the fuel it ends. -/
theorem findLoop_spec {l : List DirRef} {fuel : Nat} (hwalk : Walks r.next file.dir l) (hne : l ≠ [])
    (hfuel : l.length ≤ fuel) (hfile : Unread fname file) :
    LoopEnds cache out validPch r fname l (loopRun (findPass cache out validPch r) fuel file) := by
  induction l generalizing fuel file with
  | nil => exact absurd rfl hne
  | cons d l ih =>
      obtain ⟨hdir, hrest⟩ := hwalk
      obtain ⟨fuel, rfl⟩ : ∃ n, fuel = n + 1 := ⟨fuel - 1, by simp only [List.length_cons] at hfuel; omega⟩
      have hfuel' : l.length ≤ fuel := by simpa using hfuel
      cases hp : isPresent out validPch fname (r.dir d) with
      | true =>
          obtain ⟨file', hpass, hdir', hopened, hunread⟩ := findPass_present cache hfile hdir hp
          rw [Loop.loopRun_leave hpass fuel]
          exact loopEnds_present hp hdir' hopened hunread
      | false =>
          obtain ⟨file', hunread, herr, hdir', hcases⟩ := findPass_absent cache hfile hdir hp
          rcases hcases with ⟨hnext, hpass⟩ | ⟨d', hnext, hcases⟩
          · -- the chain is at its end
            obtain rfl : l = [] := hrest.unique hnext
            rw [Loop.loopRun_leave hpass fuel]
            exact loopEnds_last hp (hdir'.trans hnext) herr hunread
          · -- the next directory is the head of what is left of the chain
            obtain ⟨l, rfl⟩ : ∃ l', l = d' :: l' := by
              cases l with
              | nil => cases hnext.symm.trans hrest
              | cons e l =>
                  obtain rfl : d' = e := Option.some.inj (hnext.symm.trans hrest.1)
                  exact ⟨l, rfl⟩
            obtain ⟨hagain, hunknown⟩ | ⟨f, hcache, hsearch, hleave⟩ := hcases
            · rw [Loop.loopRun_again hagain]
              have hends := ih (hdir' ▸ hrest) (List.cons_ne_nil d' l) hfuel' hunread
              exact hends.cons_absent hp hunknown
            · rw [Loop.loopRun_leave hleave fuel]
              exact .inr ⟨f, [d], d', l, rfl, hcache, rfl, firstDir_cons_absent hp, hsearch⟩

/-- **`_cpp_find_file` without the cache** makes a new file, that of the first directory that has the name. -/
theorem findFile_spec {startDir : DirRef} {l : List DirRef} (hwalk : Walks r.next (some startDir) l)
    (hlen : l.length ≤ r.dirs.length + 1) :
    ∃ file, findFile false out validPch r fname startDir = some (r.addFile file, r.files.length) ∧
      FoundIn out validPch r fname l file := by
  have hne : l ≠ [] := by
    rintro rfl
    cases hwalk
  rcases findLoop_spec false out validPch hwalk hne hlen (unread_makeCppFile startDir fname) with
    ⟨file, hrun, hfound, -⟩ | ⟨_, _, _, _, _, hcache, _⟩
  · refine ⟨file, ?_, hfound⟩
    simp only [findFile, Bool.false_eq_true, if_false, hrun, addFileHash]
  · cases hcache.1

end

end Cpp

end GccXml

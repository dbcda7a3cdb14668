import GccXml.Cpp.Lookup

namespace GccXml

/-! # `Cpp.SearchState` — what a search depends on, and what changes it

Only making a directory, making a file and linking a chain change what later searches see. Stacking a file, marking it
and leaving it change the file's reading state, which no search looks at.

`Reader.search` cuts the reader down to the part that searches look at, with the place of every file and without its
text, its counts and its marks. A frame lemma for each function of `files.c` that reads a file says that this part
stays as it was: reading a file to compare it, deciding whether it is stacked, stacking it, and leaving it. The
invariants about search paths are stated so that they follow from the cut-down state, and need no case for these. -/

namespace Cpp

/-- The part of a file that searches look at. -/
structure Place where
  name : Path
  path : Option Path
  dir : Option DirRef
  wrapperDir : CppDir

def CppFile.place (file : CppFile) : Place := ⟨file.name, file.path, file.dir, file.wrapperDir⟩

/-- The part of the reader that searches look at, the buffers apart. -/
structure SearchState where
  dirs : List CppDir
  places : List Place
  dirHash : List (Path × DirRef)
  fileHash : List ((Path × DirRef) × Nat)
  quoteInclude : Option DirRef
  bracketInclude : Option DirRef
  wrapperInclude : Option DirRef
  wrapperIncludeLast : Option DirRef
  quoteIgnoresSourceDir : Bool
  mainFile : Nat

namespace Reader

def search (r : Reader) : SearchState where
  dirs := r.dirs
  places := r.files.map CppFile.place
  dirHash := r.dirHash
  fileHash := r.fileHash
  quoteInclude := r.quoteInclude
  bracketInclude := r.bracketInclude
  wrapperInclude := r.wrapperInclude
  wrapperIncludeLast := r.wrapperIncludeLast
  quoteIgnoresSourceDir := r.quoteIgnoresSourceDir
  mainFile := r.mainFile

variable {r r' : Reader} {f g : Nat} {file : CppFile}

theorem file_setFile_self (h : f < r.files.length) : (r.setFile f file).file f = file := by
  simp [Reader.file, setFile, List.getD_eq_getElem?_getD, h]

theorem file_setFile_ne (h : g ≠ f) : (r.setFile f file).file g = r.file g := by
  simp [Reader.file, setFile, List.getD_eq_getElem?_getD, h.symm]

theorem file_addFile_self : (r.addFile file).file r.files.length = file := by
  simp [Reader.file, addFile, List.getD_eq_getElem?_getD]

theorem file_addFile_lt (h : f < r.files.length) : (r.addFile file).file f = r.file f := by
  simp [Reader.file, addFile, List.getD_eq_getElem?_getD, List.getElem?_append_left h]

@[simp] theorem length_setFile : (r.setFile f file).files.length = r.files.length := List.length_set

@[simp] theorem length_addFile : (r.addFile file).files.length = r.files.length + 1 := by simp [addFile]

theorem place_file : (r.file f).place = (r.search.places.getD f (default : CppFile).place) := by
  simp only [Reader.file, search, List.getD_eq_getElem?_getD, List.getElem?_map]
  cases r.files[f]? <;> rfl

/-- Changing the reading state of a file does not change the search state. -/
theorem search_setFile (h : file.place = (r.file f).place) : (r.setFile f file).search = r.search := by
  have hplaces : (r.files.set f file).map CppFile.place = r.files.map CppFile.place := by
    rw [List.map_set, h, place_file, List.getD_eq_getElem?_getD]
    apply List.ext_getElem?
    intro i
    rw [List.getElem?_set]
    split
    · rename_i hi
      subst hi
      split
      · rename_i hlt
        simp only [search, List.getElem?_eq_getElem hlt, Option.getD_some]
      · rename_i hlt
        exact (List.getElem?_eq_none (Nat.le_of_not_lt hlt)).symm
    · rfl
  simp only [search, setFile, hplaces]

/-- Directories look alike when the search states do. -/
theorem dir_congr (h : r'.search = r.search) : r'.dir = r.dir := by
  funext d
  cases d with
  | noSearchPath => rfl
  | node i => exact congrArg (fun s : SearchState => s.dirs.getD i default) h
  | wrapperDir f =>
      have hplace : (r'.file f).place = (r.file f).place := by rw [place_file, place_file, h]
      exact congrArg Place.wrapperDir hplace

end Reader

open Reader

variable {out : Outside} {r r' : Reader} {f : Nat}

theorem length_of_search (h : r'.search = r.search) : r'.files.length = r.files.length := by
  have hlen := congrArg (fun s : SearchState => s.places.length) h
  simpa only [Reader.search, List.length_map] using hlen

/-! ## What leaves the search state alone -/

@[simp] theorem search_markFileOnceOnly : (markFileOnceOnly r f).search = r.search := by
  have hset : (r.setFile f { r.file f with onceOnly := true }).search = r.search := search_setFile rfl
  exact hset

theorem place_openFile (file : CppFile) : (openFile out file).1.place = file.place := by
  unfold openFile
  split <;> rfl

theorem place_readFile (file : CppFile) : (readFile out file).1.place = file.place := by
  unfold readFile
  split
  · rfl
  · split
    · rfl
    · dsimp only
      split
      · exact place_openFile file
      · split <;> exact place_openFile file

theorem search_readRefFile : (readRefFile out r f).1.search = r.search := by
  unfold readRefFile
  dsimp only
  split
  · rfl
  · exact search_setFile (place_readFile _)

theorem search_sameFileSeen (import_ : Bool) (files : List Nat) :
    (sameFileSeen out f import_ files r).1.search = r.search := by
  induction files generalizing r with
  | nil => rfl
  | cons g files ih =>
      unfold sameFileSeen
      split
      · exact ih
      · split
        · dsimp only
          split
          · exact search_readRefFile
          · exact ih.trans search_readRefFile
        · exact ih

theorem search_shouldStackFile (import_ : Bool) : (shouldStackFile out r f import_).1.search = r.search := by
  have hmark : (if import_ then markFileOnceOnly r f else r).search = r.search := by
    split
    · exact search_markFileOnceOnly
    · rfl
  unfold shouldStackFile
  split
  · rfl
  · dsimp only
    -- the branches that follow read and mark files, none touches what the search reads
    generalize (if import_ = true then markFileOnceOnly r f else r) = r₁ at hmark ⊢
    have hread : (r₁.setFile f (readFile out (r₁.file f)).1).search = r.search :=
      (search_setFile (place_readFile _)).trans hmark
    split
    · exact hmark
    · split
      · exact hmark
      · split
        · exact hmark
        · split
          · exact hread
          · split
            · split
              · exact hread
              · exact search_markFileOnceOnly.trans hread
            · split
              · exact hread
              · exact (search_sameFileSeen _ _).trans hread

theorem search_stackFile (import_ : Bool) : (stackFile out r f import_).1.search = r.search := by
  unfold stackFile
  dsimp only
  split
  · exact search_shouldStackFile import_
  · have hshould : (shouldStackFile out r f import_).1.search = r.search := search_shouldStackFile import_
    refine Eq.trans ?_ hshould
    exact search_setFile (r := (shouldStackFile out r f import_).1) rfl

theorem search_popFileBuffer : (popFileBuffer out r).search = r.search := by
  unfold popFileBuffer
  split
  · rfl
  · exact search_setFile (r := r) rfl

end Cpp

end GccXml

import GccXml.Cpp.Files

namespace GccXml

/-! # `Cpp.Include` — finding and stacking files

`_cpp_find_file`, `_cpp_stack_file` and `_cpp_stack_include` of `libcpp/files.c`, and the directives that call them.
The flag `cache` says whether the code under `#ifndef GCCXML_DISABLE_INCLUDE_CACHE` is compiled in; in the code as
built it is not. -/

namespace Cpp

/-- `enum include_type`. -/
inductive IncludeType where
  | include
  | includeNext
  | import_
  | cmdline
  deriving DecidableEq

/-! ## `_cpp_find_file` -/

/-- `search_cache`, in the slot of a file name. -/
def searchCache (r : Reader) (fname : Path) (startDir : DirRef) : Option Nat := r.fileHash.lookup (fname, startDir)

/-- Store the result of a search in the hash table. -/
def addFileHash (cache : Bool) (r : Reader) (fname : Path) (startDir : DirRef) (file : Nat) : Reader :=
  if cache then { r with fileHash := ((fname, startDir), file) :: r.fileHash } else r

/-- What the loop of `_cpp_find_file` ends with: the new file, or one that is in the cache. -/
inductive FoundFile where
  | new (file : CppFile)
  | cached (file : Nat)

/-- One pass through the loop of `_cpp_find_file`: try the directory of the file, and go on to the next one. -/
def findPass (cache : Bool) (out : Outside) (validPch : ValidPch) (r : Reader) (file : CppFile) :
    Pass CppFile FoundFile :=
  match file.dir with
  | none => .leave (.new file)
  | some dir =>
      let (file, found) := findFileInDir out validPch file (r.dir dir)
      if found then .leave (.new file)
      else
        let file := { file with dir := r.next dir }
        match r.next dir with
        | none => .leave (.new file)
        | some dir' =>
            -- only the heads of the two chains can be in the cache
            if cache ∧ (some dir' = r.bracketInclude ∨ some dir' = r.quoteInclude) then
              match searchCache r file.name dir' with
              | some cached => .leave (.cached cached)
              | none => .again file
            else .again file

/-- `_cpp_find_file`, which is never called for a fake file here. A chain is no longer than the heap, so the loop has
as many passes as it can need. -/
def findFile (cache : Bool) (out : Outside) (validPch : ValidPch) (r : Reader) (fname : Path) (startDir : DirRef) :
    Option (Reader × Nat) :=
  match (if cache then searchCache r fname startDir else none) with
  | some cached => some (r, cached)
  | none =>
      match loopRun (findPass cache out validPch r) (r.dirs.length + 1) (makeCppFile startDir fname) with
      | none => none
      | some (.cached file) => some (addFileHash cache r fname startDir file, file)
      | some (.new file) =>
          some (addFileHash cache (r.addFile file) fname startDir r.files.length, r.files.length)

/-! ## `_cpp_stack_file` -/

/-- `_cpp_mark_file_once_only`. -/
def markFileOnceOnly (r : Reader) (f : Nat) : Reader :=
  { r.setFile f { r.file f with onceOnly := true } with seenOnceOnly := true }

/-- `check_file_against_entries`. -/
def checkFileAgainstEntries (out : Outside) (r : Reader) (file : CppFile) (checkIncluded : Bool) : Bool :=
  match r.pchf with
  | none => false
  | some entries =>
      entries.any fun entry =>
        (checkIncluded || entry.onceOnly) && entry.size = file.st.size && entry.sum = out.md5 (file.buffer.getD [])

/-- The file is still stacked: it has a buffer, which is not valid any more. -/
def CppFile.isStacked (file : CppFile) : Bool := file.buffer.isSome && ! file.bufferValid

/-- Read the file `g` to compare it with another: itself, or, while it is still stacked, a new file that is thrown
away afterwards. -/
def readRefFile (out : Outside) (r : Reader) (g : Nat) : Reader × CppFile × Bool :=
  let file := r.file g
  if file.isStacked then
    let (ref, read) := readFile out { name := file.name, dir := file.dir, path := file.path }
    (r, ref, read)
  else
    let (ref, read) := readFile out file
    (r.setFile g ref, ref, read)

/-- Whether a file has to be compared with the one that is to be stacked. -/
def isCandidate (file f : CppFile) (import_ : Bool) : Bool :=
  (import_ || f.onceOnly) && f.errNo = .ok && f.st.mtime = file.st.mtime && f.st.size = file.st.size

/-- The loop of `should_stack_file` over all files: whether one of them has the contents of the file `f`. -/
def sameFileSeen (out : Outside) (f : Nat) (import_ : Bool) : List Nat → Reader → Reader × Bool
  | [], r => (r, false)
  | g :: files, r =>
      if g = f then sameFileSeen out f import_ files r
      else if isCandidate (r.file f) (r.file g) import_ then
        let (r', ref, read) := readRefFile out r g
        -- the size might have changed in reading
        if read ∧ ref.st.size = (r.file f).st.size ∧ ref.buffer = (r.file f).buffer then (r', true)
        else sameFileSeen out f import_ files r'
      else sameFileSeen out f import_ files r

/-- `should_stack_file`. -/
def shouldStackFile (out : Outside) (r : Reader) (f : Nat) (import_ : Bool) : Reader × Bool :=
  if (r.file f).onceOnly then (r, false)
  else
    let r := if import_ then markFileOnceOnly r f else r
    if import_ ∧ (r.file f).stackCount ≠ 0 then (r, false)
    else if ∃ m ∈ (r.file f).cmacroName, m ∈ r.macros then (r, false)
    else
      match (r.file f).pch with
      | some entries => ({ r with pchf := some entries }, false)
      | none =>
          let (file, read) := readFile out (r.file f)
          let r := r.setFile f file
          if ¬ read then (r, false)
          else if checkFileAgainstEntries out r file import_ then
            (if import_ then r else markFileOnceOnly r f, false)
          else if ¬ r.seenOnceOnly then (r, true)
          else
            let (r, seen) := sameFileSeen out f import_ r.allFiles r
            (r, ¬ seen)

/-- `_cpp_stack_file`. The count of the stackings is an `unsigned short`. -/
def stackFile (out : Outside) (r : Reader) (f : Nat) (import_ : Bool) : Reader × Bool :=
  let (r, should) := shouldStackFile out r f import_
  if ¬ should then (r, false)
  else
    let sysp :=
      match r.buffers, (r.file f).dir with
      | buffer :: _, some dir => max buffer.sysp (r.dir dir).sysp
      | _, _ => 0
    let file := { r.file f with bufferValid := false, stackCount := ((r.file f).stackCount + 1) % 65536 }
    ({ r.setFile f file with buffers := ⟨f, sysp, (r.file f).buffer.getD []⟩ :: r.buffers }, true)

/-! ## `_cpp_stack_include` -/

/-- `search_path_head`. -/
def searchPathHead (r : Reader) (fname : Path) (angleBrackets : Bool) (type : IncludeType) :
    Reader × Option DirRef :=
  let file := r.file r.currentFile
  if isAbsolutePath fname then (r, some .noSearchPath)
  else if type = .includeNext ∧ file.dir.isSome then (r, file.dir.bind r.next)
  else if angleBrackets then (r, r.bracketInclude)
  else if type = .cmdline then
    let (r, dir) := makeCppDir r ['.', '/'] 0
    (r, some dir)
  else if r.quoteIgnoresSourceDir then (r, r.quoteInclude)
  else
    let sysp := match r.buffers with
      | [] => 0
      | buffer :: _ => buffer.sysp
    let (r, dir) := makeCppDir r (dirNameOfFile file) sysp
    (r, some dir)

/-- Whether `_cpp_stack_include` searches the wrapper path, for a search that begins at `dir`. -/
def searchesWrappers (r : Reader) (type : IncludeType) (dir : DirRef) : Bool :=
  ¬ (type = .includeNext ∧ (r.file r.currentFile).dir.isSome) ∧ r.wrapperInclude.isSome ∧ dir ≠ .noSearchPath

/-- The search of `_cpp_stack_include` when there is a wrapper path: the normal path is made the tail of the wrapper
path for the time of the search. -/
def findWrapped (cache : Bool) (out : Outside) (validPch : ValidPch) (r : Reader) (fname : Path)
    (wrapper last dir : DirRef) : Option (Reader × Nat) :=
  match findFile cache out validPch (r.setNext last (some dir)) fname wrapper with
  | none => none
  | some (r, f) =>
      let r := r.setNext last none
      match (r.walk (r.dirs.length + 1) (some wrapper)).find? fun d => (r.file f).dir = some d with
      | none => some (r, f)
      | some wrapperDir =>
          -- an `#include_next` of the wrapper looks through the normal path
          some (r.setFile f { r.file f with
            dir := some (.wrapperDir f)
            wrapperDir := { r.dir wrapperDir with next := some dir } }, f)

/-- The file that `_cpp_stack_include` is to stack, if there is a path to search. -/
def findInclude (cache : Bool) (out : Outside) (validPch : ValidPch) (r : Reader) (fname : Path)
    (angleBrackets : Bool) (type : IncludeType) : Option (Reader × Option Nat) :=
  match searchPathHead r fname angleBrackets type with
  | (r, none) => some (r, none)
  | (r, some dir) =>
      let found :=
        match r.wrapperInclude, r.wrapperIncludeLast with
        | some wrapper, some last =>
            if searchesWrappers r type dir then findWrapped cache out validPch r fname wrapper last dir
            else findFile cache out validPch r fname dir
        | _, _ => findFile cache out validPch r fname dir
      found.map fun (r, f) => (r, some f)

/-- `_cpp_stack_include`: whether a file was stacked. -/
def stackInclude (cache : Bool) (out : Outside) (validPch : ValidPch) (r : Reader) (fname : Path)
    (angleBrackets : Bool) (type : IncludeType) : Option (Reader × Bool) :=
  match findInclude cache out validPch r fname angleBrackets type with
  | none => none
  | some (r, none) => some (r, false)
  | some (r, some f) => some (stackFile out r f (type = .import_))

/-! ## The other directives -/

/-- `_cpp_compare_file_date`: whether a file is newer than the current one. -/
def compareFileDate (cache : Bool) (out : Outside) (validPch : ValidPch) (r : Reader) (fname : Path)
    (angleBrackets : Bool) : Option (Reader × Int) :=
  match searchPathHead r fname angleBrackets .include with
  | (r, none) => some (r, -1)
  | (r, some dir) =>
      match findFile cache out validPch r fname dir with
      | none => none
      | some (r, f) =>
          if (r.file f).errNo ≠ .ok then some (r, -1)
          else if (r.file f).st.mtime > (r.file r.currentFile).st.mtime then some (r, 1)
          else some (r, 0)

/-- `_cpp_pop_file_buffer`, for the buffer at the top. -/
def popFileBuffer (out : Outside) (r : Reader) : Reader :=
  match r.buffers with
  | [] => r
  | buffer :: buffers =>
      let file := r.file buffer.file
      { r.setFile buffer.file { file with
          cmacroName := if file.cmacroName = none then out.guard buffer.text else file.cmacroName
          buffer := none
          bufferValid := false } with buffers }

/-- What the text of the current file asks for: a directive that looks up a file or marks one, a change of a macro, or
the end of the text. An `#include_next` in the primary source file is an `#include`, by `do_include_next`. -/
inductive Directive where
  | include (type : IncludeType) (angleBrackets : Bool) (fname : Path)
  | pragmaOnce
  | pragmaDependency (angleBrackets : Bool) (fname : Path)
  | define (m : MacroName)
  | undef (m : MacroName)
  | endOfFile

/-- The type with which `do_include_next` and the other handlers call `_cpp_stack_include`. -/
def handledType (r : Reader) (type : IncludeType) : IncludeType :=
  if type = .includeNext ∧ r.buffers.length ≤ 1 then .include else type

/-- Handle a directive; the flag says whether a file was stacked. -/
def step (cache : Bool) (out : Outside) (validPch : ValidPch) (r : Reader) :
    Directive → Option (Reader × Bool)
  | .include type angleBrackets fname =>
      stackInclude cache out validPch r fname angleBrackets (handledType r type)
  | .pragmaOnce => some (markFileOnceOnly r r.currentFile, false)
  | .pragmaDependency angleBrackets fname =>
      (compareFileDate cache out validPch r fname angleBrackets).map fun (r, _) => (r, false)
  | .define m => some ({ r with macros := m :: r.macros }, false)
  | .undef m => some ({ r with macros := r.macros.filter (· ≠ m) }, false)
  | .endOfFile => some (popFileBuffer out r, false)

/-- `cpp_read_main_file`, which gives up when the file cannot be opened. -/
def readMainFile (cache : Bool) (out : Outside) (validPch : ValidPch) (r : Reader) (fname : Path) : Option Reader :=
  match findFile cache out validPch r fname .noSearchPath with
  | none => none
  | some (r, f) =>
      if (r.file f).errNo ≠ .ok then none
      else some (stackFile out { r with mainFile := f } f false).1

end Cpp

end GccXml

import GccXml.Lib.Loop

namespace GccXml

/-! # `Cpp.Files` — the files and directories of the preprocessor

The records of `libcpp/files.c`: `cpp_dir`, `_cpp_file` and the members of `cpp_reader` that the search for a file
uses. A `cpp_dir *` is a `DirRef` and a `_cpp_file *` the number of the file, so that a chain of directories can be
re-linked and a file can be shared as in the source. -/

namespace Cpp

/-- A path, a file name or the name of a directory. -/
abbrev Path := List Char

/-- The name of a macro. -/
abbrev MacroName := List Char

/-- The contents of a file. -/
abbrev Contents := List Char

/-- What the operating system says of a path. A directory counts as missing, and so does a path through a file
(`ENOTDIR`); a path that cannot be opened for another reason is refused. -/
inductive Entry where
  | missing
  | refused
  | file (mtime : Int) (contents : Contents) (readable : Bool)

def Entry.isMissing : Entry → Bool
  | .missing => true
  | _ => false

/-- What the file code takes from elsewhere: the file system, and for a text the macro of the `#ifndef` around all of
it (`mi_cmacro` at the end of the text, if `mi_valid`), and the checksum of precompiled headers. -/
structure Outside where
  entry : Path → Entry
  guard : Contents → Option MacroName
  md5 : Contents → Nat

/-- `pchf_entry`: a file that a precompiled header contains. -/
structure PchEntry where
  size : Nat
  sum : Nat
  onceOnly : Bool

/-- What `cb.valid_pch` says of the precompiled headers beside a path: the entries of one that can be used now. -/
abbrev ValidPch := Path → Option (List PchEntry)

/-- `err_no`, as far as the file code looks at it. -/
inductive ErrNo where
  | ok
  | enoent
  | other
  deriving DecidableEq

structure Stat where
  mtime : Int
  size : Nat
  deriving DecidableEq

/-- A pointer to a `cpp_dir`: to `pfile->no_search_path`, to one on the heap, or to the `wrapper_dir` of a file. -/
inductive DirRef where
  | noSearchPath
  | node (i : Nat)
  | wrapperDir (file : Nat)
  deriving DecidableEq

structure CppDir where
  next : Option DirRef
  name : Path
  sysp : Nat
  /-- From a header and the directory's name to the path to try. -/
  construct : Option (Path → Path → Option Path)

instance : Inhabited CppDir := ⟨⟨none, [], 0, none⟩⟩

/-- `pfile->no_search_path`. -/
def noSearchPath : CppDir := ⟨none, [], 0, none⟩

/-- `_cpp_file`. -/
structure CppFile where
  name : Path
  path : Option Path := none
  /-- The text read, which `buffer_valid` says is still as it was read. -/
  buffer : Option Contents := none
  bufferValid : Bool := false
  cmacroName : Option MacroName := none
  dir : Option DirRef
  wrapperDir : CppDir := default
  st : Stat := ⟨0, 0⟩
  errNo : ErrNo := .ok
  stackCount : Nat := 0
  onceOnly : Bool := false
  dontRead : Bool := false
  /-- The precompiled header found in place of the file. -/
  pch : Option (List PchEntry) := none

instance : Inhabited CppFile := ⟨{ name := [], dir := none }⟩

/-- `cpp_buffer`, for a file. -/
structure Buffer where
  file : Nat
  sysp : Nat
  text : Contents

/-- `cpp_reader`. The chain `all_files` runs through `files` from the last to the first. -/
structure Reader where
  dirs : List CppDir := []
  files : List CppFile := []
  dirHash : List (Path × DirRef) := []
  /-- The file name and the `start_dir` of an entry and its file, the newest first. -/
  fileHash : List ((Path × DirRef) × Nat) := []
  quoteInclude : Option DirRef := none
  bracketInclude : Option DirRef := none
  wrapperInclude : Option DirRef := none
  wrapperIncludeLast : Option DirRef := none
  quoteIgnoresSourceDir : Bool := false
  buffers : List Buffer := []
  mainFile : Nat := 0
  seenOnceOnly : Bool := false
  pchf : Option (List PchEntry) := none
  macros : List MacroName := []

namespace Reader

def file (r : Reader) (f : Nat) : CppFile := r.files.getD f default

/-- The directory that a pointer stands for. -/
def dir (r : Reader) : DirRef → CppDir
  | .noSearchPath => noSearchPath
  | .node i => r.dirs.getD i default
  | .wrapperDir f => (r.file f).wrapperDir

/-- `d->next`. -/
def next (r : Reader) (d : DirRef) : Option DirRef := (r.dir d).next

def setFile (r : Reader) (f : Nat) (file : CppFile) : Reader := { r with files := r.files.set f file }

/-- `d->next = p`. -/
def setNext (r : Reader) (d : DirRef) (p : Option DirRef) : Reader :=
  match d with
  | .noSearchPath => r
  | .node i => { r with dirs := r.dirs.modify i fun dir => { dir with next := p } }
  | .wrapperDir f => { r with files := r.files.modify f fun file =>
      { file with wrapperDir := { file.wrapperDir with next := p } } }

/-- Put a new file at the head of `all_files`. -/
def addFile (r : Reader) (file : CppFile) : Reader := { r with files := r.files ++ [file] }

/-- `all_files` and what `next_file` leads to. -/
def allFiles (r : Reader) : List Nat := (List.range r.files.length).reverse

/-- The chain of directories that begins at `p`, up to `fuel` of them. -/
def walk (r : Reader) : Nat → Option DirRef → List DirRef
  | 0, _ => []
  | _ + 1, none => []
  | fuel + 1, some d => d :: r.walk fuel (r.next d)

/-- The file whose text is read at present. -/
def currentFile (r : Reader) : Nat :=
  match r.buffers with
  | [] => r.mainFile
  | buffer :: _ => buffer.file

end Reader

/-! ## Directories -/

/-- `append_file_to_dir`: no slash is doubled. -/
def appendFileToDir (fname : Path) (dir : CppDir) : Path :=
  if dir.name ≠ [] ∧ dir.name.getLast? ≠ some '/' then dir.name ++ '/' :: fname else dir.name ++ fname

/-- `dir_name_of_file`: the path up to its last slash. -/
def dirNameOfFile (file : CppFile) : Path :=
  ((file.path.getD []).reverse.dropWhile (· ≠ '/')).reverse

/-- `IS_ABSOLUTE_PATH`. -/
def isAbsolutePath (fname : Path) : Bool := fname.head? = some '/'

/-- `make_cpp_dir`: the directory of this name, which is searched before the chain for `""`. -/
def makeCppDir (r : Reader) (dirName : Path) (sysp : Nat) : Reader × DirRef :=
  match r.dirHash.lookup dirName with
  | some d => (r, d)
  | none =>
      let d := DirRef.node r.dirs.length
      ({ r with
          dirs := r.dirs ++ [⟨r.quoteInclude, dirName, sysp, none⟩]
          dirHash := (dirName, d) :: r.dirHash }, d)

/-- `cpp_set_include_chains`. A bracket chain that does not lie in the quote chain is set to the quote chain. -/
def setIncludeChains (r : Reader) (quote bracket wrapper : Option DirRef) (quoteIgnoresSourceDir : Bool) : Reader :=
  { r with
    quoteInclude := quote
    bracketInclude := if ∃ d ∈ r.walk r.dirs.length quote, some d = bracket then bracket else quote
    wrapperInclude := wrapper
    wrapperIncludeLast := (r.walk r.dirs.length wrapper).getLast?
    quoteIgnoresSourceDir }

/-! ## Opening and reading -/

/-- `make_cpp_file`. -/
def makeCppFile (dir : DirRef) (fname : Path) : CppFile := { name := fname, dir := some dir }

/-- `open_file`. -/
def openFile (out : Outside) (file : CppFile) : CppFile × Bool :=
  match out.entry (file.path.getD []) with
  | .missing => ({ file with errNo := .enoent }, false)
  | .refused => ({ file with errNo := .other }, false)
  | .file mtime contents _ => ({ file with errNo := .ok, st := ⟨mtime, contents.length⟩ }, true)

/-- `pch_open_file`: there is no precompiled header for the standard input. -/
def pchOpenFile (validPch : ValidPch) (fname path : Path) : Option (List PchEntry) :=
  if fname = [] then none else validPch path

/-- The path that `find_file_in_dir` tries for a file name in a directory. -/
def candidatePath (fname : Path) (dir : CppDir) : Option Path :=
  match dir.construct with
  | some construct => construct fname dir.name
  | none => some (appendFileToDir fname dir)

/-- `find_file_in_dir`: whether the file is there, also when it cannot be opened. -/
def findFileInDir (out : Outside) (validPch : ValidPch) (file : CppFile) (dir : CppDir) : CppFile × Bool :=
  match candidatePath file.name dir with
  | none => ({ file with errNo := .enoent, path := none }, false)
  | some path =>
      let file := { file with path := some path }
      match pchOpenFile validPch file.name path with
      | some entries => ({ file with pch := some entries }, true)
      | none =>
          let (file, opened) := openFile out file
          if opened then (file, true)
          else if file.errNo ≠ .enoent then (file, true)
          else ({ file with path := some file.name }, false)

/-- `read_file`, with `read_file_guts`. A descriptor that is still open would give what opening the path again gives.
The text is taken as it is: the character set of the input is that of the source. -/
def readFile (out : Outside) (file : CppFile) : CppFile × Bool :=
  if file.bufferValid then (file, true)
  else if file.dontRead ∨ file.errNo ≠ .ok then (file, false)
  else
    let (file, opened) := openFile out file
    if ¬ opened then (file, false)
    else
      match out.entry (file.path.getD []) with
      | .file mtime contents true =>
          ({ file with buffer := some contents, bufferValid := true, st := ⟨mtime, contents.length⟩ }, true)
      | _ => ({ file with dontRead := true }, false)

end Cpp

end GccXml

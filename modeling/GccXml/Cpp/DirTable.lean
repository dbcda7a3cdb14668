import GccXml.Cpp.CommandLine
import GccXml.Libiberty.HashRuns

namespace GccXml

/-! # `Cpp.DirTable` — the preprocessor with its hash table

`make_cpp_dir` keeps the directories of the source files in the hash table `dir_hash`. The functions here are those of
`files.c` with this table in place of the list `Reader.dirHash`, which is what the table means.

The reader in `Hashed` has an empty list: the table alone holds the directories. So the functions that search for a
directory are written again with the table, and every other one is used as it is, on a reader that differs from the
original in its list. The first part shows that these do not look at the list, one by one: they commute with
`withDirHash`.

After that only `make_cpp_dir` is left. A lookup in the table is one in the map that the table represents, and that map
is the lookup in the list; when there is no directory the table gets an entry and the list a new head. One directive
makes one directory at most, so the bound on the number of directives keeps the table within what `HashSearch` needs,
and a run is simulated by induction. -/

namespace Cpp

open HashTable (Htab Table htabCreate htabHashString storeElt)
open Probing (live)

/-- What `dir_hash` has an entry for: a name, with the directory that `make_cpp_dir` made for it. A chain of entries has
    one entry here, since the first one of a name is found again. -/
abbrev DirEntry := Path × DirRef

/-- A reader with its `dir_hash`. -/
structure HashReader where
  dirHash : Htab DirEntry
  reader : Reader

/-- `_cpp_init_files`, for `dir_hash`. -/
def initFiles (r : Reader) : Option HashReader := (htabCreate DirEntry 127).map fun dirHash => ⟨dirHash, r⟩

/-- `make_cpp_dir`, with the slot of the hash table: it holds the directory, or it is given a new one. -/
def makeCppDirHashed (s : HashReader) (dirName : Path) (sysp : Nat) : Option (HashReader × DirRef) :=
  let d := DirRef.node s.reader.dirs.length
  (storeElt (htabHashString ∘ Prod.fst) s.dirHash (fun e => e.1 = dirName) (htabHashString dirName)
    fun old => old.getD (dirName, d)).map fun (dirHash, old) =>
      match old with
      | some e => (⟨dirHash, s.reader⟩, e.2)
      | none =>
          (⟨dirHash, { s.reader with dirs := s.reader.dirs ++ [⟨s.reader.quoteInclude, dirName, sysp, none⟩] }⟩, d)

/-- `search_path_head`. -/
def searchPathHeadHashed (s : HashReader) (fname : Path) (angleBrackets : Bool) (type : IncludeType) :
    Option (HashReader × Option DirRef) :=
  let file := s.reader.file s.reader.currentFile
  if isAbsolutePath fname then some (s, some .noSearchPath)
  else if type = .includeNext ∧ file.dir.isSome then some (s, file.dir.bind s.reader.next)
  else if angleBrackets then some (s, s.reader.bracketInclude)
  else if type = .cmdline then (makeCppDirHashed s ['.', '/'] 0).map fun (s, dir) => (s, some dir)
  else if s.reader.quoteIgnoresSourceDir then some (s, s.reader.quoteInclude)
  else
    let sysp := match s.reader.buffers with
      | [] => 0
      | buffer :: _ => buffer.sysp
    (makeCppDirHashed s (dirNameOfFile file) sysp).map fun (s, dir) => (s, some dir)

/-- `findInclude`, after `search_path_head`. -/
def findIncludeFrom (out : Outside) (validPch : ValidPch) (fname : Path) (type : IncludeType) :
    Reader × Option DirRef → Option (Reader × Option Nat)
  | (r, none) => some (r, none)
  | (r, some dir) =>
      let found :=
        match r.wrapperInclude, r.wrapperIncludeLast with
        | some wrapper, some last =>
            if searchesWrappers r type dir then findWrapped false out validPch r fname wrapper last dir
            else findFile false out validPch r fname dir
        | _, _ => findFile false out validPch r fname dir
      found.map fun (r, f) => (r, some f)

/-- `stackInclude`, after `search_path_head`. -/
def stackIncludeFrom (out : Outside) (validPch : ValidPch) (fname : Path) (type : IncludeType)
    (head : Reader × Option DirRef) : Option (Reader × Bool) :=
  match findIncludeFrom out validPch fname type head with
  | none => none
  | some (r, none) => some (r, false)
  | some (r, some f) => some (stackFile out r f (type = .import_))

/-- `compareFileDate`, after `search_path_head`. -/
def compareFileDateFrom (out : Outside) (validPch : ValidPch) (fname : Path) :
    Reader × Option DirRef → Option (Reader × Int)
  | (r, none) => some (r, -1)
  | (r, some dir) =>
      match findFile false out validPch r fname dir with
      | none => none
      | some (r, f) =>
          if (r.file f).errNo ≠ .ok then some (r, -1)
          else if (r.file f).st.mtime > (r.file r.currentFile).st.mtime then some (r, 1)
          else some (r, 0)

/-- Handle a directive. -/
def stepHashed (out : Outside) (validPch : ValidPch) (s : HashReader) : Directive → Option HashReader
  | .include type angleBrackets fname => do
      let (s', start) ← searchPathHeadHashed s fname angleBrackets (handledType s.reader type)
      let (r, _) ← stackIncludeFrom out validPch fname (handledType s.reader type) (s'.reader, start)
      some ⟨s'.dirHash, r⟩
  | .pragmaOnce => some { s with reader := markFileOnceOnly s.reader s.reader.currentFile }
  | .pragmaDependency angleBrackets fname => do
      let (s', start) ← searchPathHeadHashed s fname angleBrackets .include
      let (r, _) ← compareFileDateFrom out validPch fname (s'.reader, start)
      some ⟨s'.dirHash, r⟩
  | .define m => some { s with reader := { s.reader with macros := m :: s.reader.macros } }
  | .undef m => some { s with reader := { s.reader with macros := s.reader.macros.filter (· ≠ m) } }
  | .endOfFile => some { s with reader := popFileBuffer out s.reader }

/-- Handle directives, each with the precompiled headers that are valid then. -/
def runHashed (out : Outside) (s : HashReader) (directives : List (ValidPch × Directive)) : Option HashReader :=
  directives.foldlM (fun s d => stepHashed out d.1 s d.2) s

/-- `step`, for a sequence of directives. -/
def runDirectives (out : Outside) (r : Reader) (directives : List (ValidPch × Directive)) : Option Reader :=
  directives.foldlM (fun r d => (step false out d.1 r d.2).map Prod.fst) r

/-! ## What does not look at the directories of source files -/

/-- The reader with another list of directories. -/
def Reader.withDirHash (h : List DirEntry) (r : Reader) : Reader := { r with dirHash := h }

/-- What a function gives, with another list of directories in the reader. -/
def overDirHash {α : Type} (h : List DirEntry) (x : Reader × α) : Reader × α := (x.1.withDirHash h, x.2)

section

variable {out : Outside} {validPch : ValidPch} {r : Reader} {fname : Path} {type : IncludeType}
  {h : List DirEntry} {f g : Nat}

/-- A test that does not look at the list. -/
theorem ite_overDirHash {α : Type} {c c' : Prop} [Decidable c] [Decidable c'] {a a' b b' : Reader × α} (hc : c' ↔ c)
    (ha : a' = overDirHash h a) (hb : b' = overDirHash h b) :
    (if c' then a' else b') = overDirHash h (if c then a else b) := by
  rw [apply_ite (overDirHash h), ha, hb]
  exact if_congr hc rfl rfl

theorem readRefFile_withDirHash : readRefFile out (r.withDirHash h) g = overDirHash h (readRefFile out r g) :=
  ite_overDirHash Iff.rfl rfl rfl

theorem sameFileSeen_withDirHash (import_ : Bool) (files : List Nat) :
    sameFileSeen out f import_ files (r.withDirHash h) = overDirHash h (sameFileSeen out f import_ files r) := by
  induction files generalizing r with
  | nil => rfl
  | cons g files ih =>
      rw [sameFileSeen, sameFileSeen, readRefFile_withDirHash]
      refine ite_overDirHash Iff.rfl ih (ite_overDirHash Iff.rfl ?_ ih)
      exact ite_overDirHash Iff.rfl rfl ih

theorem shouldStackFile_withDirHash (import_ : Bool) :
    shouldStackFile out (r.withDirHash h) f import_ = overDirHash h (shouldStackFile out r f import_) := by
  have hmark : ∀ r : Reader, (if import_ = true then r.withDirHash h else markFileOnceOnly (r.withDirHash h) f) =
      (if import_ = true then r else markFileOnceOnly r f).withDirHash h := by
    intro r
    cases import_ <;> rfl
  have hmark' : (if import_ = true then markFileOnceOnly (r.withDirHash h) f else r.withDirHash h) =
      (if import_ = true then markFileOnceOnly r f else r).withDirHash h := by
    cases import_ <;> rfl
  unfold shouldStackFile
  dsimp only
  rw [hmark']
  refine ite_overDirHash Iff.rfl rfl ?_
  generalize (if import_ = true then markFileOnceOnly r f else r) = r₁
  refine ite_overDirHash Iff.rfl rfl (ite_overDirHash Iff.rfl rfl ?_)
  have hfile : (r₁.withDirHash h).file f = r₁.file f := rfl
  rw [hfile]
  cases (r₁.file f).pch with
  | some entries => rfl
  | none =>
      refine ite_overDirHash Iff.rfl rfl (ite_overDirHash Iff.rfl ?_ (ite_overDirHash Iff.rfl rfl ?_))
      · exact congrArg (·, false) (hmark (r₁.setFile f (readFile out (r₁.file f)).1))
      · have hseen := @sameFileSeen_withDirHash out (r₁.setFile f (readFile out (r₁.file f)).1) h f import_
          (r₁.setFile f (readFile out (r₁.file f)).1).allFiles
        exact congrArg (fun x : Reader × Bool => (x.1, decide ¬ x.2 = true)) hseen

theorem stackFile_withDirHash (import_ : Bool) :
    stackFile out (r.withDirHash h) f import_ = overDirHash h (stackFile out r f import_) := by
  unfold stackFile
  rw [shouldStackFile_withDirHash]
  exact ite_overDirHash Iff.rfl rfl rfl

theorem popFileBuffer_withDirHash : popFileBuffer out (r.withDirHash h) = (popFileBuffer out r).withDirHash h := by
  unfold popFileBuffer
  show (match r.buffers with | [] => _ | _ :: _ => _) = _
  cases r.buffers <;> rfl

theorem findFile_withDirHash (start : DirRef) : findFile false out validPch (r.withDirHash h) fname start =
    (findFile false out validPch r fname start).map (overDirHash h) := by
  have hloop : loopRun (findPass false out validPch (r.withDirHash h)) ((r.withDirHash h).dirs.length + 1)
      (makeCppFile start fname) = loopRun (findPass false out validPch r) (r.dirs.length + 1) (makeCppFile start fname) :=
    rfl
  unfold findFile
  rw [hloop]
  cases loopRun (findPass false out validPch r) (r.dirs.length + 1) (makeCppFile start fname) with
  | none => rfl
  | some found => cases found <;> rfl

theorem walk_withDirHash (fuel : Nat) (p : Option DirRef) : (r.withDirHash h).walk fuel p = r.walk fuel p := by
  induction fuel generalizing p with
  | zero => rfl
  | succ fuel ih =>
      cases p with
      | none => rfl
      | some d => exact congrArg (d :: ·) (ih (r.next d))

theorem setNext_withDirHash (d : DirRef) (p : Option DirRef) :
    (r.withDirHash h).setNext d p = (r.setNext d p).withDirHash h := by
  cases d <;> rfl

theorem findWrapped_withDirHash (wrapper last dir : DirRef) :
    findWrapped false out validPch (r.withDirHash h) fname wrapper last dir =
      (findWrapped false out validPch r fname wrapper last dir).map (overDirHash h) := by
  unfold findWrapped
  rw [setNext_withDirHash, findFile_withDirHash]
  cases findFile false out validPch (r.setNext last (some dir)) fname wrapper with
  | none => rfl
  | some found =>
      obtain ⟨r₁, g⟩ := found
      rw [Option.map_some]
      dsimp only [overDirHash]
      rw [setNext_withDirHash]
      generalize r₁.setNext last none = r₂
      have hfile : (r₂.withDirHash h).file g = r₂.file g := rfl
      have hdirs : (r₂.withDirHash h).dirs = r₂.dirs := rfl
      rw [walk_withDirHash, hfile, hdirs]
      cases (r₂.walk (r₂.dirs.length + 1) (some wrapper)).find? (fun d => (r₂.file g).dir = some d) with
      | none => rfl
      | some d => cases d <;> rfl

theorem findIncludeFrom_withDirHash (start : Option DirRef) :
    findIncludeFrom out validPch fname type (r.withDirHash h, start) =
      (findIncludeFrom out validPch fname type (r, start)).map (overDirHash h) := by
  cases start with
  | none => rfl
  | some dir =>
      have hplain : (findFile false out validPch (r.withDirHash h) fname dir).map (fun x => (x.1, some x.2)) =
          ((findFile false out validPch r fname dir).map fun x => (x.1, some x.2)).map (overDirHash h) := by
        rw [findFile_withDirHash, Option.map_map, Option.map_map]
        rfl
      rw [findIncludeFrom, findIncludeFrom]
      show Option.map _ (match r.wrapperInclude, r.wrapperIncludeLast with | some _, some _ => _ | _, _ => _) = _
      cases r.wrapperInclude with
      | none => exact hplain
      | some wrapper =>
          cases r.wrapperIncludeLast with
          | none => exact hplain
          | some last =>
              dsimp only
              by_cases hsearches : searchesWrappers r type dir = true
              · rw [if_pos hsearches, if_pos (show searchesWrappers (r.withDirHash h) type dir = true from hsearches),
                  findWrapped_withDirHash, Option.map_map, Option.map_map]
                rfl
              · rw [if_neg hsearches, if_neg (show ¬ searchesWrappers (r.withDirHash h) type dir = true from hsearches)]
                exact hplain

theorem stackIncludeFrom_withDirHash (start : Option DirRef) :
    stackIncludeFrom out validPch fname type (r.withDirHash h, start) =
      (stackIncludeFrom out validPch fname type (r, start)).map (overDirHash h) := by
  rw [stackIncludeFrom, stackIncludeFrom, findIncludeFrom_withDirHash]
  cases findIncludeFrom out validPch fname type (r, start) with
  | none => rfl
  | some found =>
      obtain ⟨r₁, opened⟩ := found
      cases opened with
      | none => rfl
      | some f => exact congrArg some (stackFile_withDirHash _)

theorem compareFileDateFrom_withDirHash (start : Option DirRef) :
    compareFileDateFrom out validPch fname (r.withDirHash h, start) =
      (compareFileDateFrom out validPch fname (r, start)).map (overDirHash h) := by
  cases start with
  | none => rfl
  | some dir =>
      rw [compareFileDateFrom, compareFileDateFrom, findFile_withDirHash]
      cases findFile false out validPch r fname dir with
      | none => rfl
      | some found =>
          obtain ⟨r₁, f⟩ := found
          rw [Option.map_some]
          dsimp only [overDirHash]
          rw [apply_ite (Option.map (overDirHash h)), apply_ite (Option.map (overDirHash h))]
          rfl

/-- `findInclude` and `compareFileDate` go on from `search_path_head`. -/
theorem stackInclude_eq (angleBrackets : Bool) : stackInclude false out validPch r fname angleBrackets type =
    stackIncludeFrom out validPch fname type (searchPathHead r fname angleBrackets type) := rfl

theorem compareFileDate_eq (angleBrackets : Bool) : compareFileDate false out validPch r fname angleBrackets =
    compareFileDateFrom out validPch fname (searchPathHead r fname angleBrackets .include) := rfl

/-! ## The table and the list -/

/-- The entry of a name, by the list. -/
def dirEntry (r : Reader) (name : Path) : Option DirEntry := (r.dirHash.lookup name).map fun d => (name, d)

/-- **The hash table represents the list**, and all else is the same. -/
structure Hashed (s : HashReader) (r : Reader) : Prop where
  reader : s.reader = r.withDirHash []
  table : Table Prod.fst htabHashString s.dirHash (dirEntry r)

variable {s : HashReader}

/-- **`make_cpp_dir`** finds the directory of a name in the table, or puts a new one there. -/
theorem Hashed.makeCppDir (hs : Hashed s r) (hlive : 2 * (live s.dirHash.entries).length ≤ 2147483647) (dirName : Path)
    (sysp : Nat) :
    ∃ s', makeCppDirHashed s dirName sysp = some (s', (makeCppDir r dirName sysp).2) ∧
      Hashed s' (makeCppDir r dirName sysp).1 ∧
        (live s'.dirHash.entries).length ≤ (live s.dirHash.entries).length + 1 := by
  obtain ⟨dirHash₀, reader⟩ := s
  obtain ⟨rfl, htable₀⟩ := hs
  obtain ⟨dirHash, hstore, htable, hlength⟩ := htable₀.storeElt hlive dirName
    (fun old => old.getD (dirName, DirRef.node r.dirs.length)) fun old hold => by
      cases old with
      | none => rfl
      | some e => exact hold e rfl
  have hstore' : storeElt (htabHashString ∘ Prod.fst) dirHash₀ (fun e => e.1 = dirName) (htabHashString dirName)
      (fun old => old.getD (dirName, DirRef.node (r.withDirHash []).dirs.length)) = some (dirHash, dirEntry r dirName) :=
    hstore
  unfold makeCppDirHashed Cpp.makeCppDir
  dsimp only
  rw [hstore']
  cases hlookup : r.dirHash.lookup dirName with
  | some d =>
      have hentry : dirEntry r dirName = some (dirName, d) := by rw [dirEntry, hlookup, Option.map_some]
      rw [hentry] at htable ⊢
      refine ⟨⟨dirHash, r.withDirHash []⟩, rfl, ⟨rfl, ?_⟩, hlength⟩
      -- the entry is written back
      rw [Option.getD_some, ← hentry, Function.update_eq_self] at htable
      exact htable
  | none =>
      have hentry : dirEntry r dirName = none := by rw [dirEntry, hlookup, Option.map_none]
      rw [hentry] at htable ⊢
      refine ⟨_, rfl, ⟨rfl, ?_⟩, hlength⟩
      rw [Option.getD_none] at htable
      have hmap : dirEntry { r with
          dirs := r.dirs ++ [⟨r.quoteInclude, dirName, sysp, none⟩]
          dirHash := (dirName, .node r.dirs.length) :: r.dirHash } =
            Function.update (dirEntry r) dirName (some (dirName, .node r.dirs.length)) := by
        funext name
        by_cases hname : name = dirName
        · rw [hname, Function.update_self, dirEntry, List.lookup_cons_self, Option.map_some]
        · rw [Function.update_of_ne hname, dirEntry, dirEntry, List.lookup_cons, beq_false_of_ne hname]
      rw [hmap]
      exact htable

/-- `search_path_head` asks for one directory at most. -/
theorem Hashed.searchPathHead (hs : Hashed s r) (hlive : 2 * (live s.dirHash.entries).length ≤ 2147483647)
    (angleBrackets : Bool) :
    ∃ s', searchPathHeadHashed s fname angleBrackets type = some (s', (searchPathHead r fname angleBrackets type).2) ∧
      Hashed s' (searchPathHead r fname angleBrackets type).1 ∧
        (live s'.dirHash.entries).length ≤ (live s.dirHash.entries).length + 1 := by
  have hmake : ∀ dirName sysp, ∃ s', (makeCppDirHashed s dirName sysp).map (fun x => (x.1, some x.2)) =
      some (s', some (Cpp.makeCppDir r dirName sysp).2) ∧ Hashed s' (Cpp.makeCppDir r dirName sysp).1 ∧
        (live s'.dirHash.entries).length ≤ (live s.dirHash.entries).length + 1 := by
    intro dirName sysp
    obtain ⟨s', hmake, hs', hlength⟩ := hs.makeCppDir hlive dirName sysp
    exact ⟨s', by rw [hmake, Option.map_some], hs', hlength⟩
  obtain ⟨dirHash, reader⟩ := s
  obtain ⟨rfl, htable⟩ := hs
  have hhere : ∀ p : Option DirRef, ∃ s', some ((⟨dirHash, r.withDirHash []⟩ : HashReader), p) = some (s', p) ∧ Hashed s' r ∧
      (live s'.dirHash.entries).length ≤ (live dirHash.entries).length + 1 :=
    fun p => ⟨_, rfl, ⟨rfl, htable⟩, Nat.le_succ _⟩
  unfold searchPathHeadHashed Cpp.searchPathHead
  dsimp only
  by_cases habsolute : isAbsolutePath fname = true
  · rw [if_pos habsolute, if_pos habsolute]
    exact hhere _
  rw [if_neg habsolute, if_neg habsolute]
  by_cases hnext : type = .includeNext ∧ (r.file r.currentFile).dir.isSome = true
  · rw [if_pos hnext, if_pos (show _ ∧ ((r.withDirHash []).file (r.withDirHash []).currentFile).dir.isSome = true from hnext)]
    exact hhere _
  rw [if_neg hnext, if_neg (show ¬ (_ ∧ ((r.withDirHash []).file (r.withDirHash []).currentFile).dir.isSome = true) from hnext)]
  cases angleBrackets with
  | true => exact hhere _
  | false =>
      rw [if_neg Bool.false_ne_true, if_neg Bool.false_ne_true]
      by_cases htype : type = .cmdline
      · rw [if_pos htype, if_pos htype]
        exact hmake _ _
      rw [if_neg htype, if_neg htype]
      by_cases hignores : r.quoteIgnoresSourceDir = true
      · rw [if_pos hignores, if_pos (show (r.withDirHash []).quoteIgnoresSourceDir = true from hignores)]
        exact hhere _
      · rw [if_neg hignores, if_neg (show ¬ (r.withDirHash []).quoteIgnoresSourceDir = true from hignores)]
        exact hmake _ _

/-- A function that does not look at the list does not change it. -/
theorem dirHash_of_overDirHash {α : Type} {F : Reader → Option (Reader × α)}
    (hF : ∀ r h, F (Reader.withDirHash h r) = (F r).map (overDirHash h)) {r' : Reader} {a : α} (h : F r = some (r', a)) :
    r'.dirHash = r.dirHash := by
  have hsame : F r = (F r).map (overDirHash r.dirHash) := hF r r.dirHash
  rw [h, Option.map_some] at hsame
  exact congrArg (fun x : Reader × α => x.1.dirHash) (Option.some.inj hsame)

/-- What follows `search_path_head` goes the same way. -/
theorem Hashed.continue {α : Type} {F : Reader → Option (Reader × α)}
    (hF : ∀ r h, F (Reader.withDirHash h r) = (F r).map (overDirHash h)) (hs : Hashed s r) :
    (F r = none → F s.reader = none) ∧
      ∀ r' a, F r = some (r', a) → ∃ r'', F s.reader = some (r'', a) ∧ Hashed ⟨s.dirHash, r''⟩ r' := by
  rw [hs.reader, hF]
  constructor
  · intro hnone
    rw [hnone, Option.map_none]
  · intro r' a hsome
    rw [hsome, Option.map_some]
    have hdirHash := dirHash_of_overDirHash hF hsome
    refine ⟨_, rfl, rfl, ?_⟩
    have hentry : dirEntry r' = dirEntry r := by
      funext name
      rw [dirEntry, dirEntry, hdirHash]
    rw [hentry]
    exact hs.table

/-- A directive that changes the reader without a search. -/
theorem Hashed.of_eq {r' : Reader} (hs : Hashed s r) {reader : Reader} (hreader : reader = r'.withDirHash [])
    (hdirHash : r'.dirHash = r.dirHash) : Hashed ⟨s.dirHash, reader⟩ r' := by
  refine ⟨hreader, ?_⟩
  have hentry : dirEntry r' = dirEntry r := by
    funext name
    rw [dirEntry, dirEntry, hdirHash]
  rw [hentry]
  exact hs.table

/-- A search, from `search_path_head` on. -/
theorem Hashed.search {α : Type} (hs : Hashed s r) (hlive : 2 * (live s.dirHash.entries).length ≤ 2147483647)
    (angleBrackets : Bool) {F : Reader × Option DirRef → Option (Reader × α)}
    (hF : ∀ r h start, F (Reader.withDirHash h r, start) = (F (r, start)).map (overDirHash h)) :
    (F (Cpp.searchPathHead r fname angleBrackets type) = none →
      ((searchPathHeadHashed s fname angleBrackets type).bind fun x =>
        (F (x.1.reader, x.2)).bind fun y => some (⟨x.1.dirHash, y.1⟩ : HashReader)) = none) ∧
      ∀ r' a, F (Cpp.searchPathHead r fname angleBrackets type) = some (r', a) →
        ∃ s', ((searchPathHeadHashed s fname angleBrackets type).bind fun x =>
          (F (x.1.reader, x.2)).bind fun y => some (⟨x.1.dirHash, y.1⟩ : HashReader)) = some s' ∧ Hashed s' r' ∧
            (live s'.dirHash.entries).length ≤ (live s.dirHash.entries).length + 1 := by
  obtain ⟨s', hhead, hs', hlength⟩ := @Hashed.searchPathHead r fname type s hs hlive angleBrackets
  rw [hhead, Option.bind_some]
  generalize Cpp.searchPathHead r fname angleBrackets type = head at hs'
  obtain ⟨r₁, start⟩ := head
  obtain ⟨hnone, hsome⟩ := @Hashed.continue r₁ s' α (fun r => F (r, start)) (fun r h => hF r h start) hs'
  constructor
  · intro h
    rw [show F (s'.reader, start) = none from hnone h, Option.bind_none]
  · intro r' a h
    obtain ⟨r'', hF', hs''⟩ := hsome r' a h
    rw [show F (s'.reader, start) = some (r'', a) from hF', Option.bind_some]
    exact ⟨_, rfl, hs'', hlength⟩

/-- **One directive** does the same with the table as with the list. -/
theorem Hashed.step (hs : Hashed s r) (hlive : 2 * (live s.dirHash.entries).length ≤ 2147483647)
    (directive : Directive) :
    (step false out validPch r directive = none → stepHashed out validPch s directive = none) ∧
      ∀ r' stacked, step false out validPch r directive = some (r', stacked) →
        ∃ s', stepHashed out validPch s directive = some s' ∧ Hashed s' r' ∧
          (live s'.dirHash.entries).length ≤ (live s.dirHash.entries).length + 1 := by
  have hplain : ∀ {r₁ : Reader} {reader : Reader}, reader = r₁.withDirHash [] → r₁.dirHash = r.dirHash →
      (some (r₁, false) = none → some (⟨s.dirHash, reader⟩ : HashReader) = none) ∧
        ∀ r' stacked, some (r₁, false) = some (r', stacked) → ∃ s', some (⟨s.dirHash, reader⟩ : HashReader) = some s' ∧
          Hashed s' r' ∧ (live s'.dirHash.entries).length ≤ (live s.dirHash.entries).length + 1 := by
    intro r₁ reader hreader hdirHash
    refine ⟨fun hnone => (nomatch hnone), fun r' stacked hsome => ?_⟩
    cases hsome
    exact ⟨_, rfl, hs.of_eq hreader hdirHash, Nat.le_succ _⟩
  cases directive with
  | «include» type angleBrackets fname =>
      have hhandled : handledType s.reader type = handledType r type := by
        rw [hs.reader]
        rfl
      rw [Cpp.step, stackInclude_eq, stepHashed, hhandled]
      exact hs.search hlive angleBrackets fun _ _ start => stackIncludeFrom_withDirHash start
  | pragmaOnce => exact hplain (by rw [hs.reader]; rfl) rfl
  | pragmaDependency angleBrackets fname =>
      rw [Cpp.step, compareFileDate_eq, stepHashed]
      obtain ⟨hnone, hsome⟩ := @Hashed.search r fname .include s Int hs hlive angleBrackets
        (compareFileDateFrom out validPch fname) fun _ _ start => compareFileDateFrom_withDirHash start
      constructor
      · exact fun h => hnone (Option.map_eq_none_iff.mp h)
      · intro r' stacked h
        obtain ⟨⟨r₁, date⟩, hdate, heq⟩ := Option.map_eq_some_iff.mp h
        cases heq
        exact hsome _ _ hdate
  | define m => exact hplain (by rw [hs.reader]; rfl) rfl
  | undef m => exact hplain (by rw [hs.reader]; rfl) rfl
  | endOfFile =>
      refine hplain (by rw [hs.reader, popFileBuffer_withDirHash]) ?_
      unfold popFileBuffer
      split <;> rfl

/-- **Directives** do the same with the table as with the list. -/
theorem Hashed.runDirectives (hs : Hashed s r) (directives : List (ValidPch × Directive))
    (hlive : 2 * ((live s.dirHash.entries).length + directives.length) ≤ 2147483647) :
    (runDirectives out r directives = none → runHashed out s directives = none) ∧
      ∀ r', Cpp.runDirectives out r directives = some r' →
        ∃ s', runHashed out s directives = some s' ∧ Hashed s' r' := by
  induction directives generalizing s r with
  | nil =>
      refine ⟨fun h => (nomatch h), fun r' h => ?_⟩
      cases h
      exact ⟨s, rfl, hs⟩
  | cons d directives ih =>
      rw [List.length_cons] at hlive
      obtain ⟨hnone, hsome⟩ := @Hashed.step out d.1 r s hs (by omega) d.2
      rw [Cpp.runDirectives, runHashed, List.foldlM_cons, List.foldlM_cons]
      cases hstep : Cpp.step false out d.1 r d.2 with
      | none =>
          rw [hnone hstep]
          exact ⟨fun _ => rfl, fun r' h => nomatch h⟩
      | some result =>
          obtain ⟨r₁, stacked⟩ := result
          obtain ⟨s₁, hstep', hs₁, hlength⟩ := hsome r₁ stacked hstep
          rw [hstep']
          exact ih hs₁ (by omega)

end

/-- **The preprocessor with its hash table.** From `_cpp_init_files` on, any directives that are fewer than `2 ^ 30` lead to
the same state with the hash table `dir_hash` as with a list of the directories: the table is searched and expanded
without failing, and in the end it has the directories of the list. -/
theorem dir_hash_is_list {r₀ : Reader} (hdirHash : r₀.dirHash = []) (out : Outside)
    (directives : List (ValidPch × Directive)) (hlength : 2 * directives.length ≤ 2147483647) :
    ∃ s₀, initFiles r₀ = some s₀ ∧
      (runDirectives out r₀ directives = none → runHashed out s₀ directives = none) ∧
      ∀ r, runDirectives out r₀ directives = some r →
        ∃ s, runHashed out s₀ directives = some s ∧ s.reader = { r with dirHash := [] } ∧
          HashTable.Lists Prod.fst (fun name => (r.dirHash.lookup name).map fun d => (name, d)) (live s.dirHash.entries) := by
  obtain ⟨dirHash, hcreate, htable⟩ := @HashTable.htabCreate_spec DirEntry Path Prod.fst htabHashString 127 (by decide)
  have hempty : dirEntry r₀ = fun _ => none := by
    funext name
    rw [dirEntry, hdirHash, List.lookup_nil, Option.map_none]
  have hs : Hashed ⟨dirHash, r₀⟩ r₀ := by
    refine ⟨?_, hempty ▸ htable⟩
    rw [Reader.withDirHash, ← hdirHash]
  have hnil : (live dirHash.entries).length = 0 := by
    have hno : ∀ e, e ∉ live dirHash.entries := fun e he => by cases (htable.represents e.1 e).mpr ⟨he, rfl⟩
    rw [List.eq_nil_iff_forall_not_mem.mpr hno, List.length_nil]
  obtain ⟨hnone, hsome⟩ := @Hashed.runDirectives out r₀ ⟨dirHash, r₀⟩ hs directives (by
    show 2 * ((live dirHash.entries).length + directives.length) ≤ 2147483647
    omega)
  refine ⟨⟨dirHash, r₀⟩, ?_, hnone, fun r hrun => ?_⟩
  · rw [initFiles, hcreate, Option.map_some]
  · obtain ⟨s, hrun', hs'⟩ := hsome r hrun
    exact ⟨s, hrun', hs'.reader, hs'.table.lists⟩

/-- `#include "x"` and the end of the file, with the directories of the example. -/
theorem dir_hash_is_list_main :
    ∃ s₀ r s, initFiles (setIncludeChains wrapperDirs (some (.node 1)) (some (.node 1)) (some (.node 0)) false) = some s₀ ∧
      runDirectives wrapperFiles (setIncludeChains wrapperDirs (some (.node 1)) (some (.node 1)) (some (.node 0)) false)
        [(fun _ => none, .include .include false ['x']), (fun _ => none, .endOfFile)] = some r ∧
      runHashed wrapperFiles s₀ [(fun _ => none, .include .include false ['x']), (fun _ => none, .endOfFile)] = some s ∧
      s.reader = { r with dirHash := [] } := by
  obtain ⟨s₀, hinit, -, hsome⟩ := @dir_hash_is_list
    (setIncludeChains wrapperDirs (some (.node 1)) (some (.node 1)) (some (.node 0)) false) rfl wrapperFiles
    [(fun _ => none, .include .include false ['x']), (fun _ => none, .endOfFile)] (by simp)
  obtain ⟨r, hrun⟩ : ∃ r, runDirectives wrapperFiles
      (setIncludeChains wrapperDirs (some (.node 1)) (some (.node 1)) (some (.node 0)) false)
      [(fun _ => none, .include .include false ['x']), (fun _ => none, .endOfFile)] = some r := ⟨_, rfl⟩
  obtain ⟨s, hrun', hreader, -⟩ := hsome r hrun
  exact ⟨s₀, r, s, hinit, hrun, hrun', hreader⟩

end Cpp

end GccXml

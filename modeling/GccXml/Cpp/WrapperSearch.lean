import GccXml.Cpp.SearchPaths

namespace GccXml

/-! # `Cpp.WrapperSearch` — the wrapper directories of `-iwrapper`

`_cpp_stack_include` searches the wrapper directories before the path of the directive, and lets an `#include_next` in a
wrapper begin with that path. It does so without a path of its own: it sets the `next` of the last wrapper directory to
the directory that the directive begins with, searches from the first wrapper directory on, and sets `next` back to null.
A file that was found in a wrapper gets a private copy of its directory, so that what follows it is this path even after
the tail is null again.

Between directives the chains are as `Cpp.SearchPaths` says (`SearchInv`): the wrapper chain ends with null, and whatever
is stored elsewhere (the quote and bracket chains, the directories of source files, the places that files remember) leads
along nodes that are not wrapper directories. So splicing the chains makes one walk of two without a node in common,
which is what lets the search of a directive be stated for every state that is reached, whatever was included before.

`SearchesWrappersFirst` says what a directive does: which file it opens, and where an `#include_next` in this file goes
on, in every state reached from there. A step lemma (`step_spec`) and its run (`run_spec`) carry the chains through all
directives, including those that find nothing. What is missing is the search of the wrapper directories where the path
of the directive is empty: `search_path_head` then returns null, and nothing is searched. -/

namespace Cpp

open Chain Reader

/-! ## Runs -/

/-- `cpp_set_include_chains` has set the chains, and nothing was looked up yet: the wrapper directories `W` and the
directories of the quote chain are different ones. -/
def Registered (W : List Nat) (r : Reader) : Prop :=
  ∃ (r₀ : Reader) (quote bracket wrapper : Option DirRef) (ignores : Bool) (Q : List Nat),
    r = setIncludeChains r₀ quote bracket wrapper ignores ∧ r₀.files = [] ∧ r₀.dirHash = [] ∧
      Walks r₀.next quote (Q.map .node) ∧ Walks r₀.next wrapper (wrapperChain W) ∧
      (∀ i ∈ Q, i < r₀.dirs.length ∧ i ∉ W) ∧ ∀ i ∈ W, i < r₀.dirs.length

/-- One directive leads from `r` to `r'`. -/
def Handles (out : Outside) (r r' : Reader) : Prop :=
  ∃ validPch directive stacked, step false out validPch r directive = some (r', stacked)

/-- A state after any sequence of directives in the main file and the files that they stack. -/
def Reached (out : Outside) (r₀ r : Reader) : Prop :=
  ∃ validPch fname r₁, readMainFile false out validPch r₀ fname = some r₁ ∧ Relation.ReflTransGen (Handles out) r₁ r

/-! ## What a search opens -/

/-- A search opens the first existing file in the directories of `path`, if there is one. -/
def OpensFirst (out : Outside) (validPch : ValidPch) (r : Reader) (fname : Path) (path : List DirRef)
    (result : Option (Reader × Option Nat)) : Prop :=
  ∃ r' opened, result = some (r', opened) ∧
    match firstDir out validPch r fname path, opened with
    | some d, some f => Opened out validPch fname (r.dir d) (r'.file f)
    | some _, none => False
    | none, some f => (r'.file f).errNo = .enoent ∧ (r'.file f).dir = none
    | none, none => True

/-- An `#include_next` in the file `f` searches `path` and nothing else. -/
def NextSearches (out : Outside) (r : Reader) (f : Nat) (path : List DirRef) : Prop :=
  r.currentFile = f → ∀ validPch fname angleBrackets, isAbsolutePath fname = false →
    Walks (searchPathHead r fname angleBrackets .includeNext).1.next
        (searchPathHead r fname angleBrackets .includeNext).2 path ∧
      OpensFirst out validPch r fname path (findInclude false out validPch r fname angleBrackets .includeNext)

/-- **A directive searches the wrapper directories first.** Without them it would walk the path `path`. It opens what
is first in the wrapper directories and this path, and from then on an `#include_next` in the file goes on behind it: in
a wrapper with all of the path, elsewhere with what follows the file's directory. -/
structure SearchesWrappersFirst (W : List Nat) (out : Outside) (validPch : ValidPch) (r : Reader) (fname : Path)
    (angleBrackets : Bool) (type : IncludeType) (path : List DirRef) : Prop where
  walks : Walks (searchPathHead r fname angleBrackets type).1.next (searchPathHead r fname angleBrackets type).2 path
  nodup : (wrapperChain W ++ path).Nodup
  opens : OpensFirst out validPch (searchPathHead r fname angleBrackets type).1 fname (wrapperChain W ++ path)
    (findInclude false out validPch r fname angleBrackets type)
  next : ∀ r' f d, findInclude false out validPch r fname angleBrackets type = some (r', some f) →
    firstDir out validPch (searchPathHead r fname angleBrackets type).1 fname (wrapperChain W ++ path) = some d →
      ∀ r'', Relation.ReflTransGen (Handles out) (stackFile out r' f (type = .import_)).1 r'' →
        NextSearches out r'' f (pathAfter W path d)

/-! ## Steps -/

section

variable {W : List Nat} {out : Outside} {validPch : ValidPch} {r : Reader} {fname : Path} {angleBrackets : Bool}
  {type : IncludeType}

/-- A step that only changes the reading state of files keeps the invariant. -/
theorem searchInv_of_search {r' : Reader} (hinv : SearchInv W r) (h : r'.search = r.search) : SearchInv W r' := by
  have hextends := Extends.of_search h
  have hfiles := length_of_search h
  have hhash : r'.dirHash = r.dirHash := congrArg SearchState.dirHash h
  exact hextends.searchInv hinv (fun e he => .inl (hhash ▸ he))
    fun f hf hge => absurd hf (hfiles ▸ Nat.not_lt_of_le hge)

/-- The search without the wrapper directories, along a normal path. -/
theorem findFile_normal (hinv : SearchInv W r) {start : DirRef} {l : List DirRef} (hl : NormalPath W r (some start) l)
    (validPch : ValidPch) (fname : Path) :
    ∃ file, findFile false out validPch r fname start = some (r.addFile file, r.files.length) ∧
      FoundIn out validPch r fname l file ∧ SearchInv W (r.addFile file) := by
  obtain ⟨file, hfind, hfound⟩ := @findFile_spec out validPch r fname start l hl.walks (Nat.le_succ_of_le hl.length_le)
  exact ⟨file, hfind, hfound, hinv.addFile (hfound.remembersPath hl)⟩

/-- The search for an absolute path. -/
theorem findFile_noSearchPath (hinv : SearchInv W r) (validPch : ValidPch) (fname : Path) :
    ∃ file, findFile false out validPch r fname .noSearchPath = some (r.addFile file, r.files.length) ∧
      SearchInv W (r.addFile file) := by
  obtain ⟨file, hfind, hfound⟩ := @findFile_spec out validPch r fname .noSearchPath [.noSearchPath] ⟨rfl, rfl⟩
    (Nat.le_add_left _ _)
  refine ⟨file, hfind, hinv.addFile fun d hd => .inl ?_⟩
  have hmem : d ∈ [DirRef.noSearchPath] := List.mem_of_find?_eq_some (hfound.dir.symm.trans hd)
  exact List.mem_singleton.mp hmem

/-! ## The search of a directive -/

variable (out validPch) in
theorem findInclude_none {cache : Bool} (h : (searchPathHead r fname angleBrackets type).2 = none) :
    findInclude cache out validPch r fname angleBrackets type =
      some ((searchPathHead r fname angleBrackets type).1, none) := by
  unfold findInclude
  generalize searchPathHead r fname angleBrackets type = head at h ⊢
  obtain ⟨r', start⟩ := head
  obtain rfl : start = none := h
  rfl

variable (out validPch) in
/-- The wrapper directories are not searched. -/
theorem findInclude_plain {cache : Bool} {start : DirRef}
    (h : (searchPathHead r fname angleBrackets type).2 = some start)
    (hplain : searchesWrappers (searchPathHead r fname angleBrackets type).1 type start = false) :
    findInclude cache out validPch r fname angleBrackets type =
      (findFile cache out validPch (searchPathHead r fname angleBrackets type).1 fname start).map
        fun found => (found.1, some found.2) := by
  unfold findInclude
  generalize searchPathHead r fname angleBrackets type = head at h hplain ⊢
  obtain ⟨r', start'⟩ := head
  obtain rfl : start' = some start := h
  dsimp only at hplain ⊢
  rw [hplain]
  split <;> rfl

variable (out validPch) in
/-- The wrapper directories are searched. -/
theorem findInclude_wrapped {start wrapper last : DirRef}
    (h : (searchPathHead r fname angleBrackets type).2 = some start)
    (hwrapper : (searchPathHead r fname angleBrackets type).1.wrapperInclude = some wrapper)
    (hlast : (searchPathHead r fname angleBrackets type).1.wrapperIncludeLast = some last)
    (hwrapped : searchesWrappers (searchPathHead r fname angleBrackets type).1 type start = true) :
    findInclude false out validPch r fname angleBrackets type =
      (findWrapped false out validPch (searchPathHead r fname angleBrackets type).1 fname wrapper last start).map
        fun found => (found.1, some found.2) := by
  unfold findInclude
  generalize searchPathHead r fname angleBrackets type = head at h hwrapper hlast hwrapped ⊢
  obtain ⟨r', start'⟩ := head
  obtain rfl : start' = some start := h
  dsimp only at hwrapper hlast hwrapped ⊢
  rw [hwrapper, hlast]
  dsimp only
  rw [if_pos hwrapped]

/-- What a directive that starts at `start` finds: a new file that is first in the wrapper directories and the path
`l`, and that remembers where to go on. -/
theorem findInclude_first (hinv : SearchInv W r)
    (hnext : ¬ (type = .includeNext ∧ (r.file r.currentFile).dir.isSome)) {start : DirRef} {l : List DirRef}
    (hstart : (searchPathHead r fname angleBrackets type).2 = some start)
    (hl : NormalPath W (searchPathHead r fname angleBrackets type).1 (some start) l) :
    ∃ file, findInclude false out validPch r fname angleBrackets type =
        some ((searchPathHead r fname angleBrackets type).1.addFile
          (patchWrapper W (searchPathHead r fname angleBrackets type).1
            (searchPathHead r fname angleBrackets type).1.files.length start file),
          some (searchPathHead r fname angleBrackets type).1.files.length) ∧
      FoundIn out validPch (searchPathHead r fname angleBrackets type).1 fname (wrapperChain W ++ l) file := by
  have hhead := searchPathHead_spec hinv fname angleBrackets type
  have hnext' : ¬ (type = .includeNext ∧ ((searchPathHead r fname angleBrackets type).1.file
      (searchPathHead r fname angleBrackets type).1.currentFile).dir.isSome) := by
    rw [hhead.currentFile, Reader.file, hhead.files]
    exact hnext
  -- every directory of a searched path is a node, so the start is not `no_search_path`
  have hno : start ≠ .noSearchPath := by
    rintro rfl
    obtain ⟨hwalks, hnormal⟩ := hl
    cases l with
    | nil => cases hwalks
    | cons d l =>
        obtain ⟨i, rfl, -⟩ := hnormal d List.mem_cons_self
        cases hwalks.1
  cases hwrapper : (searchPathHead r fname angleBrackets type).1.wrapperInclude with
  | none =>
      -- no wrapper directories: the plain search is the whole of it
      obtain rfl : W = [] := by
        have hwalks := hhead.searchInv.wrapper
        rw [hwrapper] at hwalks
        cases W with
        | nil => rfl
        | cons i W => cases hwalks.1
      obtain ⟨file, hfind, hfound, -⟩ := @findFile_normal _ out _ hhead.searchInv _ _ hl validPch fname
      refine ⟨file, ?_, hfound⟩
      rw [findInclude_plain out validPch hstart (by simp [searchesWrappers, hwrapper]), hfind]
      rfl
  | some wrapper =>
      obtain ⟨last, hlast⟩ : ∃ last, (searchPathHead r fname angleBrackets type).1.wrapperIncludeLast = some last := by
        rw [hhead.searchInv.wrapperLast]
        cases W with
        | nil => cases hwrapper.symm.trans hhead.searchInv.wrapper
        | cons i W => exact ⟨_, List.getLast?_eq_some_getLast (List.cons_ne_nil _ _)⟩
      obtain ⟨file, hfind, hfound⟩ :=
        @findWrapped_spec _ _ _ out validPch hhead.searchInv fname _ hl _ _ hwrapper hlast
      refine ⟨file, ?_, hfound⟩
      rw [findInclude_wrapped out validPch hstart hwrapper hlast (by simp [searchesWrappers, hwrapper, hno, hnext']),
        hfind]
      rfl

/-- The chains after the search of a directive. -/
theorem findInclude_spec (hinv : SearchInv W r) :
    ∃ r' opened, findInclude false out validPch r fname angleBrackets type = some (r', opened) ∧ SearchInv W r' ∧
      Extends r r' := by
  have hhead := searchPathHead_spec hinv fname angleBrackets type
  cases hstart : (searchPathHead r fname angleBrackets type).2 with
  | none => exact ⟨_, none, findInclude_none out validPch hstart, hhead.searchInv, hhead.extends_⟩
  | some start =>
      -- the searches that leave the wrappers alone: an absolute name, and `#include_next` in a file that was found
      have hplain : ∀ file : CppFile, SearchInv W ((searchPathHead r fname angleBrackets type).1.addFile file) →
          findFile false out validPch (searchPathHead r fname angleBrackets type).1 fname start =
            some ((searchPathHead r fname angleBrackets type).1.addFile file,
              (searchPathHead r fname angleBrackets type).1.files.length) →
          searchesWrappers (searchPathHead r fname angleBrackets type).1 type start = false →
          ∃ r' opened, findInclude false out validPch r fname angleBrackets type = some (r', opened) ∧
            SearchInv W r' ∧ Extends r r' := by
        intro file hfile hfind hno
        refine ⟨_, some (searchPathHead r fname angleBrackets type).1.files.length, ?_, hfile,
          hhead.extends_.trans (extends_addFile _ file)⟩
        rw [findInclude_plain out validPch hstart hno, hfind]
        rfl
      obtain ⟨-, habsolute⟩ | ⟨-, l, hl⟩ := hhead.start
      · obtain rfl : start = .noSearchPath := Option.some.inj (hstart.symm.trans habsolute)
        obtain ⟨file, hfind, hfile⟩ := @findFile_noSearchPath _ out _ hhead.searchInv validPch fname
        exact hplain file hfile hfind (by simp [searchesWrappers])
      · rw [hstart] at hl
        by_cases hnext : type = .includeNext ∧ (r.file r.currentFile).dir.isSome
        · obtain ⟨file, hfind, -, hfile⟩ := @findFile_normal _ out _ hhead.searchInv _ _ hl validPch fname
          refine hplain file hfile hfind ?_
          have hnext' : type = .includeNext ∧ ((searchPathHead r fname angleBrackets type).1.file
              (searchPathHead r fname angleBrackets type).1.currentFile).dir.isSome := by
            rw [hhead.currentFile, Reader.file, hhead.files]
            exact hnext
          exact decide_eq_false fun h => h.1 hnext'
        · obtain ⟨file, hfind, hfound⟩ := @findInclude_first _ out validPch _ _ _ _ hinv hnext _ _ hstart hl
          have hremembers := (patchWrapper_spec (searchPathHead r fname angleBrackets type).1.files.length hl hfound).1
          exact ⟨_, _, hfind, hhead.searchInv.addFile hremembers, hhead.extends_.trans (extends_addFile _ _)⟩

/-! ## Runs keep the chains -/

/-- `_cpp_compare_file_date` makes one file. -/
theorem compareFileDate_spec (hinv : SearchInv W r) :
    ∃ r' date, compareFileDate false out validPch r fname angleBrackets = some (r', date) ∧ SearchInv W r' ∧
      Extends r r' := by
  have hhead := searchPathHead_spec hinv fname angleBrackets .include
  unfold compareFileDate
  generalize searchPathHead r fname angleBrackets .include = head at hhead ⊢
  obtain ⟨r', start⟩ := head
  cases start with
  | none => exact ⟨_, _, rfl, hhead.searchInv, hhead.extends_⟩
  | some start =>
      have hfile : ∃ file, findFile false out validPch r' fname start = some (r'.addFile file, r'.files.length) ∧
          SearchInv W (r'.addFile file) := by
        obtain ⟨-, habsolute⟩ | ⟨-, l, hl⟩ := hhead.start
        · obtain rfl : start = .noSearchPath := Option.some.inj habsolute
          exact findFile_noSearchPath hhead.searchInv validPch fname
        · obtain ⟨file, hfind, -, hfile⟩ := @findFile_normal _ out _ hhead.searchInv _ _ hl validPch fname
          exact ⟨file, hfind, hfile⟩
      obtain ⟨file, hfind, hfile⟩ := hfile
      have hextends : Extends r (r'.addFile file) := hhead.extends_.trans (extends_addFile r' file)
      dsimp only
      rw [hfind]
      dsimp only
      split
      · exact ⟨_, _, rfl, hfile, hextends⟩
      · split
        · exact ⟨_, _, rfl, hfile, hextends⟩
        · exact ⟨_, _, rfl, hfile, hextends⟩

/-- **Every directive returns, and keeps the chains.** -/
theorem step_spec (hinv : SearchInv W r) (directive : Directive) :
    ∃ r' stacked, step false out validPch r directive = some (r', stacked) ∧ SearchInv W r' ∧ Extends r r' := by
  have hsame : ∀ r', r'.search = r.search → SearchInv W r' ∧ Extends r r' :=
    fun r' h => ⟨searchInv_of_search hinv h, Extends.of_search h⟩
  cases directive with
  | «include» type angleBrackets fname =>
      obtain ⟨r', opened, hfind, hinv', hextends⟩ :=
        @findInclude_spec W out validPch r fname angleBrackets (handledType r type) hinv
      rw [step, stackInclude, hfind]
      cases opened with
      | none => exact ⟨r', false, rfl, hinv', hextends⟩
      | some f =>
          have hsearch := @search_stackFile out r' f (decide (handledType r type = .import_))
          exact ⟨_, _, rfl, searchInv_of_search hinv' hsearch, hextends.trans (Extends.of_search hsearch)⟩
  | pragmaOnce => exact ⟨_, _, rfl, hsame _ search_markFileOnceOnly⟩
  | pragmaDependency angleBrackets fname =>
      obtain ⟨r', date, hcompare, hinv', hextends⟩ :=
        @compareFileDate_spec W out validPch r fname angleBrackets hinv
      exact ⟨r', false, by rw [step, hcompare]; rfl, hinv', hextends⟩
  | define m => exact ⟨_, _, rfl, hsame _ rfl⟩
  | undef m => exact ⟨_, _, rfl, hsame _ rfl⟩
  | endOfFile => exact ⟨_, _, rfl, hsame _ search_popFileBuffer⟩

/-- The invariant holds after any number of directives, and nothing that a path leads through is changed. -/
theorem run_spec {r' : Reader} (hinv : SearchInv W r) (hrun : Relation.ReflTransGen (Handles out) r r') :
    SearchInv W r' ∧ Extends r r' := by
  induction hrun with
  | refl => exact ⟨hinv, .refl r⟩
  | tail _ hstep ih =>
      obtain ⟨validPch, directive, stacked, hstep⟩ := hstep
      obtain ⟨r'', stacked', hstep', hinv', hextends⟩ := @step_spec W out validPch _ ih.1 directive
      cases hstep.symm.trans hstep'
      exact ⟨hinv', ih.2.trans hextends⟩

theorem searchInv_registered (h : Registered W r) : SearchInv W r := by
  obtain ⟨r₀, quote, bracket, wrapper, ignores, Q, rfl, hfiles, hhash, hquote, hwrapper, hQ, hW⟩ := h
  have hsame : (setIncludeChains r₀ quote bracket wrapper ignores).next = r₀.next := by
    funext d
    cases d <;> rfl
  have hpath : NormalPath W (setIncludeChains r₀ quote bracket wrapper ignores) quote (Q.map .node) := by
    refine ⟨hsame ▸ hquote, fun d hd => ?_⟩
    obtain ⟨i, hi, rfl⟩ := List.mem_map.mp hd
    exact ⟨i, rfl, hQ i hi⟩
  refine ⟨?_, ?_, hW, ⟨_, hpath⟩, ?_, ?_, ?_⟩
  · exact hsame ▸ hwrapper
  · -- a chain without repetition is no longer than the table, so the walk over the table reaches its end
    have hle : (wrapperChain W).length ≤ r₀.dirs.length :=
      length_le_dirs hwrapper.nodup fun d hd => by
        obtain ⟨i, hi, rfl⟩ := List.mem_map.mp hd
        exact ⟨i, rfl, hW i hi⟩
    exact congrArg List.getLast? (walk_eq hwrapper hle)
  · show ∃ l, NormalPath W _ (if ∃ d ∈ r₀.walk r₀.dirs.length quote, some d = bracket then bracket else quote) l
    -- `bracket_include` is the quote chain, or the part of it that starts at `bracket`
    split
    · next hmem =>
        obtain ⟨d, hd, rfl⟩ := hmem
        have hle : (Q.map DirRef.node).length ≤ r₀.dirs.length := hpath.length_le
        rw [walk_eq hquote hle] at hd
        obtain ⟨l₁, l₂, hsplit⟩ := List.append_of_mem hd
        have hwalks := hpath.walks
        have hnormal := hpath.normal
        rw [hsplit] at hwalks hnormal
        exact ⟨d :: l₂, ⟨rfl, hwalks.after⟩, fun e he => hnormal e (List.mem_append_right _ he)⟩
    · exact ⟨_, hpath⟩
  · intro e he
    rw [show (setIncludeChains r₀ quote bracket wrapper ignores).dirHash = [] from hhash] at he
    cases he
  · intro f hf
    rw [show (setIncludeChains r₀ quote bracket wrapper ignores).files = [] from hfiles] at hf
    cases hf

/-- **The chains in every state that is reached.** -/
theorem searchInv_reached {r₀ : Reader} (hregistered : Registered W r₀) (h : Reached out r₀ r) : SearchInv W r := by
  obtain ⟨validPch, fname, r₁, hmain, hrun⟩ := h
  have hinv := searchInv_registered hregistered
  obtain ⟨file, hfind, hfile⟩ := @findFile_noSearchPath _ out _ hinv validPch fname
  have hinv₁ : SearchInv W r₁ := by
    unfold readMainFile at hmain
    rw [hfind] at hmain
    dsimp only at hmain
    split at hmain
    · cases hmain
    · cases hmain
      have hextends : Extends (r₀.addFile file) { r₀.addFile file with mainFile := r₀.files.length } :=
        ⟨List.prefix_rfl, Nat.le_refl _, fun _ _ => rfl, rfl, rfl, rfl, rfl⟩
      have hmainFile := hextends.searchInv hfile (fun e he => .inl he) fun f hf hge => absurd hf (Nat.not_lt_of_le hge)
      exact searchInv_of_search hmainFile (search_stackFile _)
  exact (run_spec hinv₁ hrun).1

/-! ## The wrapper search -/

/-- What is found along a path is opened first. -/
theorem FoundIn.opensFirst {r₁ : Reader} {path : List DirRef} {file file' : CppFile} {f : Nat}
    (h : FoundIn out validPch r fname path file) (hf : r₁.file f = file')
    (hsame : file'.path = file.path ∧ file'.pch = file.pch ∧ file'.errNo = file.errNo ∧ file'.st = file.st)
    (hdir : file.dir = none → file'.dir = none) :
    OpensFirst out validPch r fname path (some (r₁, some f)) := by
  subst hf
  obtain ⟨hpath, hpch, herr, hst⟩ := hsame
  refine ⟨r₁, some f, rfl, ?_⟩
  cases hfirst : firstDir out validPch r fname path with
  | some d =>
      obtain ⟨path', hcandidate, hpath', hpch', hentry⟩ := h.opened d (h.dir.trans hfirst)
      exact ⟨path', hcandidate, hpath.trans hpath', hpch.trans hpch', by rw [hpch, herr, hst]; exact hentry⟩
  | none =>
      have hnone := h.dir.trans hfirst
      exact ⟨herr.trans (h.failed hnone).1, hdir hnone⟩

/-- An `#include_next` searches the path behind the place that its file remembers. -/
theorem nextSearches {f : Nat} {l : List DirRef} (hinv : SearchInv W r) (hdir : (r.file f).dir.isSome = true)
    (hl : NormalPath W r ((r.file f).dir.bind r.next) l) : NextSearches out r f l := by
  rintro rfl validPch fname angleBrackets hrelative
  have hhead : searchPathHead r fname angleBrackets .includeNext = (r, (r.file r.currentFile).dir.bind r.next) := by
    unfold searchPathHead
    simp only [hrelative, Bool.false_eq_true, if_false, hdir, and_self, if_true]
  have hno : ∀ start, searchesWrappers r .includeNext start = false := fun start =>
    decide_eq_false fun h => h.1 ⟨rfl, hdir⟩
  refine ⟨by rw [hhead]; exact hl.walks, ?_⟩
  cases hstart : (r.file r.currentFile).dir.bind r.next with
  | none =>
      rw [hstart] at hhead hl
      obtain rfl : l = [] := hl.walks.unique rfl
      rw [findInclude_none out validPch (by rw [hhead])]
      exact ⟨_, none, rfl, trivial⟩
  | some start =>
      rw [hstart] at hhead hl
      obtain ⟨file, hfind, hfound, -⟩ := @findFile_normal _ out _ hinv _ _ hl validPch fname
      have hresult : findInclude false out validPch r fname angleBrackets .includeNext =
          some (r.addFile file, some r.files.length) := by
        rw [findInclude_plain out validPch (by rw [hhead]) (by rw [hhead]; exact hno start), hhead, hfind]
        rfl
      rw [hresult]
      exact hfound.opensFirst file_addFile_self ⟨rfl, rfl, rfl, rfl⟩ id

theorem patchWrapper_same {r : Reader} {f : Nat} {start : DirRef} {file : CppFile} :
    (patchWrapper W r f start file).path = file.path ∧ (patchWrapper W r f start file).pch = file.pch ∧
      (patchWrapper W r f start file).errNo = file.errNo ∧ (patchWrapper W r f start file).st = file.st := by
  unfold patchWrapper
  split
  · exact ⟨rfl, rfl, rfl, rfl⟩
  · exact ⟨rfl, rfl, rfl, rfl⟩

/-- The wrapper directories and a normal path have no directory in common, and none twice. -/
theorem nodup_wrapperChain_append (hinv : SearchInv W r) {start : Option DirRef} {l : List DirRef}
    (hl : NormalPath W r start l) : (wrapperChain W ++ l).Nodup := by
  refine List.nodup_append.mpr ⟨hinv.wrapper.nodup, hl.walks.nodup, ?_⟩
  rintro d hd e he rfl
  obtain ⟨i, hi, rfl⟩ := List.mem_map.mp hd
  obtain ⟨j, hij, -, hj⟩ := hl.normal _ he
  exact hj (DirRef.node.inj hij ▸ hi)

/-- **A file that was found remembers where to go on**, whatever directives follow. -/
theorem nextSearches_later {r'' : Reader} {file : CppFile} {start d : DirRef} {l : List DirRef} {import_ : Bool}
    (hinv : SearchInv W r) (hl : NormalPath W r (some start) l)
    (hfound : FoundIn out validPch r fname (wrapperChain W ++ l) file) (hd : file.dir = some d)
    (hrun : Relation.ReflTransGen (Handles out)
      (stackFile out (r.addFile (patchWrapper W r r.files.length start file)) r.files.length import_).1 r'') :
    NextSearches out r'' r.files.length (pathAfter W l d) := by
  obtain ⟨hremembers, hsome, hpath⟩ := patchWrapper_spec r.files.length hl hfound
  have hadded := hinv.addFile hremembers
  have hstacked := Extends.of_search (@search_stackFile out
    (r.addFile (patchWrapper W r r.files.length start file)) r.files.length import_)
  obtain ⟨hinv'', hlater⟩ := run_spec (searchInv_of_search hadded (search_stackFile import_)) hrun
  have hextends := hstacked.trans hlater
  have hlt : r.files.length < (r.addFile (patchWrapper W r r.files.length start file)).files.length := by
    rw [length_addFile]
    exact Nat.lt_succ_self _
  have hplace : (r''.file r.files.length).place = (patchWrapper W r r.files.length start file).place := by
    rw [hextends.place _ hlt, file_addFile_self]
  have hdir : (r''.file r.files.length).dir = (patchWrapper W r r.files.length start file).dir :=
    congrArg Place.dir hplace
  refine nextSearches hinv'' (by rw [hdir, hsome, hd]; rfl) ?_
  exact hpath d hd r'' ((extends_addFile r _).trans hextends) (Nat.lt_of_lt_of_le hlt hextends.length_files) hplace

/-- **A directive that has a path to search searches the wrapper directories first.** -/
theorem searchesWrappersFirst (hinv : SearchInv W r)
    (hnext : ¬ (type = .includeNext ∧ (r.file r.currentFile).dir.isSome)) {start : DirRef} {l : List DirRef}
    (hstart : (searchPathHead r fname angleBrackets type).2 = some start)
    (hl : NormalPath W (searchPathHead r fname angleBrackets type).1 (some start) l) :
    SearchesWrappersFirst W out validPch r fname angleBrackets type l := by
  have hhead := searchPathHead_spec hinv fname angleBrackets type
  obtain ⟨file, hfind, hfound⟩ := @findInclude_first W out validPch r fname angleBrackets type hinv hnext start l hstart hl
  obtain ⟨hremembers, hsome, hpath⟩ :=
    patchWrapper_spec (searchPathHead r fname angleBrackets type).1.files.length hl hfound
  refine ⟨hstart ▸ hl.walks, nodup_wrapperChain_append hhead.searchInv hl, ?_, ?_⟩
  · rw [hfind]
    refine hfound.opensFirst file_addFile_self patchWrapper_same fun hnone => ?_
    rw [hnone] at hsome
    exact Option.isNone_iff_eq_none.mp (Option.isSome_eq_false_iff.mp hsome)
  · intro r' f d hfind' hfirst r'' hrun
    have hsame := Prod.mk.inj (Option.some.inj (hfind.symm.trans hfind'))
    obtain rfl := Option.some.inj hsame.2
    rw [← hsame.1] at hrun
    exact nextSearches_later hhead.searchInv hl hfound (hfound.dir.trans hfirst) hrun

/-- A directive without a path to search opens nothing, so it is right if no wrapper directory has the file. -/
theorem searchesWrappersFirst_none (hinv : SearchInv W r)
    (hstart : (searchPathHead r fname angleBrackets type).2 = none) :
    SearchesWrappersFirst W out validPch r fname angleBrackets type [] ↔
      firstDir out validPch (searchPathHead r fname angleBrackets type).1 fname (wrapperChain W) = none := by
  have hhead := searchPathHead_spec hinv fname angleBrackets type
  have hfind := @findInclude_none out validPch r fname angleBrackets type false hstart
  constructor
  · rintro ⟨-, -, ⟨r', opened, hresult, hopens⟩, -⟩
    obtain ⟨rfl, rfl⟩ := Prod.mk.inj (Option.some.inj (hfind.symm.trans hresult))
    rw [List.append_nil] at hopens
    cases hfirst : firstDir out validPch (searchPathHead r fname angleBrackets type).1 fname (wrapperChain W) with
    | none => rfl
    | some d =>
        rw [hfirst] at hopens
        exact hopens.elim
  · intro hfirst
    refine ⟨hstart, nodup_wrapperChain_append hhead.searchInv .nil, ⟨_, none, hfind, ?_⟩, ?_⟩
    · rw [List.append_nil, hfirst]
      trivial
    · intro r' f d hfind'
      cases hfind.symm.trans hfind'

/-- The current file was found in a directory of a chain; one with an absolute path has `no_search_path` instead. -/
def FoundInChain (r : Reader) : Prop := ∃ d, (r.file r.currentFile).dir = some d ∧ d ≠ .noSearchPath

/-- An `#include_next` in a file with an absolute path has nothing to search. -/
theorem includeNext_of_absolute {r : Reader} (hnext : ¬ (type = .includeNext ∧ FoundInChain r))
    (hrelative : isAbsolutePath fname = false) (htype : type = .includeNext ∧ (r.file r.currentFile).dir.isSome) :
    (searchPathHead r fname angleBrackets type).2 = none := by
  obtain ⟨d, hd⟩ := Option.isSome_iff_exists.mp htype.2
  obtain rfl : d = .noSearchPath := by_contra fun hne => hnext ⟨htype.1, d, hd, hne⟩
  unfold searchPathHead
  simp only [hrelative, Bool.false_eq_true, if_false, htype, and_self, if_true]
  rw [hd]
  rfl

end

/-- **When the wrapper directories are searched.** In every state that is reached the wrapper chain is `W` with a null
tail, and every directive returns. A directive other than an absolute path or an `#include_next` in a file that was found
in a chain walks a path that ends, and it searches the wrapper directories before this path unless the path is empty and
a wrapper directory has the file: then there is "no include path in which to search" and the wrapper is not found. -/
theorem searchesWrappersFirst_iff {W : List Nat} {out : Outside} {r₀ r : Reader} (hregistered : Registered W r₀)
    (hreached : Reached out r₀ r) :
    Walks r.next r.wrapperInclude (wrapperChain W) ∧
      (∀ validPch directive, (step false out validPch r directive).isSome) ∧
      ∀ validPch fname angleBrackets type, isAbsolutePath fname = false → ¬ (type = .includeNext ∧ FoundInChain r) →
        ((∃ path, SearchesWrappersFirst W out validPch r fname angleBrackets type path) ↔
          (searchPathHead r fname angleBrackets type).2 ≠ none ∨
            firstDir out validPch (searchPathHead r fname angleBrackets type).1 fname (wrapperChain W) = none) := by
  have hinv := searchInv_reached hregistered hreached
  refine ⟨hinv.wrapper, fun validPch directive => ?_, fun validPch fname angleBrackets type hrelative hnext => ?_⟩
  · obtain ⟨r', stacked, hstep, -⟩ := @step_spec W out validPch r hinv directive
    rw [hstep]
    rfl
  · have hhead := searchPathHead_spec hinv fname angleBrackets type
    obtain ⟨habsolute, -⟩ | ⟨-, l, hl⟩ := hhead.start
    · cases habsolute.symm.trans hrelative
    cases hstart : (searchPathHead r fname angleBrackets type).2 with
    | some start =>
        have hplain : ¬ (type = .includeNext ∧ (r.file r.currentFile).dir.isSome) := by
          intro htype
          cases hstart.symm.trans (includeNext_of_absolute hnext hrelative htype)
        rw [hstart] at hl
        exact iff_of_true ⟨l, searchesWrappersFirst hinv hplain hstart hl⟩ (.inl nofun)
    | none =>
        -- without a start nothing follows the wrappers in the path
        rw [← searchesWrappersFirst_none hinv hstart]
        constructor
        · rintro ⟨path, h⟩
          obtain rfl : path = [] := h.walks.unique (hstart ▸ rfl)
          exact .inr h
        · rintro (h | h)
          · exact absurd rfl h
          · exact ⟨[], h⟩

/-! ### A wrapper directory

The main file is `m`, and the wrapper directory `w` has the file `x`. -/

/-- The files of the example, with no guards. -/
def wrapperFiles : Outside where
  entry path := if path = ['m'] ∨ path = ['w', '/', 'x'] then .file 0 [] true else .missing
  guard _ := none
  md5 _ := 0

/-- The wrapper directory `w`, and behind it the heap has the directory `n`. -/
def wrapperDirs : Reader := { dirs := [⟨none, ['w'], 0, none⟩, ⟨none, ['n'], 0, none⟩] }

theorem registered_wrapperDirs (quote : Option DirRef) (Q : List Nat) (h : quote = some (.node 1) ∧ Q = [1] ∨
    quote = none ∧ Q = []) : Registered [0] (setIncludeChains wrapperDirs quote quote (some (.node 0)) false) := by
  refine ⟨wrapperDirs, quote, quote, some (.node 0), false, Q, rfl, rfl, rfl, ?_, ⟨rfl, rfl⟩, ?_, ?_⟩
  · obtain ⟨rfl, rfl⟩ | ⟨rfl, rfl⟩ := h
    · exact ⟨rfl, rfl⟩
    · rfl
  · obtain ⟨rfl, rfl⟩ | ⟨rfl, rfl⟩ := h
    · simp [wrapperDirs]
    · simp
  · simp [wrapperDirs]

/-- With `n` in the normal chains, the wrapper is found at the beginning of the main file. -/
theorem searchesWrappersFirst_iff_main :
    ∃ r, Reached wrapperFiles (setIncludeChains wrapperDirs (some (.node 1)) (some (.node 1)) (some (.node 0)) false) r ∧
      Walks r.next r.wrapperInclude (wrapperChain [0]) ∧
      (∀ validPch directive, (step false wrapperFiles validPch r directive).isSome) ∧
      ∀ validPch fname angleBrackets type, isAbsolutePath fname = false → ¬ (type = .includeNext ∧ FoundInChain r) →
        ((∃ path, SearchesWrappersFirst [0] wrapperFiles validPch r fname angleBrackets type path) ↔
          (searchPathHead r fname angleBrackets type).2 ≠ none ∨
            firstDir wrapperFiles validPch (searchPathHead r fname angleBrackets type).1 fname (wrapperChain [0]) =
              none) := by
  obtain ⟨r, hmain⟩ : ∃ r, readMainFile false wrapperFiles (fun _ => none)
      (setIncludeChains wrapperDirs (some (.node 1)) (some (.node 1)) (some (.node 0)) false) ['m'] = some r := ⟨_, rfl⟩
  have hreached : Reached wrapperFiles
      (setIncludeChains wrapperDirs (some (.node 1)) (some (.node 1)) (some (.node 0)) false) r :=
    ⟨fun _ => none, ['m'], r, hmain, .refl⟩
  exact ⟨r, hreached, searchesWrappersFirst_iff (registered_wrapperDirs _ [1] (.inl ⟨rfl, rfl⟩)) hreached⟩

/-- Without normal chains, `#include <x>` in the main file does not find the wrapper. -/
theorem not_searchesWrappersFirst_main :
    ∃ r, Registered [0] (setIncludeChains wrapperDirs none none (some (.node 0)) false) ∧
      Reached wrapperFiles (setIncludeChains wrapperDirs none none (some (.node 0)) false) r ∧
      isAbsolutePath ['x'] = false ∧
      ¬ ∃ path, SearchesWrappersFirst [0] wrapperFiles (fun _ => none) r ['x'] true .include path := by
  have hregistered := registered_wrapperDirs none [] (.inr ⟨rfl, rfl⟩)
  obtain ⟨r, hmain, hstart, hfirst⟩ : ∃ r, readMainFile false wrapperFiles (fun _ => none)
      (setIncludeChains wrapperDirs none none (some (.node 0)) false) ['m'] = some r ∧
        (searchPathHead r ['x'] true .include).2 = none ∧
        firstDir wrapperFiles (fun _ => none) (searchPathHead r ['x'] true .include).1 ['x'] (wrapperChain [0]) =
          some (.node 0) := ⟨_, rfl, rfl, rfl⟩
  have hreached : Reached wrapperFiles (setIncludeChains wrapperDirs none none (some (.node 0)) false) r :=
    ⟨fun _ => none, ['m'], r, hmain, .refl⟩
  refine ⟨r, hregistered, hreached, rfl, ?_⟩
  rintro ⟨path, h⟩
  obtain rfl : path = [] := h.walks.unique (hstart ▸ rfl)
  have hnone := (searchesWrappersFirst_none (searchInv_reached hregistered hreached) hstart).mp h
  cases hfirst.symm.trans hnone

end Cpp

end GccXml

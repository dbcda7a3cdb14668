import GccXml.Cpp.IncludePaths

namespace GccXml

/-! # `Cpp.CommandLine` — from the command line to the directories that are searched

`register_include_chains` hands three chains to `cpp_set_include_chains`, and `_cpp_stack_include` searches what they
lead to. So the directories that a directive searches can be read off the options: this needs, besides the chains of
`Cpp.WrapperSearch`, that every directory of a source file is kept with the quote chain behind it.

An `#include` with quotation marks begins at the directory of the current file, which `make_cpp_dir` made when a file
of that directory asked for the first time. `SourceDirs` is the invariant: each such directory has its own name, and
its pointer is the head of the quote chain. It is kept by every directive, since only `make_cpp_dir` adds to `dir_hash`
and nothing changes a node that is there, but for the one write that `Cpp.SearchPaths` accounts for.

`reached_spec` puts this together with the chains for every state that a run comes to, and `Searches` states what the
three kinds of directives search, by lists of directories: the quote, bracket and system directories, and the wrappers
in front of them. The last theorem begins at the options and ends there. -/

namespace Cpp

open Chain Reader

/-! ## The directories of source files -/

/-- **The directories that `make_cpp_dir` made** have their names, and the quote chain behind them. -/
def SourceDirs (r : Reader) : Prop :=
  ∀ e ∈ r.dirHash, (r.dir e.2).name = e.1 ∧ r.next e.2 = r.quoteInclude

section

variable {W : List Nat} {out : Outside} {validPch : ValidPch} {r r' : Reader} {fname : Path} {angleBrackets : Bool}
  {type : IncludeType}

/-- Directories stay as they are while the reader is extended. -/
theorem SourceDirs.of_extends (h : SourceDirs r) (hinv : SearchInv W r) (hextends : Extends r r')
    (hhash : r'.dirHash = r.dirHash) : SourceDirs r' := by
  intro e he
  rw [hhash] at he
  obtain ⟨l, hl⟩ := hinv.dirHash e he
  obtain ⟨hname, hnext⟩ := h e he
  -- a directory in the table begins a normal path, so it is on the heap
  cases l with
  | nil => cases hl.walks
  | cons d l =>
      obtain ⟨i, rfl, hi, -⟩ := hl.normal d List.mem_cons_self
      obtain ⟨hd, -⟩ := hl.walks
      rw [Option.some.inj hd] at hname hnext ⊢
      exact ⟨by rw [hextends.dir_node hi, hname], by rw [hextends.next_node hi, hnext, hextends.quoteInclude]⟩

/-- **`make_cpp_dir`** gives the directory of a name, with the quote chain behind it. -/
theorem SourceDirs.makeCppDir (h : SourceDirs r) (hinv : SearchInv W r) (dirName : Path) (sysp : Nat) :
    SourceDirs (makeCppDir r dirName sysp).1 ∧
      ((makeCppDir r dirName sysp).1.dir (makeCppDir r dirName sysp).2).name = dirName ∧
      (makeCppDir r dirName sysp).1.next (makeCppDir r dirName sysp).2 = r.quoteInclude := by
  have hextends := (makeCppDir_spec hinv dirName sysp).2.1
  unfold Cpp.makeCppDir at hextends ⊢
  cases hlookup : r.dirHash.lookup dirName with
  | some d =>
      obtain ⟨l₁, l₂, hhash, -⟩ := List.lookup_eq_some_iff.mp hlookup
      have hmem : (dirName, d) ∈ r.dirHash := by
        rw [hhash]
        exact List.mem_append_right _ List.mem_cons_self
      exact ⟨h, h (dirName, d) hmem⟩
  | none =>
      rw [hlookup] at hextends
      have hnew : (({ r with
          dirs := r.dirs ++ [⟨r.quoteInclude, dirName, sysp, none⟩]
          dirHash := (dirName, .node r.dirs.length) :: r.dirHash } : Reader).dir (.node r.dirs.length)) =
            ⟨r.quoteInclude, dirName, sysp, none⟩ := by
        rw [Reader.dir, List.getD_eq_getElem?_getD, List.getElem?_concat_length, Option.getD_some]
      have hold : SourceDirs ({ r with dirs := r.dirs ++ [⟨r.quoteInclude, dirName, sysp, none⟩] } : Reader) :=
        h.of_extends hinv ⟨hextends.dirs, Nat.le_refl _, fun _ _ => rfl, rfl, rfl, rfl, rfl⟩ rfl
      refine ⟨fun e he => ?_, congrArg CppDir.name hnew, congrArg CppDir.next hnew⟩
      obtain rfl | he := List.mem_cons.mp he
      · exact ⟨congrArg CppDir.name hnew, congrArg CppDir.next hnew⟩
      · exact hold e he

theorem SourceDirs.searchPathHead (h : SourceDirs r) (hinv : SearchInv W r) :
    SourceDirs (searchPathHead r fname angleBrackets type).1 ∧
      (searchPathHead r fname angleBrackets type).1.quoteIgnoresSourceDir = r.quoteIgnoresSourceDir := by
  have hmake : ∀ dirName sysp, (Cpp.makeCppDir r dirName sysp).1.quoteIgnoresSourceDir = r.quoteIgnoresSourceDir := by
    intro dirName sysp
    unfold Cpp.makeCppDir
    split <;> rfl
  unfold Cpp.searchPathHead
  dsimp only
  split_ifs
  · exact ⟨h, rfl⟩
  · exact ⟨h, rfl⟩
  · exact ⟨h, rfl⟩
  · exact ⟨(h.makeCppDir hinv _ _).1, hmake _ _⟩
  · exact ⟨h, rfl⟩
  · exact ⟨(h.makeCppDir hinv _ _).1, hmake _ _⟩

/-! ### Directives -/

/-- The search of a directive adds a file at most. -/
theorem findInclude_adds (hinv : SearchInv W r) {opened : Option Nat}
    (hfind : findInclude false out validPch r fname angleBrackets type = some (r', opened)) :
    r' = (searchPathHead r fname angleBrackets type).1 ∨
      ∃ file, r' = (searchPathHead r fname angleBrackets type).1.addFile file := by
  have hhead := searchPathHead_spec hinv fname angleBrackets type
  cases hstart : (searchPathHead r fname angleBrackets type).2 with
  | none =>
      rw [findInclude_none out validPch hstart] at hfind
      cases hfind
      exact .inl rfl
  | some start =>
      have hplain : ∀ file : CppFile,
          findFile false out validPch (searchPathHead r fname angleBrackets type).1 fname start =
            some ((searchPathHead r fname angleBrackets type).1.addFile file,
              (searchPathHead r fname angleBrackets type).1.files.length) →
          searchesWrappers (searchPathHead r fname angleBrackets type).1 type start = false →
          r' = (searchPathHead r fname angleBrackets type).1.addFile file := by
        intro file hfile hno
        rw [findInclude_plain out validPch hstart hno, hfile] at hfind
        cases hfind
        rfl
      obtain ⟨-, habsolute⟩ | ⟨-, l, hl⟩ := hhead.start
      · obtain rfl : start = .noSearchPath := Option.some.inj (hstart.symm.trans habsolute)
        obtain ⟨file, hfile, -⟩ := @findFile_noSearchPath _ out _ hhead.searchInv validPch fname
        exact .inr ⟨file, hplain file hfile (by simp [searchesWrappers])⟩
      · rw [hstart] at hl
        by_cases hnext : type = .includeNext ∧ (r.file r.currentFile).dir.isSome
        · obtain ⟨file, hfile, -⟩ := @findFile_normal _ out _ hhead.searchInv _ _ hl validPch fname
          refine .inr ⟨file, hplain file hfile (decide_eq_false fun h => h.1 ?_)⟩
          rw [hhead.currentFile, Reader.file, hhead.files]
          exact hnext
        · obtain ⟨file, hfile, -⟩ := @findInclude_first _ out validPch _ _ _ _ hinv hnext _ _ hstart hl
          cases hfile.symm.trans hfind
          exact .inr ⟨_, rfl⟩

theorem compareFileDate_adds (hinv : SearchInv W r) {date : Int}
    (hcompare : compareFileDate false out validPch r fname angleBrackets = some (r', date)) :
    r' = (searchPathHead r fname angleBrackets .include).1 ∨
      ∃ file, r' = (searchPathHead r fname angleBrackets .include).1.addFile file := by
  have hhead := searchPathHead_spec hinv fname angleBrackets .include
  unfold compareFileDate at hcompare
  generalize searchPathHead r fname angleBrackets .include = head at hhead hcompare ⊢
  obtain ⟨r₁, start⟩ := head
  cases start with
  | none =>
      cases hcompare
      exact .inl rfl
  | some start =>
      have hfile : ∃ file, findFile false out validPch r₁ fname start = some (r₁.addFile file, r₁.files.length) := by
        obtain ⟨-, habsolute⟩ | ⟨-, l, hl⟩ := hhead.start
        · obtain rfl : start = .noSearchPath := Option.some.inj habsolute
          obtain ⟨file, hfind, -⟩ := @findFile_noSearchPath _ out _ hhead.searchInv validPch fname
          exact ⟨file, hfind⟩
        · obtain ⟨file, hfind, -⟩ := @findFile_normal _ out _ hhead.searchInv _ _ hl validPch fname
          exact ⟨file, hfind⟩
      obtain ⟨file, hfind⟩ := hfile
      dsimp only at hcompare
      rw [hfind] at hcompare
      dsimp only at hcompare
      refine .inr ⟨file, ?_⟩
      split_ifs at hcompare <;> cases hcompare <;> rfl

/-- A reader that has one more file. -/
theorem SourceDirs.adds {r₁ : Reader} (h : SourceDirs r₁) (hinv : SearchInv W r₁)
    (hadds : r' = r₁ ∨ ∃ file, r' = r₁.addFile file) :
    SourceDirs r' ∧ r'.quoteIgnoresSourceDir = r₁.quoteIgnoresSourceDir := by
  obtain rfl | ⟨file, rfl⟩ := hadds
  · exact ⟨h, rfl⟩
  · exact ⟨h.of_extends hinv (extends_addFile r₁ file) rfl, rfl⟩

theorem SourceDirs.of_search (h : SourceDirs r) (hinv : SearchInv W r) (hsearch : r'.search = r.search) :
    SourceDirs r' ∧ r'.quoteIgnoresSourceDir = r.quoteIgnoresSourceDir :=
  ⟨h.of_extends hinv (Extends.of_search hsearch) (congrArg SearchState.dirHash hsearch),
    congrArg SearchState.quoteIgnoresSourceDir hsearch⟩

/-- **Every directive** keeps the directories of the source files. -/
theorem SourceDirs.step (h : SourceDirs r) (hinv : SearchInv W r) {directive : Directive} {stacked : Bool}
    (hstep : step false out validPch r directive = some (r', stacked)) :
    SourceDirs r' ∧ r'.quoteIgnoresSourceDir = r.quoteIgnoresSourceDir := by
  cases directive with
  | «include» type angleBrackets fname =>
      have hhead := searchPathHead_spec hinv fname angleBrackets (handledType r type)
      have hdirs := @SourceDirs.searchPathHead _ _ fname angleBrackets (handledType r type) h hinv
      obtain ⟨r₁, opened, hfind, hinv₁, -⟩ :=
        @findInclude_spec W out validPch r fname angleBrackets (handledType r type) hinv
      obtain ⟨hdirs₁, hignores₁⟩ := hdirs.1.adds hhead.searchInv (findInclude_adds hinv hfind)
      rw [Cpp.step, stackInclude, hfind] at hstep
      cases opened with
      | none =>
          cases hstep
          exact ⟨hdirs₁, hignores₁.trans hdirs.2⟩
      | some f =>
          have hsearch := @search_stackFile out r₁ f (decide (handledType r type = .import_))
          obtain ⟨hdirs₂, hignores₂⟩ := hdirs₁.of_search hinv₁ hsearch
          have hr' : (stackFile out r₁ f (decide (handledType r type = .import_))).1 = r' :=
            congrArg Prod.fst (Option.some.inj hstep)
          rw [← hr']
          exact ⟨hdirs₂, hignores₂.trans (hignores₁.trans hdirs.2)⟩
  | pragmaOnce =>
      cases hstep
      exact h.of_search hinv search_markFileOnceOnly
  | pragmaDependency angleBrackets fname =>
      have hhead := searchPathHead_spec hinv fname angleBrackets .include
      have hdirs := @SourceDirs.searchPathHead _ _ fname angleBrackets .include h hinv
      obtain ⟨r₁, date, hcompare, -⟩ := @compareFileDate_spec W out validPch r fname angleBrackets hinv
      obtain ⟨hdirs₁, hignores₁⟩ := hdirs.1.adds hhead.searchInv (compareFileDate_adds hinv hcompare)
      rw [Cpp.step, hcompare] at hstep
      cases hstep
      exact ⟨hdirs₁, hignores₁.trans hdirs.2⟩
  | define m =>
      cases hstep
      exact h.of_search hinv rfl
  | undef m =>
      cases hstep
      exact h.of_search hinv rfl
  | endOfFile =>
      cases hstep
      exact h.of_search hinv search_popFileBuffer

/-- **In every state that is reached** the chains, the directories of the source files and the effect of `-I-` are as
they were registered. -/
theorem reached_spec {r₀ : Reader} (hregistered : Registered W r₀) (h : Reached out r₀ r) :
    SearchInv W r ∧ SourceDirs r ∧ Extends r₀ r ∧ r.quoteIgnoresSourceDir = r₀.quoteIgnoresSourceDir := by
  have hinv₀ := searchInv_registered hregistered
  have hdirs₀ : SourceDirs r₀ := by
    obtain ⟨r₁, quote, bracket, wrapper, ignores, Q, rfl, -, hhash, -⟩ := hregistered
    intro e he
    rw [show (setIncludeChains r₁ quote bracket wrapper ignores).dirHash = [] from hhash] at he
    cases he
  obtain ⟨validPch, fname, r₁, hmain, hrun⟩ := h
  obtain ⟨file, hfind, hfile⟩ := @findFile_noSearchPath _ out _ hinv₀ validPch fname
  unfold readMainFile at hmain
  rw [hfind] at hmain
  dsimp only at hmain
  split_ifs at hmain
  have hextends : Extends (r₀.addFile file) { r₀.addFile file with mainFile := r₀.files.length } :=
    ⟨List.prefix_rfl, Nat.le_refl _, fun _ _ => rfl, rfl, rfl, rfl, rfl⟩
  have hinv₁ := hextends.searchInv hfile (fun e he => .inl he) fun f hf hge => absurd hf (Nat.not_lt_of_le hge)
  have hsearch := @search_stackFile out { r₀.addFile file with mainFile := r₀.files.length } r₀.files.length false
  have hdirs₁ : SourceDirs { r₀.addFile file with mainFile := r₀.files.length } :=
    hdirs₀.of_extends hinv₀ ((extends_addFile r₀ file).trans hextends) rfl
  obtain ⟨hdirs₂, hignores₂⟩ := hdirs₁.of_search hinv₁ hsearch
  have hstart : SearchInv W r₁ ∧ SourceDirs r₁ ∧ Extends r₀ r₁ ∧ r₁.quoteIgnoresSourceDir = r₀.quoteIgnoresSourceDir := by
    rw [← Option.some.inj hmain]
    exact ⟨searchInv_of_search hinv₁ hsearch, hdirs₂,
      ((extends_addFile r₀ file).trans hextends).trans (Extends.of_search hsearch), hignores₂⟩
  induction hrun with
  | refl => exact hstart
  | tail _ hhandles ih =>
      obtain ⟨validPch, directive, stacked, hstep⟩ := hhandles
      obtain ⟨hinv, hdirs, hextends, hignores⟩ := ih
      obtain ⟨r', stacked', hstep', hinv', hextends'⟩ := @step_spec W out validPch _ hinv directive
      cases hstep.symm.trans hstep'
      obtain ⟨hdirs', hignores'⟩ := hdirs.step hinv hstep
      exact ⟨hinv', hdirs', hextends.trans hextends', hignores'.trans hignores⟩

/-! ## What a directive searches -/

/-- A directive whose path is `path` searches the wrapper directories and this path; without a path it finds nothing. -/
def SearchesPath (W : List Nat) (out : Outside) (validPch : ValidPch) (r : Reader) (fname : Path) (angleBrackets : Bool)
    (type : IncludeType) (path : List DirRef) : Prop :=
  Walks (searchPathHead r fname angleBrackets type).1.next (searchPathHead r fname angleBrackets type).2 path ∧
    if path = [] then
      findInclude false out validPch r fname angleBrackets type =
        some ((searchPathHead r fname angleBrackets type).1, none)
    else SearchesWrappersFirst W out validPch r fname angleBrackets type path

/-- **What directives search** when the quote chain is `Q`, `B` and `S`, the bracket chain `B` and `S`, and the wrapper
chain `W`. The directives are those that do not go on behind the directory of the current file. -/
structure Searches (Q B S W : List Nat) (ignores : Bool) (out : Outside) (r : Reader) : Prop where
  returns : ∀ validPch directive, (step false out validPch r directive).isSome
  /-- An empty bracket chain counts as the quote chain. -/
  brackets : ∀ validPch fname type, isAbsolutePath fname = false →
    ¬ (type = .includeNext ∧ (r.file r.currentFile).dir.isSome) →
      SearchesPath W out validPch r fname true type ((if B ++ S = [] then Q else B ++ S).map .node)
  quotes : ∀ validPch fname type, isAbsolutePath fname = false →
    ¬ (type = .includeNext ∧ (r.file r.currentFile).dir.isSome) → type ≠ .cmdline → ignores = true →
      SearchesPath W out validPch r fname false type ((Q ++ (B ++ S)).map .node)
  /-- Unless there was an `-I-`, the directory of the current file comes first. -/
  sourceDir : ∀ validPch fname type, isAbsolutePath fname = false →
    ¬ (type = .includeNext ∧ (r.file r.currentFile).dir.isSome) → type = .cmdline ∨ ignores = false →
      ∃ d, ((searchPathHead r fname false type).1.dir d).name =
          (if type = .cmdline then ['.', '/'] else dirNameOfFile (r.file r.currentFile)) ∧
        SearchesPath W out validPch r fname false type (d :: (Q ++ (B ++ S)).map .node)

theorem searchesPath (hinv : SearchInv W r) (hrelative : isAbsolutePath fname = false)
    (hnext : ¬ (type = .includeNext ∧ (r.file r.currentFile).dir.isSome)) {path : List DirRef}
    (hwalks : Walks (searchPathHead r fname angleBrackets type).1.next
      (searchPathHead r fname angleBrackets type).2 path) :
    SearchesPath W out validPch r fname angleBrackets type path := by
  have hhead := searchPathHead_spec hinv fname angleBrackets type
  obtain ⟨habsolute, -⟩ | ⟨-, l, hl⟩ := hhead.start
  · cases habsolute.symm.trans hrelative
  obtain rfl : path = l := hwalks.unique hl.walks
  refine ⟨hwalks, ?_⟩
  cases hstart : (searchPathHead r fname angleBrackets type).2 with
  | none =>
      rw [hstart] at hwalks
      rw [if_pos (hwalks.unique (walks_nil.mpr rfl))]
      exact findInclude_none out validPch hstart
  | some start =>
      rw [if_neg fun hnil => ?_]
      · rw [hstart] at hl
        exact searchesWrappersFirst hinv hnext hstart hl
      · rw [hnil, hstart] at hwalks
        cases hwalks

/-! ## Registering -/

namespace IncPath

variable {s' : IncPath} {a : Asked} {stat : Path → DirStat} {Q B S : List Nat}

/-- **What `cpp_set_include_chains` gets** is what `Registered` asks for. -/
theorem SearchPaths.registered (h : SearchPaths stat a s' Q B S W) : Registered W s'.toReader := by
  have hlt : ∀ i ∈ Q ++ (B ++ S) ++ W, i < s'.toReader.dirs.length := fun i hi => by
    rw [length_toReader]
    exact lt_of_noted (h.noted i hi)
  refine ⟨_, _, _, _, _, Q ++ (B ++ S), rfl, rfl, rfl, walks_toReader h.quote, walks_toReader h.wrapper,
    fun i hi => ⟨hlt i (List.mem_append_left W hi), h.apart i hi⟩, fun i hi => hlt i (List.mem_append_right _ hi)⟩

/-- A bracket chain that is null is the quote chain. -/
theorem SearchPaths.bracketInclude (h : SearchPaths stat a s' Q B S W) :
    Walks s'.toReader.next s'.toReader.bracketInclude ((if B ++ S = [] then Q else B ++ S).map .node) := by
  have hquote := walks_toReader h.quote
  have hbracket := walks_toReader h.bracket
  have hlength : ((Q ++ (B ++ S)).map DirRef.node).length ≤ s'.toReader.dirs.length :=
    length_le_dirs hquote.nodup fun d hd => by
      obtain ⟨i, hi, rfl⟩ := List.mem_map.mp hd
      exact ⟨i, rfl, length_toReader ▸ lt_of_noted (h.noted i (List.mem_append_left W hi))⟩
  -- the walk is over the heap before the chains are set
  obtain ⟨r₀, hnext, hdirs, hinclude⟩ : ∃ r₀ : Reader, r₀.next = s'.toReader.next ∧ r₀.dirs = s'.toReader.dirs ∧
      s'.toReader.bracketInclude =
        if ∃ d ∈ r₀.walk r₀.dirs.length ((s'.heads .quote).map .node), some d = (s'.heads .bracket).map .node then
          (s'.heads .bracket).map .node
        else (s'.heads .quote).map .node :=
    ⟨{ dirs := s'.dirs.map fun dir => ⟨dir.next.map .node, dir.name, dir.sysp, none⟩ },
      funext fun d => by cases d <;> rfl, rfl, rfl⟩
  rw [hinclude, walk_eq (hnext ▸ hquote) (hdirs ▸ hlength)]
  cases hBS : B ++ S with
  | nil =>
      rw [hBS] at hbracket hquote
      rw [if_pos rfl, if_neg, ← List.append_nil Q]
      · exact hquote
      · rintro ⟨d, -, hd⟩
        rw [walks_nil.mp hbracket] at hd
        cases hd
  | cons i l =>
      rw [hBS] at hbracket
      rw [if_neg (List.cons_ne_nil i l), if_pos]
      · exact hbracket
      · exact ⟨.node i, List.mem_map.mpr ⟨i, by simp, rfl⟩, hbracket.1.symm⟩

end IncPath

/-- **What a directive searches**, when the search paths `Q`, `B`, `S` and `W` were registered. -/
theorem searches_of_searchPaths {stat : Path → DirStat} {a : Asked} {s' : IncPath} {Q B S : List Nat}
    (hpaths : IncPath.SearchPaths stat a s' Q B S W) (hreached : Reached out s'.toReader r) :
    Searches Q B S W s'.quoteIgnoresSourceDir out r := by
  obtain ⟨hinv, hdirs, hextends, hignores⟩ := reached_spec hpaths.registered hreached
  have hlt : ∀ i ∈ Q ++ (B ++ S), i < s'.toReader.dirs.length := fun i hi =>
    IncPath.length_toReader ▸ lt_of_noted (hpaths.noted i (List.mem_append_left W hi))
  -- a registered path, in the state in which the directive begins its search
  have hlater : ∀ {r' : Reader} {p : Option DirRef} {l : List Nat}, Extends r r' → (∀ i ∈ l, i ∈ Q ++ (B ++ S)) →
      Walks s'.toReader.next p (l.map DirRef.node) → Walks r'.next p (l.map DirRef.node) := by
    intro r' p l hextends' hmem hwalks
    refine hwalks.congr fun d hd => ?_
    obtain ⟨i, hi, rfl⟩ := List.mem_map.mp hd
    exact (hextends.trans hextends').next_node (hlt i (hmem i hi))
  have hquote : ∀ r', Extends r r' → Walks r'.next r.quoteInclude ((Q ++ (B ++ S)).map .node) := fun r' h => by
    rw [hextends.quoteInclude]
    exact hlater h (fun i hi => hi) (IncPath.walks_toReader hpaths.quote)
  refine ⟨?_, ?_, ?_, ?_⟩
  · intro validPch directive
    obtain ⟨r', stacked, hstep, -⟩ := @step_spec W out validPch r hinv directive
    rw [hstep]
    rfl
  · intro validPch fname type hrelative hnext
    have hhead : searchPathHead r fname true type = (r, r.bracketInclude) := by
      unfold searchPathHead
      rw [if_neg (Bool.eq_false_iff.mp hrelative), if_neg hnext, if_pos rfl]
    refine searchesPath hinv hrelative hnext ?_
    rw [hhead, hextends.bracketInclude]
    refine hlater (.refl r) (fun i hi => ?_) hpaths.bracketInclude
    split_ifs at hi
    · exact List.mem_append_left _ hi
    · exact List.mem_append_right _ hi
  · intro validPch fname type hrelative hnext htype hignored
    have hhead : searchPathHead r fname false type = (r, r.quoteInclude) := by
      unfold searchPathHead
      rw [if_neg (Bool.eq_false_iff.mp hrelative), if_neg hnext, if_neg (by decide), if_neg htype, if_pos]
      exact hignores.trans hignored
    refine searchesPath hinv hrelative hnext ?_
    rw [hhead]
    exact hquote r (.refl r)
  · intro validPch fname type hrelative hnext hsource
    obtain ⟨sysp, hhead⟩ : ∃ sysp, searchPathHead r fname false type =
        ((makeCppDir r (if type = .cmdline then ['.', '/'] else dirNameOfFile (r.file r.currentFile)) sysp).1,
          some (makeCppDir r (if type = .cmdline then ['.', '/'] else dirNameOfFile (r.file r.currentFile)) sysp).2) := by
      unfold searchPathHead
      rw [if_neg (Bool.eq_false_iff.mp hrelative), if_neg hnext, if_neg (by decide)]
      by_cases htype : type = .cmdline
      · rw [if_pos htype, if_pos htype]
        exact ⟨0, rfl⟩
      · have hignored : r.quoteIgnoresSourceDir = false := hignores.trans (hsource.resolve_left htype)
        rw [if_neg htype, if_neg htype, if_neg (Bool.eq_false_iff.mp hignored)]
        exact ⟨_, rfl⟩
    obtain ⟨-, hname, hnext'⟩ := hdirs.makeCppDir hinv
      (if type = .cmdline then ['.', '/'] else dirNameOfFile (r.file r.currentFile)) sysp
    have hextends' := (makeCppDir_spec hinv
      (if type = .cmdline then ['.', '/'] else dirNameOfFile (r.file r.currentFile)) sysp).2.1
    refine ⟨(makeCppDir r (if type = .cmdline then ['.', '/'] else dirNameOfFile (r.file r.currentFile)) sysp).2, ?_,
      searchesPath hinv hrelative hnext ?_⟩
    · rw [hhead]
      exact hname
    · rw [hhead]
      refine ⟨rfl, ?_⟩
      rw [hnext']
      exact hquote _ hextends'

/-- **What a directive searches, from the command line on.** The options give search paths `Q`, `B`, `S` and `W`, and in
every state that is reached from them every directive returns, and an `#include` searches the wrapper directories and the
paths for its form, in the order in which they were registered. -/
theorem searches_ofOptions (config : IncConfig) (options : List IncOption) (out : Outside) :
    ∃ s' Q B S W, IncPath.ofOptions config options = some s' ∧
      IncPath.SearchPaths config.stat (asked config options) s' Q B S W ∧
        ∀ r, Reached out s'.toReader r → Searches Q B S W s'.quoteIgnoresSourceDir out r := by
  have hasks := IncPath.asks_collect config options
  obtain ⟨L, hL, hnames⟩ := hasks.names
  obtain ⟨s', Q, B, S, W, hmerge, hmerged⟩ := @IncPath.Collects.merge _ L config.stat hL
  have hpaths := hL.searchPaths hmerged hnames hasks.quoteIgnoresSourceDir
  exact ⟨s', Q, B, S, W, (IncPath.ofOptions_eq config options).trans hmerge, hpaths,
    fun r hreached => searches_of_searchPaths hpaths hreached⟩

end

/-! ### A wrapper directory and a normal one

For `-iwrapper w -I n`, where `w` and `n` are directories. -/

/-- The configuration of the example, without standard directories. -/
def wrapperConfig : IncConfig where
  getenv _ := none
  includeDefaults := []
  gccIncludeDir := []
  gccIncludeDirLen := 0
  updatePath path _ := path
  cplusplus := true
  objc := false
  stat name := if name = ['w'] then .directory 1 0 else if name = ['n'] then .directory 2 0 else .missing

theorem searches_ofOptions_main :
    ∃ s' Q B S r, IncPath.ofOptions wrapperConfig [.iwrapper ['w'], .dashI ['n']] = some s' ∧
      Reached wrapperFiles s'.toReader r ∧ Q = [] ∧ B ++ S = [1] ∧ Searches Q B S [0] false wrapperFiles r := by
  obtain ⟨s', Q, B, S, W, hs, hpaths, hsearches⟩ :=
    searches_ofOptions wrapperConfig [.iwrapper ['w'], .dashI ['n']] wrapperFiles
  -- the chains as they are registered
  obtain ⟨hdirs, hquote, hbracket, hwrapper, hignores⟩ :
      s'.dirs = [⟨none, ['w'], 0, true, some (1, 0)⟩, ⟨none, ['n'], 0, true, some (2, 0)⟩] ∧
        s'.heads .quote = some 1 ∧ s'.heads .bracket = some 1 ∧ s'.heads .wrapper = some 0 ∧
          s'.quoteIgnoresSourceDir = false := by
    cases hs
    exact ⟨rfl, rfl, rfl, rfl, rfl⟩
  have hBS : B ++ S = [1] := hpaths.bracket.unique (by rw [hdirs, hbracket]; exact ⟨rfl, rfl⟩)
  have hQ : Q = [] := by
    have hQBS : Q ++ (B ++ S) = [] ++ [1] := hpaths.quote.unique (by rw [hdirs, hquote]; exact ⟨rfl, rfl⟩)
    rw [hBS] at hQBS
    exact List.append_cancel_right hQBS
  have hW : W = [0] := hpaths.wrapper.unique (by rw [hdirs, hwrapper]; exact ⟨rfl, rfl⟩)
  obtain ⟨r, hmain⟩ : ∃ r, readMainFile false wrapperFiles (fun _ => none) s'.toReader ['m'] = some r := by
    cases hs
    exact ⟨_, rfl⟩
  have hreached : Reached wrapperFiles s'.toReader r := ⟨fun _ => none, ['m'], r, hmain, .refl⟩
  have hsearch := hsearches r hreached
  rw [hW, hignores] at hsearch
  exact ⟨s', Q, B, S, r, hs, hreached, hQ, hBS, hsearch⟩

end Cpp

end GccXml

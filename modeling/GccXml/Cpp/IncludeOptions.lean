import GccXml.Cpp.IncludeChains

namespace GccXml

/-! # `Cpp.IncludeOptions` — the directories that are asked for

What a user asks for with `-I`, `-iquote`, `-isystem` and the like are names, in the order of the command line and apart
by kind; the environment and the standard directories of the compiler come behind them. `Asked` says this with lists, and
knows nothing of chains.

`c-incpath.c` collects the same names in nodes on the heap, with a head and a tail for each chain, before it merges any.
The invariant is `Collects`: each chain is walked to its end, the tail is the last node of the walk, and no node is in
two chains. So a node that is put behind a tail lengthens one chain and leaves the others alone, and `-I-`, which makes
one chain of another by its head and its tail, takes no node from two. `Asks` joins the two: the names along each chain
are those that were asked for. It holds at the beginning and every option, the environment and the standard directories
keep it, so that it holds when `merge_include_chains` is called, which is where `Cpp.IncludePaths` begins. -/

namespace Cpp

open Chain

/-! ## What is asked for -/

/-- **The directories that are asked for**, of each kind in order, and what else the options about them say. -/
structure Asked where
  names : ChainName → List Path := fun _ => []
  quoteIgnoresSourceDir : Bool := false
  iPrefix : Option Path := none
  imultilib : Option Path := none
  sysroot : Option Path := none
  stdInc : Bool := true
  stdCxxInc : Bool := true

namespace Asked

/-- More directories of one kind. -/
def add (a : Asked) (chain : ChainName) (names : List Path) : Asked :=
  { a with names := fun c => if c = chain then a.names c ++ names else a.names c }

/-- `-I-`: the directories of `-I` so far are for names in quotes only, in the place of those of `-iquote`. -/
def splitQuotes (a : Asked) : Asked :=
  { a with
    names := fun c => if c = .bracket then [] else if c = .quote then a.names .bracket else a.names c
    quoteIgnoresSourceDir := true }

/-- A name behind the prefix of `-iprefix`, or behind that of the compiler. -/
def prefixed (config : IncConfig) (a : Asked) (suffix : Path) : Path :=
  a.iPrefix.getD (config.gccIncludeDir.take config.gccIncludeDirLen) ++ suffix

/-- **What one option asks for.** -/
def option (config : IncConfig) (a : Asked) : IncOption → Asked
  | .dashI arg => if arg = ['-'] then a.splitQuotes else a.add .bracket [arg]
  | .idirafter arg => a.add .after [arg]
  | .imultilib arg => { a with imultilib := some arg }
  | .iPrefix arg => { a with iPrefix := some arg }
  | .iquote arg => a.add .quote [arg]
  | .isysroot arg => { a with sysroot := some arg }
  | .isystem arg => a.add .system [arg]
  | .iwithPrefix arg => a.add .system [a.prefixed config arg]
  | .iwithPrefixBefore arg => a.add .bracket [a.prefixed config arg]
  | .iwrapper arg => a.add .wrapper [arg]
  | .nostdinc => { a with stdInc := false }
  | .nostdincxx => { a with stdCxxInc := false }

/-- The directories of an environment variable: the parts between its colons, an empty one for the current directory. -/
def environmentDirs (config : IncConfig) (envVar : String) : List Path :=
  match config.getenv envVar with
  | none | some [] => []
  | some text => (text.splitOnP (· == ':')).map fun name => if name = [] then ['.'] else name

/-- A standard directory, with the subdirectory of `-imultilib` where it has one. -/
def multilibDir (a : Asked) (p : DefaultInclude) (name : Path) : Path :=
  match p.multilib, a.imultilib with
  | true, some imultilib => name ++ ['/'] ++ imultilib
  | _, _ => name

/-- The standard directory itself, under the directory of `-isysroot` where it belongs there. -/
def standardDir (config : IncConfig) (a : Asked) (p : DefaultInclude) : Path :=
  match a.sysroot, p.addSysroot with
  | some sysroot, true => sysroot ++ p.fname
  | _, _ => config.updatePath p.fname p.component

/-- Whether the standard directory is one of the compiler's own, which `-iprefix` moves. -/
def isMoved (config : IncConfig) (a : Asked) (p : DefaultInclude) : Bool :=
  !(a.sysroot.isSome && p.addSysroot) &&
    p.fname.take config.gccIncludeDirLen = config.gccIncludeDir.take config.gccIncludeDirLen

/-- The compiler's own directories under the prefix of `-iprefix`. -/
def movedDirs (config : IncConfig) (a : Asked) (dirs : List DefaultInclude) : List Path :=
  match a.iPrefix with
  | none => []
  | some iPrefix =>
      if config.gccIncludeDirLen = 0 then []
      else (dirs.filter (a.isMoved config)).map fun p =>
        a.multilibDir p (iPrefix ++ p.fname.drop config.gccIncludeDirLen)

/-- The standard directories: those for C++ only where they are wanted, those that `-iprefix` moves first. -/
def standardDirs (config : IncConfig) (a : Asked) : List Path :=
  let dirs := config.includeDefaults.filter fun p => !p.cplusplus || (a.stdCxxInc && config.cplusplus)
  a.movedDirs config dirs ++ dirs.map fun p => a.multilibDir p (a.standardDir config p)

/-- The directories of the environment and of the compiler, behind those of the options. -/
def addDefaults (config : IncConfig) (a : Asked) : Asked :=
  let a := a.add .bracket (environmentDirs config "CPATH")
  let a := a.add .system (environmentDirs config (IncPath.langEnvVar config))
  if a.stdInc then a.add .system (a.standardDirs config) else a

theorem add_add (a : Asked) (chain : ChainName) (names names' : List Path) :
    (a.add chain names).add chain names' = a.add chain (names ++ names') := by
  have hnames : ((a.add chain names).add chain names').names = (a.add chain (names ++ names')).names := by
    funext c
    show (if c = chain then (if c = chain then a.names c ++ names else a.names c) ++ names'
      else if c = chain then a.names c ++ names else a.names c) = if c = chain then a.names c ++ (names ++ names') else a.names c
    split_ifs
    · exact List.append_assoc ..
    · rfl
  exact congrArg (fun names => { a with names := names }) hnames

theorem add_nil (a : Asked) (chain : ChainName) : a.add chain [] = a := by
  unfold add
  simp only [List.append_nil, ite_self]

end Asked

/-- **What a command line asks for.** -/
def asked (config : IncConfig) (options : List IncOption) : Asked := (options.foldl (Asked.option config) {}).addDefaults config

/-! ## Collecting -/

/-- **The chains while the options are read**: `L c` are the nodes of the chain `c`. -/
structure IncPath.Collects (s : IncPath) (L : ChainName → List Nat) : Prop where
  walks : ∀ c, Walks (nextIn s.dirs) (s.heads c) (L c)
  tail : ∀ c, s.tails c = (L c).getLast?
  lt : ∀ c, ∀ i ∈ L c, i < s.dirs.length
  apart : ∀ c c', c ≠ c' → ∀ i ∈ L c, i ∉ L c'

namespace IncPath

variable {s : IncPath} {L : ChainName → List Nat} {a : Asked} {config : IncConfig}

theorem collects_empty : ({} : IncPath).Collects fun _ => [] := ⟨fun _ => rfl, fun _ => rfl, nofun, nofun⟩

/-- The new node is in no chain. -/
theorem Collects.fresh (h : s.Collects L) (c : ChainName) : s.dirs.length ∉ L c :=
  fun hmem => Nat.lt_irrefl _ (h.lt c _ hmem)

/-- A node that is appended to the heap changes no chain. -/
theorem Collects.append (h : s.Collects L) (dir : IncDir) (c : ChainName) :
    Walks (nextIn (s.dirs ++ [dir])) (s.heads c) (L c) :=
  (h.walks c).congr fun i hi => by rw [nextIn, nextIn, List.getElem?_append_left (h.lt c i hi)]

/-! A node is appended to one of the chains: what is in them then, where they end, and how they are linked. -/

theorem mem_appended {n i : Nat} {chain c : ChainName} :
    i ∈ (if c = chain then L c ++ [n] else L c) ↔ i ∈ L c ∨ c = chain ∧ i = n := by
  by_cases hc : c = chain
  · rw [if_pos hc, List.mem_append, List.mem_singleton, and_iff_right hc]
  · rw [if_neg hc]
    exact (or_iff_left fun h => hc h.1).symm

theorem Collects.lt_appended (h : s.Collects L) {chain c : ChainName} {i : Nat}
    (hi : i ∈ (if c = chain then L c ++ [s.dirs.length] else L c)) : i < s.dirs.length + 1 := by
  rcases mem_appended.mp hi with hi | ⟨-, rfl⟩
  · exact Nat.lt_succ_of_lt (h.lt c i hi)
  · exact Nat.lt_succ_self _

theorem Collects.apart_appended (h : s.Collects L) {chain c c' : ChainName} (hne : c ≠ c') {i : Nat}
    (hi : i ∈ (if c = chain then L c ++ [s.dirs.length] else L c)) :
    i ∉ (if c' = chain then L c' ++ [s.dirs.length] else L c') := by
  intro hi'
  rcases mem_appended.mp hi with hi | ⟨hc, rfl⟩
  · rcases mem_appended.mp hi' with hi' | ⟨-, rfl⟩
    · exact h.apart c c' hne i hi hi'
    · exact h.fresh c hi
  · rcases mem_appended.mp hi' with hi' | ⟨hc', -⟩
    · exact h.fresh c' hi'
    · exact hne (hc.trans hc'.symm)

theorem Collects.tail_appended (h : s.Collects L) (chain c : ChainName) :
    (if c = chain then some s.dirs.length else s.tails c) =
      (if c = chain then L c ++ [s.dirs.length] else L c).getLast? := by
  by_cases hc : c = chain
  · rw [if_pos hc, if_pos hc, List.getLast?_concat]
  · rw [if_neg hc, if_neg hc, h.tail c]

/-- The new node is the first of an empty chain. -/
theorem Collects.walks_first (h : s.Collects L) {dir : IncDir} (hnull : dir.next = none) {chain : ChainName}
    (hempty : L chain = []) (c : ChainName) :
    Walks (nextIn (s.dirs ++ [dir])) (if c = chain then some s.dirs.length else s.heads c)
      (if c = chain then L c ++ [s.dirs.length] else L c) := by
  by_cases hc : c = chain
  · subst hc
    rw [if_pos rfl, if_pos rfl, hempty]
    refine ⟨rfl, ?_⟩
    rw [nextIn, List.getElem?_concat_length, Option.bind_some, hnull]
    rfl
  · rw [if_neg hc, if_neg hc]
    exact h.append dir c

/-- The new node comes behind the last one of its chain. -/
theorem Collects.walks_linked (h : s.Collects L) {dir : IncDir} (hnull : dir.next = none) {chain : ChainName}
    {l : List Nat} {tail : Nat} (hl : L chain = l ++ [tail]) (c : ChainName) :
    Walks (nextIn ((s.dirs ++ [dir]).modify tail fun dir => { dir with next := some s.dirs.length })) (s.heads c)
      (if c = chain then L c ++ [s.dirs.length] else L c) := by
  have htail : tail ∈ L chain := by simp [hl]
  have hlt := h.lt chain tail htail
  have hnew : nextIn (s.dirs ++ [dir]) s.dirs.length = none := by
    rw [nextIn, List.getElem?_concat_length, Option.bind_some, hnull]
  have hother : ∀ i, i ≠ tail →
      nextIn ((s.dirs ++ [dir]).modify tail fun dir => { dir with next := some s.dirs.length }) i =
        nextIn (s.dirs ++ [dir]) i := by
    intro i hi
    rw [nextIn, nextIn, List.getElem?_modify_ne _ _ (Ne.symm hi)]
  have hself : nextIn ((s.dirs ++ [dir]).modify tail fun dir => { dir with next := some s.dirs.length }) tail =
      some s.dirs.length := by
    rw [nextIn, List.getElem?_modify_eq, List.getElem?_append_left hlt, List.getElem?_eq_getElem hlt]
    rfl
  by_cases hc : c = chain
  · subst hc
    have hwalks := h.append dir c
    rw [if_pos rfl, hl, List.append_assoc, List.singleton_append]
    rw [hl] at hwalks
    refine hwalks.redirect (fun i hi => hother i ?_) hself ⟨rfl, ?_⟩
    · exact fun heq => (List.nodup_append.mp hwalks.nodup).2.2 i hi tail List.mem_cons_self heq
    · rw [hother _ (Nat.ne_of_gt hlt), hnew]
      rfl
  · rw [if_neg hc]
    exact (h.append dir c).congr fun i hi => hother i fun heq => h.apart c chain hc i hi (heq ▸ htail)

/-- **`add_cpp_dir_path`** appends a node that was just allocated to its chain. -/
theorem Collects.addCppDirPath (h : s.Collects L) {dir : IncDir} (hnull : dir.next = none) (chain : ChainName) :
    (({ s with dirs := s.dirs ++ [dir] } : IncPath).addCppDirPath s.dirs.length chain).Collects fun c =>
      if c = chain then L c ++ [s.dirs.length] else L c := by
  unfold IncPath.addCppDirPath
  dsimp only
  cases htail : s.tails chain with
  | none =>
      have hempty : L chain = [] := List.getLast?_eq_none_iff.mp ((h.tail chain).symm.trans htail)
      refine ⟨h.walks_first hnull hempty, h.tail_appended chain, fun c i hi => ?_, fun c c' hne i => h.apart_appended hne⟩
      show i < (s.dirs ++ [dir]).length
      rw [List.length_append]
      exact h.lt_appended hi
  | some tail =>
      obtain ⟨l, hl⟩ : ∃ l, L chain = l ++ [tail] := by
        have hlast := (h.tail chain).symm.trans htail
        obtain hnil | ⟨l, last, hl⟩ := List.eq_nil_or_concat' (L chain)
        · rw [hnil] at hlast
          cases hlast
        · rw [hl, List.getLast?_concat] at hlast
          exact ⟨l, by rw [hl, Option.some.inj hlast]⟩
      refine ⟨h.walks_linked hnull hl, h.tail_appended chain, fun c i hi => ?_, fun c c' hne i => h.apart_appended hne⟩
      show i < ((s.dirs ++ [dir]).modify tail fun dir => { dir with next := some s.dirs.length }).length
      rw [List.length_modify, List.length_append]
      exact h.lt_appended hi

/-- **`add_path`** appends a new node to its chain. -/
theorem Collects.addPath (h : s.Collects L) (path : Path) (chain : ChainName) (cxxAware userSuppliedP : Bool) :
    (s.addPath path chain cxxAware userSuppliedP).Collects fun c =>
      if c = chain then L c ++ [s.dirs.length] else L c :=
  h.addCppDirPath rfl chain

/-- **`split_quote_chain`** makes the bracket chain the quote chain. -/
theorem Collects.splitQuoteChain (h : s.Collects L) :
    s.splitQuoteChain.Collects fun c => if c = .bracket then [] else if c = .quote then L .bracket else L c := by
  refine ⟨fun c => ?_, fun c => ?_, fun c i hi => ?_, fun c c' hne i hi hi' => ?_⟩
  · cases c with
    | quote => exact h.walks .bracket
    | bracket => rfl
    | system => exact h.walks .system
    | after => exact h.walks .after
    | wrapper => exact h.walks .wrapper
  · cases c with
    | quote => exact h.tail .bracket
    | bracket => rfl
    | system => exact h.tail .system
    | after => exact h.tail .after
    | wrapper => exact h.tail .wrapper
  · split_ifs at hi
    · cases hi
    · exact h.lt _ i hi
    · exact h.lt _ i hi
  · -- both chains are old ones, and different
    cases c <;> cases c' <;>
      first
        | exact absurd rfl hne
        | cases hi
        | cases hi'
        | exact h.apart _ _ (by decide) i hi hi'

/-- The options that only set a variable. -/
theorem Collects.congr {s' : IncPath} (h : s.Collects L) (hdirs : s'.dirs = s.dirs) (hheads : s'.heads = s.heads)
    (htails : s'.tails = s.tails) : s'.Collects L := by
  refine ⟨fun c => ?_, fun c => ?_, fun c i hi => ?_, h.apart⟩
  · rw [hdirs, hheads]
    exact h.walks c
  · rw [htails]
    exact h.tail c
  · rw [hdirs]
    exact h.lt c i hi

/-- The state in which `merge_include_chains` is called. -/
def collect (config : IncConfig) (options : List IncOption) : IncPath :=
  let s := options.foldl (handleOption config) {}
  let s := s.addEnvVarPaths config "CPATH" .bracket
  let s := s.addEnvVarPaths config (langEnvVar config) .system
  if s.stdInc then s.addStandardPaths config (s.stdCxxInc && config.cplusplus) else s

theorem ofOptions_eq (config : IncConfig) (options : List IncOption) :
    ofOptions config options = (collect config options).mergeIncludeChains config.stat := rfl

/-! ### The names in a chain -/

/-- The names of some nodes. -/
def namesOf (dirs : List IncDir) (l : List Nat) : List Path := l.filterMap fun i => dirs[i]?.map IncDir.name

theorem namesOf_congr {dirs dirs' : List IncDir} {l : List Nat}
    (h : ∀ i ∈ l, dirs'[i]?.map IncDir.name = dirs[i]?.map IncDir.name) : namesOf dirs' l = namesOf dirs l :=
  List.filterMap_congr h

theorem name_setNext {q : Option Nat} (dirs : List IncDir) (k i : Nat) :
    (dirs.modify k fun dir => { dir with next := q })[i]?.map IncDir.name = dirs[i]?.map IncDir.name := by
  have hchanged : ChangedIn [k] dirs (dirs.modify k fun dir => { dir with next := q }) :=
    .modify List.mem_cons_self dirs fun _ => rfl
  exact hchanged.name i

/-- The names after `add_path`. -/
theorem name_addPath (path : Path) (chain : ChainName) (cxxAware userSuppliedP : Bool) (i : Nat) :
    (s.addPath path chain cxxAware userSuppliedP).dirs[i]?.map IncDir.name =
      if i = s.dirs.length then some path else s.dirs[i]?.map IncDir.name := by
  have happend : ∀ dir : IncDir, dir.name = path → (s.dirs ++ [dir])[i]?.map IncDir.name =
      if i = s.dirs.length then some path else s.dirs[i]?.map IncDir.name := by
    intro dir hdir
    by_cases hi : i = s.dirs.length
    · rw [if_pos hi, hi, List.getElem?_concat_length, Option.map_some, hdir]
    · rw [if_neg hi, List.getElem?_append]
      split_ifs with hlt
      · rfl
      · rw [List.getElem?_eq_none (by simp only [List.length_singleton]; omega), List.getElem?_eq_none (by omega)]
  unfold IncPath.addPath IncPath.addCppDirPath
  dsimp only
  cases htail : s.tails chain with
  | none => exact happend _ rfl
  | some tail =>
      exact (name_setNext _ tail i).trans (happend _ rfl)

/-- The names after **`add_path`**. -/
theorem Collects.namesOf_addPath (h : s.Collects L) (path : Path) (chain : ChainName) (cxxAware userSuppliedP : Bool)
    (c : ChainName) :
    namesOf (s.addPath path chain cxxAware userSuppliedP).dirs (if c = chain then L c ++ [s.dirs.length] else L c) =
      if c = chain then namesOf s.dirs (L c) ++ [path] else namesOf s.dirs (L c) := by
  have hold : namesOf (s.addPath path chain cxxAware userSuppliedP).dirs (L c) = namesOf s.dirs (L c) := by
    refine namesOf_congr fun i hi => ?_
    rw [name_addPath, if_neg (Nat.ne_of_lt (h.lt c i hi))]
  split_ifs
  · have hnew : namesOf (s.addPath path chain cxxAware userSuppliedP).dirs [s.dirs.length] = [path] := by
      simp [namesOf, name_addPath]
    exact (List.filterMap_append ..).trans (congrArg₂ (· ++ ·) hold hnew)
  · exact hold

/-! ### Collecting what is asked for -/

/-- **The chains hold what is asked for**: their names, in order, and the variables are those of the options. -/
structure Asks (s : IncPath) (a : Asked) : Prop where
  names : ∃ L, s.Collects L ∧ ∀ c, namesOf s.dirs (L c) = a.names c
  quoteIgnoresSourceDir : s.quoteIgnoresSourceDir = a.quoteIgnoresSourceDir
  iPrefix : s.iPrefix = a.iPrefix
  imultilib : s.imultilib = a.imultilib
  sysroot : s.sysroot = a.sysroot
  stdInc : s.stdInc = a.stdInc
  stdCxxInc : s.stdCxxInc = a.stdCxxInc

theorem asks_empty : Asks {} {} := ⟨⟨_, collects_empty, fun _ => rfl⟩, rfl, rfl, rfl, rfl, rfl, rfl⟩

/-- `add_path` changes the heap, a head and a tail. -/
theorem addPath_variables (s : IncPath) (path : Path) (chain : ChainName) (cxxAware userSuppliedP : Bool) :
    ∃ dirs heads tails, s.addPath path chain cxxAware userSuppliedP = { s with dirs, heads, tails } := by
  unfold IncPath.addPath IncPath.addCppDirPath
  dsimp only
  cases s.tails chain with
  | none => exact ⟨_, _, _, rfl⟩
  | some tail => exact ⟨_, _, _, rfl⟩

/-- **`add_path`** adds one directory. -/
theorem Asks.addPath (h : s.Asks a) (path : Path) (chain : ChainName) (cxxAware userSuppliedP : Bool) :
    (s.addPath path chain cxxAware userSuppliedP).Asks (a.add chain [path]) := by
  obtain ⟨L, hL, hnames⟩ := h.names
  have hchains : ∃ L', (s.addPath path chain cxxAware userSuppliedP).Collects L' ∧
      ∀ c, namesOf (s.addPath path chain cxxAware userSuppliedP).dirs (L' c) = (a.add chain [path]).names c := by
    refine ⟨_, hL.addPath path chain cxxAware userSuppliedP, fun c => ?_⟩
    rw [hL.namesOf_addPath, hnames]
    rfl
  obtain ⟨dirs, heads, tails, heq⟩ := addPath_variables s path chain cxxAware userSuppliedP
  rw [heq] at hchains ⊢
  exact ⟨hchains, h.quoteIgnoresSourceDir, h.iPrefix, h.imultilib, h.sysroot, h.stdInc, h.stdCxxInc⟩

/-- **`split_quote_chain`**, by the nodes that the two chains have. -/
theorem Asks.splitQuoteChain (h : s.Asks a) : s.splitQuoteChain.Asks a.splitQuotes := by
  obtain ⟨L, hL, hnames⟩ := h.names
  refine ⟨⟨_, hL.splitQuoteChain, fun c => ?_⟩, rfl, h.iPrefix, h.imultilib, h.sysroot, h.stdInc, h.stdCxxInc⟩
  show namesOf s.dirs _ = if c = .bracket then [] else if c = .quote then a.names .bracket else a.names c
  split_ifs
  · rfl
  · exact hnames .bracket
  · exact hnames c

/-- `add_prefixed_path`. -/
theorem Asks.addPrefixedPath (h : s.Asks a) (suffix : Path) (chain : ChainName) :
    (s.addPrefixedPath config suffix chain).Asks (a.add chain [a.prefixed config suffix]) := by
  unfold IncPath.addPrefixedPath Asked.prefixed
  rw [h.iPrefix]
  cases a.iPrefix with
  | none => exact h.addPath _ chain false false
  | some iPrefix => exact h.addPath _ chain false false

/-- **Every option** adds what it asks for. -/
theorem Asks.handleOption (h : s.Asks a) (option : IncOption) :
    (s.handleOption config option).Asks (a.option config option) := by
  have hchains : ∀ s' : IncPath, s'.dirs = s.dirs → s'.heads = s.heads → s'.tails = s.tails →
      ∃ L, s'.Collects L ∧ ∀ c, namesOf s'.dirs (L c) = a.names c := by
    intro s' hdirs hheads htails
    obtain ⟨L, hL, hnames⟩ := h.names
    exact ⟨L, hL.congr hdirs hheads htails, fun c => hdirs ▸ hnames c⟩
  cases option with
  | dashI arg =>
      show (if arg = ['-'] then s.splitQuoteChain else s.addPath arg .bracket false true).Asks
        (if arg = ['-'] then a.splitQuotes else a.add .bracket [arg])
      split_ifs
      · exact h.splitQuoteChain
      · exact h.addPath arg .bracket false true
  | idirafter arg => exact h.addPath arg .after false true
  | iquote arg => exact h.addPath arg .quote false true
  | isystem arg => exact h.addPath arg .system true true
  | iwithPrefix arg => exact h.addPrefixedPath arg .system
  | iwithPrefixBefore arg => exact h.addPrefixedPath arg .bracket
  | iwrapper arg => exact h.addPath arg .wrapper false true
  | imultilib arg =>
      exact ⟨hchains _ rfl rfl rfl, h.quoteIgnoresSourceDir, h.iPrefix, rfl, h.sysroot, h.stdInc, h.stdCxxInc⟩
  | iPrefix arg =>
      exact ⟨hchains _ rfl rfl rfl, h.quoteIgnoresSourceDir, rfl, h.imultilib, h.sysroot, h.stdInc, h.stdCxxInc⟩
  | isysroot arg =>
      exact ⟨hchains _ rfl rfl rfl, h.quoteIgnoresSourceDir, h.iPrefix, h.imultilib, rfl, h.stdInc, h.stdCxxInc⟩
  | nostdinc =>
      exact ⟨hchains _ rfl rfl rfl, h.quoteIgnoresSourceDir, h.iPrefix, h.imultilib, h.sysroot, rfl, h.stdCxxInc⟩
  | nostdincxx =>
      exact ⟨hchains _ rfl rfl rfl, h.quoteIgnoresSourceDir, h.iPrefix, h.imultilib, h.sysroot, h.stdInc, rfl⟩

theorem Asks.handleOptions (h : s.Asks a) (options : List IncOption) :
    (options.foldl (IncPath.handleOption config) s).Asks (options.foldl (Asked.option config) a) := by
  induction options generalizing s a with
  | nil => exact h
  | cons option options ih => exact ih (h.handleOption option)

/-- A loop that adds a directory for some of the elements. Only the names change while it runs. -/
theorem Asks.foldl {α : Type} {step : IncPath → α → IncPath} {chain : ChainName} (adds : α → Bool) (name : α → Path)
    (hstep : ∀ s names x, Asks s { a with names := names } →
      (step s x).Asks (({ a with names := names } : Asked).add chain (if adds x then [name x] else [])))
    (l : List α) (h : s.Asks a) : (l.foldl step s).Asks (a.add chain ((l.filter adds).map name)) := by
  have hrun : ∀ (l : List α) s names, Asks s { a with names := names } →
      (l.foldl step s).Asks (({ a with names := names } : Asked).add chain ((l.filter adds).map name)) := by
    intro l
    induction l with
    | nil =>
        intro s names h
        rw [List.filter_nil, List.map_nil, Asked.add_nil]
        exact h
    | cons x l ih =>
        intro s names h
        have hsplit : ((x :: l).filter adds).map name = (if adds x then [name x] else []) ++ (l.filter adds).map name := by
          rw [List.filter_cons]
          split_ifs <;> rfl
        rw [hsplit, ← Asked.add_add]
        exact ih _ _ (hstep s names x h)
  exact hrun l s a.names h

/-- The loop of `add_env_var_paths` takes the parts between the colons. -/
theorem envVarPaths_eq (name text : Path) :
    envVarPaths name text =
      (text.splitOnPPrepend (· == ':') name.reverse).map fun name => if name = [] then ['.'] else name := by
  fun_induction envVarPaths name text with
  | case1 name => rw [List.splitOnPPrepend_nil, List.reverse_reverse, List.map_singleton]
  | case2 name text ih => rw [List.splitOnPPrepend_cons_pos rfl, List.map_cons, List.reverse_reverse, ih]; rfl
  | case3 name ch text hch ih =>
      rw [List.splitOnPPrepend_cons_neg (p := (· == ':')) (beq_eq_false_iff_ne.mpr hch), ih, List.reverse_append]
      rfl

/-- **`add_env_var_paths`** adds the directories of the variable. -/
theorem Asks.addEnvVarPaths (h : s.Asks a) (config : IncConfig) (envVar : String) (chain : ChainName) :
    (s.addEnvVarPaths config envVar chain).Asks (a.add chain (Asked.environmentDirs config envVar)) := by
  unfold IncPath.addEnvVarPaths Asked.environmentDirs
  cases config.getenv envVar with
  | none => exact (a.add_nil chain).symm ▸ h
  | some text =>
      cases text with
      | nil => exact (a.add_nil chain).symm ▸ h
      | cons ch text =>
          have hloop : ∀ l : List Path, (l.foldl (fun s path => s.addPath path chain (chain = .system) false) s).Asks
              (a.add chain l) := by
            intro l
            have hadds := Asks.foldl (fun _ => true) id
              (fun s names path hs => hs.addPath path chain (chain = .system) false) l h
            rwa [List.filter_true, List.map_id] at hadds
          show (List.foldl _ s (envVarPaths [] (ch :: text))).Asks _
          rw [envVarPaths_eq]
          exact hloop _

theorem Asks.withMultilib (h : s.Asks a) (p : DefaultInclude) (str : Path) :
    s.withMultilib p str = a.multilibDir p str := by
  cases hp : p.multilib <;> cases hm : a.imultilib <;>
    simp [IncPath.withMultilib, Asked.multilibDir, h.imultilib, hp, hm]

/-- **The first loop of `add_standard_paths`** adds the directories that are moved. -/
theorem Asks.addPrefixPaths (h : s.Asks a) (cxxStdinc : Bool) :
    (s.addPrefixPaths config cxxStdinc).Asks (a.add .system
      (a.movedDirs config (config.includeDefaults.filter fun p => !p.cplusplus || cxxStdinc))) := by
  unfold IncPath.addPrefixPaths Asked.movedDirs
  rw [h.iPrefix]
  cases a.iPrefix with
  | none => exact (a.add_nil .system).symm ▸ h
  | some iPrefix =>
      dsimp only
      split_ifs with hlen
      · exact (a.add_nil .system).symm ▸ h
      · rw [List.filter_filter]
        refine Asks.foldl _ _ (fun s names p hs => ?_) _ h
        have hcond : ((!p.cplusplus || cxxStdinc) && !(s.sysroot.isSome && p.addSysroot) &&
            p.fname.take config.gccIncludeDirLen = config.gccIncludeDir.take config.gccIncludeDirLen) ↔
              (a.isMoved config p && (!p.cplusplus || cxxStdinc)) = true := by
          rw [Asked.isMoved, hs.sysroot]
          simp only [Bool.and_eq_true, decide_eq_true_eq]
          tauto
        by_cases hadds : (a.isMoved config p && (!p.cplusplus || cxxStdinc)) = true
        · rw [if_pos (hcond.mpr hadds), if_pos hadds, hs.withMultilib]
          exact hs.addPath _ .system p.cxxAware false
        · rw [if_neg (mt hcond.mp hadds), if_neg hadds, Asked.add_nil]
          exact hs

/-- **`add_standard_paths`** adds the standard directories. -/
theorem Asks.addStandardPaths (h : s.Asks a) :
    (s.addStandardPaths config (s.stdCxxInc && config.cplusplus)).Asks (a.add .system (a.standardDirs config)) := by
  rw [h.stdCxxInc]
  unfold IncPath.addStandardPaths Asked.standardDirs
  dsimp only
  rw [← Asked.add_add]
  refine Asks.foldl _ _ (fun s names p hs => ?_) _ (h.addPrefixPaths _)
  by_cases hadds : (!p.cplusplus || (a.stdCxxInc && config.cplusplus)) = true
  · have hroot : s.sysroot = a.sysroot := hs.sysroot
    rw [if_pos hadds, if_pos hadds, hs.withMultilib, Asked.standardDir, ← hroot]
    cases s.sysroot <;> cases p.addSysroot <;> exact hs.addPath _ .system p.cxxAware false
  · rw [if_neg hadds, if_neg hadds, Asked.add_nil]
    exact hs

/-- **Every command line**: when the chains are merged, they hold what was asked for. -/
theorem asks_collect (config : IncConfig) (options : List IncOption) :
    (collect config options).Asks (asked config options) := by
  have hoptions : (options.foldl (handleOption config) {}).Asks (options.foldl (Asked.option config) {}) :=
    asks_empty.handleOptions options
  have henv := (hoptions.addEnvVarPaths config "CPATH" .bracket).addEnvVarPaths config (langEnvVar config) .system
  unfold collect asked Asked.addDefaults
  dsimp only
  rw [henv.stdInc]
  split_ifs
  · exact henv.addStandardPaths
  · exact henv

end IncPath

end Cpp

end GccXml

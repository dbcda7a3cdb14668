import GccXml.Cpp.WrapperSearch
import GccXml.Lib.KeepFirst

namespace GccXml

/-! # `Cpp.IncludeChains` — from the options to the chains

`c-incpath.c` collects directories in five chains, one for each kind of option, joins them and removes duplicates. The
chain of `-iwrapper` is joined to nothing. The nodes are numbered in the order in which they are allocated, a freed one
is no longer in any chain, and a step through an invalid pointer gives `none`.

`remove_duplicates` walks a chain with the address of the pointer to the current node (`pcur`), which is the head of
the chain or a `next` field, and writes the address of the following node through it to take a node out. What it does
to a chain is `keepFirst` of `Lib.KeepFirst`: keep an entry if its directory exists, is not one of the system chain and
was not kept before, and if it is not the last one and the same as the head of the chain that is joined to it.

`Removal.Valid` is the invariant of the loop. It splits the chain into the nodes that were kept, which are linked up to
`pcur`, and those that are to come, and it says what both chains look like from the heads. `Valid.setCur` is the
only lemma about a pointer write. The other chains do not share nodes with this one, so they stay (`Others`). With the
result of one call known, the functions that join chains are computed by following their calls. -/

namespace Cpp

open Chain

/-! ## The functions -/

/-- The chains of `c-incpath.h`. -/
inductive ChainName where
  | quote
  | bracket
  | system
  | after
  | wrapper
  deriving DecidableEq

/-- What `stat` says of a name; `directory` gives `st_ino` and `st_dev`. -/
inductive DirStat where
  | missing
  | error
  | notDirectory
  | directory (ino dev : Nat)

/-- `cpp_dir`, as far as `c-incpath.c` looks at it. `construct` is null everywhere. -/
structure IncDir where
  next : Option Nat := none
  name : Path
  sysp : Nat
  userSuppliedP : Bool
  /-- `ino` and `dev`, once they are set. -/
  identity : Option (Nat × Nat) := none

/-- `struct default_include`. -/
structure DefaultInclude where
  fname : Path
  component : Option Path
  cplusplus : Bool
  cxxAware : Bool
  addSysroot : Bool
  multilib : Bool

/-- What the chains are made from, besides the options. -/
structure IncConfig where
  getenv : String → Option Path
  includeDefaults : List DefaultInclude
  gccIncludeDir : Path
  gccIncludeDirLen : Nat
  updatePath : Path → Option Path → Path
  cplusplus : Bool
  objc : Bool
  stat : Path → DirStat

/-- The static variables of `c-incpath.c`, and those of `c-opts.c` that the options about directories set. -/
structure IncPath where
  dirs : List IncDir := []
  heads : ChainName → Option Nat := fun _ => none
  tails : ChainName → Option Nat := fun _ => none
  quoteIgnoresSourceDir : Bool := false
  iPrefix : Option Path := none
  imultilib : Option Path := none
  sysroot : Option Path := none
  stdInc : Bool := true
  stdCxxInc : Bool := true

/-- The options about directories. -/
inductive IncOption where
  | dashI (arg : Path)
  | idirafter (arg : Path)
  | imultilib (arg : Path)
  | iPrefix (arg : Path)
  | iquote (arg : Path)
  | isysroot (arg : Path)
  | isystem (arg : Path)
  | iwithPrefix (arg : Path)
  | iwithPrefixBefore (arg : Path)
  | iwrapper (arg : Path)
  | nostdinc
  | nostdincxx

namespace IncPath

/-- `p->next = q`. -/
def setNext (s : IncPath) (p : Nat) (q : Option Nat) : IncPath :=
  { s with dirs := s.dirs.modify p fun dir => { dir with next := q } }

/-- `heads[chain] = p`. -/
def setHead (s : IncPath) (chain : ChainName) (p : Option Nat) : IncPath :=
  { s with heads := fun c => if c = chain then p else s.heads c }

/-- `tails[chain] = p`. -/
def setTail (s : IncPath) (chain : ChainName) (p : Option Nat) : IncPath :=
  { s with tails := fun c => if c = chain then p else s.tails c }

/-- `add_cpp_dir_path`. -/
def addCppDirPath (s : IncPath) (p : Nat) (chain : ChainName) : IncPath :=
  let s := match s.tails chain with
    | some tail => s.setNext tail (some p)
    | none => s.setHead chain (some p)
  s.setTail chain (some p)

/-- `add_path`. -/
def addPath (s : IncPath) (path : Path) (chain : ChainName) (cxxAware userSuppliedP : Bool) : IncPath :=
  let sysp := if chain = .system ∨ chain = .after then if cxxAware then 1 else 2 else 0
  ({ s with dirs := s.dirs ++ [{ name := path, sysp, userSuppliedP }] } : IncPath).addCppDirPath s.dirs.length chain

/-- `split_quote_chain`. -/
def splitQuoteChain (s : IncPath) : IncPath :=
  let s := (s.setHead .quote (s.heads .bracket)).setTail .quote (s.tails .bracket)
  { (s.setHead .bracket none).setTail .bracket none with quoteIgnoresSourceDir := true }

/-- `add_prefixed_path`. -/
def addPrefixedPath (config : IncConfig) (s : IncPath) (suffix : Path) (chain : ChainName) : IncPath :=
  let pre := match s.iPrefix with
    | some iPrefix => iPrefix
    | none => config.gccIncludeDir.take config.gccIncludeDirLen
  s.addPath (pre ++ suffix) chain false false

/-- The cases of `c_common_handle_option` for these options. -/
def handleOption (config : IncConfig) (s : IncPath) : IncOption → IncPath
  | .dashI arg => if arg = ['-'] then s.splitQuoteChain else s.addPath arg .bracket false true
  | .idirafter arg => s.addPath arg .after false true
  | .imultilib arg => { s with imultilib := some arg }
  | .iPrefix arg => { s with iPrefix := some arg }
  | .iquote arg => s.addPath arg .quote false true
  | .isysroot arg => { s with sysroot := some arg }
  | .isystem arg => s.addPath arg .system true true
  | .iwithPrefix arg => s.addPrefixedPath config arg .system
  | .iwithPrefixBefore arg => s.addPrefixedPath config arg .bracket
  | .iwrapper arg => s.addPath arg .wrapper false true
  | .nostdinc => { s with stdInc := false }
  | .nostdincxx => { s with stdCxxInc := false }

/-- The loop of `add_env_var_paths`, in the middle of a name. An empty name stands for the current directory. -/
def envVarPaths (name : Path) : Path → List Path
  | [] => [if name = [] then ['.'] else name]
  | ':' :: text => (if name = [] then ['.'] else name) :: envVarPaths [] text
  | ch :: text => envVarPaths (name ++ [ch]) text

/-- `add_env_var_paths`. -/
def addEnvVarPaths (config : IncConfig) (s : IncPath) (envVar : String) (chain : ChainName) : IncPath :=
  match config.getenv envVar with
  | none | some [] => s
  | some (ch :: text) => (envVarPaths [] (ch :: text)).foldl (fun s path => s.addPath path chain (chain = .system) false) s

/-- The directory and `imultilib`, where it applies. -/
def withMultilib (s : IncPath) (p : DefaultInclude) (str : Path) : Path :=
  match p.multilib, s.imultilib with
  | true, some imultilib => str ++ ['/'] ++ imultilib
  | _, _ => str

/-- The first loop of `add_standard_paths`: the directories that start with the standard prefix, under `iPrefix`. -/
def addPrefixPaths (config : IncConfig) (s : IncPath) (cxxStdinc : Bool) : IncPath :=
  match s.iPrefix with
  | none => s
  | some iPrefix =>
      let len := config.gccIncludeDirLen
      if len = 0 then s
      else config.includeDefaults.foldl (fun s p =>
        if (!p.cplusplus || cxxStdinc) && !(s.sysroot.isSome && p.addSysroot) &&
            p.fname.take len = config.gccIncludeDir.take len then
          s.addPath (s.withMultilib p (iPrefix ++ p.fname.drop len)) .system p.cxxAware false
        else s) s

/-- `add_standard_paths`. -/
def addStandardPaths (config : IncConfig) (s : IncPath) (cxxStdinc : Bool) : IncPath :=
  config.includeDefaults.foldl (fun s p =>
    if !p.cplusplus || cxxStdinc then
      let str := match s.sysroot, p.addSysroot with
        | some sysroot, true => sysroot ++ p.fname
        | _, _ => config.updatePath p.fname p.component
      s.addPath (s.withMultilib p str) .system p.cxxAware false
    else s) (s.addPrefixPaths config cxxStdinc)

end IncPath

/-! ### Removing duplicates -/

/-- The state of `remove_duplicates`: `pcur` is the address of the `next` of `prev`, or of `head`. -/
structure Removal where
  dirs : List IncDir
  head : Option Nat
  prev : Option Nat

namespace Removal

/-- `dirs[i].next`. -/
def next (st : Removal) (i : Nat) : Option Nat := st.dirs[i]?.bind IncDir.next

/-- `*pcur`. -/
def cur (st : Removal) : Option Nat :=
  match st.prev with
  | none => st.head
  | some prev => st.next prev

/-- `*pcur = q`. -/
def setCur (st : Removal) (q : Option Nat) : Removal :=
  match st.prev with
  | none => { st with head := q }
  | some prev => { st with dirs := st.dirs.modify prev fun dir => { dir with next := q } }

/-- The nodes from `p` on. -/
def walk (st : Removal) : Nat → Option Nat → List Nat
  | 0, _ => []
  | _ + 1, none => []
  | fuel + 1, some i => i :: st.walk fuel (st.next i)

/-- The nodes from `p` on, when the walk ends. -/
def walkAll (st : Removal) (p : Option Nat) : List Nat := st.walk st.dirs.length p

/-- `ino` and `dev` of a node. -/
def identity (st : Removal) (i : Nat) : Option (Nat × Nat) := st.dirs[i]?.bind IncDir.identity

/-- Whether the node `cur`, whose identity was just set, is one to keep. -/
def unique (st : Removal) (system join : Option Nat) (cur : Nat) (identity : Nat × Nat) : Bool :=
  !((st.walkAll system).any fun tmp => st.identity tmp = some identity) &&
    !(((st.walkAll st.head).takeWhile (· ≠ cur)).any fun tmp => st.identity tmp = some identity) &&
      !((st.next cur).isNone && join.any fun j => st.identity j = some identity)

/-- One pass of the loop of `remove_duplicates`. -/
def pass (stat : Path → DirStat) (system join : Option Nat) (st : Removal) : Pass Removal (Option Removal) :=
  match st.cur with
  | none => .leave (some (st.setCur join))
  | some cur =>
      match st.dirs[cur]? with
      | none => .leave none
      | some dir =>
          match stat dir.name with
          | .directory ino dev =>
              let st := { st with dirs := st.dirs.modify cur fun dir => { dir with identity := some (ino, dev) } }
              if st.unique system join cur (ino, dev) then .again { st with prev := some cur }
              else .again (st.setCur (st.next cur))
          | _ => .again (st.setCur (st.next cur))

end Removal

namespace IncPath

/-- `remove_duplicates`, with the head that it returns. -/
def removeDuplicates (stat : Path → DirStat) (s : IncPath) (head system join : Option Nat) :
    Option (IncPath × Option Nat) :=
  (loopRun (Removal.pass stat system join) (s.dirs.length + 1) ⟨s.dirs, head, none⟩).join.map fun st =>
    ({ s with dirs := st.dirs }, st.head)

/-- A call of `remove_duplicates` for a chain. -/
def removeFrom (stat : Path → DirStat) (s : IncPath) (chain : ChainName) (system join : Option Nat) :
    Option IncPath :=
  (s.removeDuplicates stat (s.heads chain) system join).map fun (s, head) => s.setHead chain head

/-- The first step of `merge_include_chains`: the after chain is joined to the system chain. -/
def joinAfter (s : IncPath) : Option IncPath :=
  match s.heads .system with
  | some _ => (s.tails .system).map fun tail => s.setNext tail (s.heads .after)
  | none => some (s.setHead .system (s.heads .after))

/-- `merge_include_chains`. -/
def mergeIncludeChains (stat : Path → DirStat) (s : IncPath) : Option IncPath := do
  let s ← s.joinAfter
  let s ← s.removeFrom stat .system none none
  let s ← s.removeFrom stat .bracket (s.heads .system) (s.heads .system)
  let s ← s.removeFrom stat .quote (s.heads .system) (s.heads .bracket)
  s.removeFrom stat .wrapper (s.heads .system) none

/-- `lang_env_vars`. -/
def langEnvVar (config : IncConfig) : String :=
  match config.objc, config.cplusplus with
  | false, false => "C_INCLUDE_PATH"
  | false, true => "CPLUS_INCLUDE_PATH"
  | true, false => "OBJC_INCLUDE_PATH"
  | true, true => "OBJCPLUS_INCLUDE_PATH"

/-- `register_include_chains`, up to the call of `cpp_set_include_chains`. -/
def registerIncludeChains (config : IncConfig) (s : IncPath) : Option IncPath :=
  let s := s.addEnvVarPaths config "CPATH" .bracket
  let s := s.addEnvVarPaths config (langEnvVar config) .system
  let s := if s.stdInc then s.addStandardPaths config (s.stdCxxInc && config.cplusplus) else s
  s.mergeIncludeChains config.stat

/-- The chains of a command line. -/
def ofOptions (config : IncConfig) (options : List IncOption) : Option IncPath :=
  (options.foldl (handleOption config) {}).registerIncludeChains config

/-- The reader after `cpp_set_include_chains`. -/
def toReader (s : IncPath) : Reader :=
  setIncludeChains { dirs := s.dirs.map fun dir => ⟨dir.next.map .node, dir.name, dir.sysp, none⟩ }
    ((s.heads .quote).map .node) ((s.heads .bracket).map .node) ((s.heads .wrapper).map .node) s.quoteIgnoresSourceDir

end IncPath

/-! ## Removing duplicates -/

open KeepFirst

/-- The directory that a name stands for, by its identity. -/
def DirStat.place : DirStat → Option (Nat × Nat)
  | .directory ino dev => some (ino, dev)
  | _ => none

/-- The directory that a node names. -/
def placeOf (stat : Path → DirStat) (dirs : List IncDir) (i : Nat) : Option (Nat × Nat) :=
  dirs[i]?.bind fun dir => (stat dir.name).place

theorem placeOf_congr {stat : Path → DirStat} {dirs dirs' : List IncDir} {i : Nat}
    (hname : dirs'[i]?.map IncDir.name = dirs[i]?.map IncDir.name) : placeOf stat dirs' i = placeOf stat dirs i := by
  unfold placeOf
  cases hi : dirs[i]? with
  | none =>
      rw [hi, Option.map_none, Option.map_eq_none_iff] at hname
      rw [hname]
  | some dir =>
      rw [hi, Option.map_some] at hname
      obtain ⟨dir', hi', hname'⟩ := Option.map_eq_some_iff.mp hname
      rw [hi', Option.bind_some, Option.bind_some, hname']

/-- The node `i` names a directory, and `remove_duplicates` has noted which. -/
def Noted (stat : Path → DirStat) (dirs : List IncDir) (i : Nat) : Prop :=
  ∃ place, placeOf stat dirs i = some place ∧ dirs[i]?.bind IncDir.identity = some place

/-- `dirs'` are the nodes of `dirs` after the pointers and identities of those in `l` may have changed. -/
structure ChangedIn (l : List Nat) (dirs dirs' : List IncDir) : Prop where
  length : dirs'.length = dirs.length
  name : ∀ i : Nat, dirs'[i]?.map IncDir.name = dirs[i]?.map IncDir.name
  frame : ∀ i, i ∉ l → dirs'[i]? = dirs[i]?

namespace ChangedIn

variable {l : List Nat} {dirs dirs' dirs'' : List IncDir} {stat : Path → DirStat}

theorem refl (l : List Nat) (dirs : List IncDir) : ChangedIn l dirs dirs := ⟨rfl, fun _ => rfl, fun _ _ => rfl⟩

theorem trans (h : ChangedIn l dirs dirs') (h' : ChangedIn l dirs' dirs'') : ChangedIn l dirs dirs'' where
  length := h'.length.trans h.length
  name i := (h'.name i).trans (h.name i)
  frame i hi := (h'.frame i hi).trans (h.frame i hi)

theorem modify {i : Nat} (hi : i ∈ l) (dirs : List IncDir) {f : IncDir → IncDir} (hf : ∀ dir, (f dir).name = dir.name) :
    ChangedIn l dirs (dirs.modify i f) where
  length := List.length_modify ..
  name j := by
    by_cases hij : i = j
    · subst hij
      rw [List.getElem?_modify_eq]
      cases dirs[i]? with
      | none => rfl
      | some dir => exact congrArg some (hf dir)
    · rw [List.getElem?_modify_ne _ _ hij]
  frame j hj := List.getElem?_modify_ne _ _ fun hij => hj (hij ▸ hi)

/-- What a node names does not change. -/
theorem placeOf (h : ChangedIn l dirs dirs') (i : Nat) : Cpp.placeOf stat dirs' i = Cpp.placeOf stat dirs i :=
  placeOf_congr (h.name i)

theorem noted (h : ChangedIn l dirs dirs') {i : Nat} (hi : i ∉ l) (hnoted : Noted stat dirs i) : Noted stat dirs' i := by
  obtain ⟨place, hplace, hidentity⟩ := hnoted
  exact ⟨place, (h.placeOf i).trans hplace, by rw [h.frame i hi, hidentity]⟩

end ChangedIn

/-- The pointer of a node. -/
def nextIn (dirs : List IncDir) (i : Nat) : Option Nat := dirs[i]?.bind IncDir.next

theorem ChangedIn.walks {l : List Nat} {dirs dirs' : List IncDir} (h : ChangedIn l dirs dirs') {p : Option Nat}
    {chain : List Nat} (hwalks : Walks (nextIn dirs) p chain) (hdisjoint : ∀ i ∈ chain, i ∉ l) :
    Walks (nextIn dirs') p chain :=
  hwalks.congr fun i hi => by rw [nextIn, nextIn, h.frame i (hdisjoint i hi)]

/-- Writing an identity moves no pointer. -/
theorem nextIn_modify {dirs : List IncDir} {i : Nat} {f : IncDir → IncDir} (hf : ∀ dir, (f dir).next = dir.next) :
    nextIn (dirs.modify i f) = nextIn dirs := by
  funext j
  unfold nextIn
  by_cases hij : i = j
  · subst hij
    rw [List.getElem?_modify_eq]
    cases dirs[i]? with
    | none => rfl
    | some dir => exact hf dir
  · rw [List.getElem?_modify_ne _ _ hij]

section

variable {stat : Path → DirStat} {dirs : List IncDir} {system join : Option Nat} {l S J K R : List Nat}

/-- What `remove_duplicates` is given besides its chain: other chains, whose nodes were gone through before. -/
structure Others (stat : Path → DirStat) (dirs : List IncDir) (l : List Nat) (system join : Option Nat)
    (S J : List Nat) : Prop where
  system : Walks (nextIn dirs) system S
  join : Walks (nextIn dirs) join J
  systemNoted : ∀ i ∈ S, Noted stat dirs i
  joinNoted : ∀ i ∈ J, Noted stat dirs i
  systemApart : ∀ i ∈ S, i ∉ l
  joinApart : ∀ i ∈ J, i ∉ l

/-- **The invariant of `remove_duplicates`.** Of the chain `l`, the nodes `K` were kept and `R` are still to come. -/
structure Removal.Valid (stat : Path → DirStat) (dirs : List IncDir) (l K R : List Nat) (st : Removal) : Prop where
  changed : ChangedIn l dirs st.dirs
  walks : Walks (nextIn st.dirs) st.head (K ++ R)
  sublist : (K ++ R).Sublist l
  prev : st.prev = K.getLast?
  noted : ∀ i ∈ K, Noted stat st.dirs i

theorem Removal.walk_eq {st : Removal} {p : Option Nat} {chain : List Nat} (h : Walks (nextIn st.dirs) p chain)
    {fuel : Nat} (hfuel : chain.length ≤ fuel) : st.walk fuel p = chain := by
  induction chain generalizing p fuel with
  | nil =>
      rw [walks_nil.mp h]
      cases fuel <;> rfl
  | cons i chain ih =>
      obtain ⟨fuel, rfl⟩ : ∃ n, fuel = n + 1 := ⟨fuel - 1, by simp only [List.length_cons] at hfuel; omega⟩
      rw [h.1]
      exact congrArg (i :: ·) (ih h.2 (by simpa using hfuel))

/-- Distinct nodes are at most as many as there are. -/
theorem length_le_of_nodup {chain : List Nat} {n : Nat} (hnodup : chain.Nodup) (hlt : ∀ i ∈ chain, i < n) :
    chain.length ≤ n := by
  have hsubset : chain ⊆ List.range n := fun i hi => List.mem_range.mpr (hlt i hi)
  simpa using (List.subperm_of_subset hnodup hsubset).length_le

theorem lt_of_noted {i : Nat} (h : Noted stat dirs i) : i < dirs.length := by
  obtain ⟨place, hplace, -⟩ := h
  by_contra hge
  rw [placeOf, List.getElem?_eq_none (Nat.le_of_not_lt hge)] at hplace
  cases hplace

namespace Removal

variable {st : Removal}

/-- `*pcur` is where the rest of the chain begins. -/
theorem Valid.cur (h : st.Valid stat dirs l K R) : Walks (nextIn st.dirs) st.cur R := by
  obtain rfl | ⟨K', k, rfl⟩ := List.eq_nil_or_concat' K
  · have hprev : st.prev = none := h.prev
    have hwalks := h.walks
    unfold Removal.cur
    rw [hprev]
    exact hwalks
  · have hprev : st.prev = some k := by rw [h.prev, List.getLast?_concat]
    have hwalks := h.walks
    rw [List.append_assoc, List.singleton_append] at hwalks
    unfold Removal.cur
    rw [hprev]
    exact hwalks.after

@[simp] theorem prev_setCur (q : Option Nat) : (st.setCur q).prev = st.prev := by
  unfold Removal.setCur
  split <;> rfl

@[simp] theorem identity_setCur (q : Option Nat) (i : Nat) : (st.setCur q).identity i = st.identity i := by
  unfold Removal.setCur Removal.identity
  split
  · rfl
  · rename_i k _
    by_cases hki : k = i
    · subst hki
      rw [List.getElem?_modify_eq]
      cases st.dirs[k]? <;> rfl
    · rw [List.getElem?_modify_ne _ _ hki]

/-- **Writing through `pcur`** replaces the rest of the chain. -/
theorem Valid.setCur (h : st.Valid stat dirs l K R) {q : Option Nat} {T : List Nat} (hT : Walks (nextIn st.dirs) q T)
    (hdisjoint : ∀ i ∈ T, i ∉ K) :
    Walks (nextIn (st.setCur q).dirs) (st.setCur q).head (K ++ T) ∧ ChangedIn l st.dirs (st.setCur q).dirs := by
  obtain rfl | ⟨K', k, rfl⟩ := List.eq_nil_or_concat' K
  · have hprev : st.prev = none := h.prev
    unfold Removal.setCur
    rw [hprev]
    exact ⟨hT, .refl l st.dirs⟩
  · have hprev : st.prev = some k := by rw [h.prev, List.getLast?_concat]
    have hk : k ∈ l := h.sublist.subset (by simp)
    have hklt : k < st.dirs.length := lt_of_noted (h.noted k (by simp))
    have hwalks := h.walks
    rw [List.append_assoc, List.singleton_append] at hwalks
    have hfirst : ∀ i ∈ K', i ≠ k := fun i hi heq =>
      (List.nodup_append.mp hwalks.nodup).2.2 i hi k List.mem_cons_self heq
    have hother : ∀ i, i ≠ k → nextIn (st.dirs.modify k fun dir => { dir with next := q }) i = nextIn st.dirs i := by
      intro i hi
      rw [nextIn, nextIn, List.getElem?_modify_ne _ _ (Ne.symm hi)]
    have hself : nextIn (st.dirs.modify k fun dir => { dir with next := q }) k = q := by
      rw [nextIn, List.getElem?_modify_eq, List.getElem?_eq_getElem hklt]
      rfl
    unfold Removal.setCur
    rw [hprev, List.append_assoc, List.singleton_append]
    refine ⟨hwalks.redirect (fun i hi => hother i (hfirst i hi)) hself ?_, .modify hk st.dirs fun _ => rfl⟩
    exact hT.congr fun i hi => hother i fun heq => hdisjoint i hi (by simp [heq])

/-- The identity of a node that is noted. -/
theorem identity_of_noted {i : Nat} (h : Noted stat st.dirs i) : st.identity i = placeOf stat st.dirs i := by
  obtain ⟨place, hplace, hidentity⟩ := h
  rw [hplace]
  exact hidentity

/-- What the comparison with a list of noted nodes finds. -/
theorem any_identity {chain : List Nat} (place : Nat × Nat) (h : ∀ i ∈ chain, Noted stat st.dirs i)
    (hplaces : ∀ i, placeOf stat st.dirs i = placeOf stat dirs i) :
    (chain.any fun tmp => st.identity tmp = some place) = true ↔ place ∈ chain.filterMap (placeOf stat dirs) := by
  rw [List.any_eq_true, List.mem_filterMap]
  constructor
  · rintro ⟨i, hi, hidentity⟩
    refine ⟨i, hi, ?_⟩
    rw [← hplaces, ← identity_of_noted (h i hi)]
    exact of_decide_eq_true hidentity
  · rintro ⟨i, hi, hplace⟩
    refine ⟨i, hi, decide_eq_true ?_⟩
    rw [identity_of_noted (h i hi), hplaces, hplace]

/-- The state after the identity of the node was set. -/
def note (st : Removal) (i : Nat) (place : Nat × Nat) : Removal :=
  { st with dirs := st.dirs.modify i fun dir => { dir with identity := some place } }

theorem Valid.note {i : Nat} (h : st.Valid stat dirs l K (i :: R)) (hi : i < dirs.length) {place : Nat × Nat}
    (hplace : placeOf stat dirs i = some place) :
    (st.note i place).Valid stat dirs l K (i :: R) ∧ Noted stat (st.note i place).dirs i := by
  have hil : i ∈ l := h.sublist.subset (by simp)
  have hchanged : ChangedIn l st.dirs (st.note i place).dirs := .modify hil st.dirs fun _ => rfl
  have hnext : nextIn (st.note i place).dirs = nextIn st.dirs := nextIn_modify fun _ => rfl
  have hiK : ∀ k ∈ K, k ≠ i := fun k hk heq =>
    (List.nodup_append.mp h.walks.nodup).2.2 k hk i List.mem_cons_self heq
  have hlt : i < st.dirs.length := h.changed.length ▸ hi
  refine ⟨⟨h.changed.trans hchanged, hnext ▸ h.walks, h.sublist, h.prev, fun k hk => ?_⟩, place, ?_, ?_⟩
  · obtain ⟨place', hplace', hidentity⟩ := h.noted k hk
    refine ⟨place', (hchanged.placeOf k).trans hplace', ?_⟩
    rw [Removal.note, List.getElem?_modify_ne _ _ (hiK k hk).symm]
    exact hidentity
  · rw [hchanged.placeOf, h.changed.placeOf, hplace]
  · rw [Removal.note, List.getElem?_modify_eq, List.getElem?_eq_getElem hlt]
    rfl

theorem walkAll_eq {p : Option Nat} {chain : List Nat} (h : Walks (nextIn st.dirs) p chain)
    (hlt : ∀ i ∈ chain, i < st.dirs.length) : st.walkAll p = chain :=
  walk_eq h (length_le_of_nodup h.nodup hlt)

/-- The place of the directory that the chain will be joined to. -/
def joinPlace (stat : Path → DirStat) (dirs : List IncDir) (J : List Nat) : Option (Nat × Nat) :=
  J.head?.bind (placeOf stat dirs)

/-- **The three tests of `remove_duplicates`.** -/
theorem Valid.unique_iff (hothers : Others stat dirs l system join S J) (hlt : ∀ i ∈ l, i < dirs.length) {i : Nat}
    (h : st.Valid stat dirs l K (i :: R)) (place : Nat × Nat) :
    st.unique system join i place = true ↔
      place ∉ S.filterMap (placeOf stat dirs) ∧ place ∉ K.filterMap (placeOf stat dirs) ∧
        ¬ (R = [] ∧ joinPlace stat dirs J = some place) := by
  have hplaces : ∀ j, placeOf stat st.dirs j = placeOf stat dirs j := h.changed.placeOf
  have hsystem : st.walkAll system = S := by
    refine walkAll_eq (h.changed.walks hothers.system hothers.systemApart) fun j hj => ?_
    rw [h.changed.length]
    exact lt_of_noted (hothers.systemNoted j hj)
  have hhead : st.walkAll st.head = K ++ i :: R := by
    refine walkAll_eq h.walks fun j hj => ?_
    rw [h.changed.length]
    exact hlt j (h.sublist.subset hj)
  have hbefore : (K ++ i :: R).takeWhile (· ≠ i) = K := by
    rw [List.takeWhile_append_of_pos fun k hk => ?_]
    · simp
    · exact decide_eq_true fun heq : k = i => (List.nodup_append.mp h.walks.nodup).2.2 k hk i List.mem_cons_self heq
  have hnext : (st.next i).isNone = true ↔ R = [] := by
    have hrest : Walks (nextIn st.dirs) (st.next i) R := h.walks.after
    rw [Option.isNone_iff_eq_none]
    constructor
    · intro hnone
      rw [hnone] at hrest
      exact hrest.unique rfl
    · rintro rfl
      exact hrest
  have hjoin : (join.any fun j => decide (st.identity j = some place)) = true ↔ joinPlace stat dirs J = some place := by
    have hJ := hothers.join
    cases J with
    | nil =>
        rw [walks_nil.mp hJ]
        exact iff_of_false (by simp) (by simp [joinPlace])
    | cons j J =>
        have hnoted := h.changed.noted (hothers.joinApart j List.mem_cons_self) (hothers.joinNoted j List.mem_cons_self)
        rw [hJ.1, Option.any_some, decide_eq_true_iff, identity_of_noted hnoted, hplaces]
        rfl
  have hinSystem := any_identity place
    (fun j hj => h.changed.noted (hothers.systemApart j hj) (hothers.systemNoted j hj)) hplaces
  have hearlier := any_identity place h.noted hplaces
  unfold Removal.unique
  rw [hsystem, hhead, hbefore]
  simp only [Bool.and_eq_true, Bool.not_eq_true', ← Bool.not_eq_true, hinSystem, hearlier, hnext, hjoin]
  tauto

/-- What is kept behind `K`. -/
def keeps (stat : Path → DirStat) (dirs : List IncDir) (S J K R : List Nat) : List Nat :=
  keepFirst (placeOf stat dirs) (S.filterMap (placeOf stat dirs)) (joinPlace stat dirs J) K R

/-- A node is removed. -/
theorem Valid.remove {i : Nat} (h : st.Valid stat dirs l K (i :: R)) :
    (st.setCur (st.next i)).Valid stat dirs l K R := by
  have hrest : Walks (nextIn st.dirs) (st.next i) R := h.walks.after
  have hapart : ∀ j ∈ R, j ∉ K := fun j hj hjK =>
    (List.nodup_append.mp h.walks.nodup).2.2 j hjK j (List.mem_cons_of_mem i hj) rfl
  obtain ⟨hwalks, hchanged⟩ := h.setCur hrest hapart
  refine ⟨h.changed.trans hchanged, hwalks, ?_, by rw [prev_setCur, h.prev], fun k hk => ?_⟩
  · exact ((List.Sublist.refl K).append (List.sublist_cons_self i R)).trans h.sublist
  · obtain ⟨place, hplace, hidentity⟩ := h.noted k hk
    exact ⟨place, (hchanged.placeOf k).trans hplace, (identity_setCur _ k).trans hidentity⟩

/-- A node is kept. -/
theorem Valid.keep {i : Nat} (h : st.Valid stat dirs l K (i :: R)) (hnoted : Noted stat st.dirs i) :
    ({ st with prev := some i } : Removal).Valid stat dirs l (K ++ [i]) R := by
  refine ⟨h.changed, ?_, ?_, List.getLast?_concat.symm, fun k hk => ?_⟩
  · rw [List.append_assoc]
    exact h.walks
  · rw [List.append_assoc]
    exact h.sublist
  · rcases List.mem_append.mp hk with hk | hk
    · exact h.noted k hk
    · rw [List.mem_singleton.mp hk]
      exact hnoted

/-- **One pass** keeps or removes the next node, as `keepFirst` does. -/
theorem Valid.pass (hothers : Others stat dirs l system join S J) (hlt : ∀ i ∈ l, i < dirs.length) {i : Nat}
    (h : st.Valid stat dirs l K (i :: R)) :
    ∃ st' K', st.pass stat system join = .again st' ∧ st'.Valid stat dirs l K' R ∧
      keeps stat dirs S J K (i :: R) = keeps stat dirs S J K' R := by
  have hil : i < dirs.length := hlt i (h.sublist.subset (by simp))
  have hist : i < st.dirs.length := h.changed.length ▸ hil
  have hcur : st.cur = some i := h.cur.1
  have hplaceOf : placeOf stat dirs i = (stat (st.dirs[i]).name).place := by
    rw [← h.changed.placeOf, placeOf, List.getElem?_eq_getElem hist, Option.bind_some]
  have hskip : placeOf stat dirs i = none → keeps stat dirs S J K (i :: R) = keeps stat dirs S J K R := by
    intro hnone
    rw [keeps, keepFirst, hnone]
    rfl
  unfold Removal.pass
  rw [hcur]
  dsimp only
  rw [List.getElem?_eq_getElem hist]
  dsimp only
  cases hstat : stat (st.dirs[i]).name with
  | missing => exact ⟨_, K, rfl, h.remove, hskip (by rw [hplaceOf, hstat]; rfl)⟩
  | error => exact ⟨_, K, rfl, h.remove, hskip (by rw [hplaceOf, hstat]; rfl)⟩
  | notDirectory => exact ⟨_, K, rfl, h.remove, hskip (by rw [hplaceOf, hstat]; rfl)⟩
  | directory ino dev =>
      have hplace : placeOf stat dirs i = some (ino, dev) := by rw [hplaceOf, hstat]; rfl
      obtain ⟨hvalid, hnoted⟩ := h.note hil hplace
      have hunique := hvalid.unique_iff hothers hlt (ino, dev)
      dsimp only
      by_cases hkeep : (st.note i (ino, dev)).unique system join i (ino, dev) = true
      · refine ⟨_, K ++ [i], if_pos hkeep, hvalid.keep hnoted, ?_⟩
        rw [keeps, keepFirst, hplace]
        exact if_pos (hunique.mp hkeep)
      · refine ⟨_, K, if_neg hkeep, hvalid.remove, ?_⟩
        rw [keeps, keepFirst, hplace]
        exact if_neg fun hcond => hkeep (hunique.mpr hcond)

/-- **The loop of `remove_duplicates`.** -/
theorem Valid.loop (hothers : Others stat dirs l system join S J) (hlt : ∀ i ∈ l, i < dirs.length) {fuel : Nat}
    (h : st.Valid stat dirs l K R) (hfuel : R.length < fuel) :
    ∃ st', loopRun (Removal.pass stat system join) fuel st = some (some st') ∧
      Walks (nextIn st'.dirs) st'.head (keeps stat dirs S J K R ++ J) ∧ ChangedIn l dirs st'.dirs ∧
      ∀ i ∈ keeps stat dirs S J K R, Noted stat st'.dirs i := by
  obtain ⟨fuel, rfl⟩ : ∃ n, fuel = n + 1 := ⟨fuel - 1, by omega⟩
  induction R generalizing st K fuel with
  | nil =>
      have hcur : st.cur = none := h.cur
      have hpass : st.pass stat system join = .leave (some (st.setCur join)) := by
        unfold Removal.pass
        rw [hcur]
      have hJ : Walks (nextIn st.dirs) join J := h.changed.walks hothers.join hothers.joinApart
      have hapart : ∀ j ∈ J, j ∉ K := fun j hj hjK => hothers.joinApart j hj (h.sublist.subset (by simp [hjK]))
      obtain ⟨hwalks, hchanged⟩ := h.setCur hJ hapart
      refine ⟨_, Loop.loopRun_leave hpass fuel, hwalks, h.changed.trans hchanged, fun k hk => ?_⟩
      obtain ⟨place, hplace, hidentity⟩ := h.noted k hk
      exact ⟨place, (hchanged.placeOf k).trans hplace, (identity_setCur _ k).trans hidentity⟩
  | cons i R ih =>
      obtain ⟨st', K', hpass, hvalid, hkeeps⟩ := h.pass hothers hlt
      obtain ⟨fuel, rfl⟩ : ∃ n, fuel = n + 1 := ⟨fuel - 1, by simp only [List.length_cons] at hfuel; omega⟩
      rw [Loop.loopRun_again hpass, hkeeps]
      exact ih hvalid fuel (by simp only [List.length_cons] at hfuel; omega)

end Removal

open Removal (keeps)

/-- **`remove_duplicates`** leaves the nodes that `keepFirst` keeps, and joins them to the chain that it is given. -/
theorem removeDuplicates_spec {s : IncPath} {head : Option Nat} (hl : Walks (nextIn s.dirs) head l)
    (hlt : ∀ i ∈ l, i < s.dirs.length) (hothers : Others stat s.dirs l system join S J) :
    ∃ dirs' head', s.removeDuplicates stat head system join = some ({ s with dirs := dirs' }, head') ∧
      Walks (nextIn dirs') head' (keeps stat s.dirs S J [] l ++ J) ∧ ChangedIn l s.dirs dirs' ∧
      ∀ i ∈ keeps stat s.dirs S J [] l, Noted stat dirs' i := by
  have hstart : Removal.Valid stat s.dirs l [] l ⟨s.dirs, head, none⟩ :=
    ⟨.refl l s.dirs, hl, List.Sublist.refl l, rfl, nofun⟩
  have hfuel : l.length < s.dirs.length + 1 := Nat.lt_succ_of_le (length_le_of_nodup hl.nodup hlt)
  obtain ⟨st, hrun, hwalks, hchanged, hnoted⟩ := hstart.loop hothers hlt hfuel
  refine ⟨st.dirs, st.head, ?_, hwalks, hchanged, hnoted⟩
  rw [IncPath.removeDuplicates, hrun]
  rfl

end

end Cpp

end GccXml

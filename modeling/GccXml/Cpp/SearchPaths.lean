import GccXml.Cpp.SearchState
import Mathlib.Data.List.Perm.Subperm

namespace GccXml

/-! # `Cpp.SearchPaths` — the chains of directories in a run

Every chain that is searched is either a path of the normal directories or the wrapper directories with such a path
behind them. The second kind exists during a search only: between directives the wrapper chain ends in a null pointer.
Nothing that a directive adds changes a path that exists already, so a path that a file remembers stays what it is.

Directories are nodes of a heap with `next` pointers, and the last wrapper directory has its pointer written and taken
back in every search of the wrapper directories. `NormalPath` says that a pointer leads along nodes that are no wrapper
directories, and `SearchInv` that all pointers that are kept between directives do: the heads of the quote and the
bracket chain, what `dir_hash` holds, and the directories that files remember. A file that was found in a wrapper
directory remembers a node of its own, whose pointer leads to the normal path.

`Extends` is what happens to the heap: nodes are added at its end, and what is there stays. Paths are kept by it, since
a path through a node that exists leads to nodes that exist. So the invariant is shown of each function once, and what
a search does is stated by the list of directories that it goes through. -/

namespace Cpp

open Chain Reader

/-! ## Paths -/

/-- A directory of the normal chains: one on the heap that is no wrapper directory. -/
def Normal (W : List Nat) (r : Reader) (d : DirRef) : Prop := ∃ i, d = .node i ∧ i < r.dirs.length ∧ i ∉ W

/-- The directories `l` are a path of normal directories from `p` on, and it ends. -/
structure NormalPath (W : List Nat) (r : Reader) (p : Option DirRef) (l : List DirRef) : Prop where
  walks : Walks r.next p l
  normal : ∀ d ∈ l, Normal W r d

/-- The wrapper directories. -/
def wrapperChain (W : List Nat) : List DirRef := W.map .node

/-- The place that a file remembers: no path, a normal directory, or its own wrapper directory, with a normal path
behind it. -/
def RemembersPath (W : List Nat) (r : Reader) (f : Nat) (file : CppFile) : Prop :=
  ∀ d, file.dir = some d →
    d = .noSearchPath ∨ (∃ l, NormalPath W r (some d) l) ∨
      d = .wrapperDir f ∧ ∃ l, NormalPath W r file.wrapperDir.next l

/-- **The chains between two directives.** The stored wrapper chain is `W` with a null tail, and everything else that
is stored leads along normal directories. -/
structure SearchInv (W : List Nat) (r : Reader) : Prop where
  wrapper : Walks r.next r.wrapperInclude (wrapperChain W)
  wrapperLast : r.wrapperIncludeLast = (wrapperChain W).getLast?
  wrapper_lt : ∀ i ∈ W, i < r.dirs.length
  quote : ∃ l, NormalPath W r r.quoteInclude l
  bracket : ∃ l, NormalPath W r r.bracketInclude l
  dirHash : ∀ e ∈ r.dirHash, ∃ l, NormalPath W r (some e.2) l
  file : ∀ f < r.files.length, RemembersPath W r f (r.file f)

/-- Nothing is changed that a path could lead through. -/
structure Extends (r r' : Reader) : Prop where
  dirs : r.dirs <+: r'.dirs
  length_files : r.files.length ≤ r'.files.length
  place : ∀ f < r.files.length, (r'.file f).place = (r.file f).place
  quoteInclude : r'.quoteInclude = r.quoteInclude
  bracketInclude : r'.bracketInclude = r.bracketInclude
  wrapperInclude : r'.wrapperInclude = r.wrapperInclude
  wrapperIncludeLast : r'.wrapperIncludeLast = r.wrapperIncludeLast

namespace Extends

variable {r r' r'' : Reader}

theorem refl (r : Reader) : Extends r r :=
  ⟨List.prefix_rfl, Nat.le_refl _, fun _ _ => rfl, rfl, rfl, rfl, rfl⟩

theorem trans (h : Extends r r') (h' : Extends r' r'') : Extends r r'' where
  dirs := h.dirs.trans h'.dirs
  length_files := Nat.le_trans h.length_files h'.length_files
  place f hf := (h'.place f (Nat.lt_of_lt_of_le hf h.length_files)).trans (h.place f hf)
  quoteInclude := h'.quoteInclude.trans h.quoteInclude
  bracketInclude := h'.bracketInclude.trans h.bracketInclude
  wrapperInclude := h'.wrapperInclude.trans h.wrapperInclude
  wrapperIncludeLast := h'.wrapperIncludeLast.trans h.wrapperIncludeLast

/-- Only the reading state of files is changed. -/
theorem of_search (h : r'.search = r.search) : Extends r r' where
  dirs := by
    have hdirs : r'.dirs = r.dirs := congrArg SearchState.dirs h
    exact hdirs ▸ List.prefix_rfl
  length_files := by
    have hlen := congrArg (fun s : SearchState => s.places.length) h
    simp only [search, List.length_map] at hlen
    exact Nat.le_of_eq hlen.symm
  place f _ := by rw [place_file, place_file, h]
  quoteInclude := congrArg SearchState.quoteInclude h
  bracketInclude := congrArg SearchState.bracketInclude h
  wrapperInclude := congrArg SearchState.wrapperInclude h
  wrapperIncludeLast := congrArg SearchState.wrapperIncludeLast h

/-- A directory on the heap stays the same. -/
theorem dir_node (h : Extends r r') {i : Nat} (hi : i < r.dirs.length) : r'.dir (.node i) = r.dir (.node i) := by
  have hget := h.dirs.getElem hi
  have hi' : i < r'.dirs.length := Nat.lt_of_lt_of_le hi h.dirs.length_le
  simp only [Reader.dir, List.getD_eq_getElem?_getD, List.getElem?_eq_getElem hi, List.getElem?_eq_getElem hi', hget]

theorem next_node (h : Extends r r') {i : Nat} (hi : i < r.dirs.length) : r'.next (.node i) = r.next (.node i) :=
  congrArg CppDir.next (h.dir_node hi)

variable {W : List Nat} {p : Option DirRef} {l : List DirRef}

theorem normal (h : Extends r r') {d : DirRef} (hd : Normal W r d) : Normal W r' d := by
  obtain ⟨i, rfl, hi, hW⟩ := hd
  exact ⟨i, rfl, Nat.lt_of_lt_of_le hi h.dirs.length_le, hW⟩

/-- **A path stays what it is.** -/
theorem normalPath (h : Extends r r') (hl : NormalPath W r p l) : NormalPath W r' p l where
  walks := by
    refine hl.walks.congr fun d hd => ?_
    obtain ⟨i, rfl, hi, -⟩ := hl.normal d hd
    exact h.next_node hi
  normal d hd := h.normal (hl.normal d hd)

theorem wrapperChain (h : Extends r r') (hlt : ∀ i ∈ W, i < r.dirs.length)
    (hW : Walks r.next r.wrapperInclude (Cpp.wrapperChain W)) :
    Walks r'.next r'.wrapperInclude (Cpp.wrapperChain W) := by
  rw [h.wrapperInclude]
  refine hW.congr fun d hd => ?_
  obtain ⟨i, hi, rfl⟩ := List.mem_map.mp hd
  exact h.next_node (hlt i hi)

theorem remembersPath (h : Extends r r') {f : Nat} {file file' : CppFile} (hplace : file'.place = file.place)
    (hfile : RemembersPath W r f file) : RemembersPath W r' f file' := by
  have hdir : file'.dir = file.dir := congrArg Place.dir hplace
  have hwrapper : file'.wrapperDir = file.wrapperDir := congrArg Place.wrapperDir hplace
  intro d hd
  rw [hwrapper]
  obtain hno | ⟨l, hl⟩ | ⟨hd, l, hl⟩ := hfile d (hdir ▸ hd)
  · exact .inl hno
  · exact .inr (.inl ⟨l, h.normalPath hl⟩)
  · exact .inr (.inr ⟨hd, l, h.normalPath hl⟩)

/-- What an extension has to keep the invariant: its new directories and files lead along normal paths. -/
theorem searchInv (h : Extends r r') (hinv : SearchInv W r)
    (hdirHash : ∀ e ∈ r'.dirHash, e ∈ r.dirHash ∨ ∃ l, NormalPath W r' (some e.2) l)
    (hfile : ∀ f < r'.files.length, r.files.length ≤ f → RemembersPath W r' f (r'.file f)) : SearchInv W r' where
  wrapper := h.wrapperChain hinv.wrapper_lt hinv.wrapper
  wrapperLast := h.wrapperIncludeLast.trans hinv.wrapperLast
  wrapper_lt i hi := Nat.lt_of_lt_of_le (hinv.wrapper_lt i hi) h.dirs.length_le
  quote := by
    obtain ⟨l, hl⟩ := hinv.quote
    exact ⟨l, h.quoteInclude ▸ h.normalPath hl⟩
  bracket := by
    obtain ⟨l, hl⟩ := hinv.bracket
    exact ⟨l, h.bracketInclude ▸ h.normalPath hl⟩
  dirHash e he := by
    obtain hold | hnew := hdirHash e he
    · obtain ⟨l, hl⟩ := hinv.dirHash e hold
      exact ⟨l, h.normalPath hl⟩
    · exact hnew
  file f hf := by
    by_cases hold : f < r.files.length
    · exact h.remembersPath (h.place f hold) (hinv.file f hold)
    · exact hfile f hf (Nat.le_of_not_lt hold)

end Extends

variable {W : List Nat} {r : Reader} {p : Option DirRef} {l : List DirRef} {d : DirRef}

theorem NormalPath.nil : NormalPath W r none [] := ⟨rfl, nofun⟩

theorem NormalPath.tail (h : NormalPath W r (some d) l) : ∃ l', NormalPath W r (r.next d) l' := by
  obtain ⟨hwalks, hnormal⟩ := h
  cases l with
  | nil => cases hwalks
  | cons e l =>
      obtain rfl : d = e := Option.some.inj hwalks.1
      exact ⟨l, hwalks.2, fun d hd => hnormal d (List.mem_cons_of_mem _ hd)⟩

/-- Distinct directories on the heap are at most as many as it has. -/
theorem length_le_dirs {l : List DirRef} (hnodup : l.Nodup) (h : ∀ d ∈ l, ∃ i, d = .node i ∧ i < r.dirs.length) :
    l.length ≤ r.dirs.length := by
  have hsubset : l ⊆ (List.range r.dirs.length).map .node := by
    intro d hd
    obtain ⟨i, rfl, hi⟩ := h d hd
    exact List.mem_map_of_mem (List.mem_range.mpr hi)
  have hlen := (List.subperm_of_subset hnodup hsubset).length_le
  simpa using hlen

theorem NormalPath.length_le (h : NormalPath W r p l) : l.length ≤ r.dirs.length :=
  length_le_dirs h.walks.nodup fun d hd => by
    obtain ⟨i, hd, hi, -⟩ := h.normal d hd
    exact ⟨i, hd, hi⟩

/-- What `r.walk` computes. -/
theorem walk_eq {fuel : Nat} (h : Walks r.next p l) (hfuel : l.length ≤ fuel) : r.walk fuel p = l := by
  induction l generalizing p fuel with
  | nil =>
      rw [walks_nil.mp h]
      cases fuel <;> rfl
  | cons d l ih =>
      obtain ⟨fuel, rfl⟩ : ∃ n, fuel = n + 1 := ⟨fuel - 1, by simp only [List.length_cons] at hfuel; omega⟩
      rw [h.1, Reader.walk, ih h.2 (by simpa using hfuel)]

/-! ## Where a search begins -/

theorem SearchInv.remembersPath (hinv : SearchInv W r) (f : Nat) : RemembersPath W r f (r.file f) := by
  by_cases hf : f < r.files.length
  · exact hinv.file f hf
  · have hfile : r.file f = default := by
      simp [Reader.file, List.getD_eq_getElem?_getD, List.getElem?_eq_none (Nat.le_of_not_lt hf)]
    rw [hfile]
    intro d hd
    cases hd

/-- The path after the place that a file remembers. -/
theorem RemembersPath.next {f : Nat} (h : RemembersPath W r f (r.file f)) :
    ∃ l, NormalPath W r ((r.file f).dir.bind r.next) l := by
  cases hdir : (r.file f).dir with
  | none => exact ⟨[], .nil⟩
  | some d =>
      obtain rfl | ⟨l, hl⟩ | ⟨rfl, l, hl⟩ := h d hdir
      · exact ⟨[], .nil⟩
      · exact hl.tail
      · exact ⟨l, hl⟩

/-- `make_cpp_dir` gives a directory with the quote chain behind it. -/
theorem makeCppDir_spec (hinv : SearchInv W r) (dirName : Path) (sysp : Nat) :
    SearchInv W (makeCppDir r dirName sysp).1 ∧ Extends r (makeCppDir r dirName sysp).1 ∧
      (makeCppDir r dirName sysp).1.files = r.files ∧ (makeCppDir r dirName sysp).1.buffers = r.buffers ∧
      (makeCppDir r dirName sysp).1.mainFile = r.mainFile ∧
      ∃ l, NormalPath W (makeCppDir r dirName sysp).1 (some (makeCppDir r dirName sysp).2) l := by
  unfold makeCppDir
  cases hlookup : r.dirHash.lookup dirName with
  | some d =>
      obtain ⟨l₁, l₂, hhash, -⟩ := List.lookup_eq_some_iff.mp hlookup
      have hmem : (dirName, d) ∈ r.dirHash := by
        rw [hhash]
        exact List.mem_append_right _ List.mem_cons_self
      exact ⟨hinv, .refl r, rfl, rfl, rfl, hinv.dirHash (dirName, d) hmem⟩
  | none =>
      obtain ⟨l, hl⟩ := hinv.quote
      have hextends : Extends r { r with
          dirs := r.dirs ++ [⟨r.quoteInclude, dirName, sysp, none⟩]
          dirHash := (dirName, .node r.dirs.length) :: r.dirHash } :=
        ⟨List.prefix_append _ _, Nat.le_refl _, fun _ _ => rfl, rfl, rfl, rfl, rfl⟩
      -- the new directory leads to the quote chain, and no wrapper directory is as new as it
      have hnew : NormalPath W { r with
          dirs := r.dirs ++ [⟨r.quoteInclude, dirName, sysp, none⟩]
          dirHash := (dirName, .node r.dirs.length) :: r.dirHash } (some (.node r.dirs.length))
            (.node r.dirs.length :: l) := by
        have hpath := hextends.normalPath hl
        refine ⟨⟨rfl, ?_⟩, ?_⟩
        · simpa [Reader.next, Reader.dir, List.getD_eq_getElem?_getD] using hpath.walks
        · refine List.forall_mem_cons.mpr ⟨⟨_, rfl, by simp, ?_⟩, hpath.normal⟩
          exact fun hi => Nat.lt_irrefl _ (hinv.wrapper_lt _ hi)
      refine ⟨hextends.searchInv hinv ?_ ?_, hextends, rfl, rfl, rfl, _, hnew⟩
      · intro e he
        obtain rfl | he := List.mem_cons.mp he
        · exact .inr ⟨_, hnew⟩
        · exact .inl he
      · exact fun f hf hge => absurd hf (Nat.not_lt_of_le hge)

/-- **Where a search begins**: at no path, or at a normal one. -/
structure PathHead (W : List Nat) (r : Reader) (fname : Path) (head : Reader × Option DirRef) : Prop where
  searchInv : SearchInv W head.1
  extends_ : Extends r head.1
  files : head.1.files = r.files
  currentFile : head.1.currentFile = r.currentFile
  start : isAbsolutePath fname = true ∧ head.2 = some .noSearchPath ∨
    isAbsolutePath fname = false ∧ ∃ l, NormalPath W head.1 head.2 l

theorem pathHead_makeCppDir (hinv : SearchInv W r) {fname : Path} (habsolute : isAbsolutePath fname = false)
    (dirName : Path) (sysp : Nat) :
    PathHead W r fname ((makeCppDir r dirName sysp).1, some (makeCppDir r dirName sysp).2) := by
  obtain ⟨hinv', hextends, hfiles, hbuffers, hmain, hpath⟩ := makeCppDir_spec hinv dirName sysp
  refine ⟨hinv', hextends, hfiles, ?_, .inr ⟨habsolute, hpath⟩⟩
  rw [currentFile, currentFile, hbuffers, hmain]

theorem searchPathHead_spec (hinv : SearchInv W r) (fname : Path) (angleBrackets : Bool) (type : IncludeType) :
    PathHead W r fname (searchPathHead r fname angleBrackets type) := by
  unfold searchPathHead
  dsimp only
  by_cases habsolute : isAbsolutePath fname = true
  · rw [if_pos habsolute]
    exact ⟨hinv, .refl r, rfl, rfl, .inl ⟨habsolute, rfl⟩⟩
  · have hrelative : isAbsolutePath fname = false := Bool.eq_false_iff.mpr habsolute
    rw [if_neg habsolute]
    split
    · exact ⟨hinv, .refl r, rfl, rfl, .inr ⟨hrelative, (hinv.remembersPath _).next⟩⟩
    · split
      · exact ⟨hinv, .refl r, rfl, rfl, .inr ⟨hrelative, hinv.bracket⟩⟩
      · split
        · exact pathHead_makeCppDir hinv hrelative _ _
        · split
          · exact ⟨hinv, .refl r, rfl, rfl, .inr ⟨hrelative, hinv.quote⟩⟩
          · exact pathHead_makeCppDir hinv hrelative _ _

/-! ## A search along a path -/

theorem extends_addFile (r : Reader) (file : CppFile) : Extends r (r.addFile file) where
  dirs := List.prefix_rfl
  length_files := by
    rw [length_addFile]
    exact Nat.le_succ _
  place f hf := by rw [file_addFile_lt hf]
  quoteInclude := rfl
  bracketInclude := rfl
  wrapperInclude := rfl
  wrapperIncludeLast := rfl

theorem setFile_addFile_self (r : Reader) (file file' : CppFile) :
    (r.addFile file).setFile r.files.length file' = r.addFile file' := by
  simp [Reader.addFile, setFile, List.set_append_right]

/-- A new file keeps the invariant if its place is a normal path. -/
theorem SearchInv.addFile (hinv : SearchInv W r) {file : CppFile} (h : RemembersPath W r r.files.length file) :
    SearchInv W (r.addFile file) := by
  have hextends := extends_addFile r file
  refine hextends.searchInv hinv (fun e he => .inl he) fun f hf hge => ?_
  rw [length_addFile] at hf
  obtain rfl : f = r.files.length := Nat.le_antisymm (Nat.le_of_lt_succ hf) hge
  rw [file_addFile_self]
  exact hextends.remembersPath rfl h

/-- A file that is found along a normal path remembers a normal path. -/
theorem FoundIn.remembersPath {out : Outside} {validPch : ValidPch} {fname : Path} {file : CppFile} {f : Nat}
    (hl : NormalPath W r p l) (h : FoundIn out validPch r fname l file) : RemembersPath W r f file := by
  intro d hd
  have hfirst := h.dir.symm.trans hd
  have hmem : d ∈ l := List.mem_of_find?_eq_some hfirst
  obtain ⟨l₁, l₂, rfl⟩ := List.append_of_mem hmem
  refine .inr (.inl ⟨d :: l₂, ⟨rfl, hl.walks.after⟩, ?_⟩)
  exact fun e he => hl.normal e (List.mem_append_right _ he)

/-! ## A search along the wrapper directories -/

section

variable {k : Nat}

theorem dir_setNext (hk : k < r.dirs.length) (d : DirRef) :
    (r.setNext (.node k) p).dir d = if d = .node k then { r.dir d with next := p } else r.dir d := by
  cases d with
  | noSearchPath => rfl
  | wrapperDir f => rfl
  | node i =>
      by_cases hi : i = k
      · subst hi
        simp [Reader.dir, setNext, List.getD_eq_getElem?_getD, hk]
      · have hne : DirRef.node i ≠ .node k := fun h => hi (DirRef.node.inj h)
        simp [Reader.dir, setNext, List.getD_eq_getElem?_getD, hne, Ne.symm hi]

theorem next_setNext (hk : k < r.dirs.length) (d : DirRef) :
    (r.setNext (.node k) p).next d = if d = .node k then p else r.next d := by
  unfold Reader.next
  rw [dir_setNext hk]
  split <;> rfl

/-- After the search the last wrapper directory is as it was. -/
theorem setNext_restore (hk : k < r.dirs.length) (hlast : r.next (.node k) = none) (file : CppFile) :
    ((r.setNext (.node k) p).addFile file).setNext (.node k) none = r.addFile file := by
  have hdirs : (r.dirs.modify k fun dir => { dir with next := p }).modify k (fun dir => { dir with next := none }) =
      r.dirs := by
    apply List.ext_getElem?
    intro i
    rw [List.getElem?_modify, List.getElem?_modify]
    by_cases hi : k = i
    · subst hi
      have hnext : (r.dirs[k]).next = none := by
        simpa [Reader.next, Reader.dir, List.getD_eq_getElem?_getD, hk] using hlast
      simp only [if_true, List.getElem?_eq_getElem hk, Option.map_eq_map, Option.map_some, ← hnext]
    · simp [hi]
  simp only [setNext, Reader.addFile, hdirs]

/-- What is in a directory does not depend on the directory after it. -/
theorem foundIn_setNext {out : Outside} {validPch : ValidPch} {fname : Path} {file : CppFile} (hk : k < r.dirs.length)
    (h : FoundIn out validPch (r.setNext (.node k) p) fname l file) : FoundIn out validPch r fname l file := by
  have hpresent : ∀ d, isPresent out validPch fname ((r.setNext (.node k) p).dir d) =
      isPresent out validPch fname (r.dir d) := by
    intro d
    rw [dir_setNext hk]
    split <;> rfl
  have hopened : ∀ d, Opened out validPch fname ((r.setNext (.node k) p).dir d) file →
      Opened out validPch fname (r.dir d) file := by
    intro d hd
    rw [dir_setNext hk] at hd
    split at hd
    · exact hd
    · exact hd
  refine ⟨h.unread, h.dir.trans ?_, fun d hd => hopened d (h.opened d hd), h.failed⟩
  simp only [firstDir, hpresent]

end

/-- The file that a search along the wrapper directories makes: if it is that of a wrapper directory, it remembers a
copy of it with the normal path behind it. -/
def patchWrapper (W : List Nat) (r : Reader) (f : Nat) (start : DirRef) (file : CppFile) : CppFile :=
  match (wrapperChain W).find? fun d => file.dir = some d with
  | none => file
  | some wrapperDir =>
      { file with dir := some (.wrapperDir f), wrapperDir := { r.dir wrapperDir with next := some start } }

/-- The wrapper directories with a normal path behind them. -/
theorem walks_spliced {W' : List Nat} {k : Nat} (hinv : SearchInv (W' ++ [k]) r) {start : DirRef}
    (hl : NormalPath (W' ++ [k]) r (some start) l) :
    Walks (r.setNext (.node k) (some start)).next r.wrapperInclude (wrapperChain (W' ++ [k]) ++ l) := by
  have hk : k < r.dirs.length := hinv.wrapper_lt k (by simp)
  have hwalks : Walks r.next r.wrapperInclude (wrapperChain W' ++ [.node k]) := by
    simpa [wrapperChain] using hinv.wrapper
  have hother : ∀ d ∈ wrapperChain W', (r.setNext (.node k) (some start)).next d = r.next d := by
    intro d hd
    rw [next_setNext hk, if_neg]
    rintro rfl
    exact (List.nodup_append.mp hwalks.nodup).2.2 _ hd _ List.mem_cons_self rfl
  have htail : Walks (r.setNext (.node k) (some start)).next (some start) l := by
    refine hl.walks.congr fun d hd => ?_
    obtain ⟨i, rfl, -, hi⟩ := hl.normal d hd
    rw [next_setNext hk, if_neg]
    intro h
    exact hi (DirRef.node.inj h ▸ by simp)
  have hspliced := hwalks.splice hother (by rw [next_setNext hk, if_pos rfl]) htail
  simpa [wrapperChain] using hspliced

/-- **The search of the wrapper directories.** It is a search of these and then of the normal path, and leaves the
chains as they were. -/
theorem findWrapped_spec {out : Outside} {validPch : ValidPch} (hinv : SearchInv W r) (fname : Path) {start : DirRef}
    (hl : NormalPath W r (some start) l) {wrapper last : DirRef} (hwrapper : r.wrapperInclude = some wrapper)
    (hlast : r.wrapperIncludeLast = some last) :
    ∃ file, findWrapped false out validPch r fname wrapper last start =
        some (r.addFile (patchWrapper W r r.files.length start file), r.files.length) ∧
      FoundIn out validPch r fname (wrapperChain W ++ l) file := by
  obtain ⟨W', k, rfl⟩ : ∃ W' k, W = W' ++ [k] := by
    obtain rfl | ⟨W', k, rfl⟩ := List.eq_nil_or_concat' W
    · cases hwrapper.symm.trans hinv.wrapper
    · exact ⟨W', k, rfl⟩
  obtain rfl : last = .node k := by
    have hgetLast := hinv.wrapperLast.symm.trans hlast
    simpa [wrapperChain] using hgetLast.symm
  have hk : k < r.dirs.length := hinv.wrapper_lt k (by simp)
  have hnull : r.next (.node k) = none := by
    have hwalks : Walks r.next r.wrapperInclude (wrapperChain W' ++ [.node k]) := by
      simpa [wrapperChain] using hinv.wrapper
    exact hwalks.next_last
  have hwalks := walks_spliced hinv hl
  rw [hwrapper] at hwalks
  have hdirs : (r.setNext (.node k) (some start)).dirs.length = r.dirs.length := by simp [setNext]
  -- wrappers and path share no directory, so the table bounds the spliced chain
  have hlen : (wrapperChain (W' ++ [k]) ++ l).length ≤ r.dirs.length := by
    refine length_le_dirs hwalks.nodup fun d hd => ?_
    obtain hd | hd := List.mem_append.mp hd
    · obtain ⟨i, hi, rfl⟩ := List.mem_map.mp hd
      exact ⟨i, rfl, hinv.wrapper_lt i hi⟩
    · obtain ⟨i, rfl, hi, -⟩ := hl.normal d hd
      exact ⟨i, rfl, hi⟩
  obtain ⟨file, hfind, hfound⟩ := @findFile_spec out validPch _ fname _ _ hwalks
    (by rw [hdirs]; exact Nat.le_succ_of_le hlen)
  refine ⟨file, ?_, foundIn_setNext hk hfound⟩
  -- the link is taken back before the patch, so the wrapper chain can be walked again
  have hchain : (r.addFile file).walk ((r.addFile file).dirs.length + 1) (some wrapper) = wrapperChain (W' ++ [k]) := by
    have hwrappers := (extends_addFile r file).wrapperChain hinv.wrapper_lt hinv.wrapper
    rw [← hwrapper]
    refine walk_eq hwrappers ?_
    rw [List.length_append] at hlen
    exact Nat.le_succ_of_le (Nat.le_trans (Nat.le_add_right _ _) hlen)
  have hfiles : (r.setNext (.node k) (some start)).files.length = r.files.length := rfl
  simp only [findWrapped, hfind, setNext_restore hk hnull, hchain, hfiles, file_addFile_self]
  unfold patchWrapper
  cases hpatch : (wrapperChain (W' ++ [k])).find? fun d => decide (file.dir = some d) with
  | none => rfl
  | some wrapperDir =>
      obtain ⟨i, -, rfl⟩ := List.mem_map.mp (List.mem_of_find?_eq_some hpatch)
      exact congrArg (fun r' => some (r', r.files.length)) (setFile_addFile_self r file _)

theorem mem_wrapperChain_of_patch {file : CppFile} {wrapperDir : DirRef}
    (h : ((wrapperChain W).find? fun d => file.dir = some d) = some wrapperDir) :
    file.dir = some wrapperDir ∧ wrapperDir ∈ wrapperChain W :=
  ⟨by simpa using List.find?_some h, List.mem_of_find?_eq_some h⟩

/-- The path behind the directory `d` in which a file was found. -/
def pathAfter (W : List Nat) (l : List DirRef) (d : DirRef) : List DirRef :=
  if d ∈ wrapperChain W then l else (l.dropWhile (· ≠ d)).tail

/-- A file that is found along the wrapper directories remembers where to go on: a wrapper at the beginning of the
normal path, another file behind its own directory. -/
theorem patchWrapper_spec {out : Outside} {validPch : ValidPch} {fname : Path} {file : CppFile} {start : DirRef}
    (f : Nat) (hl : NormalPath W r (some start) l) (h : FoundIn out validPch r fname (wrapperChain W ++ l) file) :
    RemembersPath W r f (patchWrapper W r f start file) ∧
      (patchWrapper W r f start file).dir.isSome = file.dir.isSome ∧
      ∀ d, file.dir = some d → ∀ r' : Reader, Extends r r' → f < r'.files.length →
        (r'.file f).place = (patchWrapper W r f start file).place →
          NormalPath W r' ((r'.file f).dir.bind r'.next) (pathAfter W l d) := by
  unfold patchWrapper
  cases hpatch : (wrapperChain W).find? fun d => decide (file.dir = some d) with
  | some wrapperDir =>
      -- found in a wrapper directory: the file gets a directory of its own that leads to the start
      obtain ⟨hdir, hmem⟩ := mem_wrapperChain_of_patch hpatch
      refine ⟨fun d hd => ?_, by rw [hdir]; rfl, fun d hd r' hextends hf hplace => ?_⟩
      · cases hd
        exact .inr (.inr ⟨rfl, l, hl⟩)
      · obtain rfl : wrapperDir = d := Option.some.inj (hdir.symm.trans hd)
        have hdir' : (r'.file f).dir = some (.wrapperDir f) := congrArg Place.dir hplace
        have hnext : (r'.file f).wrapperDir.next = some start :=
          congrArg (fun place : Place => place.wrapperDir.next) hplace
        rw [hdir', pathAfter, if_pos hmem]
        have hstart : (some (DirRef.wrapperDir f)).bind r'.next = some start := hnext
        rw [hstart]
        exact hextends.normalPath hl
  | none =>
      -- found on the path itself: what follows is the rest of that path
      have hnot : ∀ d, file.dir = some d → d ∉ wrapperChain W := by
        intro d hd hmem
        have hno := List.find?_eq_none.mp hpatch d hmem
        exact hno (decide_eq_true hd)
      have hsplit : ∀ d, file.dir = some d → ∃ l₁ l₂, l = l₁ ++ d :: l₂ := by
        intro d hd
        have hmem : d ∈ wrapperChain W ++ l := List.mem_of_find?_eq_some (h.dir.symm.trans hd)
        exact List.append_of_mem ((List.mem_append.mp hmem).resolve_left (hnot d hd))
      refine ⟨fun d hd => ?_, rfl, fun d hd r' hextends hf hplace => ?_⟩
      · obtain ⟨l₁, l₂, rfl⟩ := hsplit d hd
        refine .inr (.inl ⟨d :: l₂, ⟨rfl, hl.walks.after⟩, ?_⟩)
        exact fun e he => hl.normal e (List.mem_append_right _ he)
      · obtain ⟨l₁, l₂, rfl⟩ := hsplit d hd
        have hdir' : (r'.file f).dir = some d := (congrArg Place.dir hplace).trans hd
        have hafter : ((l₁ ++ d :: l₂).dropWhile (· ≠ d)).tail = l₂ := by
          have hnodup := hl.walks.nodup
          have hl₁ : ∀ e ∈ l₁, decide (e ≠ d) = true := by
            intro e he
            refine decide_eq_true fun heq => ?_
            exact (List.nodup_append.mp hnodup).2.2 e he d List.mem_cons_self heq
          rw [List.dropWhile_append_of_pos hl₁, List.dropWhile_cons_of_neg (by simp), List.tail_cons]
        have hpath := hextends.normalPath hl
        rw [hdir', pathAfter, if_neg (hnot d hd), hafter]
        exact ⟨hpath.walks.after, fun e he => hpath.normal e (List.mem_append_right _ (List.mem_cons_of_mem _ he))⟩

end Cpp

end GccXml

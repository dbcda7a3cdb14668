import GccXml.Cpp.Reading
import GccXml.Cpp.SearchPaths

namespace GccXml

/-! # `Cpp.CachedLookup` — looking a file up with the cache and without it

The entries of the cache are results of earlier searches. Since no directory of a chain that was searched is changed
afterwards, a file from the cache is the same as one that is made anew: it has the same directory and path, and reading
it gives the same text.

`FoundAt` says of a file object what a search through a chain of directories leaves in it; it looks at the outside
world only, so two files that were found along one chain agree (`FoundAt.same`). `HashInv` is the invariant of the
cache: every entry was found in this sense, from the directory of its key on. What a reader does to its files is
bounded by `Keeps`, which every step of the preprocessor satisfies, so entries stay what they were.

`findFile_cached` is the one lemma about the code: `_cpp_find_file` gives a file that the cache knows for some suffix
of the chain that it comes to, or makes a new one if it knows none. -/

namespace Cpp

open Chain Reader

/-- No precompiled headers. -/
def noPch : ValidPch := fun _ => none

/-- The text of the file that a search through `l` finds. -/
def textIn (out : Outside) (r : Reader) (fname : Path) (l : List DirRef) : Option Contents :=
  (firstDir out noPch r fname l).bind fun d => (candidatePath fname (r.dir d)).bind (textOfPath out)

/-- A file that a search through `l` has found at some time. -/
structure FoundAt (out : Outside) (r : Reader) (fname : Path) (l : List DirRef) (file : CppFile) : Prop where
  dir : file.dir = firstDir out noPch r fname l
  path : ∀ d, file.dir = some d → file.path = candidatePath fname (r.dir d)
  text : textAt out file = textIn out r fname l

/-- A search may begin at `d`, and leads through `l`. -/
def StartsAt (r : Reader) (d : DirRef) (l : List DirRef) : Prop :=
  d = .noSearchPath ∧ l = [.noSearchPath] ∨ NormalPath [] r (some d) l

/-- Files stay where they are, and keep their text, their mark and their guard. -/
structure Keeps (out : Outside) (r r' : Reader) : Prop where
  extends_ : Extends r r'
  text : ∀ f < r.files.length, textAt out (r'.file f) = textAt out (r.file f)
  onceOnly : ∀ f < r.files.length, (r.file f).onceOnly = true → (r'.file f).onceOnly = true
  cmacroName : ∀ f < r.files.length, (r.file f).cmacroName.isSome = true → (r'.file f).cmacroName.isSome = true

/-- **The entries of the cache** are files that were found from their directories on. -/
def HashInv (out : Outside) (r : Reader) : Prop :=
  ∀ e ∈ r.fileHash, e.2 < r.files.length ∧ ∃ l, StartsAt r e.1.2 l ∧ FoundAt out r e.1.1 l (r.file e.2)

/-- The cache knows the file for a search through `l`: from its first directory on, or from the head of a chain that the
search comes to. -/
def CacheHit (out : Outside) (r : Reader) (fname : Path) (l : List DirRef) (f : Nat) : Prop :=
  ∃ l₁ d l₂, l = l₁ ++ d :: l₂ ∧ firstDir out noPch r fname l₁ = none ∧
    (l₁ = [] ∨ some d = r.bracketInclude ∨ some d = r.quoteInclude) ∧ searchCache r fname d = some f

/-! ## Chains -/

section

variable {out : Outside} {r r' r'' : Reader} {fname : Path} {l l' : List DirRef} {d : DirRef} {file file' : CppFile}

theorem StartsAt.walks (h : StartsAt r d l) : Walks r.next (some d) l := by
  obtain ⟨rfl, rfl⟩ | h := h
  · exact ⟨rfl, rfl⟩
  · exact h.walks

theorem StartsAt.unique (h : StartsAt r d l) (h' : StartsAt r d l') : l = l' := h.walks.unique h'.walks

theorem StartsAt.length_le (h : StartsAt r d l) : l.length ≤ r.dirs.length + 1 := by
  obtain ⟨-, rfl⟩ | h := h
  · exact Nat.le_add_left _ _
  · exact Nat.le_succ_of_le h.length_le

theorem StartsAt.ne_nil (h : StartsAt r d l) : l ≠ [] := by
  rintro rfl
  cases h.walks

/-- What follows a directory of a chain can be searched as well. -/
theorem StartsAt.after {l₁ l₂ : List DirRef} {e : DirRef} (h : StartsAt r d (l₁ ++ e :: l₂)) :
    StartsAt r e (e :: l₂) := by
  obtain ⟨rfl, hl⟩ | h := h
  · cases l₁ with
    | nil =>
        obtain ⟨rfl, rfl⟩ := List.cons.inj hl
        exact .inl ⟨rfl, rfl⟩
    | cons _ l₁ => exact absurd (List.cons.inj hl).2 (by simp)
  · exact .inr ⟨⟨rfl, h.walks.after⟩, fun e' he' => h.normal e' (List.mem_append_right _ he')⟩

theorem StartsAt.extends_ (h : StartsAt r d l) (hextends : Extends r r') : StartsAt r' d l := by
  obtain ⟨rfl, rfl⟩ | h := h
  · exact .inl ⟨rfl, rfl⟩
  · exact .inr (hextends.normalPath h)

/-- The directories of a chain stay what they are. -/
theorem StartsAt.dir_eq (h : StartsAt r d l) (hextends : Extends r r') : ∀ e ∈ l, r'.dir e = r.dir e := by
  intro e he
  obtain ⟨rfl, rfl⟩ | h := h
  · obtain rfl := List.mem_singleton.mp he
    rfl
  · obtain ⟨i, rfl, hi, -⟩ := h.normal e he
    exact hextends.dir_node hi

theorem firstDir_congr (h : ∀ e ∈ l, r'.dir e = r.dir e) :
    firstDir out noPch r' fname l = firstDir out noPch r fname l := by
  induction l with
  | nil => rfl
  | cons e l ih =>
      rw [List.forall_mem_cons] at h
      simp only [firstDir, List.find?_cons, h.1] at ih ⊢
      rw [ih h.2]

theorem textIn_congr (h : ∀ e ∈ l, r'.dir e = r.dir e) : textIn out r' fname l = textIn out r fname l := by
  unfold textIn
  rw [firstDir_congr h]
  cases hfirst : firstDir out noPch r fname l with
  | none => rfl
  | some e => rw [Option.bind_some, Option.bind_some, h e (List.mem_of_find?_eq_some hfirst)]

/-! ## Files that were found -/

/-- A file that was found stays found. -/
theorem FoundAt.extends_ (h : FoundAt out r fname l file) (hstart : StartsAt r d l) (hextends : Extends r r')
    (hplace : file'.place = file.place) (htext : textAt out file' = textAt out file) :
    FoundAt out r' fname l file' := by
  have hdirs := hstart.dir_eq hextends
  have hdir : file'.dir = file.dir := congrArg Place.dir hplace
  have hpath : file'.path = file.path := congrArg Place.path hplace
  refine ⟨?_, fun e he => ?_, ?_⟩
  · rw [hdir, firstDir_congr hdirs, h.dir]
  · rw [hdir] at he
    have hmem : e ∈ l := List.mem_of_find?_eq_some (h.dir.symm.trans he)
    rw [hpath, hdirs e hmem, h.path e he]
  · rw [htext, textIn_congr hdirs, h.text]

/-- The file of a directory in which the name was found. -/
theorem FoundIn.opened_spec (h : FoundIn out noPch r fname l file) (hd : file.dir = some d) :
    ∃ path, candidatePath fname (r.dir d) = some path ∧ file.path = some path ∧ file.pch = none ∧
      match out.entry path with
      | .missing => False
      | .refused => file.errNo = .other
      | .file mtime contents _ => file.errNo = .ok ∧ file.st = ⟨mtime, contents.length⟩ := by
  obtain ⟨path, hcandidate, hpath, hpch, hentry⟩ := h.opened d hd
  have hnone : file.pch = none := by
    rw [hpch, pchOpenFile]
    split <;> rfl
  exact ⟨path, hcandidate, hpath, hnone, hentry hnone⟩

/-- **What a search makes has been found.** -/
theorem FoundIn.foundAt (h : FoundIn out noPch r fname l file) : FoundAt out r fname l file := by
  refine ⟨h.dir, fun e he => ?_, ?_⟩
  · obtain ⟨path, hcandidate, hpath, -⟩ := h.opened_spec he
    exact hpath.trans hcandidate.symm
  · rw [textIn, ← h.dir]
    cases hdir : file.dir with
    | none =>
        rw [textAt, if_neg (by rw [(h.failed hdir).1]; decide)]
        rfl
    | some e =>
        obtain ⟨path, hcandidate, hpath, -, hentry⟩ := h.opened_spec hdir
        rw [Option.bind_some, hcandidate, Option.bind_some, textAt, hpath, Option.getD_some]
        cases he : out.entry path with
        | missing =>
            rw [he] at hentry
            exact (hentry : False).elim
        | refused =>
            rw [he] at hentry
            have herr : file.errNo = .other := hentry
            rw [if_neg (by rw [herr]; decide), textOfPath, he]
        | file mtime contents readable =>
            rw [he] at hentry
            have hopened : file.errNo = .ok ∧ file.st = ⟨mtime, contents.length⟩ := hentry
            rw [if_pos hopened.1]

theorem FoundIn.settled (h : FoundIn out noPch r fname l file) : Settled out file := by
  have hbuffer : file.bufferValid = false := h.unread.bufferValid
  have hdont : file.dontRead = false := h.unread.dontRead
  refine ⟨?_, fun hok => ?_, fun hv => ?_, fun hd => ?_⟩
  · cases hdir : file.dir with
    | none => exact (h.failed hdir).2
    | some e =>
        obtain ⟨_, _, _, hpch, _⟩ := h.opened_spec hdir
        exact hpch
  · cases hdir : file.dir with
    | none => cases hok.symm.trans (h.failed hdir).1
    | some e =>
        obtain ⟨path, -, hpath, -, hentry⟩ := h.opened_spec hdir
        rw [hpath, Option.getD_some]
        -- a file without an error was opened at its path, and `open_file` took the size from there
        cases he : out.entry path with
        | missing =>
            rw [he] at hentry
            exact (hentry : False).elim
        | refused =>
            rw [he] at hentry
            have herr : file.errNo = .other := hentry
            cases hok.symm.trans herr
        | file mtime contents readable =>
            rw [he] at hentry
            have hopened : file.errNo = .ok ∧ file.st = ⟨mtime, contents.length⟩ := hentry
            exact ⟨mtime, contents, readable, rfl, hopened.2⟩
  · cases hv.symm.trans hbuffer
  · cases hd.symm.trans hdont

/-- **Two files that were found along one chain** are in one place, and have one text. -/
theorem FoundAt.same (h : FoundAt out r fname l file) (h' : FoundAt out r fname l file') :
    file'.dir = file.dir ∧ (file.dir.isSome = true → file'.path = file.path) ∧ textAt out file' = textAt out file := by
  have hdir := h'.dir.trans h.dir.symm
  refine ⟨hdir, fun hsome => ?_, h'.text.trans h.text.symm⟩
  obtain ⟨e, he⟩ := Option.isSome_iff_exists.mp hsome
  rw [h.path e he, h'.path e (hdir.trans he)]

/-! ## Keeping the files -/

/-- The files are the same. -/
theorem Keeps.of_files (hextends : Extends r r') (hfiles : r'.files = r.files) : Keeps out r r' := by
  have hfile : ∀ f, r'.file f = r.file f := fun f => by rw [Reader.file, hfiles, Reader.file]
  exact ⟨hextends, fun f _ => by rw [hfile], fun f _ h => by rwa [hfile], fun f _ h => by rwa [hfile]⟩

theorem Keeps.refl (r : Reader) : Keeps out r r := .of_files (.refl r) rfl

theorem Keeps.trans (h : Keeps out r r') (h' : Keeps out r' r'') : Keeps out r r'' := by
  have hlt : ∀ f < r.files.length, f < r'.files.length := fun f hf => Nat.lt_of_lt_of_le hf h.extends_.length_files
  refine ⟨h.extends_.trans h'.extends_, fun f hf => ?_, fun f hf honce => ?_, fun f hf hname => ?_⟩
  · exact (h'.text f (hlt f hf)).trans (h.text f hf)
  · exact h'.onceOnly f (hlt f hf) (h.onceOnly f hf honce)
  · exact h'.cmacroName f (hlt f hf) (h.cmacroName f hf hname)

/-- Entries stay entries. -/
theorem HashInv.keeps (h : HashInv out r) (hkeeps : Keeps out r r') (hhash : r'.fileHash = r.fileHash) :
    HashInv out r' := by
  intro e he
  rw [hhash] at he
  obtain ⟨hlt, l, hstart, hfound⟩ := h e he
  refine ⟨Nat.lt_of_lt_of_le hlt hkeeps.extends_.length_files, l, hstart.extends_ hkeeps.extends_, ?_⟩
  exact hfound.extends_ hstart hkeeps.extends_ (hkeeps.extends_.place _ hlt) (hkeeps.text _ hlt)

variable (out) in
theorem keeps_addFile (r : Reader) (file : CppFile) : Keeps out r (r.addFile file) where
  extends_ := extends_addFile r file
  text f hf := by rw [file_addFile_lt hf]
  onceOnly f hf honce := by rwa [file_addFile_lt hf]
  cmacroName f hf hname := by rwa [file_addFile_lt hf]

/-- A new entry. -/
theorem HashInv.cons (h : HashInv out r) {f : Nat} (hf : f < r.files.length) (hstart : StartsAt r d l)
    (hfound : FoundAt out r fname l (r.file f)) :
    HashInv out { r with fileHash := ((fname, d), f) :: r.fileHash } := by
  have hkeeps : Keeps out r { r with fileHash := ((fname, d), f) :: r.fileHash } :=
    .of_files ⟨List.prefix_rfl, Nat.le_refl _, fun _ _ => rfl, rfl, rfl, rfl, rfl⟩ rfl
  intro e he
  obtain rfl | he := List.mem_cons.mp he
  · exact ⟨hf, l, hstart.extends_ hkeeps.extends_, hfound.extends_ hstart hkeeps.extends_ rfl rfl⟩
  · obtain ⟨hlt, l', hstart', hfound'⟩ := h e he
    exact ⟨hlt, l', hstart'.extends_ hkeeps.extends_, hfound'.extends_ hstart' hkeeps.extends_ rfl rfl⟩

/-! ## The search -/

/-- An entry of the cache is what a search finds. -/
theorem HashInv.foundAt_of_searchCache (h : HashInv out r) (hstart : StartsAt r d l) {f : Nat}
    (hsearch : searchCache r fname d = some f) : f < r.files.length ∧ FoundAt out r fname l (r.file f) := by
  obtain ⟨l₁, l₂, hhash, -⟩ := List.lookup_eq_some_iff.mp hsearch
  have hmem : ((fname, d), f) ∈ r.fileHash := by
    rw [hhash]
    exact List.mem_append_right _ List.mem_cons_self
  obtain ⟨hlt, l', hstart', hfound⟩ := h _ hmem
  obtain rfl := hstart.unique hstart'
  exact ⟨hlt, hfound⟩

/-- A file that was found in a later part of a chain, before which the name is not present. -/
theorem FoundAt.of_absent {l₁ l₂ : List DirRef} (h : FoundAt out r fname l₂ file)
    (habsent : firstDir out noPch r fname l₁ = none) : FoundAt out r fname (l₁ ++ l₂) file := by
  have hfirst : firstDir out noPch r fname (l₁ ++ l₂) = firstDir out noPch r fname l₂ := by
    unfold firstDir at habsent ⊢
    rw [List.find?_append, habsent, Option.none_or]
  have htext : textIn out r fname (l₁ ++ l₂) = textIn out r fname l₂ := by rw [textIn, hfirst, textIn]
  exact ⟨h.dir.trans hfirst.symm, h.path, h.text.trans htext.symm⟩

/-- What the cache knows is what a search finds. -/
theorem HashInv.foundAt (h : HashInv out r) (hstart : StartsAt r d l) {f : Nat} (hhit : CacheHit out r fname l f) :
    f < r.files.length ∧ FoundAt out r fname l (r.file f) := by
  obtain ⟨l₁, e, l₂, rfl, habsent, -, hsearch⟩ := hhit
  obtain ⟨hlt, hfound⟩ := h.foundAt_of_searchCache hstart.after hsearch
  exact ⟨hlt, hfound.of_absent habsent⟩

variable (out) in
/-- **`_cpp_find_file` with the cache** gives a file that it knows, or makes a new one if it knows none. -/
theorem findFile_cached (hstart : StartsAt r d l) (fname : Path) :
    (∃ file, findFile true out noPch r fname d =
        some (addFileHash true (r.addFile file) fname d r.files.length, r.files.length) ∧
      FoundIn out noPch r fname l file ∧ ∀ f, ¬ CacheHit out r fname l f) ∨
      ∃ f, CacheHit out r fname l f ∧ (findFile true out noPch r fname d = some (r, f) ∨
        findFile true out noPch r fname d = some (addFileHash true r fname d f, f)) := by
  obtain ⟨l₂, rfl⟩ : ∃ l₂, l = d :: l₂ := by
    cases l with
    | nil => exact absurd rfl hstart.ne_nil
    | cons e l₂ =>
        obtain rfl : d = e := Option.some.inj hstart.walks.1
        exact ⟨l₂, rfl⟩
  cases hsearch : searchCache r fname d with
  | some f =>
      refine .inr ⟨f, ⟨[], d, l₂, rfl, rfl, .inl rfl, hsearch⟩, .inl ?_⟩
      simp only [findFile, if_true, hsearch]
  | none =>
      rcases findLoop_spec true out noPch hstart.walks hstart.ne_nil hstart.length_le (unread_makeCppFile d fname) with
        ⟨file, hrun, hfound, hunknown⟩ | ⟨f, l₁, e, l₂', hrun, ⟨-, hhead⟩, hl, habsent, hhit⟩
      · refine .inl ⟨file, ?_, hfound, ?_⟩
        · simp only [findFile, if_true, hsearch, hrun]
        · rintro f ⟨l₁, e, l₂', hl, habsent, hhead, hhit⟩
          -- the first directory was asked before the loop, the later chain heads in it
          by_cases hempty : l₁ = []
          · subst hempty
            obtain ⟨rfl, -⟩ := List.cons.inj hl
            cases hsearch.symm.trans hhit
          · have hnone := hunknown l₁ e l₂' hl hempty habsent ⟨rfl, hhead.resolve_left hempty⟩
            cases hnone.symm.trans hhit
      · refine .inr ⟨f, ⟨l₁, e, l₂', hl, habsent, .inr hhead, hhit⟩, .inr ?_⟩
        simp only [findFile, if_true, hsearch, hrun]

end

end Cpp

end GccXml

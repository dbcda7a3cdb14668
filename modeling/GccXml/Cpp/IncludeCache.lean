import GccXml.Cpp.CachedLookup
import GccXml.Cpp.WrapperSearch

namespace GccXml

/-! # `Cpp.IncludeCache` — what disabling the include cache changes

`GCCXML_DISABLE_INCLUDE_CACHE` makes every `_cpp_find_file` make a new file, so the marks of a file are not seen by the
next directive that names it. A reader with the cache and one without it are run side by side: they agree on the texts
that were looked up and on those that are to be included once only.

The files of the two can not be compared one by one, since the reader without the cache has several for one of the
other. What both have in common is stated about texts: which of them some file has (`LookedUp`), and which a marked
file has (`OnceOnly`). Directories, chains and macros are the same (`Settings`), and the files that are being read are
in the same places (`Mirrors`). The entries of the cache are right (`HashInv`): a file that it gives is at the
place where a search would find it now.

Two operations touch the agreement. Looking a file up gives one more file to one or both readers, in the same place
(`Finds`), and `_cpp_stack_file` may mark a file and push its text (`Stacks`). Everything else that happens in between
changes the reading state of files only, and `Alike` takes the agreement along. -/

namespace Cpp

open Chain Reader

/-! ## The two readers -/

/-- What the readers have in common, the files apart. -/
structure Settings where
  dirs : List CppDir
  dirHash : List (Path × DirRef)
  quoteInclude : Option DirRef
  bracketInclude : Option DirRef
  quoteIgnoresSourceDir : Bool
  macros : List MacroName

def Reader.settings (r : Reader) : Settings :=
  ⟨r.dirs, r.dirHash, r.quoteInclude, r.bracketInclude, r.quoteIgnoresSourceDir, r.macros⟩

/-- A file with this text was looked up. -/
def LookedUp (out : Outside) (r : Reader) (t : Contents) : Prop :=
  ∃ f < r.files.length, textAt out (r.file f) = some t

/-- A file with this text is to be included once only. -/
def OnceOnly (out : Outside) (r : Reader) (t : Contents) : Prop :=
  ∃ f < r.files.length, (r.file f).onceOnly = true ∧ textAt out (r.file f) = some t

/-- A controlling macro is the guard of the file's text. -/
def GuardInv (out : Outside) (r : Reader) : Prop :=
  ∀ f < r.files.length, ∀ m, (r.file f).cmacroName = some m → ∃ t, textAt out (r.file f) = some t ∧ out.guard t = some m

/-- **The reader `rc` with the cache and the reader `ru` without it agree.** -/
structure Agree (out : Outside) (rc ru : Reader) : Prop where
  reading : ReadingInv out rc
  reading' : ReadingInv out ru
  search : SearchInv [] rc
  search' : SearchInv [] ru
  hash : HashInv out rc
  guard : GuardInv out rc
  settings : ru.settings = rc.settings
  lookedUp : ∀ t, LookedUp out ru t ↔ LookedUp out rc t
  onceOnly : ∀ t, OnceOnly out ru t ↔ OnceOnly out rc t

/-- A file of one reader and a file of the other are in the same place, which is no wrapper directory. -/
structure SameFile (out : Outside) (rc ru : Reader) (f g : Nat) : Prop where
  lt : f < rc.files.length
  lt' : g < ru.files.length
  dir : (ru.file g).dir = (rc.file f).dir
  path : (ru.file g).path = (rc.file f).path
  text : textAt out (ru.file g) = textAt out (rc.file f)
  plain : ∀ k, (rc.file f).dir ≠ some (.wrapperDir k)

/-- The buffers of the same file. -/
structure SameBuffer (out : Outside) (rc ru : Reader) (b b' : Buffer) : Prop where
  file : SameFile out rc ru b.file b'.file
  sysp : b'.sysp = b.sysp
  text : b'.text = b.text
  textAt_eq : textAt out (rc.file b.file) = some b.text

/-- **The readers agree and read the same text.** -/
structure Mirrors (out : Outside) (rc ru : Reader) : Prop extends Agree out rc ru where
  buffers : List.Forall₂ (SameBuffer out rc ru) rc.buffers ru.buffers
  mainFile : SameFile out rc ru rc.mainFile ru.mainFile

/-- Two states of one reader that differ in what the agreement does not look at. -/
structure Alike (out : Outside) (r r' : Reader) : Prop where
  search : r'.search = r.search
  macros : r'.macros = r.macros
  text : ∀ f, textAt out (r'.file f) = textAt out (r.file f)
  onceOnly : ∀ f, (r'.file f).onceOnly = (r.file f).onceOnly
  cmacroName : ∀ f, (r.file f).cmacroName.isSome = true → (r'.file f).cmacroName.isSome = true

section

variable {out : Outside} {rc ru rc' ru' r r' : Reader} {f g : Nat} {t : Contents} {import_ : Bool}

theorem Alike.refl (r : Reader) : Alike out r r := ⟨rfl, rfl, fun _ => rfl, fun _ => rfl, fun _ => id⟩

theorem Alike.trans {r'' : Reader} (h : Alike out r r') (h' : Alike out r' r'') : Alike out r r'' where
  search := h'.search.trans h.search
  macros := h'.macros.trans h.macros
  text f := (h'.text f).trans (h.text f)
  onceOnly f := (h'.onceOnly f).trans (h.onceOnly f)
  cmacroName f hname := h'.cmacroName f (h.cmacroName f hname)

theorem Alike.keeps (h : Alike out r r') : Keeps out r r' where
  extends_ := .of_search h.search
  text f _ := h.text f
  onceOnly f _ honce := (h.onceOnly f).trans honce
  cmacroName f _ := h.cmacroName f

theorem Alike.lookedUp (h : Alike out r r') : LookedUp out r' t ↔ LookedUp out r t := by
  simp only [LookedUp, length_of_search h.search, h.text]

theorem Alike.onceOnly_iff (h : Alike out r r') : OnceOnly out r' t ↔ OnceOnly out r t := by
  simp only [OnceOnly, length_of_search h.search, h.text, h.onceOnly]

theorem settings_of_search (h : r'.search = r.search) (hmacros : r'.macros = r.macros) : r'.settings = r.settings := by
  have hdirs : r'.dirs = r.dirs := congrArg SearchState.dirs h
  have hhash : r'.dirHash = r.dirHash := congrArg SearchState.dirHash h
  have hquote : r'.quoteInclude = r.quoteInclude := congrArg SearchState.quoteInclude h
  have hbracket : r'.bracketInclude = r.bracketInclude := congrArg SearchState.bracketInclude h
  have hignores : r'.quoteIgnoresSourceDir = r.quoteIgnoresSourceDir := congrArg SearchState.quoteIgnoresSourceDir h
  rw [settings, settings, hdirs, hhash, hquote, hbracket, hignores, hmacros]

/-- Agreement does not depend on the reading state. -/
theorem Agree.alike (h : Agree out rc ru) (hc : Alike out rc rc') (hu : Alike out ru ru') (hreading : ReadingInv out rc')
    (hreading' : ReadingInv out ru') (hguard : GuardInv out rc') : Agree out rc' ru' where
  reading := hreading
  reading' := hreading'
  search := searchInv_of_search h.search hc.search
  search' := searchInv_of_search h.search' hu.search
  hash := h.hash.keeps hc.keeps (congrArg SearchState.fileHash hc.search)
  guard := hguard
  settings := by
    rw [settings_of_search hc.search hc.macros, settings_of_search hu.search hu.macros]
    exact h.settings
  lookedUp t := by rw [hc.lookedUp, hu.lookedUp, h.lookedUp]
  onceOnly t := by rw [hc.onceOnly_iff, hu.onceOnly_iff, h.onceOnly]

theorem SameFile.keeps (h : SameFile out rc ru f g) (hc : Keeps out rc rc') (hu : Keeps out ru ru') :
    SameFile out rc' ru' f g := by
  have hplace := hc.extends_.place f h.lt
  have hplace' := hu.extends_.place g h.lt'
  have hdir : (rc'.file f).dir = (rc.file f).dir := congrArg Place.dir hplace
  have hdir' : (ru'.file g).dir = (ru.file g).dir := congrArg Place.dir hplace'
  refine ⟨Nat.lt_of_lt_of_le h.lt hc.extends_.length_files, Nat.lt_of_lt_of_le h.lt' hu.extends_.length_files, ?_, ?_, ?_,
    ?_⟩
  · rw [hdir, hdir', h.dir]
  · have hpath : (rc'.file f).path = (rc.file f).path := congrArg Place.path hplace
    have hpath' : (ru'.file g).path = (ru.file g).path := congrArg Place.path hplace'
    rw [hpath, hpath', h.path]
  · rw [hc.text f h.lt, hu.text g h.lt', h.text]
  · rw [hdir]
    exact h.plain

theorem SameBuffer.keeps {b b' : Buffer} (h : SameBuffer out rc ru b b') (hc : Keeps out rc rc')
    (hu : Keeps out ru ru') : SameBuffer out rc' ru' b b' :=
  ⟨h.file.keeps hc hu, h.sysp, h.text, (hc.text _ h.file.lt).trans h.textAt_eq⟩

theorem forall₂_keeps {bs bs' : List Buffer} (h : List.Forall₂ (SameBuffer out rc ru) bs bs') (hc : Keeps out rc rc')
    (hu : Keeps out ru ru') : List.Forall₂ (SameBuffer out rc' ru') bs bs' :=
  h.imp fun _ _ hb => hb.keeps hc hu

end

/-! ## Stacking in one reader -/

section

variable {out : Outside} {rc ru rc' ru' r r' : Reader} {f g : Nat} {t : Contents} {import_ : Bool}

theorem search_of_facts (h : r'.facts = r.facts) : r'.search = r.search := by
  have hplace : ∀ r : Reader, r.search = r.facts.search := by
    intro r
    simp only [Reader.search, Reader.facts, List.map_map]
    rfl
  rw [hplace r', hplace r, h]

theorem cmacroName_of_facts {buffers : List Buffer} (h : r'.facts = { r.facts with buffers }) (f : Nat) :
    (r'.file f).cmacroName = (r.file f).cmacroName := by
  have hfacts : ({ r' with buffers := r.buffers } : Reader).facts = r.facts := by
    have hset := congrArg (fun r'' : Reader => { r'' with buffers := r.buffers }) h
    exact hset
  have hname := congrArg CppFile.cmacroName (file_facts hfacts f)
  exact hname

theorem alike_of_facts {buffers : List Buffer} (h : r'.facts = { r.facts with buffers }) : Alike out r r' := by
  have hfacts : ({ r' with buffers := r.buffers } : Reader).facts = r.facts := by
    have hset := congrArg (fun r'' : Reader => { r'' with buffers := r.buffers }) h
    exact hset
  have hsearch : ({ r' with buffers := r.buffers } : Reader).search = r.search := search_of_facts hfacts
  have hmacros : ({ r' with buffers := r.buffers } : Reader).macros = r.macros := by
    have hkept := congrArg Reader.macros hfacts
    exact hkept
  have hfile := file_facts hfacts
  refine ⟨hsearch, hmacros, fun f => textAt_congr (hfile f), fun f => ?_, fun f hname => ?_⟩
  · have hmark := congrArg CppFile.onceOnly (hfile f)
    exact hmark
  · rw [cmacroName_of_facts h]
    exact hname

/-- **What `_cpp_stack_file` does.** The file is marked if it is imported, and its text is pushed if it is stacked. -/
structure Stacks (out : Outside) (r : Reader) (f : Nat) (import_ : Bool) (r' : Reader) (stacked : Bool) : Prop where
  stacked_iff : stacked = true ↔ Stackable out r f import_
  reading : ReadingInv out r'
  alike : Alike out (markImported r f import_) r'
  cmacroName : ∀ g, (r'.file g).cmacroName = ((markImported r f import_).file g).cmacroName
  buffers : r'.buffers =
    if stacked then ⟨f, stackSysp r f, (textAt out (r.file f)).getD []⟩ :: r.buffers else r.buffers

theorem stackFile_stacks (hdistinct : DistinctFiles out r) (h : ReadingInv out r) (hf : f < r.files.length)
    (import_ : Bool) : ∃ r' stacked, stackFile out r f import_ = (r', stacked) ∧ Stacks out r f import_ r' stacked := by
  by_cases hyes : Stackable out r f import_
  · obtain ⟨t, ht⟩ := Option.isSome_iff_exists.mp hyes.readable
    obtain ⟨r', hstack, hreading, hfacts⟩ := stackFile_of hdistinct h hf hyes ht
    refine ⟨r', true, hstack, iff_of_true rfl hyes, hreading, alike_of_facts hfacts, cmacroName_of_facts hfacts, ?_⟩
    have hbuffers := congrArg Reader.buffers hfacts
    rw [if_pos rfl, ht]
    exact hbuffers
  · obtain ⟨r', hstack, hreading, hfacts⟩ := stackFile_of_not hdistinct h hf hyes
    refine ⟨r', false, hstack, iff_of_false Bool.false_ne_true hyes, hreading, alike_of_facts hfacts,
      cmacroName_of_facts hfacts, ?_⟩
    have hbuffers : r'.buffers = (markImported r f import_).buffers := by
      have hkept := congrArg Reader.buffers hfacts
      exact hkept
    rw [if_neg Bool.false_ne_true, hbuffers]
    unfold markImported
    split <;> rfl

/-! ### Marking -/

theorem file_markImported_ne (hg : g ≠ f) : (markImported r f import_).file g = r.file g := by
  unfold markImported
  split
  · exact file_markFileOnceOnly_ne hg
  · rfl

variable (out) in
/-- Marking a file changes its mark only. -/
theorem markImported_same (hf : f < r.files.length) (import_ : Bool) :
    (markImported r f import_).search = r.search ∧ (markImported r f import_).macros = r.macros ∧
      (∀ g, textAt out ((markImported r f import_).file g) = textAt out (r.file g)) ∧
      ∀ g, ((markImported r f import_).file g).cmacroName = (r.file g).cmacroName := by
  have hfile := @file_markImported r f import_ hf
  refine ⟨search_markImported, markImported_spec.2.1, fun g => ?_, fun g => ?_⟩
  · by_cases hg : g = f
    · rw [hg, hfile]
      rfl
    · rw [file_markImported_ne hg]
  · by_cases hg : g = f
    · rw [hg, hfile]
    · rw [file_markImported_ne hg]

theorem keeps_markImported (hf : f < r.files.length) (import_ : Bool) : Keeps out r (markImported r f import_) := by
  obtain ⟨hsearch, -, htexts, hguards⟩ := markImported_same out hf import_
  refine ⟨.of_search hsearch, fun g _ => htexts g, fun g _ honce => ?_, fun g _ hname => by rwa [hguards]⟩
  by_cases hg : g = f
  · subst hg
    rw [file_markImported hf, honce]
    rfl
  · rwa [file_markImported_ne hg]

theorem onceOnly_markImported (hf : f < r.files.length) :
    OnceOnly out (markImported r f import_) t ↔ OnceOnly out r t ∨ import_ = true ∧ textAt out (r.file f) = some t := by
  obtain ⟨hsearch, -, htext, -⟩ := markImported_same out hf import_
  have hfile := @file_markImported r f import_ hf
  simp only [OnceOnly, length_of_search hsearch, htext]
  constructor
  · rintro ⟨g, hg, honce, ht⟩
    by_cases hgf : g = f
    · subst hgf
      rw [hfile, Bool.or_eq_true] at honce
      obtain honce | himport := honce
      · exact .inl ⟨g, hg, honce, ht⟩
      · exact .inr ⟨himport, ht⟩
    · rw [file_markImported_ne hgf] at honce
      exact .inl ⟨g, hg, honce, ht⟩
  · rintro (⟨g, hg, honce, ht⟩ | ⟨himport, ht⟩)
    · refine ⟨g, hg, ?_, ht⟩
      by_cases hgf : g = f
      · subst hgf
        rw [hfile, Bool.or_eq_true]
        exact .inl honce
      · rw [file_markImported_ne hgf]
        exact honce
    · -- the mark is set on `f` itself
      refine ⟨f, hf, ?_, ht⟩
      rw [hfile, himport]
      exact Bool.or_true _

/-- **Marking a file in both readers.** -/
theorem Agree.markImported (h : Agree out rc ru) (hf : f < rc.files.length) (hg : g < ru.files.length)
    (htext : textAt out (ru.file g) = textAt out (rc.file f)) (import_ : Bool) :
    Agree out (Cpp.markImported rc f import_) (Cpp.markImported ru g import_) := by
  obtain ⟨hsearch, hmacros, htexts, hguards⟩ := markImported_same out hf import_
  obtain ⟨hsearch', hmacros', htexts', -⟩ := markImported_same out hg import_
  have hkeeps : Keeps out rc (Cpp.markImported rc f import_) := keeps_markImported hf import_
  refine ⟨h.reading.markImported hf import_, h.reading'.markImported hg import_, searchInv_of_search h.search hsearch,
    searchInv_of_search h.search' hsearch', h.hash.keeps hkeeps (congrArg SearchState.fileHash hsearch), ?_, ?_,
    fun t => ?_, fun t => ?_⟩
  · intro f hf m hm
    rw [length_of_search hsearch] at hf
    rw [hguards] at hm
    rw [htexts]
    exact h.guard f hf m hm
  · rw [settings_of_search hsearch' hmacros', settings_of_search hsearch hmacros]
    exact h.settings
  · simp only [LookedUp, length_of_search hsearch, length_of_search hsearch', htexts, htexts']
    exact h.lookedUp t
  · rw [onceOnly_markImported hf, onceOnly_markImported hg, h.onceOnly, htext]

/-- **Both readers pass a file to `_cpp_stack_file`.** -/
theorem Agree.stacks {sc su : Bool} (h : Agree out rc ru) (hf : f < rc.files.length) (hg : g < ru.files.length)
    (htext : textAt out (ru.file g) = textAt out (rc.file f)) (hc : Stacks out rc f import_ rc' sc)
    (hu : Stacks out ru g import_ ru' su) : Agree out rc' ru' := by
  have hmarked := h.markImported hf hg htext import_
  refine hmarked.alike hc.alike hu.alike hc.reading hu.reading fun f' hf' m hm => ?_
  rw [hc.cmacroName] at hm
  rw [length_of_search hc.alike.search] at hf'
  rw [hc.alike.text]
  exact hmarked.guard f' hf' m hm

theorem Stacks.keeps {stacked : Bool} (h : Stacks out r f import_ r' stacked) (hf : f < r.files.length) :
    Keeps out r r' := (keeps_markImported hf import_).trans h.alike.keeps

end

/-! ## Looking up a file in both readers -/

section

variable {out : Outside} {rc ru r : Reader} {f g : Nat} {t : Contents} {import_ : Bool} {fname : Path} {d : DirRef}
  {l : List DirRef} {file file' : CppFile}

/-! ### A new file -/

theorem ReadingInv.addFile (h : ReadingInv out r) (hfile : Settled out file) (honce : file.onceOnly = false) :
    ReadingInv out (r.addFile file) where
  settled := h.settled.addFile hfile
  pchf := h.pchf
  seen g hg hmark := by
    rw [length_addFile] at hg
    obtain hlt | rfl := Nat.lt_succ_iff_lt_or_eq.mp hg
    · rw [file_addFile_lt hlt] at hmark
      exact h.seen g hlt hmark
    · rw [file_addFile_self, honce] at hmark
      cases hmark

theorem GuardInv.addFile (h : GuardInv out r) (hname : file.cmacroName = none) : GuardInv out (r.addFile file) := by
  intro g hg m hm
  rw [length_addFile] at hg
  obtain hlt | rfl := Nat.lt_succ_iff_lt_or_eq.mp hg
  · rw [file_addFile_lt hlt] at hm ⊢
    exact h g hlt m hm
  · rw [file_addFile_self, hname] at hm
    cases hm

theorem lookedUp_addFile : LookedUp out (r.addFile file) t ↔ LookedUp out r t ∨ textAt out file = some t := by
  simp only [LookedUp, length_addFile]
  constructor
  · rintro ⟨g, hg, ht⟩
    obtain hlt | rfl := Nat.lt_succ_iff_lt_or_eq.mp hg
    · rw [file_addFile_lt hlt] at ht
      exact .inl ⟨g, hlt, ht⟩
    · rw [file_addFile_self] at ht
      exact .inr ht
  · rintro (⟨g, hg, ht⟩ | ht)
    · exact ⟨g, Nat.lt_succ_of_lt hg, by rw [file_addFile_lt hg]; exact ht⟩
    · exact ⟨r.files.length, Nat.lt_succ_self _, by rw [file_addFile_self]; exact ht⟩

theorem onceOnly_addFile (honce : file.onceOnly = false) : OnceOnly out (r.addFile file) t ↔ OnceOnly out r t := by
  simp only [OnceOnly, length_addFile]
  constructor
  · rintro ⟨g, hg, hmark, ht⟩
    obtain hlt | rfl := Nat.lt_succ_iff_lt_or_eq.mp hg
    · rw [file_addFile_lt hlt] at hmark ht
      exact ⟨g, hlt, hmark, ht⟩
    · rw [file_addFile_self, honce] at hmark
      cases hmark
  · rintro ⟨g, hg, hmark, ht⟩
    exact ⟨g, Nat.lt_succ_of_lt hg, by rw [file_addFile_lt hg]; exact hmark, by rw [file_addFile_lt hg]; exact ht⟩

/-- A file that was found remembers a normal path, or none. -/
theorem FoundIn.remembers (h : FoundIn out noPch r fname l file) (hstart : StartsAt r d l) (f : Nat) :
    RemembersPath [] r f file := by
  obtain ⟨rfl, rfl⟩ | hl := hstart
  · intro d hd
    have hmem : d ∈ [DirRef.noSearchPath] := List.mem_of_find?_eq_some (h.dir.symm.trans hd)
    exact .inl (List.mem_singleton.mp hmem)
  · exact h.remembersPath hl

/-! ### The search -/

/-- Directories look alike in both readers. -/
theorem dir_of_settings (h : ru.settings = rc.settings) (hd : ∀ k, d ≠ .wrapperDir k) : ru.dir d = rc.dir d := by
  have hdirs : ru.dirs = rc.dirs := congrArg Settings.dirs h
  cases d with
  | noSearchPath => rfl
  | node i => simp only [Reader.dir, hdirs]
  | wrapperDir k => exact absurd rfl (hd k)

theorem StartsAt.plain (h : StartsAt r d l) : ∀ e ∈ l, ∀ k, e ≠ .wrapperDir k := by
  intro e he k
  obtain ⟨-, rfl⟩ | hl := h
  · rw [List.mem_singleton.mp he]
    exact nofun
  · obtain ⟨i, rfl, -⟩ := hl.normal e he
    exact nofun

/-- A search through the same directories in the other reader. -/
theorem StartsAt.of_settings (h : StartsAt rc d l) (hsettings : ru.settings = rc.settings) : StartsAt ru d l := by
  have hplain := h.plain
  have hdirs : ru.dirs = rc.dirs := congrArg Settings.dirs hsettings
  obtain ⟨rfl, rfl⟩ | hl := h
  · exact .inl ⟨rfl, rfl⟩
  · refine .inr ⟨hl.walks.congr fun e he => ?_, fun e he => ?_⟩
    · exact congrArg CppDir.next (dir_of_settings hsettings (hplain e he))
    · obtain ⟨i, rfl, hi, hW⟩ := hl.normal e he
      exact ⟨i, rfl, hdirs ▸ hi, hW⟩

/-- What was found in one reader was found in the other. -/
theorem FoundAt.of_settings (h : FoundAt out ru fname l file) (hstart : StartsAt rc d l)
    (hsettings : ru.settings = rc.settings) : FoundAt out rc fname l file := by
  have hdirs : ∀ e ∈ l, ru.dir e = rc.dir e := fun e he => dir_of_settings hsettings (hstart.plain e he)
  refine ⟨?_, fun e he => ?_, ?_⟩
  · rw [h.dir, firstDir_congr hdirs]
  · rw [h.path e he, hdirs e (List.mem_of_find?_eq_some (h.dir.symm.trans he))]
  · rw [h.text, textIn_congr hdirs]

/-- **A lookup in both readers.** The reader without the cache makes the new file `file`; the one with it has the file
`f`, which it knew already or made as well. -/
structure Finds (out : Outside) (rc ru : Reader) (fname : Path) (l : List DirRef) (rc' : Reader) (f : Nat)
    (file : CppFile) : Prop where
  agree : Agree out rc' (ru.addFile file)
  keeps : Keeps out rc rc'
  lt : f < rc'.files.length
  found : FoundAt out rc fname l (rc'.file f)
  found' : FoundAt out rc fname l file
  made : FoundIn out noPch ru fname l file
  origin : CacheHit out rc fname l f ∧ rc'.files = rc.files ∨
    ∃ fresh, rc'.files = rc.files ++ [fresh] ∧ f = rc.files.length ∧ FoundIn out noPch rc fname l fresh ∧
      ∀ g, ¬ CacheHit out rc fname l g
  buffers : rc'.buffers = rc.buffers
  mainFile : rc'.mainFile = rc.mainFile
  macros : rc'.macros = rc.macros

/-- Entries of the cache do not matter for the agreement, if they are right. -/
theorem Agree.withHash (h : Agree out rc ru) {hash : List ((Path × DirRef) × Nat)}
    (hhash : HashInv out { rc with fileHash := hash }) : Agree out { rc with fileHash := hash } ru where
  reading := ⟨h.reading.settled, h.reading.pchf, h.reading.seen⟩
  reading' := h.reading'
  search := by
    have hextends : Extends rc { rc with fileHash := hash } :=
      ⟨List.prefix_rfl, Nat.le_refl _, fun _ _ => rfl, rfl, rfl, rfl, rfl⟩
    exact hextends.searchInv h.search (fun e he => .inl he) fun f hf hge => absurd hf (Nat.not_lt_of_le hge)
  search' := h.search'
  hash := hhash
  guard := h.guard
  settings := h.settings
  lookedUp := h.lookedUp
  onceOnly := h.onceOnly

/-- Both readers make a file. -/
theorem Agree.addFile (h : Agree out rc ru) (hstart : StartsAt rc d l) (hc : FoundIn out noPch rc fname l file)
    (hu : FoundIn out noPch ru fname l file') : Agree out (rc.addFile file) (ru.addFile file') where
  reading := h.reading.addFile hc.settled hc.unread.onceOnly
  reading' := h.reading'.addFile hu.settled hu.unread.onceOnly
  search := h.search.addFile (hc.remembers hstart _)
  search' := h.search'.addFile (hu.remembers (hstart.of_settings h.settings) _)
  hash := h.hash.keeps (keeps_addFile out rc file) rfl
  guard := h.guard.addFile hc.unread.cmacroName
  settings := h.settings
  lookedUp t := by
    have hsame := hc.foundAt.same (hu.foundAt.of_settings hstart h.settings)
    rw [lookedUp_addFile, lookedUp_addFile, h.lookedUp, hsame.2.2]
  onceOnly t := by
    have honce : file.onceOnly = false := hc.unread.onceOnly
    have honce' : file'.onceOnly = false := hu.unread.onceOnly
    rw [onceOnly_addFile honce', onceOnly_addFile honce, h.onceOnly]

/-- The reader without the cache makes a file that the other one has. -/
theorem Agree.addFile_known (h : Agree out rc ru) (hstart : StartsAt rc d l) (hf : f < rc.files.length)
    (hc : FoundAt out rc fname l (rc.file f)) (hu : FoundIn out noPch ru fname l file') :
    Agree out rc (ru.addFile file') where
  reading := h.reading
  reading' := h.reading'.addFile hu.settled hu.unread.onceOnly
  search := h.search
  search' := h.search'.addFile (hu.remembers (hstart.of_settings h.settings) _)
  hash := h.hash
  guard := h.guard
  settings := h.settings
  lookedUp t := by
    have hsame := hc.same (hu.foundAt.of_settings hstart h.settings)
    rw [lookedUp_addFile, h.lookedUp, or_iff_left_of_imp]
    exact fun ht => ⟨f, hf, hsame.2.2.symm.trans ht⟩
  onceOnly t := by
    have honce' : file'.onceOnly = false := hu.unread.onceOnly
    rw [onceOnly_addFile honce', h.onceOnly]

theorem keeps_withHash (r : Reader) (hash : List ((Path × DirRef) × Nat)) : Keeps out r { r with fileHash := hash } :=
  .of_files ⟨List.prefix_rfl, Nat.le_refl _, fun _ _ => rfl, rfl, rfl, rfl, rfl⟩ rfl

/-- **`_cpp_find_file` in both readers.** -/
theorem Agree.findFile (h : Agree out rc ru) (hstart : StartsAt rc d l) (fname : Path) :
    ∃ rc' f file, Cpp.findFile true out noPch rc fname d = some (rc', f) ∧
      Cpp.findFile false out noPch ru fname d = some (ru.addFile file, ru.files.length) ∧
      Finds out rc ru fname l rc' f file := by
  have hstart' := hstart.of_settings h.settings
  obtain ⟨file, hfind', hu⟩ := @findFile_spec out noPch ru fname d l hstart'.walks hstart'.length_le
  have hu' := hu.foundAt.of_settings hstart h.settings
  obtain ⟨fresh, hfind, hc, hunknown⟩ | ⟨f, hhit, hfind⟩ := findFile_cached out hstart fname
  · have hadd := h.addFile hstart hc hu
    have hkeeps := keeps_addFile out rc fresh
    have hfound : FoundAt out (rc.addFile fresh) fname l ((rc.addFile fresh).file rc.files.length) := by
      rw [file_addFile_self]
      exact hc.foundAt.extends_ hstart hkeeps.extends_ rfl rfl
    have hhash := hadd.hash.cons (by rw [length_addFile]; exact Nat.lt_succ_self _) (hstart.extends_ hkeeps.extends_)
      hfound
    refine ⟨_, _, file, hfind, hfind', ?_⟩
    exact {
      agree := hadd.withHash hhash
      keeps := hkeeps.trans (keeps_withHash _ _)
      lt := by
        show _ < (rc.addFile fresh).files.length
        rw [length_addFile]
        exact Nat.lt_succ_self _
      found := by
        show FoundAt out rc fname l ((rc.addFile fresh).file rc.files.length)
        rw [file_addFile_self]
        exact hc.foundAt
      found' := hu'
      made := hu
      origin := .inr ⟨fresh, rfl, rfl, hc, hunknown⟩
      buffers := rfl
      mainFile := rfl
      macros := rfl }
  · obtain ⟨hlt, hfound⟩ := h.hash.foundAt hstart hhit
    -- the cached reader makes no file, the other one makes a second one with the same text
    have hadd := h.addFile_known hstart hlt hfound hu
    obtain hfind | hfind := hfind
    · exact ⟨_, _, file, hfind, hfind', hadd, .refl rc, hlt, hfound, hu', hu, .inl ⟨hhit, rfl⟩, rfl, rfl, rfl⟩
    · have hhash := hadd.hash.cons hlt hstart hfound
      exact ⟨_, _, file, hfind, hfind', hadd.withHash hhash, keeps_withHash _ _, hlt, hfound, hu', hu,
        .inl ⟨hhit, rfl⟩, rfl, rfl, rfl⟩

end

end Cpp

end GccXml

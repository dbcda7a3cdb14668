import GccXml.Cpp.IncludeCache
import GccXml.Lib.Insertions

namespace GccXml

/-! # `Cpp.Stackings` — the texts that are stacked in a run

The same directives are handled by a reader with the include cache and by one without it. A text that is stacked while
the macro of the `#ifndef` around it is defined is skipped to its end, so it asks for nothing, and after it both
readers are again at the same place.

A run is a main file and a list of directives (`handleAll`), and what it stacks is recorded with the state of its
guard. The reader without the cache may stack more: a second file object for a path has no guard yet, so a text is read
again that the cache knows to be guarded. `ExtraGuarded` says that everything it stacks in addition was guarded. The
one difference that is seen is an import that comes too late (`LateImport`), of a file that was looked up and never
stacked: the cache gives the file object of the earlier search, which is stacked, and without the cache the new file
object is refused, because the earlier one has its contents.

The other sections are about the two moments at which the readers need not be in step: leaving a file, which either of
them may do alone, and the head of the next search, which is the same in both. `Cpp.CacheDisabled` and `Cpp.CacheRuns`
build the simulation on them. -/

namespace Cpp

open Chain Reader Insertions

/-! ## Runs -/

/-- A text that was stacked, and whether its guard was defined then. -/
structure Stacked where
  text : Contents
  guarded : Bool
  deriving DecidableEq

/-- The macro of the `#ifndef` around the text is defined. -/
def guardDefined (out : Outside) (r : Reader) (t : Contents) : Bool := (out.guard t).any r.macros.contains

/-- A file was stacked. If its guard is defined then all of its text is skipped, and it is left at once. -/
def enter (out : Outside) (r : Reader) : Reader × List Stacked :=
  match r.buffers with
  | [] => (r, [])
  | buffer :: _ =>
      let guarded := guardDefined out r buffer.text
      (if guarded then popFileBuffer out r else r, [⟨buffer.text, guarded⟩])

/-- Handle a directive, without precompiled headers; the text that it stacks is recorded. -/
def handle (cache : Bool) (out : Outside) (r : Reader) (directive : Directive) : Option (Reader × List Stacked) :=
  match step cache out noPch r directive with
  | none => none
  | some (r, false) => some (r, [])
  | some (r, true) => some (enter out r)

/-- Handle one directive after the other. -/
def handleAll (cache : Bool) (out : Outside) : Reader → List Directive → Option (Reader × List Stacked)
  | r, [] => some (r, [])
  | r, directive :: directives =>
      match handle cache out r directive with
      | none => none
      | some (r, stacked) => (handleAll cache out r directives).map fun (r, later) => (r, stacked ++ later)

/-- **The texts that are stacked** in a run: that of the main file, and those of the files that its directives name. -/
def stackings (cache : Bool) (out : Outside) (r : Reader) (fname : Path) (directives : List Directive) :
    Option (List Stacked) :=
  match readMainFile cache out noPch r fname with
  | none => none
  | some r =>
      let (r, stacked) := enter out r
      (handleAll cache out r directives).map fun (_, later) => stacked ++ later

/-- **The first texts are the second ones, and some more** whose guard was still defined. -/
def ExtraGuarded (built cached : List Stacked) : Prop := Inserts (fun s => s.guarded = true) built cached

/-- Nothing was looked up yet, and there are no wrapper directories and no precompiled headers. -/
structure Starts (r : Reader) : Prop where
  registered : Registered [] r
  fileHash : r.fileHash = []
  buffers : r.buffers = []
  pchf : r.pchf = none

/-- **An import that comes too late.** The cache has a file for it that was looked up and is still to be stacked: its
text is that of no other file, it was not imported or marked, its `stack_count` is 0 and its guard is not defined. -/
def LateImport (out : Outside) (r : Reader) : Directive → Prop
  | .include .import_ angleBrackets fname =>
      ∃ l f, Walks (searchPathHead r fname angleBrackets .import_).1.next
          (searchPathHead r fname angleBrackets .import_).2 l ∧
        CacheHit out (searchPathHead r fname angleBrackets .import_).1 fname l f ∧ Stackable out r f true
  | _ => False

/-- **Different paths that the run comes to have different contents.** -/
def DistinctAlong (cache : Bool) (out : Outside) : Reader → List Directive → Prop
  | r, [] => DistinctFiles out r
  | r, directive :: directives => DistinctFiles out r ∧
      ∀ r' stacked, handle cache out r directive = some (r', stacked) → DistinctAlong cache out r' directives

/-- No import of the run comes too late, in the reader with the cache. -/
def NoLateImport (out : Outside) : Reader → List Directive → Prop
  | _, [] => True
  | r, directive :: directives => ¬ LateImport out r directive ∧
      ∀ r' stacked, handle true out r directive = some (r', stacked) → NoLateImport out r' directives

theorem DistinctContents.distinctAlong {cache : Bool} {out : Outside} (h : DistinctContents out) (r : Reader)
    (directives : List Directive) : DistinctAlong cache out r directives := by
  induction directives generalizing r with
  | nil => exact h.distinctFiles r
  | cons directive directives ih => exact ⟨h.distinctFiles r, fun r' _ _ => ih r'⟩

/-! ## Leaving a file -/

section

variable {out : Outside} {rc ru r : Reader} {f g : Nat} {t : Contents} {buffer buffer' : Buffer}
  {buffers buffers' : List Buffer}

/-- Only the guard of the file that is left changes. -/
theorem popFileBuffer_alike (h : ReadingInv out r) (hbuffers : r.buffers = buffer :: buffers)
    (hf : buffer.file < r.files.length) :
    ReadingInv out (popFileBuffer out r) ∧ Alike out r (popFileBuffer out r) ∧
      (popFileBuffer out r).buffers = buffers ∧
      ∀ g, ((popFileBuffer out r).file g).cmacroName = (r.file g).cmacroName ∨
        g = buffer.file ∧ ((popFileBuffer out r).file g).cmacroName = out.guard buffer.text := by
  obtain ⟨hreading, hfacts⟩ := popFileBuffer_spec h hbuffers hf
  have halike := @alike_of_facts out _ _ _ hfacts
  have hname := cmacroName_of_facts hfacts
  -- the only field of a file that the pop may set is the name of its guard
  have hset : ∀ name : Option MacroName, ((r.file buffer.file).cmacroName.isSome = true → name.isSome = true) →
      Alike out r (r.setFile buffer.file { r.file buffer.file with cmacroName := name }) := by
    intro name hkept
    have hfile : ∀ g, ((r.setFile buffer.file { r.file buffer.file with cmacroName := name }).file g) =
        if g = buffer.file then { r.file g with cmacroName := name } else r.file g := by
      intro g
      by_cases hg : g = buffer.file
      · rw [if_pos hg, hg, file_setFile_self hf]
      · rw [if_neg hg, file_setFile_ne hg]
    refine ⟨search_setFile rfl, rfl, fun g => ?_, fun g => ?_, fun g hsome => ?_⟩
    · rw [hfile]
      split <;> rfl
    · rw [hfile]
      split <;> rfl
    · rw [hfile]
      split
      case isTrue hg =>
        subst hg
        exact hkept hsome
      case isFalse => exact hsome
  refine ⟨hreading, (hset _ fun hsome => ?_).trans halike, congrArg Reader.buffers hfacts, fun g => ?_⟩
  · rw [if_neg (Option.isSome_iff_ne_none.mp hsome)]
    exact hsome
  rw [hname]
  by_cases hg : g = buffer.file
  · subst hg
    rw [file_setFile_self hf]
    by_cases hnone : (r.file buffer.file).cmacroName = none
    · exact .inr ⟨rfl, if_pos hnone⟩
    · exact .inl (if_neg hnone)
  · rw [file_setFile_ne hg]
    exact .inl rfl

/-- Leaving a file keeps the files. -/
theorem keeps_popFileBuffer (h : ReadingInv out r) (hbuffers : ∀ b ∈ r.buffers, b.file < r.files.length) :
    ReadingInv out (popFileBuffer out r) ∧ Keeps out r (popFileBuffer out r) := by
  cases hb : r.buffers with
  | nil =>
      have hpop : popFileBuffer out r = r := by rw [popFileBuffer, hb]
      rw [hpop]
      exact ⟨h, .refl r⟩
  | cons buffer buffers =>
      obtain ⟨hreading, halike, -⟩ := popFileBuffer_alike h hb (hbuffers buffer (by rw [hb]; exact List.mem_cons_self))
      exact ⟨hreading, halike.keeps⟩

theorem Mirrors.keeps {rc' ru' : Reader} (h : Mirrors out rc ru) (hagree : Agree out rc' ru') (hc : Keeps out rc rc')
    (hu : Keeps out ru ru') (hbuffers : rc'.buffers = rc.buffers) (hbuffers' : ru'.buffers = ru.buffers)
    (hmain : rc'.mainFile = rc.mainFile) (hmain' : ru'.mainFile = ru.mainFile) : Mirrors out rc' ru' where
  toAgree := hagree
  buffers := by
    rw [hbuffers, hbuffers']
    exact forall₂_keeps h.buffers hc hu
  mainFile := by
    rw [hmain, hmain']
    exact h.mainFile.keeps hc hu

/-- Leaving a file keeps the guards right. -/
theorem GuardInv.popFileBuffer (h : GuardInv out r) (hreading : ReadingInv out r)
    (hbuffers : r.buffers = buffer :: buffers) (hf : buffer.file < r.files.length)
    (htext : textAt out (r.file buffer.file) = some buffer.text) : GuardInv out (popFileBuffer out r) := by
  obtain ⟨-, halike, -, hname⟩ := popFileBuffer_alike hreading hbuffers hf
  intro g hg m hm
  rw [length_of_search halike.search] at hg
  rw [halike.text]
  obtain hkept | ⟨rfl, hguard⟩ := hname g
  · rw [hkept] at hm
    exact h g hg m hm
  · rw [hguard] at hm
    exact ⟨buffer.text, htext, hm⟩

/-- **Leaving a file in the reader without the cache.** -/
theorem Agree.popFileBuffer_right (h : Agree out rc ru) (hbuffers : ru.buffers = buffer :: buffers)
    (hf : buffer.file < ru.files.length) : Agree out rc (popFileBuffer out ru) := by
  obtain ⟨hreading, halike, -⟩ := popFileBuffer_alike h.reading' hbuffers hf
  exact h.alike (.refl rc) halike h.reading hreading h.guard

/-- **Leaving a file in the reader with the cache.** -/
theorem Agree.popFileBuffer_left (h : Agree out rc ru) (hbuffers : rc.buffers = buffer :: buffers)
    (hf : buffer.file < rc.files.length) (htext : textAt out (rc.file buffer.file) = some buffer.text) :
    Agree out (popFileBuffer out rc) ru := by
  obtain ⟨hreading, halike, -⟩ := popFileBuffer_alike h.reading hbuffers hf
  exact h.alike halike (.refl ru) hreading h.reading'
    (h.guard.popFileBuffer h.reading hbuffers hf htext)

theorem mainFile_popFileBuffer (r : Reader) : (popFileBuffer out r).mainFile = r.mainFile :=
  congrArg SearchState.mainFile search_popFileBuffer

/-- **Both readers leave a file.** -/
theorem Mirrors.popFileBuffer (h : Mirrors out rc ru) : Mirrors out (popFileBuffer out rc) (popFileBuffer out ru) := by
  have hbuffers := h.buffers
  generalize hc : rc.buffers = bs at hbuffers
  generalize hu : ru.buffers = bs' at hbuffers
  cases hbuffers with
  | nil =>
      have hpop : Cpp.popFileBuffer out rc = rc := by rw [Cpp.popFileBuffer, hc]
      have hpop' : Cpp.popFileBuffer out ru = ru := by rw [Cpp.popFileBuffer, hu]
      rw [hpop, hpop']
      exact h
  | @cons b b' bs bs' hb hbs =>
      obtain ⟨-, halike, hrest, -⟩ := popFileBuffer_alike h.reading hc hb.file.lt
      obtain ⟨-, halike', hrest', -⟩ := popFileBuffer_alike h.reading' hu hb.file.lt'
      have hagree := (h.toAgree.popFileBuffer_left hc hb.file.lt hb.textAt_eq).popFileBuffer_right hu hb.file.lt'
      refine ⟨hagree, ?_, ?_⟩
      · rw [hrest, hrest']
        exact forall₂_keeps hbs halike.keeps halike'.keeps
      · rw [mainFile_popFileBuffer, mainFile_popFileBuffer]
        exact h.mainFile.keeps halike.keeps halike'.keeps

/-! ## Where a search begins in both readers -/

theorem SameFile.currentFile (h : Mirrors out rc ru) : SameFile out rc ru rc.currentFile ru.currentFile := by
  have hbuffers := h.buffers
  unfold Reader.currentFile
  generalize rc.buffers = bs at hbuffers
  generalize ru.buffers = bs' at hbuffers
  cases hbuffers with
  | nil => exact h.mainFile
  | cons hb _ => exact hb.file

/-- Searches of the two readers begin at the same directory, and make the same directories. -/
def SameHead (rc ru : Reader) (head head' : Reader × Option DirRef) : Prop :=
  ∃ dirs dirHash start, head = ({ rc with dirs, dirHash }, start) ∧ head' = ({ ru with dirs, dirHash }, start)

theorem sameHead_refl (h : ru.settings = rc.settings) (start : Option DirRef) :
    SameHead rc ru (rc, start) (ru, start) := by
  have hdirs : ru.dirs = rc.dirs := congrArg Settings.dirs h
  have hhash : ru.dirHash = rc.dirHash := congrArg Settings.dirHash h
  refine ⟨rc.dirs, rc.dirHash, start, rfl, ?_⟩
  rw [← hdirs, ← hhash]

theorem sameHead_makeCppDir (h : ru.settings = rc.settings) (dirName : Path) (sysp : Nat) :
    SameHead rc ru ((makeCppDir rc dirName sysp).1, some (makeCppDir rc dirName sysp).2)
      ((makeCppDir ru dirName sysp).1, some (makeCppDir ru dirName sysp).2) := by
  have hdirs : ru.dirs = rc.dirs := congrArg Settings.dirs h
  have hhash : ru.dirHash = rc.dirHash := congrArg Settings.dirHash h
  have hquote : ru.quoteInclude = rc.quoteInclude := congrArg Settings.quoteInclude h
  cases hlookup : rc.dirHash.lookup dirName with
  | some d =>
      have hmake : makeCppDir rc dirName sysp = (rc, d) := by rw [makeCppDir, hlookup]
      have hmake' : makeCppDir ru dirName sysp = (ru, d) := by rw [makeCppDir, hhash, hlookup]
      rw [hmake, hmake']
      exact sameHead_refl h (some d)
  | none =>
      refine ⟨_, _, some (.node rc.dirs.length), by rw [makeCppDir, hlookup], ?_⟩
      rw [makeCppDir, hhash, hlookup, hdirs, hquote]

/-- The `sysp` of the buffer that is read. -/
def bufferSysp (r : Reader) : Nat :=
  match r.buffers with
  | [] => 0
  | buffer :: _ => buffer.sysp

theorem searchPathHead_eq (r : Reader) (fname : Path) (angleBrackets : Bool) (type : IncludeType) :
    searchPathHead r fname angleBrackets type =
      if isAbsolutePath fname then (r, some .noSearchPath)
      else if type = .includeNext ∧ (r.file r.currentFile).dir.isSome then
        (r, (r.file r.currentFile).dir.bind r.next)
      else if angleBrackets then (r, r.bracketInclude)
      else if type = .cmdline then ((makeCppDir r ['.', '/'] 0).1, some (makeCppDir r ['.', '/'] 0).2)
      else if r.quoteIgnoresSourceDir then (r, r.quoteInclude)
      else ((makeCppDir r (dirNameOfFile (r.file r.currentFile)) (bufferSysp r)).1,
        some (makeCppDir r (dirNameOfFile (r.file r.currentFile)) (bufferSysp r)).2) := rfl

/-- **Both searches begin at the same directory.** -/
theorem Mirrors.searchPathHead_same (h : Mirrors out rc ru) (fname : Path) (angleBrackets : Bool) (type : IncludeType) :
    SameHead rc ru (searchPathHead rc fname angleBrackets type) (searchPathHead ru fname angleBrackets type) := by
  have hfile := SameFile.currentFile h
  have hsettings := h.settings
  have hname : dirNameOfFile (ru.file ru.currentFile) = dirNameOfFile (rc.file rc.currentFile) := by
    rw [dirNameOfFile, dirNameOfFile, hfile.path]
  have hnext : (rc.file rc.currentFile).dir.bind ru.next = (rc.file rc.currentFile).dir.bind rc.next := by
    cases hcur : (rc.file rc.currentFile).dir with
    | none => rfl
    | some d =>
        have hplain : ∀ k, d ≠ .wrapperDir k := fun k hd => hfile.plain k (hd ▸ hcur)
        exact congrArg CppDir.next (dir_of_settings hsettings hplain)
  have hbracket : ru.bracketInclude = rc.bracketInclude := congrArg Settings.bracketInclude hsettings
  have hquote : ru.quoteInclude = rc.quoteInclude := congrArg Settings.quoteInclude hsettings
  have hignores : ru.quoteIgnoresSourceDir = rc.quoteIgnoresSourceDir :=
    congrArg Settings.quoteIgnoresSourceDir hsettings
  have hsysp : bufferSysp ru = bufferSysp rc := by
    have hbuffers := h.buffers
    unfold bufferSysp
    generalize rc.buffers = bs at hbuffers
    generalize ru.buffers = bs' at hbuffers
    cases hbuffers with
    | nil => rfl
    | cons hb _ => exact hb.sysp
  -- every value the start depends on is now the same for both, and the cases follow the source
  rw [searchPathHead_eq, searchPathHead_eq, hfile.dir, hname, hnext, hbracket, hquote, hignores, hsysp]
  by_cases habsolute : isAbsolutePath fname = true
  · rw [if_pos habsolute, if_pos habsolute]
    exact sameHead_refl hsettings _
  rw [if_neg habsolute, if_neg habsolute]
  split
  · exact sameHead_refl hsettings _
  · split
    · exact sameHead_refl hsettings _
    · split
      · exact sameHead_makeCppDir hsettings _ _
      · split
        · exact sameHead_refl hsettings _
        · exact sameHead_makeCppDir hsettings _ _

end

end Cpp

end GccXml

import GccXml.Cpp.OnceOnly

namespace GccXml

/-! # `Cpp.CacheRuns` — whole runs with and without the include cache

The reader with the include cache (`rc`) and the one without it (`ru`) are given the same directives. `Mirrors` says
that they agree, and one directive keeps them in agreement unless it is an import that comes too late; so a run without
such an import does, and they stack the same texts. Without the cache some more may be stacked while their guard is
defined: the mark of the guard belongs to the file, and the reader without the cache has a new file each time. Such a
text is skipped to its end, so the readers are at the same place again behind it.

An import that comes too late is stacked by the reader with the cache only. From there on the readers go different
ways, and no relation between them is left. That the sequences of texts can not become equal again is a matter of
counting:

* up to this import both have stacked the text equally often, for what only `ru` stacks is guarded by a macro that `rc`
  knows, and the guard of the text is not defined or not known;

* at the import `rc` stacks it and `ru` does not;

* after it `ru` never stacks it again, since the import has marked it (`OnceOnly`).

So `rc` stacks it more often than `ru` in the whole run, and both directions of the result hold for the sequences of
texts as well as for the single decisions. Different files of a run have to have different contents, as far as the two
runs look them up: that is `DistinctRuns`. -/

namespace Cpp

open Chain Reader

section

variable {out : Outside} {rc ru rc' r r' : Reader} {f g : Nat} {fname : Path} {d : DirRef} {l : List DirRef}
  {file file' : CppFile} {angleBrackets : Bool} {type : IncludeType}

/-! ## Looking a file up -/

/-- What both readers have done before they look for a file in a chain of directories. -/
structure Heads (out : Outside) (rc rc' ru' : Reader) (start : Option DirRef) : Prop where
  mirrors : Mirrors out rc' ru'
  keeps : Keeps out rc rc'
  files : rc'.files = rc.files
  macros : rc'.macros = rc.macros
  starts : ∀ d, start = some d → ∃ l, StartsAt rc' d l

/-- **Both readers begin a search.** -/
theorem Mirrors.searchPathHead (h : Mirrors out rc ru) (fname : Path) (angleBrackets : Bool) (type : IncludeType) :
    ∃ rc' ru' start, Cpp.searchPathHead rc fname angleBrackets type = (rc', start) ∧
      Cpp.searchPathHead ru fname angleBrackets type = (ru', start) ∧ Heads out rc rc' ru' start := by
  obtain ⟨dirs, dirHash, start, hc, hu⟩ := h.searchPathHead_same fname angleBrackets type
  have hhead := searchPathHead_spec h.search fname angleBrackets type
  have hhead' := searchPathHead_spec h.search' fname angleBrackets type
  have hstarts := fun d => hhead.startsAt (d := d)
  rw [hc] at hhead hstarts
  rw [hu] at hhead'
  refine ⟨_, _, start, hc, hu, ?_⟩
  -- both readers get the same new directories, and everything else stays as it was
  have hkeeps : Keeps out rc { rc with dirs, dirHash } := .of_files hhead.extends_ rfl
  have hkeeps' : Keeps out ru { ru with dirs, dirHash } := .of_files hhead'.extends_ rfl
  have hagree : Agree out { rc with dirs, dirHash } { ru with dirs, dirHash } := {
    reading := ⟨h.reading.settled, h.reading.pchf, h.reading.seen⟩
    reading' := ⟨h.reading'.settled, h.reading'.pchf, h.reading'.seen⟩
    search := hhead.searchInv
    search' := hhead'.searchInv
    hash := h.hash.keeps hkeeps rfl
    guard := h.guard
    settings := by
      have hset := congrArg (fun s : Settings => { s with dirs, dirHash }) h.settings
      exact hset
    lookedUp := h.lookedUp
    onceOnly := h.onceOnly }
  exact ⟨h.keeps hagree hkeeps hkeeps' rfl rfl rfl rfl, hkeeps, rfl, rfl, hstarts⟩

/-- Both readers have looked a file up. -/
theorem Finds.mirrors (h : Mirrors out rc ru) (hfinds : Finds out rc ru fname l rc' f file) :
    Mirrors out rc' (ru.addFile file) :=
  h.keeps hfinds.agree hfinds.keeps (keeps_addFile out ru file) hfinds.buffers rfl hfinds.mainFile rfl

/-- **`_cpp_find_file` and `_cpp_stack_file` in both readers.** -/
theorem Finds.stackFile (h : Mirrors out rc ru) (hstart : StartsAt rc d l)
    (hfinds : Finds out rc ru fname l rc' f file) {import_ : Bool} (hdistinct : DistinctFiles out rc')
    (hdistinct' : DistinctFiles out (ru.addFile file))
    (hlate : import_ = true → CacheHit out rc fname l f → ¬ Stackable out rc f true) :
    Matches out rc (entered out (Cpp.stackFile out rc' f import_))
      (entered out (Cpp.stackFile out (ru.addFile file) ru.files.length import_)) := by
  have htext : textAt out file = textAt out (rc'.file f) := (hfinds.found.same hfinds.found').2.2
  have hdecides := hfinds.decides h.toAgree hlate
  refine ((hfinds.mirrors h).stackFile hdistinct hdistinct' hfinds.lt ?_ ?_ (fun hsome => ?_) hdecides).after hfinds.keeps
  · rw [length_addFile]
    exact Nat.lt_succ_self _
  · rw [file_addFile_self, htext]
  · obtain ⟨t, ht⟩ := Option.isSome_iff_exists.mp hsome
    exact hfinds.sameFile hstart (hfinds.found'.dir_isSome (htext.trans ht))

/-! ## One directive -/

/-- **`_cpp_stack_include` in both readers.** -/
theorem Mirrors.stackInclude (h : Mirrors out rc ru) (fname : Path) (angleBrackets : Bool) (type : IncludeType)
    (hdistinct : ∀ cached, Cpp.stackInclude true out noPch rc fname angleBrackets type = some cached →
      DistinctFiles out (entered out cached).1)
    (hdistinct' : ∀ built, Cpp.stackInclude false out noPch ru fname angleBrackets type = some built →
      DistinctFiles out (entered out built).1)
    (hlate : ¬ (type = .import_ ∧ LateImport out rc (.include .import_ angleBrackets fname))) :
    ∃ cached built, Cpp.stackInclude true out noPch rc fname angleBrackets type = some cached ∧
      Cpp.stackInclude false out noPch ru fname angleBrackets type = some built ∧
      Matches out rc (entered out cached) (entered out built) := by
  obtain ⟨rc', ru', start, hc, hu, hheads⟩ := h.searchPathHead fname angleBrackets type
  cases start with
  | none => exact ⟨_, _, stackInclude_none hc, stackInclude_none hu, hheads.mirrors.matches hheads.keeps⟩
  | some d =>
      obtain ⟨l, hstart⟩ := hheads.starts d rfl
      obtain ⟨rc'', f, file, hfind, hfind', hfinds⟩ := hheads.mirrors.toAgree.findFile hstart fname
      have hcached := stackInclude_some hc hheads.mirrors.search.wrapperInclude hfind
      have hbuilt := stackInclude_some hu hheads.mirrors.search'.wrapperInclude hfind'
      refine ⟨_, _, hcached, hbuilt, ?_⟩
      refine (hfinds.stackFile hheads.mirrors hstart (hdistinct _ hcached).of_entered (hdistinct' _ hbuilt).of_entered
        fun himport hhit hs => ?_).after hheads.keeps
      obtain rfl : type = .import_ := of_decide_eq_true himport
      apply hlate
      refine ⟨rfl, l, f, ?_⟩
      rw [hc]
      exact ⟨hstart.walks, hhit, (stackable_congr hheads.files hheads.macros).mp hs⟩

/-- **`_cpp_compare_file_date` in both readers.** -/
theorem Mirrors.compareFileDate (h : Mirrors out rc ru) (fname : Path) (angleBrackets : Bool) :
    ∃ rc' ru' date date', Cpp.compareFileDate true out noPch rc fname angleBrackets = some (rc', date) ∧
      Cpp.compareFileDate false out noPch ru fname angleBrackets = some (ru', date') ∧ Mirrors out rc' ru' ∧
      Keeps out rc rc' := by
  obtain ⟨rc', ru', start, hc, hu, hheads⟩ := h.searchPathHead fname angleBrackets .include
  cases start with
  | none => exact ⟨_, _, _, _, compareFileDate_none hc, compareFileDate_none hu, hheads.mirrors, hheads.keeps⟩
  | some d =>
      obtain ⟨l, hstart⟩ := hheads.starts d rfl
      obtain ⟨rc'', f, file, hfind, hfind', hfinds⟩ := hheads.mirrors.toAgree.findFile hstart fname
      -- the dates may differ between the readers, the state they leave does not depend on them
      obtain ⟨date, hdate⟩ := compareFileDate_some hc hfind
      obtain ⟨date', hdate'⟩ := compareFileDate_some hu hfind'
      exact ⟨_, _, date, date', hdate, hdate', hfinds.mirrors hheads.mirrors, hheads.keeps.trans hfinds.keeps⟩

/-! ### The other directives -/

/-- A change of macros is made in both readers. -/
theorem Mirrors.withMacros (h : Mirrors out rc ru) (macros : List MacroName) :
    Mirrors out { rc with macros } { ru with macros } := by
  have hkeeps : ∀ r : Reader, Keeps out r { r with macros } := fun r => keeps_withMacros r macros
  have hsettings : ({ ru with macros } : Reader).settings = ({ rc with macros } : Reader).settings := by
    have hset := congrArg (fun s : Settings => { s with macros }) h.settings
    exact hset
  have hagree : Agree out { rc with macros } { ru with macros } := {
    reading := ⟨h.reading.settled, h.reading.pchf, h.reading.seen⟩
    reading' := ⟨h.reading'.settled, h.reading'.pchf, h.reading'.seen⟩
    search := searchInv_of_search h.search rfl
    search' := searchInv_of_search h.search' rfl
    hash := h.hash.keeps (hkeeps rc) rfl
    guard := h.guard
    settings := hsettings
    lookedUp := h.lookedUp
    onceOnly := h.onceOnly }
  exact h.keeps hagree (hkeeps rc) (hkeeps ru) rfl rfl rfl rfl

/-- **`#pragma once` in both readers.** -/
theorem Mirrors.markCurrent (h : Mirrors out rc ru) :
    Mirrors out (markFileOnceOnly rc rc.currentFile) (markFileOnceOnly ru ru.currentFile) := by
  have hfile := SameFile.currentFile h
  have hagree := h.toAgree.markImported hfile.lt hfile.lt' hfile.text true
  exact h.keeps hagree (keeps_markImported hfile.lt true) (keeps_markImported hfile.lt' true) rfl rfl rfl rfl

theorem Mirrors.handledType_eq (h : Mirrors out rc ru) (type : IncludeType) :
    handledType ru type = handledType rc type := by
  rw [handledType, handledType, h.buffers.length_eq]

theorem handledType_eq_import (h : handledType r type = .import_) : type = .import_ := by
  unfold handledType at h
  split at h
  · cases h
  · exact h

/-- **One directive in both readers.** -/
theorem Mirrors.handle (h : Mirrors out rc ru) (directive : Directive)
    (hdistinct : ∀ cached, Cpp.handle true out rc directive = some cached → DistinctFiles out cached.1)
    (hdistinct' : ∀ built, Cpp.handle false out ru directive = some built → DistinctFiles out built.1)
    (hlate : ¬ LateImport out rc directive) :
    ∃ cached built, Cpp.handle true out rc directive = some cached ∧ Cpp.handle false out ru directive = some built ∧
      Matches out rc cached built := by
  cases directive with
  | «include» type angleBrackets fname =>
      have hstep : step false out noPch ru (.include type angleBrackets fname) =
          Cpp.stackInclude false out noPch ru fname angleBrackets (handledType rc type) := by
        rw [step, h.handledType_eq]
      have hhandle : ∀ {cached}, Cpp.stackInclude true out noPch rc fname angleBrackets (handledType rc type) =
          some cached → Cpp.handle true out rc (.include type angleBrackets fname) = some (entered out cached) :=
        fun hc => handle_of_step (.include type angleBrackets fname) hc
      have hhandle' : ∀ {built}, Cpp.stackInclude false out noPch ru fname angleBrackets (handledType rc type) =
          some built → Cpp.handle false out ru (.include type angleBrackets fname) = some (entered out built) :=
        fun hu => handle_of_step _ (hstep.trans hu)
      obtain ⟨cached, built, hc, hu, hmatches⟩ := h.stackInclude fname angleBrackets (handledType rc type)
        (fun _ hc => hdistinct _ (hhandle hc)) (fun _ hu => hdistinct' _ (hhandle' hu)) (by
          rintro ⟨himport, hyes⟩
          obtain rfl := handledType_eq_import himport
          exact hlate hyes)
      exact ⟨_, _, hhandle hc, hhandle' hu, hmatches⟩
  | pragmaOnce =>
      have hlt := (SameFile.currentFile h).lt
      exact ⟨_, _, rfl, rfl, h.markCurrent.matches (keeps_markImported hlt true)⟩
  | pragmaDependency angleBrackets fname =>
      obtain ⟨rc', ru', date, date', hc, hu, hmirrors, hkeeps⟩ := h.compareFileDate fname angleBrackets
      have hstep : step true out noPch rc (.pragmaDependency angleBrackets fname) = some (rc', false) := by
        rw [step, hc]
        rfl
      have hstep' : step false out noPch ru (.pragmaDependency angleBrackets fname) = some (ru', false) := by
        rw [step, hu]
        rfl
      exact ⟨_, _, handle_of_step _ hstep, handle_of_step _ hstep', hmirrors.matches hkeeps⟩
  | define m =>
      refine ⟨_, _, rfl, rfl, ?_⟩
      rw [h.macros_eq]
      exact (h.withMacros _).matches (keeps_withMacros rc _)
  | undef m =>
      refine ⟨_, _, rfl, rfl, ?_⟩
      rw [h.macros_eq]
      exact (h.withMacros _).matches (keeps_withMacros rc _)
  | endOfFile => exact ⟨_, _, rfl, rfl, h.popFileBuffer.matches (keeps_popFileBuffer h.reading h.buffers_lt.1).2⟩

/-- **An import that comes too late**: only the reader with the cache stacks its file, and the other one will not stack
the text any more. The guard of the text is not defined, or not known. -/
theorem Mirrors.handle_late (h : Mirrors out rc ru) {directive : Directive}
    (hdistinct : ∀ cached, Cpp.handle true out rc directive = some cached → DistinctFiles out cached.1)
    (hdistinct' : ∀ built, Cpp.handle false out ru directive = some built → DistinctFiles out built.1)
    (hlate : LateImport out rc directive) :
    ∃ cached built s, Cpp.handle true out rc directive = some cached ∧ Cpp.handle false out ru directive = some built ∧
      cached.2 = [s] ∧ built.2 = [] ∧ ¬ KnownGuarded out rc s ∧ Refuses out s.text built.1 := by
  obtain ⟨angleBrackets, fname, rfl⟩ : ∃ angleBrackets fname, directive = .include .import_ angleBrackets fname := by
    unfold LateImport at hlate
    split at hlate
    · exact ⟨_, _, rfl⟩
    · exact hlate.elim
  obtain ⟨rc', ru', start, hc, hu, hheads⟩ := h.searchPathHead fname angleBrackets .import_
  obtain ⟨l, g, hwalks, hhit, hs⟩ := hlate
  rw [hc] at hwalks hhit
  cases start with
  | none =>
      -- no start, no path, and so no hit
      obtain rfl : l = [] := hwalks.unique rfl
      obtain ⟨l₁, d, l₂, hl, -⟩ := hhit
      cases l₁ <;> cases hl
  | some d =>
      obtain ⟨l', hstart⟩ := hheads.starts d rfl
      obtain rfl := hwalks.unique hstart.walks
      have hagree := hheads.mirrors.toAgree
      obtain ⟨rc'', f, file, hfind, hfind', hfinds⟩ := hagree.findFile hstart fname
      have hs' := (stackable_congr hheads.files hheads.macros).mpr hs
      have hlt : ru'.files.length < (ru'.addFile file).files.length := by
        rw [length_addFile]
        exact Nat.lt_succ_self _
      have hcached := handle_of_step (.include .import_ angleBrackets fname)
        (stackInclude_some hc hheads.mirrors.search.wrapperInclude hfind)
      have hbuilt := handle_of_step (.include .import_ angleBrackets fname)
        (stackInclude_some hu hheads.mirrors.search'.wrapperInclude hfind')
      have hcs := (hdistinct _ hcached).of_entered
      have hus := (hdistinct' _ hbuilt).of_entered
      obtain ⟨t, ht⟩ := Option.isSome_iff_exists.mp hs'.readable
      have hfound := (hagree.hash.foundAt hstart hhit).2
      have htext : textAt out (rc''.file f) = some t := (hfound.same hfinds.found).2.2.trans ht
      have htext' : textAt out ((ru'.addFile file).file ru'.files.length) = some t := by
        rw [file_addFile_self, (hfound.same hfinds.found').2.2, ht]
      -- the cached reader enters the file it had found before, the other compares its new one with that file's text
      obtain ⟨hyes, hno⟩ := hfinds.decides_late hagree hstart hhit hs'
      have hentered := entered_stackFile_of hcs hfinds.agree.reading hfinds.lt hyes htext
      have hskipped := entered_stackFile_of_not hus hfinds.agree.reading' hlt hno
      have hguard : guardDefined out rc'' t = guardDefined out rc' t := by
        rw [guardDefined, guardDefined, hfinds.macros]
      have hunknown := hs'.not_knownGuarded hagree.guard ht
      rw [hguard] at hentered
      refine ⟨_, _, _, hcached, hbuilt, hentered, hskipped, fun hknown => hunknown ?_, ?_⟩
      · exact ⟨hknown.1, hheads.keeps.guardKnown hknown.2⟩
      · exact (hfinds.mirrors hheads.mirrors).refuses hus hlt htext' hno

/-! ## A whole run -/

/-- **Both readers decide alike** about every directive: what is stacked without the cache is stacked with it, or its
guard was defined. -/
def DecideAlike (out : Outside) : Reader → Reader → List Directive → Prop
  | _, _, [] => True
  | rc, ru, directive :: directives => ∃ cached built,
      handle true out rc directive = some cached ∧ handle false out ru directive = some built ∧
        ExtraGuarded built.2 cached.2 ∧ DecideAlike out cached.1 built.1 directives

/-- **One directive after the other.** The readers decide alike exactly if no import comes too late. -/
theorem Mirrors.decideAlike_iff (h : Mirrors out rc ru) {directives : List Directive}
    (hdistinct : DistinctAlong true out rc directives) (hdistinct' : DistinctAlong false out ru directives) :
    DecideAlike out rc ru directives ↔ NoLateImport out rc directives := by
  induction directives generalizing rc ru with
  | nil => exact Iff.rfl
  | cons directive directives ih =>
      constructor
      · rintro ⟨cached, built, hc, hu, hextra, hrest⟩
        have hno : ¬ LateImport out rc directive := by
          intro hlate
          obtain ⟨cached', built', s, hc', hu', hs, hnil, -⟩ := h.handle_late hdistinct.handle hdistinct'.handle hlate
          obtain rfl := Option.some.inj (hc.symm.trans hc')
          obtain rfl := Option.some.inj (hu.symm.trans hu')
          rw [hs, hnil] at hextra
          cases hextra
        refine ⟨hno, fun r' stacked hr' => ?_⟩
        obtain ⟨cached', built', hc', hu', hmatches⟩ := h.handle directive hdistinct.handle hdistinct'.handle hno
        obtain rfl := Option.some.inj (hc.symm.trans hc')
        obtain rfl := Option.some.inj (hu.symm.trans hu')
        obtain rfl := Option.some.inj (hc.symm.trans hr')
        exact (ih hmatches.mirrors (hdistinct.2 _ _ hc) (hdistinct'.2 _ _ hu)).mp hrest
      · rintro ⟨hno, hrest⟩
        obtain ⟨cached, built, hc, hu, hmatches⟩ := h.handle directive hdistinct.handle hdistinct'.handle hno
        have hlater := ih hmatches.mirrors (hdistinct.2 _ _ hc) (hdistinct'.2 _ _ hu)
        exact ⟨cached, built, hc, hu, hmatches.extraGuarded, hlater.mpr (hrest _ _ hc)⟩

/-- **A run with an import that comes too late.** Some text is stacked more often with the cache than without it. -/
theorem Mirrors.handleAll_late (h : Mirrors out rc ru) {directives : List Directive}
    (hdistinct : DistinctAlong true out rc directives) (hdistinct' : DistinctAlong false out ru directives)
    (hlate : ¬ NoLateImport out rc directives) :
    ∃ s built, ¬ KnownGuarded out rc s ∧ Cpp.handleAll false out ru directives = some built ∧
      ∀ cached, Cpp.handleAll true out rc directives = some cached → built.2.count s < cached.2.count s := by
  induction directives generalizing rc ru with
  | nil => exact absurd trivial hlate
  | cons directive directives ih =>
      by_cases hnow : LateImport out rc directive
      · -- the text is stacked once now, and the reader without the cache never stacks it again
        obtain ⟨first, first', s, hc, hu, hs, hnil, hunknown, hrefuses⟩ :=
          h.handle_late hdistinct.handle hdistinct'.handle hnow
        obtain ⟨later', hu', -, hskips⟩ := hrefuses.handleAll (hdistinct'.2 _ _ hu)
        refine ⟨s, (later'.1, first'.2 ++ later'.2), hunknown, ?_, fun cached hcached => ?_⟩
        · rw [handleAll_cons hu, hu']
          rfl
        rw [handleAll_cons hc] at hcached
        obtain ⟨later, -, rfl⟩ := Option.map_eq_some_iff.mp hcached
        have hnone : (first'.2 ++ later'.2).count s = 0 := by
          rw [hnil, List.nil_append]
          exact List.count_eq_zero_of_not_mem fun hmem => hskips s hmem rfl
        have hone : s ∈ first.2 ++ later.2 := by
          rw [hs]
          exact List.mem_cons_self
        rw [hnone]
        exact List.count_pos_iff.mpr hone
      · obtain ⟨first, first', hc, hu, hmatches⟩ := h.handle directive hdistinct.handle hdistinct'.handle hnow
        have hrest : ¬ NoLateImport out first.1 directives := by
          intro hrest
          refine hlate ⟨hnow, fun r' stacked hr' => ?_⟩
          obtain rfl := Option.some.inj (hc.symm.trans hr')
          exact hrest
        obtain ⟨s, later', hunknown, hu', hcount⟩ :=
          ih hmatches.mirrors (hdistinct.2 _ _ hc) (hdistinct'.2 _ _ hu) hrest
        have hunknown' : ¬ KnownGuarded out rc s := fun hknown =>
          hunknown ⟨hknown.1, hmatches.keeps.guardKnown hknown.2⟩
        refine ⟨s, (later'.1, first'.2 ++ later'.2), hunknown', ?_, fun cached hcached => ?_⟩
        · rw [handleAll_cons hu, hu']
          rfl
        rw [handleAll_cons hc] at hcached
        obtain ⟨later, hc', rfl⟩ := Option.map_eq_some_iff.mp hcached
        -- up to here both have stacked the text equally often
        have hfirst := hmatches.inserts.count_eq hunknown
        rw [List.count_append, List.count_append, hfirst]
        exact Nat.add_lt_add_left (hcount later hc') _

/-- Readers that decide alike have stacked the same texts in the end. -/
theorem DecideAlike.handleAll {directives : List Directive} (h : DecideAlike out rc ru directives) :
    ∃ cached built, Cpp.handleAll true out rc directives = some cached ∧
      Cpp.handleAll false out ru directives = some built ∧ ExtraGuarded built.2 cached.2 := by
  induction directives generalizing rc ru with
  | nil => exact ⟨_, _, rfl, rfl, .nil⟩
  | cons directive directives ih =>
      obtain ⟨first, first', hc, hu, hextra, hrest⟩ := h
      obtain ⟨later, later', hc', hu', hextra'⟩ := ih hrest
      refine ⟨(later.1, first.2 ++ later.2), (later'.1, first'.2 ++ later'.2), ?_, ?_, hextra.append hextra'⟩
      · rw [handleAll_cons hc, hc']
        rfl
      · rw [handleAll_cons hu, hu']
        rfl

theorem Starts.files (h : Starts r) : r.files = [] := by
  obtain ⟨r₀, quote, bracket, wrapper, ignores, Q, rfl, hfiles, -⟩ := h.registered
  exact hfiles

/-- Before anything was looked up a reader agrees with itself. -/
theorem Starts.agree (h : Starts r) : Agree out r r := by
  have hfiles := h.files
  have hno : ∀ f, ¬ f < r.files.length := fun f hf => by rw [hfiles] at hf; exact Nat.not_lt_zero f hf
  have hinv := searchInv_registered h.registered
  have hreading : ReadingInv out r := ⟨fun f hf => absurd hf (hno f), h.pchf, fun f hf => absurd hf (hno f)⟩
  have hhash : HashInv out r := by
    intro e he
    rw [h.fileHash] at he
    cases he
  exact ⟨hreading, hreading, hinv, hinv, hhash, fun f hf => absurd hf (hno f), rfl, fun _ => .rfl, fun _ => .rfl⟩

end

/-! ## The main file -/

section

variable {out : Outside} {rc ru r : Reader} {f g : Nat} {fname : Path} {l : List DirRef} {file file' : CppFile}

/-- The file that a search ends with has the error of its path. -/
theorem FoundIn.errNo_eq (h : FoundIn out noPch r fname l file) (h' : FoundIn out noPch r fname l file') :
    file'.errNo = file.errNo := by
  have hdir : file'.dir = file.dir := h'.dir.trans h.dir.symm
  cases hd : file.dir with
  | none => rw [(h.failed hd).1, (h'.failed (hdir.trans hd)).1]
  | some d =>
      obtain ⟨path, hcandidate, -, -, hentry⟩ := h.opened_spec hd
      obtain ⟨path', hcandidate', -, -, hentry'⟩ := h'.opened_spec (hdir.trans hd)
      obtain rfl : path = path' := Option.some.inj (hcandidate.symm.trans hcandidate')
      cases he : out.entry path with
      | missing =>
          rw [he] at hentry
          exact (hentry : False).elim
      | refused =>
          rw [he] at hentry hentry'
          have herr : file.errNo = .other := hentry
          have herr' : file'.errNo = .other := hentry'
          rw [herr, herr']
      | file mtime contents readable =>
          rw [he] at hentry hentry'
          have herr : file.errNo = .ok ∧ file.st = ⟨mtime, contents.length⟩ := hentry
          have herr' : file'.errNo = .ok ∧ file'.st = ⟨mtime, contents.length⟩ := hentry'
          rw [herr.1, herr'.1]

theorem extends_withMainFile (r : Reader) (f : Nat) : Extends r { r with mainFile := f } :=
  ⟨List.prefix_rfl, Nat.le_refl _, fun _ _ => rfl, rfl, rfl, rfl, rfl⟩

theorem SearchInv.withMainFile {W : List Nat} (h : SearchInv W r) (f : Nat) : SearchInv W { r with mainFile := f } :=
  (extends_withMainFile r f).searchInv h (fun _ he => .inl he) fun _ hg hge => absurd hg (Nat.not_lt_of_le hge)

theorem keeps_withMainFile (r : Reader) (f : Nat) : Keeps out r { r with mainFile := f } :=
  .of_files (extends_withMainFile r f) rfl

theorem stackable_withMainFile {import_ : Bool} :
    Stackable out { r with mainFile := g } f import_ ↔ Stackable out r f import_ := stackable_congr rfl rfl

/-- The main file is set in both readers. -/
theorem Agree.withMainFile (h : Agree out rc ru) (hbuffers : rc.buffers = []) (hbuffers' : ru.buffers = [])
    (hfile : SameFile out rc ru f g) : Mirrors out { rc with mainFile := f } { ru with mainFile := g } where
  reading := ⟨h.reading.settled, h.reading.pchf, h.reading.seen⟩
  reading' := ⟨h.reading'.settled, h.reading'.pchf, h.reading'.seen⟩
  search := h.search.withMainFile f
  search' := h.search'.withMainFile g
  hash := h.hash.keeps (keeps_withMainFile rc f) rfl
  guard := h.guard
  settings := h.settings
  lookedUp := h.lookedUp
  onceOnly := h.onceOnly
  buffers := by
    show List.Forall₂ _ rc.buffers ru.buffers
    rw [hbuffers, hbuffers']
    exact .nil
  mainFile := hfile.keeps (keeps_withMainFile rc f) (keeps_withMainFile ru g)

/-- Without a text to read the main file is entered if it was stacked. -/
theorem enter_stackFile (hdistinct : DistinctFiles out r) (h : ReadingInv out r) (hf : f < r.files.length)
    (hbuffers : r.buffers = []) (import_ : Bool) :
    enter out (stackFile out r f import_).1 = entered out (stackFile out r f import_) := by
  obtain ⟨r', stacked, hstack, hstacks⟩ := stackFile_stacks hdistinct h hf import_
  rw [hstack]
  cases stacked with
  | true => rfl
  | false =>
      have hrest := hstacks.buffers
      rw [if_neg Bool.false_ne_true, hbuffers] at hrest
      unfold enter
      rw [hrest]
      rfl

variable (out) in
/-- **`cpp_read_main_file` in both readers.** -/
theorem Starts.readMainFile (h : Starts r) (fname : Path) :
    Cpp.readMainFile true out noPch r fname = none ∧ Cpp.readMainFile false out noPch r fname = none ∨
      ∃ rc ru, Cpp.readMainFile true out noPch r fname = some rc ∧ Cpp.readMainFile false out noPch r fname = some ru ∧
        Matches out r (enter out rc) (enter out ru) := by
  have hagree : Agree out r r := h.agree
  have hstart : StartsAt r .noSearchPath [.noSearchPath] := .inl ⟨rfl, rfl⟩
  obtain ⟨rc, f, file, hfind, hfind', hfinds⟩ := hagree.findFile hstart fname
  -- nothing is cached before the first file, so both readers open it
  have hmiss : ∀ f, ¬ CacheHit out r fname [.noSearchPath] f := by
    rintro f ⟨l₁, d, l₂, -, -, -, hsearch⟩
    rw [searchCache, h.fileHash] at hsearch
    cases hsearch
  obtain ⟨fresh, hfiles, rfl, hfresh, -⟩ := hfinds.origin.resolve_left fun hhit => hmiss f hhit.1
  have hfile : rc.file r.files.length = fresh := by
    rw [Reader.file, hfiles]
    exact @file_addFile_self r fresh
  have herr : (rc.file r.files.length).errNo = file.errNo := by
    rw [hfile]
    exact hfinds.made.errNo_eq hfresh
  unfold Cpp.readMainFile
  rw [hfind, hfind']
  dsimp only
  rw [herr, file_addFile_self]
  by_cases hok : file.errNo = .ok
  · rw [if_neg (not_not.mpr hok), if_neg (not_not.mpr hok)]
    refine .inr ⟨_, _, rfl, rfl, ?_⟩
    have hdir : file.dir.isSome = true := by
      cases hd : file.dir with
      | none => cases hok.symm.trans (hfinds.made.failed hd).1
      | some d => rfl
    have hsame := hfinds.sameFile hstart hdir
    -- from here `main_file` is the same file of both, which `Mirrors` speaks about
    have hmirrors := hfinds.agree.withMainFile (hfinds.buffers.trans h.buffers) h.buffers hsame
    have hdecides : Decides out rc (r.addFile file) r.files.length r.files.length false :=
      hfinds.decides hagree fun himport => absurd himport Bool.false_ne_true
    have hdistinct : DistinctFiles out { rc with mainFile := r.files.length } := by
      refine distinctFiles_of_length ?_
      show rc.files.length ≤ 1
      rw [hfiles, h.files]
      exact Nat.le_refl 1
    have hdistinct' : DistinctFiles out { r.addFile file with mainFile := r.files.length } := by
      refine distinctFiles_of_length ?_
      show (r.addFile file).files.length ≤ 1
      rw [length_addFile, h.files]
      exact Nat.le_refl 1
    rw [enter_stackFile hdistinct hmirrors.reading hsame.lt (hfinds.buffers.trans h.buffers),
      enter_stackFile hdistinct' hmirrors.reading' hsame.lt' h.buffers]
    refine (hmirrors.stackFile hdistinct hdistinct' hsame.lt hsame.lt' hsame.text (fun _ => hmirrors.mainFile) ?_).after
      (hfinds.keeps.trans (keeps_withMainFile rc _))
    refine ⟨fun hs => ?_, fun hs hno => ?_⟩
    · exact stackable_withMainFile.mpr (hdecides.1 (stackable_withMainFile.mp hs))
    · exact hdecides.2 (stackable_withMainFile.mp hs) fun hyes => hno (stackable_withMainFile.mpr hyes)
  · rw [if_pos hok, if_pos hok]
    exact .inl ⟨rfl, rfl⟩

end

/-! ## Disabling the cache -/

/-- **Different paths that the runs come to have different contents.** -/
def DistinctRuns (out : Outside) (r : Reader) (fname : Path) (directives : List Directive) : Prop :=
  ∀ cache r', readMainFile cache out noPch r fname = some r' → DistinctAlong cache out (enter out r').1 directives

/-- In the run of the reader with the cache no import comes too late. -/
def ImportsInTime (out : Outside) (r : Reader) (fname : Path) (directives : List Directive) : Prop :=
  ∀ r', readMainFile true out noPch r fname = some r' → NoLateImport out (enter out r').1 directives

/-- **The same texts are stacked** with the cache and without it, and without it some more whose guard was defined; or
the main file cannot be opened. -/
def SameStackings (out : Outside) (r : Reader) (fname : Path) (directives : List Directive) : Prop :=
  stackings true out r fname directives = none ∧ stackings false out r fname directives = none ∨
    ∃ cached built, stackings true out r fname directives = some cached ∧
      stackings false out r fname directives = some built ∧ ExtraGuarded built cached

/-- **Disabling the cache changes no decision** of the run: the readers decide alike about the main file and about every
directive after it; or the main file cannot be opened. -/
def RunsAlike (out : Outside) (r : Reader) (fname : Path) (directives : List Directive) : Prop :=
  readMainFile true out noPch r fname = none ∧ readMainFile false out noPch r fname = none ∨
    ∃ rc ru, readMainFile true out noPch r fname = some rc ∧ readMainFile false out noPch r fname = some ru ∧
      ExtraGuarded (enter out ru).2 (enter out rc).2 ∧ DecideAlike out (enter out rc).1 (enter out ru).1 directives

section

variable {out : Outside} {r : Reader} {fname : Path} {directives : List Directive}

/-- In a file system in which different paths have different contents every run comes to such paths only. -/
theorem DistinctContents.distinctRuns (h : DistinctContents out) (r : Reader) (fname : Path)
    (directives : List Directive) : DistinctRuns out r fname directives :=
  fun _ r' _ => h.distinctAlong (enter out r').1 directives

theorem RunsAlike.sameStackings (h : RunsAlike out r fname directives) : SameStackings out r fname directives := by
  unfold SameStackings stackings
  obtain ⟨hc, hu⟩ | ⟨rc, ru, hc, hu, hextra, hdecide⟩ := h
  · rw [hc, hu]
    exact .inl ⟨rfl, rfl⟩
  · obtain ⟨cached, built, hc', hu', hextra'⟩ := hdecide.handleAll
    rw [hc, hu]
    dsimp only
    rw [hc', hu']
    exact .inr ⟨_, _, rfl, rfl, hextra.append hextra'⟩

theorem runsAlike_iff_importsInTime (hdistinct : DistinctRuns out r fname directives) (hstarts : Starts r) :
    RunsAlike out r fname directives ↔ ImportsInTime out r fname directives := by
  obtain ⟨hc, hu⟩ | ⟨rc, ru, hc, hu, hmatches⟩ := hstarts.readMainFile out fname
  · refine iff_of_true (.inl ⟨hc, hu⟩) fun r' hr' => ?_
    cases hc.symm.trans hr'
  · have hdecide := hmatches.mirrors.decideAlike_iff (hdistinct true rc hc) (hdistinct false ru hu)
    constructor
    · rintro (⟨hnone, -⟩ | ⟨rc', ru', hc', hu', -, halike⟩) r' hr'
      · cases hc.symm.trans hnone
      · obtain rfl := Option.some.inj (hc.symm.trans hc')
        obtain rfl := Option.some.inj (hu.symm.trans hu')
        obtain rfl := Option.some.inj (hc.symm.trans hr')
        exact hdecide.mp halike
    · exact fun hlate => .inr ⟨rc, ru, hc, hu, hmatches.extraGuarded, hdecide.mpr (hlate rc hc)⟩

/-- Runs that stack the same texts have no import that comes too late. -/
theorem SameStackings.importsInTime (h : SameStackings out r fname directives)
    (hdistinct : DistinctRuns out r fname directives) (hstarts : Starts r) :
    ImportsInTime out r fname directives := by
  intro rc hc
  obtain ⟨hnone, -⟩ | ⟨rc', ru, hc', hu, hmatches⟩ := hstarts.readMainFile out fname
  · cases hnone.symm.trans hc
  obtain rfl := Option.some.inj (hc.symm.trans hc')
  by_contra hlate
  obtain ⟨s, later', hunknown, hu', hcount⟩ :=
    hmatches.mirrors.handleAll_late (hdistinct true rc hc) (hdistinct false ru hu) hlate
  have hbuilt : stackings false out r fname directives = some ((enter out ru).2 ++ later'.2) := by
    rw [stackings, hu]
    dsimp only
    rw [hu']
    rfl
  obtain ⟨-, hnone⟩ | ⟨cached, built, hcached, hbuilt', hextra⟩ := h
  · cases hbuilt.symm.trans hnone
  · obtain rfl := Option.some.inj (hbuilt.symm.trans hbuilt')
    rw [stackings, hc] at hcached
    obtain ⟨later, hlater, rfl⟩ := Option.map_eq_some_iff.mp hcached
    -- the text is stacked as often as the same texts are, and yet more often
    have hle := hextra.count_le s
    have hmain := hmatches.inserts.count_eq hunknown
    rw [List.count_append, List.count_append, hmain] at hle
    exact Nat.not_lt_of_le (Nat.le_of_add_le_add_left hle) (hcount later hlater)

/-- **`GCCXML_DISABLE_INCLUDE_CACHE`** changes no stacking decision of a run exactly if no import comes too late, and
exactly then the same texts are stacked. -/
theorem runsAlike_iff (hdistinct : DistinctRuns out r fname directives) (hstarts : Starts r) :
    (RunsAlike out r fname directives ↔ ImportsInTime out r fname directives) ∧
      (SameStackings out r fname directives ↔ ImportsInTime out r fname directives) := by
  have hiff := runsAlike_iff_importsInTime hdistinct hstarts
  refine ⟨hiff, fun hsame => hsame.importsInTime hdistinct hstarts, fun hlate => (hiff.mpr hlate).sameStackings⟩

end

/-- Without an `#import` none comes too late. -/
theorem noLateImport_of_no_import {out : Outside} {r : Reader} {directives : List Directive}
    (h : ∀ directive ∈ directives, ∀ angleBrackets fname, directive ≠ .include .import_ angleBrackets fname) :
    NoLateImport out r directives := by
  induction directives generalizing r with
  | nil => trivial
  | cons directive directives ih =>
      rw [List.forall_mem_cons] at h
      refine ⟨fun hlate => ?_, fun r' stacked _ => ih h.2⟩
      unfold LateImport at hlate
      split at hlate
      · exact h.1 _ _ rfl
      · exact hlate

/-! ### A header with a guard

The main file is `m`, and the directory `i` has the header `x`, whose guard is `X`. -/

/-- The files of the example. -/
def headerFiles : Outside where
  entry path :=
    if path = ['m'] then .file 0 ['m'] true
    else if path = ['i', '/', 'x'] then .file 0 ['x'] true
    else .missing
  guard text := if text = ['x'] then some ['X'] else none
  md5 _ := 0

/-- The directory `i`, which is the quote chain and the bracket chain of `headerDirs`. -/
def headerHeap : Reader := { dirs := [⟨none, ['i'], 0, none⟩] }

def headerDirs : Reader := setIncludeChains headerHeap (some (.node 0)) (some (.node 0)) none false

theorem entry_headerFiles {p : Path} {mtime : Int} {contents : Contents} {readable : Bool}
    (h : headerFiles.entry p = .file mtime contents readable) :
    p = ['m'] ∧ contents = ['m'] ∨ p = ['i', '/', 'x'] ∧ contents = ['x'] := by
  simp only [headerFiles] at h
  split at h
  case isTrue hm =>
    obtain ⟨-, rfl, -⟩ := Entry.file.inj h
    exact .inl ⟨hm, rfl⟩
  case isFalse =>
    split at h
    case isTrue hx =>
      obtain ⟨-, rfl, -⟩ := Entry.file.inj h
      exact .inr ⟨hx, rfl⟩
    case isFalse => cases h

theorem distinctContents_headerFiles : DistinctContents headerFiles := by
  intro p q mtime mtime' contents hp hq
  obtain ⟨rfl, rfl⟩ | ⟨rfl, rfl⟩ := entry_headerFiles hp
  · obtain ⟨rfl, -⟩ | ⟨-, hx⟩ := entry_headerFiles hq
    · rfl
    · exact absurd hx (by decide)
  · obtain ⟨-, hm⟩ | ⟨rfl, -⟩ := entry_headerFiles hq
    · exact absurd hm (by decide)
    · rfl

theorem starts_headerDirs : Starts headerDirs where
  registered := by
    refine ⟨headerHeap, some (.node 0), some (.node 0), none, false, [0], rfl, rfl, rfl, ⟨rfl, rfl⟩, rfl, ?_, nofun⟩
    simp [headerHeap]
  fileHash := rfl
  buffers := rfl
  pchf := rfl

/-- The header is included, its guard gets defined, and the header is included again. -/
theorem runsAlike_headerFiles :
    RunsAlike headerFiles headerDirs ['m']
        [.include .include true ['x'], .define ['X'], .endOfFile, .include .include true ['x']] ∧
      SameStackings headerFiles headerDirs ['m']
        [.include .include true ['x'], .define ['X'], .endOfFile, .include .include true ['x']] := by
  have hlate : ImportsInTime headerFiles headerDirs ['m']
      [.include .include true ['x'], .define ['X'], .endOfFile, .include .include true ['x']] := by
    intro r' _
    exact noLateImport_of_no_import (by simp)
  obtain ⟨halike, hsame⟩ := runsAlike_iff (distinctContents_headerFiles.distinctRuns headerDirs _ _) starts_headerDirs
  exact ⟨halike.mpr hlate, hsame.mpr hlate⟩

/-- The header is looked up for its date, and then it is imported. -/
def dateThenImport : List Directive := [.pragmaDependency true ['x'], .include .import_ true ['x']]

/-- An import that comes too late: without the cache the header is not stacked. -/
theorem not_sameStackings_headerFiles :
    DistinctContents headerFiles ∧ Starts headerDirs ∧
      stackings true headerFiles headerDirs ['m'] dateThenImport = some [⟨['m'], false⟩, ⟨['x'], false⟩] ∧
      stackings false headerFiles headerDirs ['m'] dateThenImport = some [⟨['m'], false⟩] ∧
      ¬ SameStackings headerFiles headerDirs ['m'] dateThenImport := by
  have hcached : stackings true headerFiles headerDirs ['m'] dateThenImport =
      some [⟨['m'], false⟩, ⟨['x'], false⟩] := by rfl
  have hbuilt : stackings false headerFiles headerDirs ['m'] dateThenImport = some [⟨['m'], false⟩] := by rfl
  refine ⟨distinctContents_headerFiles, starts_headerDirs, hcached, hbuilt, ?_⟩
  rintro (⟨hnone, -⟩ | ⟨cached, built, hc, hu, hextra⟩)
  · cases hcached.symm.trans hnone
  · obtain rfl := Option.some.inj (hcached.symm.trans hc)
    obtain rfl := Option.some.inj (hbuilt.symm.trans hu)
    cases hextra with
    | same _ hextra => cases hextra
    | extra hguarded _ => cases hguarded

end Cpp

end GccXml

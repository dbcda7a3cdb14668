import GccXml.Cpp.CacheDisabled

namespace GccXml

/-! # `Cpp.OnceOnly` — a text that is to be included once only

Without the cache every lookup makes a new file, which has no mark, no count and no guard. What keeps a text from being
stacked again is the comparison with the files that were looked up before, and it is enough: once a file with the text
is marked, no file with this text is stacked in the rest of the run, whatever the directives are.

The invariant is that some file with the text is marked. A directive may make files, mark them, push their texts and
leave them, but no directive takes a mark back, and `Keeps` says so of each of them. The run is that of one reader.
Nothing is said about the reader with the cache, which may have gone another way long before. -/

namespace Cpp

open Chain Reader

section

variable {out : Outside} {r r' r'' : Reader} {f : Nat} {t : Contents} {import_ : Bool} {fname : Path} {d : DirRef}
  {l : List DirRef} {file : CppFile} {angleBrackets : Bool} {type : IncludeType}

/-! ## Directives -/

/-- `_cpp_stack_include` without a path to search. -/
theorem stackInclude_none {cache : Bool} (hhead : searchPathHead r fname angleBrackets type = (r', none)) :
    stackInclude cache out noPch r fname angleBrackets type = some (r', false) := by
  have hfind := @findInclude_none out noPch r fname angleBrackets type cache (by rw [hhead])
  rw [stackInclude, hfind, hhead]

/-- `_cpp_stack_include` without wrapper directories. -/
theorem stackInclude_some {cache : Bool} (hhead : searchPathHead r fname angleBrackets type = (r', some d))
    (hwrapper : r'.wrapperInclude = none) (hfile : findFile cache out noPch r' fname d = some (r'', f)) :
    stackInclude cache out noPch r fname angleBrackets type = some (stackFile out r'' f (type = .import_)) := by
  have hfind := @findInclude_plain out noPch r fname angleBrackets type cache d (by rw [hhead])
    (by rw [hhead]; simp [searchesWrappers, hwrapper])
  rw [hhead, hfile] at hfind
  rw [stackInclude, hfind]
  rfl

/-- `_cpp_compare_file_date` leaves the reader of the lookup behind. -/
theorem compareFileDate_some {cache : Bool} (hhead : searchPathHead r fname angleBrackets .include = (r', some d))
    (hfile : findFile cache out noPch r' fname d = some (r'', f)) :
    ∃ date, compareFileDate cache out noPch r fname angleBrackets = some (r'', date) := by
  unfold compareFileDate
  rw [hhead]
  dsimp only
  rw [hfile]
  dsimp only
  split
  · exact ⟨_, rfl⟩
  · split
    · exact ⟨_, rfl⟩
    · exact ⟨_, rfl⟩

theorem compareFileDate_none {cache : Bool} (hhead : searchPathHead r fname angleBrackets .include = (r', none)) :
    compareFileDate cache out noPch r fname angleBrackets = some (r', -1) := by
  rw [compareFileDate, hhead]

theorem SearchInv.wrapperInclude (h : SearchInv [] r) : r.wrapperInclude = none := h.wrapper

/-- A search may begin where it does. -/
theorem PathHead.startsAt {head : Reader × Option DirRef} (h : PathHead [] r fname head) (hd : head.2 = some d) :
    ∃ l, StartsAt head.1 d l := by
  obtain ⟨-, hstart⟩ | ⟨-, l, hl⟩ := h.start
  · exact ⟨_, .inl ⟨Option.some.inj (hd.symm.trans hstart), rfl⟩⟩
  · exact ⟨l, .inr (hd ▸ hl)⟩

theorem handle_of_step {cache : Bool} (directive : Directive) {result : Reader × Bool}
    (h : step cache out noPch r directive = some result) : handle cache out r directive = some (entered out result) := by
  obtain ⟨r', stacked⟩ := result
  rw [handle, h]
  cases stacked <;> rfl

theorem handleAll_cons {cache : Bool} {directive : Directive} {directives : List Directive}
    {first : Reader × List Stacked} (h : handle cache out r directive = some first) :
    handleAll cache out r (directive :: directives) =
      (handleAll cache out first.1 directives).map fun later => (later.1, first.2 ++ later.2) := by
  rw [handleAll, h]

theorem search_entered (result : Reader × Bool) : (entered out result).1.search = result.1.search := by
  unfold entered enter
  split
  · split
    · rfl
    · dsimp only
      split
      · exact search_popFileBuffer
      · rfl
  · rfl

/-- The files of a reader at the end of a directive are those that it had before it stacked one. -/
theorem DistinctFiles.of_entered (h : DistinctFiles out (entered out (stackFile out r f import_)).1) :
    DistinctFiles out r := by
  refine h.of_search ?_
  rw [search_entered, search_stackFile]

/-! ## A reader that refuses a text -/

/-- **A file with the text `t` is marked**, and what is known of the files agrees with the file system. -/
structure Refuses (out : Outside) (t : Contents) (r : Reader) : Prop where
  reading : ReadingInv out r
  search : SearchInv [] r
  buffers : ∀ b ∈ r.buffers, b.file < r.files.length
  mainFile : r.mainFile < r.files.length
  onceOnly : OnceOnly out r t

/-- The text is refused from here on, and it was not stacked. -/
def Skips (out : Outside) (t : Contents) (result : Reader × List Stacked) : Prop :=
  Refuses out t result.1 ∧ ∀ s ∈ result.2, s.text ≠ t

theorem Keeps.onceOnly_text (h : Keeps out r r') (honce : OnceOnly out r t) : OnceOnly out r' t := by
  obtain ⟨f, hf, hmark, ht⟩ := honce
  exact ⟨f, Nat.lt_of_lt_of_le hf h.extends_.length_files, h.onceOnly f hf hmark, (h.text f hf).trans ht⟩

theorem Refuses.skips (h : Refuses out t r) : Skips out t (r, []) := ⟨h, fun _ hs => absurd hs List.not_mem_nil⟩

/-- No mark is taken back. -/
theorem Refuses.keeps (h : Refuses out t r) (hkeeps : Keeps out r r') (hreading : ReadingInv out r')
    (hsearch : SearchInv [] r') (hbuffers : ∀ b ∈ r'.buffers, b ∈ r.buffers ∨ b.file < r.files.length)
    (hmain : r'.mainFile = r.mainFile) : Refuses out t r' where
  reading := hreading
  search := hsearch
  buffers b hb := by
    have hlt : b.file < r.files.length := (hbuffers b hb).elim (h.buffers b) id
    exact Nat.lt_of_lt_of_le hlt hkeeps.extends_.length_files
  mainFile := by
    rw [hmain]
    exact Nat.lt_of_lt_of_le h.mainFile hkeeps.extends_.length_files
  onceOnly := hkeeps.onceOnly_text h.onceOnly

theorem Refuses.currentFile_lt (h : Refuses out t r) : r.currentFile < r.files.length := by
  unfold Reader.currentFile
  cases hb : r.buffers with
  | nil => exact h.mainFile
  | cons b _ => exact h.buffers b (by rw [hb]; exact List.mem_cons_self)

/-- A file is looked up. -/
theorem Refuses.addFile (h : Refuses out t r) (hfound : FoundIn out noPch r fname l file) (hstart : StartsAt r d l) :
    Refuses out t (r.addFile file) :=
  h.keeps (keeps_addFile out r file) (h.reading.addFile hfound.settled hfound.unread.onceOnly)
    (h.search.addFile (hfound.remembers hstart _)) (fun _ hb => .inl hb) rfl

theorem Refuses.popFileBuffer (h : Refuses out t r) : Refuses out t (popFileBuffer out r) := by
  obtain ⟨hreading, hkeeps⟩ := keeps_popFileBuffer h.reading h.buffers
  have hsub : ∀ b ∈ (Cpp.popFileBuffer out r).buffers, b ∈ r.buffers := by
    intro b hb
    unfold Cpp.popFileBuffer at hb
    split at hb
    · exact hb
    · rename_i hbuffers
      rw [hbuffers]
      exact List.mem_cons_of_mem _ hb
  exact h.keeps hkeeps hreading (searchInv_of_search h.search search_popFileBuffer) (fun b hb => .inl (hsub b hb))
    (mainFile_popFileBuffer r)

theorem Refuses.enter (h : Refuses out t r) : Refuses out t (enter out r).1 := by
  unfold Cpp.enter
  split
  · exact h
  · dsimp only
    split
    · exact h.popFileBuffer
    · exact h

variable (r fname angleBrackets type) in
/-- Before a search only directories are made. -/
theorem searchPathHead_makes : ∃ dirs dirHash start,
    searchPathHead r fname angleBrackets type = ({ r with dirs, dirHash }, start) := by
  have hmake : ∀ dirName sysp, ∃ dirs dirHash start,
      ((makeCppDir r dirName sysp).1, some (makeCppDir r dirName sysp).2) = ({ r with dirs, dirHash }, start) := by
    intro dirName sysp
    obtain ⟨dirs, dirHash, start, hhead, -⟩ := @sameHead_makeCppDir r r rfl dirName sysp
    exact ⟨dirs, dirHash, start, hhead⟩
  rw [searchPathHead_eq]
  split
  · exact ⟨_, _, _, rfl⟩
  · split
    · exact ⟨_, _, _, rfl⟩
    · split
      · exact ⟨_, _, _, rfl⟩
      · split
        · exact hmake _ _
        · split
          · exact ⟨_, _, _, rfl⟩
          · exact hmake _ _

theorem Refuses.searchPathHead (h : Refuses out t r) (fname : Path) (angleBrackets : Bool) (type : IncludeType) :
    ∃ r' start, Cpp.searchPathHead r fname angleBrackets type = (r', start) ∧ Refuses out t r' ∧
      ∀ d, start = some d → ∃ l, StartsAt r' d l := by
  obtain ⟨dirs, dirHash, start, heq⟩ := searchPathHead_makes r fname angleBrackets type
  have hhead := searchPathHead_spec h.search fname angleBrackets type
  have hstarts := fun d => hhead.startsAt (d := d)
  rw [heq] at hhead hstarts
  refine ⟨_, start, heq, ?_, hstarts⟩
  exact h.keeps (.of_files hhead.extends_ rfl) ⟨h.reading.settled, h.reading.pchf, h.reading.seen⟩ hhead.searchInv
    (fun _ hb => .inl hb) rfl

/-- A lookup makes a file. -/
theorem Refuses.findFile (h : Refuses out t r) (hstart : StartsAt r d l) (fname : Path) :
    ∃ file, Cpp.findFile false out noPch r fname d = some (r.addFile file, r.files.length) ∧
      FoundIn out noPch r fname l file ∧ Refuses out t (r.addFile file) := by
  obtain ⟨file, hfind, hfound⟩ := @findFile_spec out noPch r fname d l hstart.walks hstart.length_le
  exact ⟨file, hfind, hfound, h.addFile hfound hstart⟩

/-! ## One directive -/

/-- **The new file** is not stacked if it has the text. -/
theorem Refuses.stackFile (h : Refuses out t r) (hfound : FoundIn out noPch r fname l file) (hstart : StartsAt r d l)
    (hdistinct : DistinctFiles out (r.addFile file)) (import_ : Bool) :
    Skips out t (entered out (Cpp.stackFile out (r.addFile file) r.files.length import_)) := by
  have hadd := h.addFile hfound hstart
  have hlt : r.files.length < (r.addFile file).files.length := by
    rw [length_addFile]
    exact Nat.lt_succ_self _
  obtain ⟨r', stacked, hstack, hstacks⟩ := stackFile_stacks hdistinct hadd.reading hlt import_
  have hbuffers := hstacks.buffers
  have hrefuses : Refuses out t r' := by
    refine hadd.keeps (hstacks.keeps hlt) hstacks.reading ?_ (fun b hb => ?_) (hstacks.mainFile hlt)
    · exact searchInv_of_search hadd.search (hstacks.alike.search.trans search_markImported)
    · rw [hbuffers] at hb
      cases stacked with
      | false => exact .inl hb
      | true =>
          obtain rfl | hb := List.mem_cons.mp hb
          · exact .inr hlt
          · exact .inl hb
  rw [hstack]
  cases stacked with
  | false => exact hrefuses.skips
  | true =>
      -- the file was stacked, so no file with its text is marked
      have hyes := hstacks.stacked_iff.mp rfl
      obtain ⟨t', ht', -, honly⟩ := (stackable_fresh hfound.unread).mp hyes
      have hentered := entered_stackFile_of hdistinct hadd.reading hlt hyes (by rw [file_addFile_self, ht'])
      rw [hstack] at hentered
      refine ⟨hrefuses.enter, fun s hs => ?_⟩
      rw [hentered, List.mem_singleton] at hs
      rw [hs]
      exact fun (heq : t' = t) => honly (heq ▸ h.onceOnly)

/-- An import that is not stacked marks its file. -/
theorem Mirrors.refuses {rc : Reader} (h : Mirrors out rc r) (hdistinct : DistinctFiles out r) (hf : f < r.files.length)
    (ht : textAt out (r.file f) = some t) (hno : ¬ Stackable out r f true) :
    Refuses out t (entered out (Cpp.stackFile out r f true)).1 := by
  obtain ⟨r', stacked, hstack, hstacks⟩ := stackFile_stacks hdistinct h.reading' hf true
  obtain rfl : stacked = false := Bool.eq_false_iff.mpr fun hyes => hno (hstacks.stacked_iff.mp hyes)
  have hlength := (hstacks.keeps hf).extends_.length_files
  have hbuffers : r'.buffers = r.buffers := hstacks.buffers
  rw [hstack]
  refine ⟨hstacks.reading, ?_, fun b hb => ?_, ?_, ?_⟩
  · exact searchInv_of_search h.search' (hstacks.alike.search.trans search_markImported)
  · rw [entered, if_neg Bool.false_ne_true, hbuffers] at hb
    exact Nat.lt_of_lt_of_le (h.buffers_lt.2 b hb) hlength
  · have hmain : r'.mainFile = r.mainFile := hstacks.mainFile hf
    rw [entered, if_neg Bool.false_ne_true, hmain]
    exact Nat.lt_of_lt_of_le h.mainFile.lt' hlength
  · exact hstacks.alike.onceOnly_iff.mpr ((onceOnly_markImported hf).mpr (.inr ⟨rfl, ht⟩))

theorem Refuses.markCurrent (h : Refuses out t r) : Refuses out t (markFileOnceOnly r r.currentFile) := by
  have hlt := h.currentFile_lt
  have hkeeps : Keeps out r (markFileOnceOnly r r.currentFile) := keeps_markImported hlt true
  exact h.keeps hkeeps (h.reading.markFileOnceOnly hlt) (searchInv_of_search h.search search_markFileOnceOnly)
    (fun _ hb => .inl hb) rfl

theorem keeps_withMacros (r : Reader) (macros : List MacroName) : Keeps out r { r with macros } :=
  .of_files (.of_search rfl) rfl

theorem Refuses.withMacros (h : Refuses out t r) (macros : List MacroName) : Refuses out t { r with macros } :=
  h.keeps (keeps_withMacros r macros) ⟨h.reading.settled, h.reading.pchf, h.reading.seen⟩
    (searchInv_of_search h.search rfl) (fun _ hb => .inl hb) rfl

/-- **One directive** stacks no file with the text. -/
theorem Refuses.handle (h : Refuses out t r) (directive : Directive)
    (hdistinct : ∀ result, Cpp.handle false out r directive = some result → DistinctFiles out result.1) :
    ∃ result, Cpp.handle false out r directive = some result ∧ Skips out t result := by
  cases directive with
  | «include» type angleBrackets fname =>
      obtain ⟨r', start, hhead, hrefuses, hstarts⟩ := h.searchPathHead fname angleBrackets (handledType r type)
      cases start with
      | none => exact ⟨_, handle_of_step _ (stackInclude_none hhead), hrefuses.skips⟩
      | some d =>
          obtain ⟨l, hstart⟩ := hstarts d rfl
          obtain ⟨file, hfind, hfound, -⟩ := hrefuses.findFile hstart fname
          have hhandle := handle_of_step (.include type angleBrackets fname)
            (stackInclude_some hhead hrefuses.search.wrapperInclude hfind)
          exact ⟨_, hhandle, hrefuses.stackFile hfound hstart (hdistinct _ hhandle).of_entered _⟩
  | pragmaOnce => exact ⟨_, rfl, h.markCurrent.skips⟩
  | pragmaDependency angleBrackets fname =>
      obtain ⟨r', start, hhead, hrefuses, hstarts⟩ := h.searchPathHead fname angleBrackets .include
      have hstep : ∀ {r'' date}, Cpp.compareFileDate false out noPch r fname angleBrackets = some (r'', date) →
          step false out noPch r (.pragmaDependency angleBrackets fname) = some (r'', false) := by
        intro r'' date hdate
        rw [step, hdate]
        rfl
      cases start with
      | none => exact ⟨_, handle_of_step _ (hstep (compareFileDate_none hhead)), hrefuses.skips⟩
      | some d =>
          obtain ⟨l, hstart⟩ := hstarts d rfl
          obtain ⟨file, hfind, -, hadd⟩ := hrefuses.findFile hstart fname
          obtain ⟨date, hdate⟩ := compareFileDate_some hhead hfind
          exact ⟨_, handle_of_step _ (hstep hdate), hadd.skips⟩
  | define m => exact ⟨_, rfl, (h.withMacros _).skips⟩
  | undef m => exact ⟨_, rfl, (h.withMacros _).skips⟩
  | endOfFile => exact ⟨_, rfl, h.popFileBuffer.skips⟩

/-! ## A whole run -/

theorem DistinctAlong.distinctFiles {cache : Bool} {directives : List Directive}
    (h : DistinctAlong cache out r directives) : DistinctFiles out r := by
  cases directives with
  | nil => exact h
  | cons _ _ => exact h.1

theorem DistinctAlong.handle {cache : Bool} {directive : Directive} {directives : List Directive}
    (h : DistinctAlong cache out r (directive :: directives)) :
    ∀ result, Cpp.handle cache out r directive = some result → DistinctFiles out result.1 :=
  fun _ hresult => (h.2 _ _ hresult).distinctFiles

/-- **The rest of the run** stacks no file with the text. -/
theorem Refuses.handleAll {directives : List Directive} (h : Refuses out t r)
    (hdistinct : DistinctAlong false out r directives) :
    ∃ result, Cpp.handleAll false out r directives = some result ∧ Skips out t result := by
  induction directives generalizing r with
  | nil => exact ⟨_, rfl, h.skips⟩
  | cons directive directives ih =>
      obtain ⟨first, hfirst, hrefuses, hskips⟩ := h.handle directive hdistinct.handle
      obtain ⟨later, hlater, hrefuses', hskips'⟩ := ih hrefuses (hdistinct.2 _ _ hfirst)
      refine ⟨(later.1, first.2 ++ later.2), ?_, hrefuses', fun s hs => ?_⟩
      · rw [handleAll_cons hfirst, hlater]
        rfl
      · exact (List.mem_append.mp hs).elim (hskips s) (hskips' s)

end

end Cpp

end GccXml

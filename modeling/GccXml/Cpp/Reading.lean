import GccXml.Cpp.SearchState

namespace GccXml

/-! # `Cpp.Reading` — when a file is stacked

In a file system that does not change, reading a file gives the text that stands at its path, whenever it is read. So
whether `should_stack_file` stacks a file depends on the marks of the files only, and on which of them have its text.

The source keeps a text in a buffer for some time, drops it when the file is left, and reads it again to compare it
with another one. `Settled` is what stays true through all this: what is known of a file agrees with the file system.
Under it `read_file` succeeds exactly if there is a text at the path, and it changes nothing but the reading state,
which `facts` takes out of a file and a reader.

The loop over all files compares only those of the same time and size. In files with the same text these are the same
if the files are at one path, and this is the use of `DistinctFiles`: a file of another path might have the same text
and another time, and the loop would miss it. With it the loop finds a file with the text exactly if there is one, and
`Stackable` puts together what `should_stack_file` asks for. `stackFile_of` and `stackFile_of_not` say what
`_cpp_stack_file` does with the answer. No later module unfolds these functions. -/

namespace Cpp

open Reader

/-- The text at a path that can be opened and read. -/
def textOfPath (out : Outside) (path : Path) : Option Contents :=
  match out.entry path with
  | .file _ contents true => some contents
  | _ => none

/-- The text that reading a file gives: that of its path, if it was opened. -/
def textAt (out : Outside) (file : CppFile) : Option Contents :=
  if file.errNo = .ok then textOfPath out (file.path.getD []) else none

/-- A file without its reading state. -/
def CppFile.facts (file : CppFile) : CppFile :=
  { file with buffer := none, bufferValid := false, dontRead := false, stackCount := 0 }

/-- The reader without the reading state of its files. -/
def Reader.facts (r : Reader) : Reader := { r with files := r.files.map CppFile.facts }

/-- What is known of a file agrees with the file system. No precompiled header was found in its place. -/
structure Settled (out : Outside) (file : CppFile) : Prop where
  pch : file.pch = none
  stat : file.errNo = .ok → ∃ mtime contents readable,
    out.entry (file.path.getD []) = .file mtime contents readable ∧ file.st = ⟨mtime, contents.length⟩
  valid : file.bufferValid = true → (textAt out file).isSome = true ∧ file.buffer = textAt out file
  dontRead : file.dontRead = true → textAt out file = none

/-- **Different paths have different contents.** -/
def DistinctContents (out : Outside) : Prop :=
  ∀ p q mtime mtime' contents, out.entry p = .file mtime contents true → out.entry q = .file mtime' contents true → p = q

/-- **The files that were looked up** have different contents if they are at different paths. -/
def DistinctFiles (out : Outside) (r : Reader) : Prop :=
  ∀ f < r.files.length, ∀ g < r.files.length, ∀ mtime mtime' contents,
    out.entry ((r.file f).path.getD []) = .file mtime contents true →
      out.entry ((r.file g).path.getD []) = .file mtime' contents true →
        (r.file f).path.getD [] = (r.file g).path.getD []

/-! ## Reading one file -/

section

variable {out : Outside} {file file' : CppFile}

theorem textAt_facts (file : CppFile) : textAt out file.facts = textAt out file := rfl

theorem textAt_congr (h : file'.facts = file.facts) : textAt out file' = textAt out file := by
  rw [← textAt_facts file', h, textAt_facts]

theorem textOfPath_eq_some {path : Path} {t : Contents} :
    textOfPath out path = some t ↔ ∃ mtime, out.entry path = .file mtime t true := by
  unfold textOfPath
  constructor
  · intro h
    split at h
    case h_2 => cases h
    case h_1 mtime contents hentry =>
      obtain rfl := Option.some.inj h
      exact ⟨mtime, hentry⟩
  · rintro ⟨mtime, hentry⟩
    rw [hentry]

theorem textOfPath_unreadable {path : Path} {mtime : Int} {contents : Contents}
    (h : out.entry path = .file mtime contents false) : textOfPath out path = none := by
  unfold textOfPath
  rw [h]

theorem textAt_eq_some {t : Contents} :
    textAt out file = some t ↔ file.errNo = .ok ∧ ∃ mtime, out.entry (file.path.getD []) = .file mtime t true := by
  unfold textAt
  constructor
  · intro h
    split at h
    case isFalse => cases h
    case isTrue hok => exact ⟨hok, textOfPath_eq_some.mp h⟩
  · rintro ⟨hok, hentry⟩
    rw [if_pos hok]
    exact textOfPath_eq_some.mpr hentry

theorem Settled.st_eq (h : Settled out file) {t : Contents} (ht : textAt out file = some t) :
    ∃ mtime, out.entry (file.path.getD []) = .file mtime t true ∧ file.st = ⟨mtime, t.length⟩ := by
  obtain ⟨hok, mtime, hentry⟩ := textAt_eq_some.mp ht
  obtain ⟨mtime', contents, readable, hentry', hst⟩ := h.stat hok
  rw [hentry] at hentry'
  obtain ⟨rfl, rfl, -⟩ := Entry.file.inj hentry'
  exact ⟨mtime, hentry, hst⟩

/-- Reading a file that was opened and not read yet. -/
theorem readFile_unread (hvalid : file.bufferValid = false) (hdont : file.dontRead = false) (hok : file.errNo = .ok)
    {mtime : Int} {contents : Contents} {readable : Bool}
    (hentry : out.entry (file.path.getD []) = .file mtime contents readable) :
    readFile out file =
      if readable then
        ({ file with buffer := some contents, bufferValid := true, st := ⟨mtime, contents.length⟩, errNo := .ok }, true)
      else ({ file with dontRead := true, st := ⟨mtime, contents.length⟩, errNo := .ok }, false) := by
  have hopen : openFile out file = ({ file with errNo := .ok, st := ⟨mtime, contents.length⟩ }, true) := by
    unfold openFile
    rw [hentry]
  unfold readFile
  rw [if_neg (by simp [hvalid]), if_neg (by simp [hdont, hok]), hopen]
  cases readable <;> simp [hentry]

/-- **Reading a file** succeeds if there is a text, and changes nothing but the reading state. -/
theorem readFile_spec (h : Settled out file) :
    (readFile out file).2 = (textAt out file).isSome ∧ Settled out (readFile out file).1 ∧
      (readFile out file).1.facts = file.facts ∧
      ((textAt out file).isSome = true → (readFile out file).1.buffer = textAt out file) := by
  by_cases hvalid : file.bufferValid = true
  · obtain ⟨hsome, hbuffer⟩ := h.valid hvalid
    have hread : readFile out file = (file, true) := by rw [readFile, if_pos hvalid]
    rw [hread]
    exact ⟨hsome.symm, h, rfl, fun _ => hbuffer⟩
  by_cases hfail : file.dontRead = true ∨ file.errNo ≠ .ok
  · have hread : readFile out file = (file, false) := by rw [readFile, if_neg hvalid, if_pos hfail]
    have hnone : textAt out file = none := by
      obtain hdont | herr := hfail
      · exact h.dontRead hdont
      · rw [textAt, if_neg herr]
    rw [hread, hnone]
    exact ⟨rfl, h, rfl, nofun⟩
  obtain ⟨hdont, hok⟩ := not_or.mp hfail
  have hok : file.errNo = .ok := not_not.mp hok
  -- not read yet: `read_file` opens the path again and finds what `open_file` found
  obtain ⟨mtime, contents, readable, hentry, hst⟩ := h.stat hok
  have hread := readFile_unread (by simpa using hvalid) (by simpa using hdont) hok hentry
  cases readable with
  | true =>
      have htext : textAt out file = some contents := textAt_eq_some.mpr ⟨hok, mtime, hentry⟩
      rw [if_pos rfl] at hread
      rw [hread, htext]
      have htext' : textAt out { file with
          buffer := some contents, bufferValid := true, st := ⟨mtime, contents.length⟩, errNo := .ok } =
            some contents := textAt_eq_some.mpr ⟨rfl, mtime, hentry⟩
      refine ⟨rfl, ⟨h.pch, fun _ => ⟨mtime, contents, true, hentry, rfl⟩, fun _ => ?_, fun hd => absurd hd hdont⟩, ?_,
        fun _ => rfl⟩
      · rw [htext']
        exact ⟨rfl, rfl⟩
      · simp only [CppFile.facts, hst, hok]
  | false =>
      have htext : textAt out file = none := by rw [textAt, if_pos hok, textOfPath_unreadable hentry]
      rw [if_neg Bool.false_ne_true] at hread
      rw [hread, htext]
      have htext' : textAt out { file with dontRead := true, st := ⟨mtime, contents.length⟩, errNo := .ok } = none := by
        simp only [textAt, if_true, textOfPath_unreadable hentry]
      refine ⟨rfl, ⟨h.pch, fun _ => ⟨mtime, contents, false, hentry, rfl⟩, fun hv => absurd hv hvalid, fun _ => htext'⟩,
        ?_, nofun⟩
      simp only [CppFile.facts, hst, hok]

end

/-! ## The files of a reader -/

/-- Every file agrees with the file system. -/
def AllSettled (out : Outside) (r : Reader) : Prop := ∀ f < r.files.length, Settled out (r.file f)

section

variable {out : Outside} {r r' : Reader} {f g : Nat} {file : CppFile}

theorem length_facts (h : r'.facts = r.facts) : r'.files.length = r.files.length := by
  have hlen := congrArg (fun r : Reader => r.files.length) h
  simpa [Reader.facts] using hlen

theorem file_facts (h : r'.facts = r.facts) (g : Nat) : (r'.file g).facts = (r.file g).facts := by
  have hfile : ∀ r : Reader, (r.file g).facts = r.facts.file g := by
    intro r
    simp only [Reader.file, Reader.facts, List.getD_eq_getElem?_getD, List.getElem?_map]
    cases r.files[g]? <;> rfl
  rw [hfile, hfile, h]

/-- The paths decide. -/
theorem DistinctFiles.of_path (h : DistinctFiles out r) (hlength : r'.files.length = r.files.length)
    (hpath : ∀ f, (r'.file f).path = (r.file f).path) : DistinctFiles out r' := by
  intro f hf g hg
  rw [hpath, hpath]
  exact h f (hlength ▸ hf) g (hlength ▸ hg)

theorem DistinctContents.distinctFiles (h : DistinctContents out) (r : Reader) : DistinctFiles out r :=
  fun _ _ _ _ _ _ _ hf hg => h _ _ _ _ _ hf hg

theorem distinctFiles_of_length (h : r.files.length ≤ 1) : DistinctFiles out r := by
  intro f hf g hg _ _ _ _ _
  obtain rfl : f = g := by omega
  rfl

theorem DistinctFiles.of_facts (h : DistinctFiles out r) (hfacts : r'.facts = r.facts) : DistinctFiles out r' := by
  refine h.of_path (length_facts hfacts) fun f => ?_
  have hpath := congrArg CppFile.path (file_facts hfacts f)
  exact hpath

theorem DistinctFiles.of_search (h : DistinctFiles out r) (hsearch : r'.search = r.search) : DistinctFiles out r' := by
  refine h.of_path (length_of_search hsearch) fun f => ?_
  have hplace : (r'.file f).place = (r.file f).place := by rw [place_file, place_file, hsearch]
  exact congrArg Place.path hplace

theorem facts_setFile (h : file.facts = (r.file f).facts) : (r.setFile f file).facts = r.facts := by
  have hfiles : (r.files.set f file).map CppFile.facts = r.files.map CppFile.facts := by
    apply List.ext_getElem?
    intro i
    rw [List.getElem?_map, List.getElem?_map, List.getElem?_set]
    split
    case isFalse => rfl
    case isTrue hi =>
      subst hi
      split
      case isTrue hlt =>
        have hget : r.file f = r.files[f] := by simp [Reader.file, List.getD_eq_getElem?_getD, hlt]
        rw [List.getElem?_eq_getElem hlt, Option.map_some, Option.map_some, h, hget]
      case isFalse hlt => rw [List.getElem?_eq_none (Nat.le_of_not_lt hlt)]
  simp only [Reader.facts, setFile, hfiles]

theorem facts_setFile_congr {file' : CppFile} (h : file.facts = file'.facts) :
    (r.setFile f file).facts = (r.setFile f file').facts := by
  simp only [Reader.facts, setFile, List.map_set, h]

theorem AllSettled.setFile (h : AllSettled out r) (hfile : Settled out file) : AllSettled out (r.setFile f file) := by
  intro g hg
  rw [length_setFile] at hg
  by_cases hgf : g = f
  · subst hgf
    rw [file_setFile_self hg]
    exact hfile
  · rw [file_setFile_ne hgf]
    exact h g hg

theorem AllSettled.addFile (h : AllSettled out r) (hfile : Settled out file) : AllSettled out (r.addFile file) := by
  intro g hg
  rw [length_addFile] at hg
  obtain hlt | rfl := Nat.lt_succ_iff_lt_or_eq.mp hg
  · rw [file_addFile_lt hlt]
    exact h g hlt
  · rw [file_addFile_self]
    exact hfile

/-- Marks do not matter. -/
theorem Settled.congr (h : Settled out file) {file' : CppFile} (hpch : file'.pch = file.pch)
    (herr : file'.errNo = file.errNo) (hpath : file'.path = file.path) (hst : file'.st = file.st)
    (hbuffer : file'.bufferValid = true → file.bufferValid = true ∧ file'.buffer = file.buffer)
    (hdont : file'.dontRead = file.dontRead) : Settled out file' := by
  have htext : textAt out file' = textAt out file := by simp only [textAt, herr, hpath]
  refine ⟨hpch.trans h.pch, ?_, ?_, ?_⟩
  · rw [herr, hpath, hst]
    exact h.stat
  · intro hv
    obtain ⟨hv', hb⟩ := hbuffer hv
    rw [htext, hb]
    exact h.valid hv'
  · rw [htext, hdont]
    exact h.dontRead

end

/-! ## Comparing with the other files -/

section

variable {out : Outside} {r : Reader} {f g : Nat}

/-- What comparing with the file `g` reads, and leaves behind. -/
theorem readRefFile_spec (h : AllSettled out r) (hg : g < r.files.length) (hok : (r.file g).errNo = .ok) :
    (readRefFile out r g).1.facts = r.facts ∧ AllSettled out (readRefFile out r g).1 ∧
      (∀ f, f ≠ g → (readRefFile out r g).1.file f = r.file f) ∧
      (readRefFile out r g).2.2 = (textAt out (r.file g)).isSome ∧
      ∀ t, textAt out (r.file g) = some t →
        (readRefFile out r g).2.1.buffer = some t ∧ (readRefFile out r g).2.1.st.size = t.length := by
  unfold readRefFile
  dsimp only
  split
  case isTrue =>
    -- the file's text is not kept, so it is read into a file of its own
    obtain ⟨mtime, contents, readable, hentry, -⟩ := (h g hg).stat hok
    have hread := @readFile_unread out { name := (r.file g).name, dir := (r.file g).dir, path := (r.file g).path } rfl rfl
      rfl _ _ _ hentry
    refine ⟨rfl, h, fun _ _ => rfl, ?_⟩
    dsimp only
    rw [hread]
    cases readable with
    | true =>
        have htext : textAt out (r.file g) = some contents := textAt_eq_some.mpr ⟨hok, mtime, hentry⟩
        rw [htext]
        refine ⟨rfl, fun t ht => ?_⟩
        obtain rfl := Option.some.inj ht
        exact ⟨rfl, rfl⟩
    | false =>
        have htext : textAt out (r.file g) = none := by rw [textAt, if_pos hok, textOfPath_unreadable hentry]
        rw [htext]
        exact ⟨rfl, nofun⟩
  case isFalse =>
    -- the text is still there and `read_file` returns at once
    obtain ⟨hread, hsettled, hfacts, hbuffer⟩ := readFile_spec (h g hg)
    refine ⟨facts_setFile hfacts, h.setFile hsettled, fun f hf => file_setFile_ne hf, hread, fun t ht => ?_⟩
    have ht' : textAt out (readFile out (r.file g)).1 = some t := (textAt_congr hfacts).trans ht
    obtain ⟨mtime, -, hst⟩ := hsettled.st_eq ht'
    refine ⟨(hbuffer (by rw [ht]; rfl)).trans ht, ?_⟩
    dsimp only
    rw [hst]

/-- Another file with the same text that counts in the comparison. -/
def SeenIn (out : Outside) (r : Reader) (f : Nat) (import_ : Bool) (files : List Nat) : Prop :=
  ∃ g ∈ files, g ≠ f ∧ (import_ = true ∨ (r.file g).onceOnly = true) ∧ textAt out (r.file g) = textAt out (r.file f)

theorem seenIn_congr {r' : Reader} (h : r'.facts = r.facts) (f : Nat) (import_ : Bool) (files : List Nat) :
    SeenIn out r' f import_ files ↔ SeenIn out r f import_ files := by
  have hfile := file_facts h
  have honce : ∀ g, (r'.file g).onceOnly = (r.file g).onceOnly := by
    intro g
    have hmark := congrArg CppFile.onceOnly (hfile g)
    exact hmark
  have htext : ∀ g, textAt out (r'.file g) = textAt out (r.file g) := fun g => textAt_congr (hfile g)
  unfold SeenIn
  simp only [honce, htext]

theorem seenIn_cons (f : Nat) (import_ : Bool) (g : Nat) (files : List Nat) :
    SeenIn out r f import_ (g :: files) ↔
      (g ≠ f ∧ (import_ = true ∨ (r.file g).onceOnly = true) ∧ textAt out (r.file g) = textAt out (r.file f)) ∨
        SeenIn out r f import_ files := by
  simp only [SeenIn, List.mem_cons, exists_eq_or_imp]

/-- Files with the same text have the same status. -/
theorem isCandidate_of_same_text (hdistinct : DistinctFiles out r) (h : AllSettled out r) (hf : f < r.files.length)
    (hg : g < r.files.length) {t : Contents} (ht : textAt out (r.file f) = some t) (ht' : textAt out (r.file g) = some t)
    {import_ : Bool} (hmark : import_ = true ∨ (r.file g).onceOnly = true) :
    isCandidate (r.file f) (r.file g) import_ = true := by
  obtain ⟨mtime, hentry, hst⟩ := (h f hf).st_eq ht
  obtain ⟨mtime', hentry', hst'⟩ := (h g hg).st_eq ht'
  have hpath := hdistinct f hf g hg _ _ _ hentry hentry'
  rw [hpath, hentry'] at hentry
  obtain ⟨rfl, -, -⟩ := Entry.file.inj hentry
  simp [isCandidate, hmark, (textAt_eq_some.mp ht').1, hst, hst']

/-- **The loop over all files** finds another one with the same text. -/
theorem sameFileSeen_spec (hdistinct : DistinctFiles out r) (import_ : Bool) {t : Contents} (files : List Nat)
    (h : AllSettled out r) (hf : f < r.files.length) (hfiles : ∀ g ∈ files, g < r.files.length)
    (ht : textAt out (r.file f) = some t) (hbuffer : (r.file f).buffer = some t) :
    (sameFileSeen out f import_ files r).1.facts = r.facts ∧ AllSettled out (sameFileSeen out f import_ files r).1 ∧
      (sameFileSeen out f import_ files r).1.file f = r.file f ∧
      ((sameFileSeen out f import_ files r).2 = true ↔ SeenIn out r f import_ files) := by
  induction files generalizing r with
  | nil => exact ⟨rfl, h, rfl, by simp [sameFileSeen, SeenIn]⟩
  | cons g files ih =>
      rw [List.forall_mem_cons] at hfiles
      rw [seenIn_cons, sameFileSeen]
      by_cases hgf : g = f
      · rw [if_pos hgf]
        -- the file itself is skipped, as in the source
        obtain ⟨hfacts, hsettled, hfile, hseen⟩ := ih hdistinct h hf hfiles.2 ht hbuffer
        exact ⟨hfacts, hsettled, hfile, hseen.trans (by simp [hgf])⟩
      rw [if_neg hgf]
      split
      case isFalse hno =>
        obtain ⟨hfacts, hsettled, hfile, hseen⟩ := ih hdistinct h hf hfiles.2 ht hbuffer
        -- no candidate by date and size, so no file of the same text either: one text has one date
        refine ⟨hfacts, hsettled, hfile, hseen.trans (or_iff_right fun hsame => hno ?_).symm⟩
        exact isCandidate_of_same_text hdistinct h hf hfiles.1 ht (hsame.2.2.trans ht) hsame.2.1
      case isTrue hcandidate =>
        simp only [isCandidate, Bool.and_eq_true, Bool.or_eq_true, decide_eq_true_eq] at hcandidate
        obtain ⟨⟨⟨hmark, hok⟩, -⟩, -⟩ := hcandidate
        obtain ⟨hfacts, hsettled, hother, hread, hbuffer'⟩ := readRefFile_spec h hfiles.1 hok
        obtain ⟨mtime, -, hst⟩ := (h f hf).st_eq ht
        dsimp only
        split
        case isTrue hsame =>
          obtain ⟨hreadable, -, hequal⟩ := hsame
          rw [hread] at hreadable
          obtain ⟨t', ht'⟩ := Option.isSome_iff_exists.mp hreadable
          rw [(hbuffer' t' ht').1, hbuffer] at hequal
          refine ⟨hfacts, hsettled, hother f (Ne.symm hgf), iff_of_true rfl (.inl ⟨hgf, hmark, ?_⟩)⟩
          rw [ht', ht, hequal]
        case isFalse hdiffer =>
          have hlength := length_facts hfacts
          have hfile := hother f (Ne.symm hgf)
          obtain ⟨hfacts', hsettled', hfile', hseen⟩ :=
            ih (hdistinct.of_facts hfacts) hsettled (hlength ▸ hf) (hlength ▸ hfiles.2) (hfile ▸ ht) (hfile ▸ hbuffer)
          refine ⟨hfacts'.trans hfacts, hsettled', hfile'.trans hfile, ?_⟩
          rw [hseen, seenIn_congr hfacts]
          -- a file of the same text would have been read and have compared equal
          refine (or_iff_right fun hsame => hdiffer ?_).symm
          have hg := hsame.2.2.trans ht
          obtain ⟨hbuf, hsize⟩ := hbuffer' t hg
          exact ⟨by rw [hread, hg]; rfl, by rw [hsize, hst], by rw [hbuf, hbuffer]⟩

end

/-! ## Whether a file is stacked -/

/-- No precompiled header is used, the files agree with the file system, and a mark was noticed. -/
structure ReadingInv (out : Outside) (r : Reader) : Prop where
  settled : AllSettled out r
  pchf : r.pchf = none
  seen : ∀ f < r.files.length, (r.file f).onceOnly = true → r.seenOnceOnly = true

/-- What `should_stack_file` asks of a file. -/
structure Stackable (out : Outside) (r : Reader) (f : Nat) (import_ : Bool) : Prop where
  readable : (textAt out (r.file f)).isSome = true
  notOnce : (r.file f).onceOnly = false
  notStacked : import_ = true → (r.file f).stackCount = 0
  notGuarded : ∀ m, (r.file f).cmacroName = some m → m ∉ r.macros
  unseen : ¬ ∃ g < r.files.length, g ≠ f ∧ (import_ = true ∨ (r.file g).onceOnly = true) ∧
    textAt out (r.file g) = textAt out (r.file f)

/-- The file is marked if it is imported. -/
def markImported (r : Reader) (f : Nat) (import_ : Bool) : Reader := if import_ then markFileOnceOnly r f else r

section

variable {out : Outside} {r r' : Reader} {f : Nat} {import_ : Bool}

theorem seenIn_allFiles (r : Reader) (f : Nat) (import_ : Bool) :
    SeenIn out r f import_ r.allFiles ↔ ∃ g < r.files.length, g ≠ f ∧
      (import_ = true ∨ (r.file g).onceOnly = true) ∧ textAt out (r.file g) = textAt out (r.file f) := by
  simp only [SeenIn, allFiles, List.mem_reverse, List.mem_range]

theorem file_markFileOnceOnly_self (hf : f < r.files.length) :
    (markFileOnceOnly r f).file f = { r.file f with onceOnly := true } := file_setFile_self hf

theorem file_markFileOnceOnly_ne {g : Nat} (hg : g ≠ f) : (markFileOnceOnly r f).file g = r.file g :=
  file_setFile_ne hg

theorem ReadingInv.setFile {file : CppFile} (h : ReadingInv out r) (hfile : Settled out file)
    (honce : file.onceOnly = (r.file f).onceOnly) : ReadingInv out (r.setFile f file) where
  settled := h.settled.setFile hfile
  pchf := h.pchf
  seen g hg hmark := by
    rw [length_setFile] at hg
    refine h.seen g hg ?_
    by_cases hgf : g = f
    · subst hgf
      rw [file_setFile_self hg] at hmark
      exact honce.symm.trans hmark
    · rw [file_setFile_ne hgf] at hmark
      exact hmark

theorem ReadingInv.markFileOnceOnly (h : ReadingInv out r) (hf : f < r.files.length) :
    ReadingInv out (Cpp.markFileOnceOnly r f) where
  settled := h.settled.setFile ((h.settled f hf).congr rfl rfl rfl rfl (fun hv => ⟨hv, rfl⟩) rfl)
  pchf := h.pchf
  seen _ _ _ := rfl

theorem ReadingInv.markImported (h : ReadingInv out r) (hf : f < r.files.length) (import_ : Bool) :
    ReadingInv out (Cpp.markImported r f import_) := by
  unfold Cpp.markImported
  split
  · exact h.markFileOnceOnly hf
  · exact h

theorem ReadingInv.of_facts (h : ReadingInv out r) (hfacts : r'.facts = r.facts) (hsettled : AllSettled out r') :
    ReadingInv out r' where
  settled := hsettled
  pchf := by
    have hpchf := congrArg Reader.pchf hfacts
    exact hpchf.trans h.pchf
  seen f hf honce := by
    have hseen := congrArg Reader.seenOnceOnly hfacts
    have hmark := congrArg CppFile.onceOnly (file_facts hfacts f)
    exact hseen.trans (h.seen f (length_facts hfacts ▸ hf) (hmark.symm.trans honce))

/-- A file that is marked already is not changed by a mark. -/
theorem facts_markImported_of_onceOnly (h : ReadingInv out r) (hf : f < r.files.length)
    (honce : (r.file f).onceOnly = true) : (markImported r f import_).facts = r.facts := by
  unfold markImported
  split
  case isFalse => rfl
  case isTrue =>
    have hset : (r.setFile f { r.file f with onceOnly := true }).facts = r.facts := by
      refine facts_setFile ?_
      simp only [CppFile.facts, honce]
    have hseen := h.seen f hf honce
    have hfacts : (markFileOnceOnly r f).facts =
        { (r.setFile f { r.file f with onceOnly := true }).facts with seenOnceOnly := true } := rfl
    rw [hfacts, hset, ← hseen]
    rfl

/-- Marking a file leaves its text and the others' marks alone. -/
theorem seenIn_markImported (hf : f < r.files.length) (files : List Nat) :
    SeenIn out (markImported r f import_) f import_ files ↔ SeenIn out r f import_ files := by
  unfold markImported
  split
  case isFalse => rfl
  case isTrue =>
    have htext : ∀ g, textAt out ((markFileOnceOnly r f).file g) = textAt out (r.file g) := by
      intro g
      by_cases hg : g = f
      · rw [hg, file_markFileOnceOnly_self hf]
        rfl
      · rw [file_markFileOnceOnly_ne hg]
    unfold SeenIn
    simp only [htext]
    constructor
    · rintro ⟨g, hmem, hg, hmark, hsame⟩
      exact ⟨g, hmem, hg, file_markFileOnceOnly_ne (r := r) hg ▸ hmark, hsame⟩
    · rintro ⟨g, hmem, hg, hmark, hsame⟩
      exact ⟨g, hmem, hg, (file_markFileOnceOnly_ne (r := r) hg).symm ▸ hmark, hsame⟩

theorem search_markImported : (markImported r f import_).search = r.search := by
  unfold markImported
  split
  · exact search_markFileOnceOnly
  · rfl

theorem file_markImported (hf : f < r.files.length) :
    (markImported r f import_).file f = { r.file f with onceOnly := (r.file f).onceOnly || import_ } := by
  unfold markImported
  cases import_ with
  | true =>
      rw [if_pos rfl, file_markFileOnceOnly_self hf, Bool.or_true]
  | false =>
      rw [if_neg Bool.false_ne_true, Bool.or_false]

theorem markImported_spec :
    (markImported r f import_).files.length = r.files.length ∧ (markImported r f import_).macros = r.macros ∧
      (markImported r f import_).allFiles = r.allFiles := by
  have hlength : (markImported r f import_).files.length = r.files.length := by
    unfold markImported
    split
    · exact length_setFile
    · rfl
  refine ⟨hlength, ?_, by rw [allFiles, allFiles, hlength]⟩
  unfold markImported
  split <;> rfl

/-! ### Reading and comparing -/

/-- The part of `should_stack_file` behind the tests of the file's marks: the text is read and compared. -/
def comparesText (out : Outside) (r : Reader) (f : Nat) (import_ : Bool) : Reader × Bool :=
  let (file, read) := readFile out (r.file f)
  let r := r.setFile f file
  if ¬ read then (r, false)
  else if checkFileAgainstEntries out r file import_ then (if import_ then r else markFileOnceOnly r f, false)
  else if ¬ r.seenOnceOnly then (r, true)
  else
    let (r, seen) := sameFileSeen out f import_ r.allFiles r
    (r, ¬ seen)

theorem comparesText_unreadable (hread : (readFile out (r.file f)).2 = false) :
    comparesText out r f import_ = (r.setFile f (readFile out (r.file f)).1, false) := by
  unfold comparesText
  dsimp only
  rw [hread, if_pos (by simp)]

/-- A text that was read is compared if a mark was noticed. -/
theorem comparesText_readable (hread : (readFile out (r.file f)).2 = true) (hpchf : r.pchf = none) :
    comparesText out r f import_ =
      if r.seenOnceOnly = true then
        ((sameFileSeen out f import_ r.allFiles (r.setFile f (readFile out (r.file f)).1)).1,
          decide ¬ (sameFileSeen out f import_ r.allFiles (r.setFile f (readFile out (r.file f)).1)).2 = true)
      else (r.setFile f (readFile out (r.file f)).1, true) := by
  have hcheck : ∀ file, checkFileAgainstEntries out (r.setFile f file) file import_ = false := by
    intro file
    have hnone : (r.setFile f file).pchf = none := hpchf
    rw [checkFileAgainstEntries, hnone]
  have hnoticed : ∀ file, (r.setFile f file).seenOnceOnly = r.seenOnceOnly := fun _ => rfl
  have hall : ∀ file, (r.setFile f file).allFiles = r.allFiles := by
    intro file
    rw [allFiles, allFiles, length_setFile]
  unfold comparesText
  dsimp only
  rw [hread, if_neg (by simp), hcheck, if_neg Bool.false_ne_true, hnoticed, hall]
  by_cases hseen : r.seenOnceOnly = true
  · rw [if_neg (not_not.mpr hseen), if_pos hseen]
  · rw [if_pos hseen, if_neg hseen]

/-- Reading the file before the comparison. -/
theorem setFile_readFile_spec (h : ReadingInv out r) (hf : f < r.files.length) :
    ReadingInv out (r.setFile f (readFile out (r.file f)).1) ∧
      (r.setFile f (readFile out (r.file f)).1).facts = r.facts ∧
      ∀ t, textAt out (r.file f) = some t →
        ((r.setFile f (readFile out (r.file f)).1).file f).buffer = some t ∧
          textAt out ((r.setFile f (readFile out (r.file f)).1).file f) = some t := by
  obtain ⟨-, hsettled, hfacts, hbuffer⟩ := readFile_spec (h.settled f hf)
  refine ⟨h.of_facts (facts_setFile hfacts) (h.settled.setFile hsettled), facts_setFile hfacts, fun t ht => ?_⟩
  rw [file_setFile_self hf, textAt_congr hfacts, ht]
  exact ⟨(hbuffer (by rw [ht]; rfl)).trans ht, rfl⟩

/-- **The comparison** tells whether the file can be read and no other file has its text. -/
theorem comparesText_spec (hdistinct : DistinctFiles out r) (h : ReadingInv out r) (hf : f < r.files.length)
    (hmark : import_ = true → (r.file f).onceOnly = true) :
    ((comparesText out r f import_).2 = true ↔
        (textAt out (r.file f)).isSome = true ∧ ¬ SeenIn out r f import_ r.allFiles) ∧
      ReadingInv out (comparesText out r f import_).1 ∧ (comparesText out r f import_).1.facts = r.facts ∧
      ((comparesText out r f import_).2 = true →
        ((comparesText out r f import_).1.file f).buffer = textAt out (r.file f)) := by
  have hread := (readFile_spec (h.settled f hf)).1
  obtain ⟨hinv, hfacts, htext⟩ := setFile_readFile_spec h hf
  cases ht : textAt out (r.file f) with
  | none =>
      rw [ht] at hread
      rw [comparesText_unreadable hread]
      refine ⟨iff_of_false Bool.false_ne_true ?_, hinv, hfacts, nofun⟩
      rintro ⟨hsome, -⟩
      cases hsome
  | some t =>
      rw [ht] at hread
      rw [comparesText_readable hread h.pchf]
      obtain ⟨hbuffer, ht'⟩ := htext t ht
      by_cases hnoticed : r.seenOnceOnly = true
      · rw [if_pos hnoticed]
        have hseen := @seenIn_congr out r _ hfacts f import_ r.allFiles
        rw [← @length_setFile r f (readFile out (r.file f)).1] at hf
        obtain ⟨hfacts', hsettled', hfile', hseen'⟩ := sameFileSeen_spec (hdistinct.of_facts hfacts) import_ r.allFiles hinv.settled hf
          (fun g hg => by simpa [allFiles] using hg) ht' hbuffer
        refine ⟨?_, hinv.of_facts hfacts' hsettled', hfacts'.trans hfacts, fun _ => by rw [hfile', hbuffer]⟩
        rw [decide_eq_true_eq, hseen', hseen]
        exact (and_iff_right rfl).symm
      · -- no file is marked, so there is nothing to compare with
        rw [if_neg hnoticed]
        refine ⟨iff_of_true rfl ⟨rfl, ?_⟩, hinv, hfacts, fun _ => hbuffer⟩
        rintro ⟨g, hg, -, himport | honce, -⟩
        · exact hnoticed (h.seen f hf (hmark himport))
        · exact hnoticed (h.seen g (by simpa [allFiles] using hg) honce)

/-- Without its marks a file is decided about by its text. -/
theorem shouldStackFile_compares (honce : ¬ (r.file f).onceOnly = true)
    (hstacked : ¬ (import_ = true ∧ ((markImported r f import_).file f).stackCount ≠ 0))
    (hguarded : ¬ ∃ m ∈ ((markImported r f import_).file f).cmacroName, m ∈ (markImported r f import_).macros)
    (hpch : ((markImported r f import_).file f).pch = none) :
    shouldStackFile out r f import_ = comparesText out (markImported r f import_) f import_ := by
  unfold shouldStackFile
  rw [if_neg honce]
  dsimp only
  rw [show (if import_ = true then markFileOnceOnly r f else r) = markImported r f import_ from rfl, if_neg hstacked,
    if_neg hguarded, hpch]
  rfl

/-- A file whose mark, count or guard says so is not stacked. -/
theorem shouldStackFile_marked (hno : (r.file f).onceOnly = true ∨
    (import_ = true ∧ ((markImported r f import_).file f).stackCount ≠ 0) ∨
      ∃ m ∈ ((markImported r f import_).file f).cmacroName, m ∈ (markImported r f import_).macros) :
    shouldStackFile out r f import_ =
      (if (r.file f).onceOnly = true then r else markImported r f import_, false) := by
  unfold shouldStackFile
  by_cases honce : (r.file f).onceOnly = true
  · rw [if_pos honce, if_pos honce]
  · rw [if_neg honce, if_neg honce]
    dsimp only
    rw [show (if import_ = true then markFileOnceOnly r f else r) = markImported r f import_ from rfl]
    by_cases hstacked : import_ = true ∧ ((markImported r f import_).file f).stackCount ≠ 0
    · rw [if_pos hstacked]
    · rw [if_neg hstacked, if_pos ((hno.resolve_left honce).resolve_left hstacked)]

/-- **`should_stack_file`** without precompiled headers. -/
theorem shouldStackFile_spec (hdistinct : DistinctFiles out r) (h : ReadingInv out r) (hf : f < r.files.length)
    (import_ : Bool) :
    ((shouldStackFile out r f import_).2 = true ↔ Stackable out r f import_) ∧
      ReadingInv out (shouldStackFile out r f import_).1 ∧
      (shouldStackFile out r f import_).1.facts = (markImported r f import_).facts ∧
      ((shouldStackFile out r f import_).2 = true →
        ((shouldStackFile out r f import_).1.file f).buffer = textAt out (r.file f)) := by
  obtain ⟨hlength, hmacros, hall⟩ := @markImported_spec r f import_
  have hinv := h.markImported hf import_
  have hfile := @file_markImported r f import_ hf
  have hcount : ((markImported r f import_).file f).stackCount = (r.file f).stackCount := by rw [hfile]
  have hguard : ((markImported r f import_).file f).cmacroName = (r.file f).cmacroName := by rw [hfile]
  have htext : textAt out ((markImported r f import_).file f) = textAt out (r.file f) := by
    rw [hfile]
    rfl
  by_cases hno : (r.file f).onceOnly = true ∨
    (import_ = true ∧ ((markImported r f import_).file f).stackCount ≠ 0) ∨
      ∃ m ∈ ((markImported r f import_).file f).cmacroName, m ∈ (markImported r f import_).macros
  · -- one of the three early returns: each contradicts one field of `Stackable`
    rw [shouldStackFile_marked hno]
    refine ⟨iff_of_false Bool.false_ne_true fun hs => ?_, ?_, ?_, nofun⟩
    · rw [hcount, hguard, hmacros] at hno
      obtain honce | ⟨himport, hstacked⟩ | ⟨m, hm, hdefined⟩ := hno
      · cases honce.symm.trans hs.notOnce
      · exact hstacked (hs.notStacked himport)
      · exact hs.notGuarded m hm hdefined
    · by_cases honce : (r.file f).onceOnly = true
      · rw [if_pos honce]
        exact h
      · rw [if_neg honce]
        exact hinv
    · by_cases honce : (r.file f).onceOnly = true
      · rw [if_pos honce, facts_markImported_of_onceOnly h hf honce]
      · rw [if_neg honce]
  · obtain ⟨honce, hrest⟩ := not_or.mp hno
    obtain ⟨hstacked, hguarded⟩ := not_or.mp hrest
    have hlt : f < (markImported r f import_).files.length := hlength.symm ▸ hf
    have hmark : import_ = true → ((markImported r f import_).file f).onceOnly = true := by
      rintro rfl
      rw [hfile]
      exact Bool.or_true _
    -- none of them holds, and the comparison with the other files decides
    rw [shouldStackFile_compares honce hstacked hguarded (hinv.settled f hlt).pch]
    obtain ⟨hresult, hinv', hfacts, hbuffer⟩ := comparesText_spec (hdistinct.of_search search_markImported) hinv
      hlt hmark
    rw [htext, hall, seenIn_markImported hf, seenIn_allFiles] at hresult
    rw [htext] at hbuffer
    refine ⟨hresult.trans ⟨?_, fun hs => ⟨hs.readable, hs.unseen⟩⟩, hinv', hfacts, hbuffer⟩
    rw [hcount] at hstacked
    rw [hguard, hmacros] at hguarded
    rintro ⟨hreadable, hunseen⟩
    refine ⟨hreadable, Bool.eq_false_iff.mpr honce, fun himport => ?_, fun m hm hdefined => ?_, hunseen⟩
    · exact not_not.mp fun hne => hstacked ⟨himport, hne⟩
    · exact hguarded ⟨m, hm, hdefined⟩

/-- The `sysp` that `_cpp_stack_file` gives to the buffer of the file. -/
def stackSysp (r : Reader) (f : Nat) : Nat :=
  match r.buffers, (r.file f).dir with
  | buffer :: _, some dir => max buffer.sysp (r.dir dir).sysp
  | _, _ => 0

theorem dir_file_of_search (h : r'.search = r.search) (f : Nat) : (r'.file f).dir = (r.file f).dir := by
  have hplace : (r'.file f).place = (r.file f).place := by rw [place_file, place_file, h]
  exact congrArg Place.dir hplace

theorem stackSysp_congr (hsearch : r'.search = r.search) (hbuffers : r'.buffers = r.buffers) (f : Nat) :
    stackSysp r' f = stackSysp r f := by
  unfold stackSysp
  rw [hbuffers, dir_file_of_search hsearch, dir_congr hsearch]

/-- **`_cpp_stack_file`** does not stack the file: it is marked if it is imported, and nothing else changes. -/
theorem stackFile_of_not (hdistinct : DistinctFiles out r) (h : ReadingInv out r) (hf : f < r.files.length)
    (hno : ¬ Stackable out r f import_) :
    ∃ r', stackFile out r f import_ = (r', false) ∧ ReadingInv out r' ∧
      r'.facts = (markImported r f import_).facts := by
  obtain ⟨hshould, hinv, hfacts, -⟩ := shouldStackFile_spec hdistinct h hf import_
  have hfalse : (shouldStackFile out r f import_).2 = false := Bool.eq_false_iff.mpr fun ht => hno (hshould.mp ht)
  refine ⟨_, ?_, hinv, hfacts⟩
  unfold stackFile
  dsimp only
  rw [hfalse, if_pos Bool.false_ne_true]

/-- **`_cpp_stack_file`** stacks the file: its text is pushed. -/
theorem stackFile_of (hdistinct : DistinctFiles out r) (h : ReadingInv out r) (hf : f < r.files.length)
    (hyes : Stackable out r f import_) {t : Contents} (ht : textAt out (r.file f) = some t) :
    ∃ r', stackFile out r f import_ = (r', true) ∧ ReadingInv out r' ∧
      r'.facts = { (markImported r f import_).facts with buffers := ⟨f, stackSysp r f, t⟩ :: r.buffers } := by
  obtain ⟨hshould, hinv, hfacts, hbuffer⟩ := shouldStackFile_spec hdistinct h hf import_
  have htrue : (shouldStackFile out r f import_).2 = true := hshould.mpr hyes
  have hbuf := hbuffer htrue
  have hsearch := @search_shouldStackFile out r f import_
  have hbuffers : (shouldStackFile out r f import_).1.buffers = r.buffers := by
    have hkept := congrArg Reader.buffers hfacts
    refine hkept.trans ?_
    unfold markImported
    split <;> rfl
  have hsysp := stackSysp_congr hsearch hbuffers f
  have hlength : (shouldStackFile out r f import_).1.files.length = r.files.length :=
    (length_facts hfacts).trans markImported_spec.1
  have htext : (((shouldStackFile out r f import_).1.file f).buffer.getD []) = t := by rw [hbuf, ht, Option.getD_some]
  -- what `stack_file` does after the checks: it counts, and hands the text to the new buffer
  have hresult : stackFile out r f import_ = ({ (shouldStackFile out r f import_).1.setFile f
      { (shouldStackFile out r f import_).1.file f with
        bufferValid := false
        stackCount := (((shouldStackFile out r f import_).1.file f).stackCount + 1) % 65536 } with
      buffers := ⟨f, stackSysp r f, t⟩ :: r.buffers }, true) := by
    rw [← hsysp, ← htext, ← hbuffers]
    unfold stackFile
    dsimp only
    rw [htrue, if_neg (not_not.mpr rfl)]
    rfl
  rw [hresult]
  generalize (shouldStackFile out r f import_).1 = r₁ at *
  rw [← hlength] at hf
  have hset : (r₁.setFile f { r₁.file f with
      bufferValid := false, stackCount := ((r₁.file f).stackCount + 1) % 65536 }).facts = r₁.facts := facts_setFile rfl
  have hfile : Settled out { r₁.file f with
      bufferValid := false, stackCount := ((r₁.file f).stackCount + 1) % 65536 } :=
    (hinv.settled f hf).congr rfl rfl rfl rfl nofun rfl
  have hinv₂ := hinv.of_facts hset (hinv.settled.setFile hfile)
  refine ⟨_, rfl, ⟨hinv₂.settled, hinv₂.pchf, hinv₂.seen⟩, ?_⟩
  rw [← hfacts, ← hset]
  rfl

/-- Leaving a file gives it the guard of its text. -/
theorem popFileBuffer_spec (h : ReadingInv out r) {buffer : Buffer} {buffers : List Buffer}
    (hbuffers : r.buffers = buffer :: buffers) (hf : buffer.file < r.files.length) :
    ReadingInv out (popFileBuffer out r) ∧
      (popFileBuffer out r).facts =
        { (r.setFile buffer.file { r.file buffer.file with
            cmacroName := if (r.file buffer.file).cmacroName = none then out.guard buffer.text
              else (r.file buffer.file).cmacroName }).facts with buffers } := by
  have hpop : popFileBuffer out r = { r.setFile buffer.file { r.file buffer.file with
      cmacroName := if (r.file buffer.file).cmacroName = none then out.guard buffer.text
        else (r.file buffer.file).cmacroName
      buffer := none
      bufferValid := false } with buffers } := by
    unfold popFileBuffer
    rw [hbuffers]
  have hfile : Settled out { r.file buffer.file with
      cmacroName := if (r.file buffer.file).cmacroName = none then out.guard buffer.text
        else (r.file buffer.file).cmacroName
      buffer := none
      bufferValid := false } := (h.settled buffer.file hf).congr rfl rfl rfl rfl nofun rfl
  have hset := h.setFile hfile rfl (f := buffer.file)
  rw [hpop]
  refine ⟨⟨hset.settled, hset.pchf, hset.seen⟩, ?_⟩
  have hfacts := @facts_setFile_congr r buffer.file { r.file buffer.file with
    cmacroName := if (r.file buffer.file).cmacroName = none then out.guard buffer.text
      else (r.file buffer.file).cmacroName
    buffer := none
    bufferValid := false } { r.file buffer.file with
    cmacroName := if (r.file buffer.file).cmacroName = none then out.guard buffer.text
      else (r.file buffer.file).cmacroName } rfl
  rw [← hfacts]
  rfl

end

end Cpp

end GccXml

import GccXml.Front.FlagsText

namespace GccXml

/-! # `Front.FlagsReadBack` — the flags that are found are the flags that are used

`FindFlagsGCC` writes values between single quotes and paths between double quotes, without escapes, and
`gxFlagsParser` reads the string with escapes and with either quotation mark. The arguments are those that were meant
exactly when nothing in a value or a path means anything to the reader, and every macro is one that was matched.

What is meant is stated on the report: an argument for each definition with its value as it is, two for the directories
with support headers of the version that the definitions report, and one for each directory of the search path. What is
written is a list of items (`exists_flagItems`), each the text for one of these arguments, and reading distributes over
items. So the strings can be compared argument by argument:

* an item whose value has no quotation mark and no backslash in it is read back, and so is a path between double
  quotes;

* an item of another kind is read as something else, or runs on into the next one. In the first case one argument
  differs, and in the second there are too few, so the lists differ in both.

The version stands apart: the directories are chosen by two numbers that are scanned from the same definitions. -/

/-! ## What is meant -/

/-- The arguments for the directories with support headers. -/
def wrapperArgument (supportPath dir : List Char) : List Char := wrapperOption ++ (supportPath ++ '/' :: dir)

/-- The argument for a directory of the search path. -/
def directoryArgument (dirs : HomeDirectories) (line : List Char) : List Char :=
  directoryOption (directoryText dirs line) ++ directoryText dirs line

section

variable (dirs : HomeDirectories) (supportPath : CString) (defs : List MacroDefinition) (report : SearchReport)

/-- The directories with support headers, for the version that is read. -/
def supportDirectories : List (List Char) :=
  (supportSettings (hackVersion (scanMacros (definesOutput defs)).majorVersion
    (scanMacros (definesOutput defs)).minorVersion (scanIncludes dirs report.text))).1

/-- The arguments that are meant: the definitions, the directories with support headers, and the search path. -/
def meantArguments : List (List Char) :=
  (wanted defs).map MacroDefinition.argument ++
    ((supportDirectories dirs defs report).map (wrapperArgument supportPath.chars) ++
      report.directories.map fun d => directoryArgument dirs d.line)

/-- The arguments that `gxFlagsParser` gives for a string of flags, in this build. -/
def parsedArguments (flags : List Char) : Option (Read (List (List Char))) :=
  (parseFlags true [] flags).map fun parsed => parsed.map fun flags => addParsedFlags flags []

/-- **Flags read back**: they are found, and the arguments that are read from them contain in order those that are
meant, with a directory of support headers among them. -/
def FlagsReadBack : Prop :=
  ∃ flags args,
    findFlagsGCC dirs supportPath.chars (definesOutput defs) report.text = some flags ∧
      parsedArguments flags = some (.value args) ∧ supportDirectories dirs defs report ≠ [] ∧
        (meantArguments dirs supportPath defs report).Sublist args

/-- The value of `__GNUC__` or `__GNUC_MINOR__` that counts: the first that is not -1. -/
def definedVersion (name : List Char) : Int :=
  (((defs.filter fun d => d.name = name).map fun d => atoi d.value).find? (· ≠ -1)).getD (-1)

/-- A version with a directory of support headers. -/
def KnownVersion (majorVersion minorVersion : Int) : Prop :=
  majorVersion ≠ -1 ∧ minorVersion ≠ -1 ∧ ¬ (majorVersion = 3 ∧ minorVersion < 0)

/-- A path that can stand between double quotes as it is. -/
def LiteralPath (path : List Char) : Prop := '"' ∉ path ∧ '\\' ∉ path

/-- When every flag is written as it is read. -/
structure WrittenLiterally : Prop where
  version : KnownVersion (definedVersion defs gnucName) (definedVersion defs gnucMinorName)
  definitions : ∀ d ∈ defs, d.name ≠ blocksName → d.Simple ∧ d.Unquoted
  support : LiteralPath supportPath.chars
  directories : ∀ d ∈ report.directories, LiteralPath (directoryText dirs d.line)

end

/-! ## The directories with support headers -/

/-- A character that cannot mean anything to the reader, as it stands in the directories with support headers. -/
def isVersionChar (c : Char) : Bool := c.isDigit || c = '.' || c = '-'

theorem decimal_chars (n : Int) : ∀ c ∈ decimal n, isVersionChar c = true := by
  have hdigits : ∀ k, ∀ c ∈ Nat.toDigits 10 k, isVersionChar c = true := by
    intro k c hc
    have hdigit := Nat.isDigit_of_mem_toDigits (by decide) (by decide) hc
    rw [isVersionChar, hdigit]
    rfl
  intro c hc
  cases n with
  | ofNat n => exact hdigits n c hc
  | negSucc n =>
      obtain rfl | hc := List.mem_cons.mp hc
      · decide
      · exact hdigits (n + 1) c hc

theorem supportSettings_chars (version : Int × Int) :
    ∀ dir ∈ (supportSettings version).1, ∀ c ∈ dir, isVersionChar c = true := by
  have hfixed : ∀ dirs : List (List Char), (dirs.all fun dir => dir.all isVersionChar) = true →
      ∀ dir ∈ dirs, ∀ c ∈ dir, isVersionChar c = true :=
    fun dirs h dir hdir => List.all_eq_true.mp (List.all_eq_true.mp h dir hdir)
  obtain ⟨majorVersion, minorVersion⟩ := version
  unfold supportSettings
  dsimp only
  split
  · split <;> exact hfixed _ (by decide)
  split
  · rw [List.forall_mem_singleton]
    intro c hc
    simp only [List.mem_append, List.mem_cons] at hc
    rcases hc with hc | rfl | hc
    · exact decimal_chars majorVersion c hc
    · decide
    · exact decimal_chars minorVersion c hc
  repeat' split
  all_goals exact hfixed _ (by decide)

/-- Where there is a directory with support headers. -/
theorem supportSettings_ne_nil_iff (majorVersion minorVersion : Int) (includes : List Char) :
    (supportSettings (hackVersion majorVersion minorVersion includes)).1 ≠ [] ↔
      ¬ (majorVersion = 3 ∧ minorVersion < 0) := by
  have hsettings : ∀ major minor : Int, (supportSettings (major, minor)).1 ≠ [] ↔ ¬ (major = 3 ∧ minor < 0) := by
    intro major minor
    simp only [supportSettings]
    split_ifs <;> simp <;> omega
  unfold hackVersion
  split
  case isTrue h =>
    rw [hsettings]
    omega
  case isFalse => exact hsettings _ _

/-- A path between double quotes is read as it is. -/
theorem literal_doubleQuoted_iff {f : QuotedFlag} (hf : f.quote = '"') : f.Literal ↔ LiteralPath f.content := by
  constructor
  · intro h
    exact ⟨fun hc => (h _ hc).1 hf.symm, fun hc => (h _ hc).2 rfl⟩
  · rintro ⟨hquote, hescape⟩ c hc
    constructor
    · rintro rfl
      exact hquote (hf ▸ hc)
    · rintro rfl
      exact hescape hc

theorem nul_notMem_support (supportPath : CString) {dir : List Char} (h : nul ∉ dir) :
    nul ∉ supportPath.chars ++ '/' :: dir := by
  rw [List.mem_append, List.mem_cons, not_or, not_or]
  exact ⟨supportPath.noNul, by decide, h⟩

theorem two_le_length_wrapperOption : 2 ≤ wrapperOption.length := by decide

theorem plain_wrapperOption : ∀ c ∈ wrapperOption, IsPlain c := plain_of_all (by decide)

/-- The flag for a directory with support headers. -/
def wrapperFlag (supportPath : CString) (dir : List Char) (h : nul ∉ dir) : QuotedFlag where
  lead := wrapperOption
  quoted := .double
  quote := '"'
  content := supportPath.chars ++ '/' :: dir
  opened := Quoted.openedBy_double
  plain := plain_wrapperOption
  long := two_le_length_wrapperOption
  noNul := nul_notMem_support supportPath h

theorem exists_wrapperFlags (supportPath : CString) {supports : List (List Char)}
    (h : ∀ dir ∈ supports, ∀ c ∈ dir, isVersionChar c = true) :
    ∃ flags : List QuotedFlag,
      flags.flatMap (fun f => f.text ++ [' ']) = supports.flatMap (fun dir =>
        wrapperOption ++ ['"'] ++ supportPath.chars ++ ['/'] ++ dir ++ ['"', ' ']) ∧
      flags.map QuotedFlag.value = supports.map (wrapperArgument supportPath.chars) ∧
      ∀ f ∈ flags, 'w' ∈ f.lead ∧ (f.Literal ↔ LiteralPath supportPath.chars) := by
  induction supports with
  | nil => exact ⟨[], rfl, rfl, by simp⟩
  | cons dir supports ih =>
      rw [List.forall_mem_cons] at h
      obtain ⟨flags, htext, hvalue, hflags⟩ := ih h.2
      -- a support directory is a name with version digits, so it holds no quote and no backslash
      have hdir : ∀ c : Char, isVersionChar c = false → c ∉ dir := by
        intro c hc hmem
        rw [h.1 c hmem] at hc
        cases hc
      have hlead : 'w' ∈ wrapperOption := by decide
      refine ⟨wrapperFlag supportPath dir (hdir nul (by decide)) :: flags, ?_, ?_, ?_⟩
      · rw [List.flatMap_cons, List.flatMap_cons, htext]
        congr 1
        simp [wrapperFlag, QuotedFlag.text]
      · rw [List.map_cons, List.map_cons, hvalue]
        rfl
      · refine List.forall_mem_cons.mpr ⟨⟨hlead, ?_⟩, hflags⟩
        rw [literal_doubleQuoted_iff rfl]
        simp only [LiteralPath, wrapperFlag, List.mem_append, List.mem_cons, not_or]
        have hquote := hdir '"' (by decide)
        have hescape := hdir '\\' (by decide)
        simp [hquote, hescape]

/-! ## The version -/

theorem addLine_blocks (s : MacroScan) {d : MacroDefinition} (h : d.name = blocksName) : s.addLine d.line = s := by
  have hsimple : d.Simple := by
    rw [d.simple_iff, h]
    exact List.all_eq_true.mp (by decide)
  rw [MacroScan.addLine, d.findDefine_line hsimple]
  simp only [if_pos h]

theorem definedVersion_cons (d : MacroDefinition) (defs : List MacroDefinition) (name : List Char) :
    definedVersion (d :: defs) name =
      if d.name = name ∧ atoi d.value ≠ -1 then atoi d.value else definedVersion defs name := by
  unfold definedVersion
  by_cases hd : d.name = name
  · rw [List.filter_cons_of_pos (by simpa using hd), List.map_cons, List.find?_cons]
    by_cases hvalue : atoi d.value = -1
    · rw [if_neg (fun h => h.2 hvalue)]
      simp [hvalue]
    · rw [if_pos ⟨hd, hvalue⟩]
      simp [hvalue]
  · rw [List.filter_cons_of_neg (by simpa using hd), if_neg (fun h => hd h.1)]

/-- A version that each simple definition of `name` can give is the first that one gives. -/
theorem version_foldl {version : MacroScan → Int} {name : List Char} (hname : name ≠ blocksName)
    (hversion : ∀ s : MacroScan, ∀ d : MacroDefinition, d.Simple → d.name ≠ blocksName →
      version (s.addLine d.line) = if version s = -1 ∧ d.name = name then atoi d.value else version s)
    {defs : List MacroDefinition} (h : ∀ d ∈ defs, d.name ≠ blocksName → d.Simple) (s : MacroScan) :
    version ((defs.map MacroDefinition.line).foldl MacroScan.addLine s) =
      if version s = -1 then definedVersion defs name else version s := by
  induction defs generalizing s with
  | nil =>
      simp only [List.map_nil, List.foldl_nil, definedVersion, List.filter_nil, List.find?_nil, Option.getD_none]
      split
      case isTrue hs => exact hs
      case isFalse => rfl
  | cons d defs ih =>
      rw [List.forall_mem_cons] at h
      rw [List.map_cons, List.foldl_cons, ih h.2]
      by_cases hblocks : d.name = blocksName
      · have hne : d.name ≠ name := fun he => hname (he.symm.trans hblocks)
        have hcons : definedVersion (d :: defs) name = definedVersion defs name := by
          rw [definedVersion_cons, if_neg (fun h => hne h.1)]
        rw [addLine_blocks s hblocks, hcons]
      · rw [hversion s d (h.1 hblocks) hblocks, definedVersion_cons]
        by_cases hs : version s = -1 <;> by_cases hd : d.name = name <;> by_cases hvalue : atoi d.value = -1 <;>
          simp [hs, hd, hvalue]

/-- **The version that is read**, when every definition is matched in its place. -/
theorem versions_scanMacros {defs : List MacroDefinition} (h : ∀ d ∈ defs, d.name ≠ blocksName → d.Simple) :
    (scanMacros (definesOutput defs)).majorVersion = definedVersion defs gnucName ∧
      (scanMacros (definesOutput defs)).minorVersion = definedVersion defs gnucMinorName := by
  rw [scanMacros_definesOutput]
  constructor
  · refine (@version_foldl MacroScan.majorVersion gnucName (by decide) ?_ defs h {}).trans (if_pos rfl)
    intro s d hsimple hblocks
    rw [MacroScan.addLine, d.findDefine_line hsimple]
    simp only [if_neg hblocks]
  · refine (@version_foldl MacroScan.minorVersion gnucMinorName (by decide) ?_ defs h {}).trans (if_pos rfl)
    intro s d hsimple hblocks
    rw [MacroScan.addLine, d.findDefine_line hsimple]
    simp only [if_neg hblocks]

/-! ## The whole string -/

/-- What follows the last path. -/
def specialTail (builtins : Bool) : List Char := if builtins then ' ' :: specialFlags builtins else []

theorem findFlagsGCC_eq {dirs : HomeDirectories} {supportPath defineOutput verboseOutput : List Char}
    (hmajor : (scanMacros defineOutput).majorVersion ≠ -1) (hminor : (scanMacros defineOutput).minorVersion ≠ -1)
    {supports : List (List Char)} {builtins : Bool}
    (hsettings : supportSettings (hackVersion (scanMacros defineOutput).majorVersion
      (scanMacros defineOutput).minorVersion (scanIncludes dirs verboseOutput)) = (supports, builtins))
    (hne : supports ≠ []) :
    findFlagsGCC dirs supportPath defineOutput verboseOutput =
      some ((scanMacros defineOutput).leading ++
        (supports.flatMap (fun dir => wrapperOption ++ ['"'] ++ supportPath ++ ['/'] ++ dir ++ ['"', ' ']) ++
          scanIncludes dirs verboseOutput ++ specialTail builtins)) := by
  obtain ⟨dir, supports, rfl⟩ := List.exists_cons_of_ne_nil hne
  simp only [findFlagsGCC, if_neg hmajor, if_neg hminor, hsettings, MacroScan.leading, specialTail]
  cases builtins <;> by_cases hmacros : (scanMacros defineOutput).macros = [] <;>
    simp [hmacros, specialFlags, wrapperOption]

/-- The flag as an item of its own. -/
def QuotedFlag.item (f : QuotedFlag) : FlagItem := ⟨f.value, some f⟩

theorem QuotedFlag.readBack_item (f : QuotedFlag) : f.item.ReadBack ↔ f.Literal := by
  constructor
  · rintro ⟨g, hg, -, hlit⟩
    obtain rfl := Option.some.inj hg
    exact hlit
  · intro h
    exact ⟨f, rfl, rfl, h⟩

/-- The flags for the directories, up to the last one. -/
theorem exists_last_directory (dirs : HomeDirectories) (report : SearchReport) {wrappers : List QuotedFlag}
    (hne : wrappers ≠ []) :
    ∃ (init : List QuotedFlag) (last : QuotedFlag) (blanks : Blanks),
      wrappers ++ report.directories.map (directoryFlag dirs) = init ++ [last] ∧
      wrappers.flatMap (fun f => f.text ++ [' ']) ++ scanIncludes dirs report.text =
        init.flatMap (fun f => f.text ++ [' ']) ++ (last.text ++ blanks.chars) ∧
      ∀ c ∈ blanks.chars, c = ' ' := by
  obtain hnil | ⟨ds, d, hds⟩ := List.eq_nil_or_concat' report.directories
  · obtain ⟨init, last, rfl⟩ := (List.eq_nil_or_concat' wrappers).resolve_left hne
    refine ⟨init, last, .space, by simp [hnil], ?_, by simp [Blanks.space]⟩
    rw [scanIncludes_text, hnil]
    simp [Blanks.space]
  · refine ⟨wrappers ++ ds.map (directoryFlag dirs), directoryFlag dirs d, ⟨[], by simp⟩, by simp [hds], ?_, by simp⟩
    obtain ⟨hcollecting, hleading⟩ := foldl_directories dirs ds (s := ⟨true, []⟩) rfl
    rw [scanIncludes_text, hds, List.map_append, List.foldl_append, List.map_singleton, List.foldl_cons, List.foldl_nil,
      addLine_directory dirs d hcollecting, hleading]
    simp [IncludeScan.leading, List.flatMap_append, List.flatMap_map]

/-- What follows the last path: blanks, and the option for the built-ins. -/
structure FlagsTail (tail : List Char) : Prop where
  head : ∀ x ∈ tail.head?, x = ' '
  chars : ∀ c ∈ tail, c ∈ specialTail true
  further : ∃ rest : FurtherArguments, rest.text = tail

theorem exists_specialWords : ∃ w w' : WrittenArgument,
    w.text = "-include".toList ∧ w'.text = '"' :: ("gccxml_builtins.h".toList ++ ['"']) := by
  have hplain : ∀ c ∈ "-include".toList, IsPlain c := plain_of_all (by decide)
  have hheader : ∀ c ∈ "gccxml_builtins.h".toList, IsPlain c := plain_of_all (by decide)
  have hliteral : ∀ c ∈ "gccxml_builtins.h".toList, c ≠ '"' ∧ c ≠ '\\' ∧ c ≠ nul := by
    intro c hc
    obtain ⟨-, hescape, -, hquote, hnul⟩ := hheader c hc
    exact ⟨hquote, hescape, hnul⟩
  refine ⟨⟨"-include".toList.attach.map fun c => .plain c.1 (hplain c.1 c.2), by simp⟩,
    ⟨[.doubleQuoted ("gccxml_builtins.h".toList.attach.map fun c => .literal c.1 (hliteral c.1 c.2))],
      List.cons_ne_nil _ _⟩, ?_, ?_⟩
  · simp [WrittenArgument.text, FlagPiece.text]
  · simp [WrittenArgument.text, FlagPiece.text, QuotedChar.text]

theorem flagsTail {blanks : Blanks} (hblanks : ∀ c ∈ blanks.chars, c = ' ') (builtins : Bool) :
    FlagsTail (blanks.chars ++ specialTail builtins) where
  head := by
    intro x hx
    cases hchars : blanks.chars with
    | nil =>
        rw [hchars, List.nil_append] at hx
        cases builtins with
        | false => cases hx
        | true => exact (Option.some.inj hx).symm
    | cons c cs =>
        rw [hchars] at hx
        obtain rfl := Option.some.inj hx
        exact hblanks c (by simp [hchars])
  chars := by
    intro c hc
    rcases List.mem_append.mp hc with hc | hc
    · rw [hblanks c hc]
      decide
    · cases builtins with
      | false => cases hc
      | true => exact hc
  further := by
    cases builtins with
    | false => exact ⟨.done blanks, by simp [FurtherArguments.text, specialTail]⟩
    | true =>
        obtain ⟨w, w', hw, hw'⟩ := exists_specialWords
        have hsep : ∀ c ∈ blanks.chars ++ [' '], isspace c = true := by
          intro c hc
          rcases List.mem_append.mp hc with hc | hc
          · exact blanks.blank c hc
          · exact Blanks.space.blank c hc
        refine ⟨.more ⟨_, hsep⟩ (by simp) w (.more .space (by simp [Blanks.space]) w' (.done ⟨[], by simp⟩)), ?_⟩
        simp [FurtherArguments.text, hw, hw', Blanks.space, specialTail, specialFlags]

/-- **The flags are made of items**, one for each argument that is meant. -/
theorem exists_flagItems {dirs : HomeDirectories} (supportPath : CString) {defs : List MacroDefinition}
    {report : SearchReport} (hmajor : (scanMacros (definesOutput defs)).majorVersion ≠ -1)
    (hminor : (scanMacros (definesOutput defs)).minorVersion ≠ -1) (hne : supportDirectories dirs defs report ≠ []) :
    ∃ (wrappers init : List QuotedFlag) (last : QuotedFlag) (tail : List Char),
      findFlagsGCC dirs supportPath.chars (definesOutput defs) report.text =
        some (itemsText ((wanted defs).map MacroDefinition.item ++ init.map QuotedFlag.item) (last.text ++ tail)) ∧
      wrappers ++ report.directories.map (directoryFlag dirs) = init ++ [last] ∧
      wrappers.map QuotedFlag.value = (supportDirectories dirs defs report).map (wrapperArgument supportPath.chars) ∧
      (∀ f ∈ wrappers, 'w' ∈ f.lead ∧ (f.Literal ↔ LiteralPath supportPath.chars)) ∧ FlagsTail tail := by
  obtain ⟨supports, builtins, hsettings⟩ : ∃ supports builtins, supportSettings
      (hackVersion (scanMacros (definesOutput defs)).majorVersion (scanMacros (definesOutput defs)).minorVersion
        (scanIncludes dirs report.text)) = (supports, builtins) := ⟨_, _, rfl⟩
  have hsupports : supportDirectories dirs defs report = supports := by rw [supportDirectories, hsettings]
  rw [hsupports] at hne ⊢
  have hchars := supportSettings_chars (hackVersion (scanMacros (definesOutput defs)).majorVersion
    (scanMacros (definesOutput defs)).minorVersion (scanIncludes dirs report.text))
  rw [hsettings] at hchars
  obtain ⟨wrappers, htext, hvalue, hwrappers⟩ := exists_wrapperFlags supportPath hchars
  have hwne : wrappers ≠ [] := by
    rintro rfl
    exact hne (List.map_eq_nil_iff.mp hvalue.symm)
  obtain ⟨init, last, blanks, hlast, hincludes, hblanks⟩ := exists_last_directory dirs report hwne
  refine ⟨wrappers, init, last, blanks.chars ++ specialTail builtins, ?_, hlast, hvalue, hwrappers,
    flagsTail hblanks builtins⟩
  rw [findFlagsGCC_eq hmajor hminor hsettings hne, ← htext, hincludes, leading_scanMacros]
  simp [itemsText, QuotedFlag.item, FlagItem.text, List.flatMap_append, List.flatMap_map]

theorem nul_notMem_text (f : QuotedFlag) : nul ∉ f.text := by
  have hquote : nul ≠ f.quote := by
    intro h
    have hmark := f.opened.isMark
    rw [← h] at hmark
    revert hmark
    decide
  rw [QuotedFlag.text, List.mem_append, List.mem_cons, List.mem_append, List.mem_singleton]
  rintro (h | h | h | h)
  · exact (f.plain nul h).2.2.2.2 rfl
  · exact hquote h
  · exact f.noNul h
  · exact hquote h

theorem nul_notMem_itemsText (items : List FlagItem) (last : QuotedFlag) {tail : List Char} (htail : FlagsTail tail) :
    nul ∉ itemsText items (last.text ++ tail) := by
  have hspecial : nul ∉ specialTail true := by decide
  rw [itemsText, List.mem_append, List.mem_append, List.mem_flatMap]
  rintro (⟨i, -, hi⟩ | h | h)
  · cases hf : i.written with
    | none => simp [FlagItem.text, hf] at hi
    | some f =>
        simp only [FlagItem.text, hf, Option.elim_some, List.mem_append, List.mem_singleton] at hi
        rcases hi with hi | hi
        · exact nul_notMem_text f hi
        · revert hi
          decide
  · exact nul_notMem_text last h
  · exact hspecial (htail.chars nul h)

/-- Each path is marked by its option. -/
theorem exists_mark {dirs : HomeDirectories} {ds : List DirectoryLine} {wrappers : List QuotedFlag}
    (hwrappers : ∀ f ∈ wrappers, 'w' ∈ f.lead) {f : QuotedFlag} (hf : f ∈ wrappers ++ ds.map (directoryFlag dirs)) :
    ∃ z ∈ f.lead, z ∉ specialTail true := by
  rcases List.mem_append.mp hf with hf | hf
  · exact ⟨'w', hwrappers f hf, by decide⟩
  · obtain ⟨d, -, rfl⟩ := List.mem_map.mp hf
    unfold directoryFlag directoryOption
    dsimp only
    split
    · exact ⟨'F', by decide, by decide⟩
    · exact ⟨'y', by decide, by decide⟩

/-- What the parser gives are the arguments that the flags are split into. -/
theorem parsedArguments_eq_some {flags : List Char} {args : List (List Char)} :
    parsedArguments flags = some (.value args) ↔ ∃ argc, gxFlags_CommandLineParse flags = some (.value (argc, args)) := by
  have hfold : ∀ argv flags : List (List Char), argv.foldl (addFlag true) flags = flags ++ argv := by
    intro argv
    induction argv with
    | nil => simp
    | cons a argv ih =>
        intro flags
        rw [List.foldl_cons, ih, addFlag, if_neg (by simp)]
        simp
  unfold parsedArguments parseFlags
  cases gxFlags_CommandLineParse flags with
  | none => simp
  | some parsed =>
      cases parsed with
      | outOfBounds => simp [Read.map]
      | value r =>
          obtain ⟨argc, argv⟩ := r
          simp [Read.map, hfold, addParsedFlags]

/-! ## When the flags read back -/

section

variable {dirs : HomeDirectories} {supportPath : CString} {defs : List MacroDefinition} {report : SearchReport}

theorem versions_ne_of_findFlagsGCC {defineOutput verboseOutput supportPath flags : List Char}
    (h : findFlagsGCC dirs supportPath defineOutput verboseOutput = some flags) :
    (scanMacros defineOutput).majorVersion ≠ -1 ∧ (scanMacros defineOutput).minorVersion ≠ -1 := by
  simp only [findFlagsGCC] at h
  split at h
  case isTrue => cases h
  case isFalse hmajor =>
    split at h
    case isTrue => cases h
    case isFalse hminor => exact ⟨hmajor, hminor⟩

/-- What is meant, as the expected arguments of the items. -/
theorem meantArguments_eq {wrappers init : List QuotedFlag} {last : QuotedFlag}
    (hlast : wrappers ++ report.directories.map (directoryFlag dirs) = init ++ [last])
    (hvalue : wrappers.map QuotedFlag.value =
      (supportDirectories dirs defs report).map (wrapperArgument supportPath.chars)) :
    meantArguments dirs supportPath defs report =
      ((wanted defs).map MacroDefinition.item ++ init.map QuotedFlag.item).map FlagItem.expected ++ [last.value] := by
  have hpaths : (supportDirectories dirs defs report).map (wrapperArgument supportPath.chars) ++
      report.directories.map (fun d => directoryArgument dirs d.line) = init.map QuotedFlag.value ++ [last.value] := by
    rw [← hvalue]
    have hmap := congrArg (List.map QuotedFlag.value) hlast
    rw [List.map_append, List.map_append, List.map_map, List.map_singleton] at hmap
    exact hmap
  rw [meantArguments, hpaths, List.map_append, List.map_map, List.map_map, List.append_assoc]
  rfl

/-- **Flags that are read back were written literally.** -/
theorem writtenLiterally_of_readBack (h : FlagsReadBack dirs supportPath defs report) :
    WrittenLiterally dirs supportPath defs report := by
  obtain ⟨flags, args, hflags, hargs, hne, hsub⟩ := h
  obtain ⟨hmajor, hminor⟩ := versions_ne_of_findFlagsGCC hflags
  obtain ⟨wrappers, init, last, tail, htext, hlast, hvalue, hwrappers, htail⟩ :=
    exists_flagItems supportPath hmajor hminor hne
  obtain rfl := Option.some.inj (hflags.symm.trans htext)
  -- what `find_flags` wrote is split by the parser, and the meant arguments are among the pieces
  obtain ⟨argc, hparse⟩ := parsedArguments_eq_some.mp hargs
  have hsplits := splits_of_commandLineParse (nul_notMem_itemsText _ last htail) hparse
  rw [meantArguments_eq hlast hvalue] at hsub
  have hmem : last ∈ wrappers ++ report.directories.map (directoryFlag dirs) := by simp [hlast]
  obtain ⟨z, hz, hspecial⟩ := exists_mark (fun f hf => (hwrappers f hf).1) hmem
  have hfair : ∀ i ∈ (wanted defs).map MacroDefinition.item ++ init.map QuotedFlag.item, i.Fair := by
    intro i hi
    rcases List.mem_append.mp hi with hi | hi
    · obtain ⟨d, hd, rfl⟩ := List.mem_map.mp hi
      exact d.fair_item (mem_wanted.mp hd).2
    · obtain ⟨f, -, rfl⟩ := List.mem_map.mp hi
      exact .inl ⟨f, rfl, rfl⟩
  -- `z` stands in the last flag and nowhere behind it, so the items before it are read back themselves
  obtain ⟨hitems, hlit⟩ :=
    readBack_of_sublist hfair hz (fun h => hspecial (htail.chars z h)) htail.head hsplits hsub
  have hpaths : ∀ f ∈ wrappers ++ report.directories.map (directoryFlag dirs), f.Literal := by
    rw [hlast]
    intro f hf
    rcases List.mem_append.mp hf with hf | hf
    · exact f.readBack_item.mp (hitems _ (List.mem_append_right _ (List.mem_map_of_mem hf)))
    · rw [List.mem_singleton.mp hf]
      exact hlit
  have hdefs : ∀ d ∈ defs, d.name ≠ blocksName → d.Simple ∧ d.Unquoted := by
    intro d hd hblocks
    refine (d.readBack_item_iff hblocks).mp (hitems _ (List.mem_append_left _ (List.mem_map_of_mem ?_)))
    exact mem_wanted.mpr ⟨hd, hblocks⟩
  obtain ⟨hmajor', hminor'⟩ := versions_scanMacros fun d hd hblocks => (hdefs d hd hblocks).1
  constructor
  case version =>
    rw [supportDirectories, supportSettings_ne_nil_iff] at hne
    rw [← hmajor', ← hminor']
    exact ⟨hmajor, hminor, hne⟩
  case definitions => exact hdefs
  case support =>
    have hwne : wrappers ≠ [] := by
      rintro rfl
      exact hne (List.map_eq_nil_iff.mp hvalue.symm)
    obtain ⟨f, fs, rfl⟩ := List.exists_cons_of_ne_nil hwne
    exact (hwrappers f List.mem_cons_self).2.mp (hpaths f (by simp))
  case directories =>
    intro d hd
    exact (literal_doubleQuoted_iff rfl).mp
      (hpaths _ (List.mem_append_right _ (List.mem_map_of_mem hd)))

/-- **Flags that are written literally are read back.** -/
theorem readBack_of_writtenLiterally (h : WrittenLiterally dirs supportPath defs report) :
    FlagsReadBack dirs supportPath defs report := by
  obtain ⟨hmajor, hminor⟩ := versions_scanMacros fun d hd hblocks => (h.definitions d hd hblocks).1
  obtain ⟨hknown, hknown', hsupport⟩ := h.version
  have hne : supportDirectories dirs defs report ≠ [] := by
    rw [supportDirectories, supportSettings_ne_nil_iff, hmajor, hminor]
    exact hsupport
  obtain ⟨wrappers, init, last, tail, htext, hlast, hvalue, hwrappers, htail⟩ :=
    exists_flagItems supportPath (hmajor ▸ hknown) (hminor ▸ hknown') hne
  have hpaths : ∀ f ∈ wrappers ++ report.directories.map (directoryFlag dirs), f.Literal := by
    intro f hf
    rcases List.mem_append.mp hf with hf | hf
    · exact (hwrappers f hf).2.mpr h.support
    · obtain ⟨d, hd, rfl⟩ := List.mem_map.mp hf
      exact (literal_doubleQuoted_iff rfl).mpr (h.directories d hd)
  rw [hlast] at hpaths
  have hitems : ∀ i ∈ (wanted defs).map MacroDefinition.item ++ init.map QuotedFlag.item, i.ReadBack := by
    intro i hi
    rcases List.mem_append.mp hi with hi | hi
    · obtain ⟨d, hd, rfl⟩ := List.mem_map.mp hi
      obtain ⟨hmem, hblocks⟩ := mem_wanted.mp hd
      exact (d.readBack_item_iff hblocks).mpr (h.definitions d hmem hblocks)
    · obtain ⟨f, hf, rfl⟩ := List.mem_map.mp hi
      exact f.readBack_item.mpr (hpaths f (List.mem_append_left _ hf))
  -- every item is literal, and the arguments behind the last flag are whatever the tail reads as
  obtain ⟨rest, hrest⟩ := htail.further
  obtain ⟨flags, hflags, hargs⟩ := exists_written_items hitems (hpaths last (by simp)) rest
  refine ⟨_, flags.arguments, htext, ?_, hne, ?_⟩
  · rw [← hrest, ← hflags]
    exact parsedArguments_eq_some.mpr ⟨_, commandLineParse_text flags⟩
  · rw [hargs, meantArguments_eq hlast hvalue]
    exact (List.Sublist.refl _).append (List.cons_sublist_cons.mpr (List.nil_sublist _))

end

/-- **Exactly what is written literally is read back.** -/
theorem flagsReadBack_iff (dirs : HomeDirectories) (supportPath : CString) (defs : List MacroDefinition)
    (report : SearchReport) :
    FlagsReadBack dirs supportPath defs report ↔ WrittenLiterally dirs supportPath defs report :=
  ⟨writtenLiterally_of_readBack, readBack_of_writtenLiterally⟩

/-- A macro without parameters. -/
def objectMacro (ident value : List Char) (hident : IsIdentifier ident) (hvalue : '\n' ∉ value ∧ nul ∉ value) :
    MacroDefinition :=
  ⟨ident, none, value, hident, by simp, hvalue.1, hvalue.2⟩

theorem isIdentifier_of_all {c : Char} {cs : List Char} (hstart : isNameStart c = true)
    (hchars : (c :: cs).all isIdentChar = true) : IsIdentifier (c :: cs) :=
  ⟨⟨c, rfl, hstart⟩, List.all_eq_true.mp hchars⟩

/-- The report of an empty search path. -/
def emptyReport : SearchReport where
  before := []
  start := "#include <...> search starts here:".toList
  directories := []
  stop := "End of search list.".toList
  after := []
  hbefore := by simp
  hstart := ⟨⟨by decide, by decide, by decide⟩, by decide⟩
  hstop := ⟨⟨by decide, by decide, by decide⟩, by decide⟩
  hafter := ⟨by decide, by decide⟩

/-- The definitions of a GCC 4.2 that was told that `QUOTE` is the character `a` in single quotes. -/
def quotedCharacter : List MacroDefinition :=
  [objectMacro gnucName ['4'] (isIdentifier_of_all (by decide) (by decide)) (by decide),
    objectMacro gnucMinorName ['2'] (isIdentifier_of_all (by decide) (by decide)) (by decide),
    objectMacro ['Q', 'U', 'O', 'T', 'E'] ['\'', 'a', '\''] (isIdentifier_of_all (by decide) (by decide)) (by decide)]

/-- A character in single quotes loses them. -/
theorem not_flagsReadBack_quotedCharacter :
    ¬ ∀ (dirs : HomeDirectories) (supportPath : CString) (defs : List MacroDefinition) (report : SearchReport),
      (∃ d ∈ defs, d.name = gnucName) → (∃ d ∈ defs, d.name = gnucMinorName) →
        FlagsReadBack dirs supportPath defs report := by
  intro h
  have hread := h ⟨none, fun _ => none⟩ ⟨"/usr/share/gccxml/GCC".toList, by decide⟩ quotedCharacter emptyReport
    ⟨_, List.mem_cons_self, by decide⟩ ⟨_, List.mem_cons_of_mem _ List.mem_cons_self, by decide⟩
  have hwritten := writtenLiterally_of_readBack hread
  have hquote := (hwritten.definitions _ (List.mem_cons_of_mem _ (List.mem_cons_of_mem _ List.mem_cons_self))
    (by decide)).2
  exact hquote.1 (by decide)

end GccXml

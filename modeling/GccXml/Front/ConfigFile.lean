import GccXml.Front.Precedence
import GccXml.Lib.IStream
import GccXml.Lib.Loop
import GccXml.Lib.Trim

namespace GccXml

/-! # `Front.ConfigFile` — what a configuration file gives

`ReadConfigFile` reads lines into a buffer and cuts them at a null character; `ParseConfigLine` splits a line at its
first equals sign. The lines that are not read, or not read whole, are those that decide whether the settings of the
file are used.

What a file should give is stated over all of its lines: for each setting the value of the first line that gives it.
The code departs from this in three ways, and each of them has its part here.

* A line of 4096 characters or more makes the stream fail, so neither it nor any line behind it is read.

* A null character ends the text of a line, since the buffer is taken for a C string.

* What is parsed is what stands between blanks, and a value in double quotes loses them. A single double quote is taken
  for both of its quotes.

A setting that was set before is not changed by the file. So a line that is not read does harm only if it is the first
one for its setting, the setting was not set, and no earlier line is in the way. -/

/-! ## `ParseConfigLine` -/

/-- A key that can stand in front of the equals sign. -/
structure ConfigKey (key : List Char) : Prop where
  noEquals : '=' ∉ key
  noBlank : ∀ c ∈ key, isConfigBlank c = false
  noComment : key.head? ≠ some '#'

/-- What `ParseConfigLine` takes as the key: it starts with no blank and is no comment. -/
structure ParsedKey (key : List Char) : Prop where
  noEquals : '=' ∉ key
  noBlank : ∀ c, key.head? = some c → isConfigBlank c = false
  noComment : key.head? ≠ some '#'

theorem ConfigKey.parsedKey {key : List Char} (h : ConfigKey key) : ParsedKey key where
  noEquals := h.noEquals
  noBlank c hc := h.noBlank c (List.mem_of_mem_head? hc)
  noComment := h.noComment

theorem takeWhile_key {key : List Char} (hkey : '=' ∉ key) (rawValue : List Char) :
    (key ++ '=' :: rawValue).takeWhile (· ≠ '=') = key ∧
      (key ++ '=' :: rawValue).dropWhile (· ≠ '=') = '=' :: rawValue := by
  have hpos : ∀ c ∈ key, decide (c ≠ '=') = true := by
    intro c hc
    have hne : c ≠ '=' := by
      rintro rfl
      exact hkey hc
    simpa using hne
  rw [List.takeWhile_append_of_pos hpos, List.dropWhile_append_of_pos hpos]
  simp

/-- **A line with a setting.** Blanks, a key and an equals sign give the key, and the value that stands behind. -/
theorem parseConfigLine_setting {w key : List Char} (hw : ∀ c ∈ w, isConfigBlank c = true) (hkey : ParsedKey key)
    (rawValue : List Char) :
    parseConfigLine (w ++ key ++ '=' :: rawValue) = .setting (String.ofList key) (parseConfigValue rawValue) := by
  have hstart : (w ++ key ++ '=' :: rawValue).dropWhile isConfigBlank = key ++ '=' :: rawValue := by
    rw [List.append_assoc, List.dropWhile_append_of_pos hw]
    cases key with
    | nil => rfl
    | cons c key => exact List.dropWhile_cons_of_neg (by simp [hkey.noBlank c rfl])
  obtain ⟨htake, hdrop⟩ := takeWhile_key hkey.noEquals rawValue
  unfold parseConfigLine
  rw [hstart]
  split
  case h_1 hnil => simp at hnil
  case h_2 hcomment =>
    cases key with
    | nil => cases hcomment
    | cons c key =>
        have hc : c = '#' := (List.cons.inj hcomment).1
        exact absurd (congrArg some hc) hkey.noComment
  case h_3 =>
    rw [if_pos (by simp), htake, hdrop]
    rfl

/-- Every setting comes from such a line. -/
theorem exists_of_parseConfigLine {line : List Char} {key value : String}
    (h : parseConfigLine line = .setting key value) :
    ∃ w chars rawValue, line = w ++ chars ++ '=' :: rawValue ∧ (∀ c ∈ w, isConfigBlank c = true) ∧
      ParsedKey chars ∧ key = String.ofList chars ∧ value = parseConfigValue rawValue := by
  unfold parseConfigLine at h
  split at h
  case h_1 => cases h
  case h_2 => cases h
  case h_3 hempty hcomment =>
    split at h
    case isFalse => cases h
    case isTrue hequals =>
      obtain ⟨hkey, hvalue⟩ := ConfigLine.setting.inj h
      -- the key ends before the first `=` of what follows the blanks
      obtain ⟨chars, rawValue, hrest, hno⟩ := List.eq_append_cons_of_mem hequals
      obtain ⟨htake, hdrop⟩ := takeWhile_key hno rawValue
      refine ⟨line.takeWhile isConfigBlank, chars, rawValue, ?_, ?_, ⟨hno, ?_, ?_⟩, ?_, ?_⟩
      · rw [List.append_assoc, ← hrest, List.takeWhile_append_dropWhile]
      · exact fun c hc => List.mem_takeWhile_imp hc
      · intro c hc
        have hne : line.dropWhile isConfigBlank ≠ [] := by
          rw [hrest]
          simp
        have hhead : (line.dropWhile isConfigBlank).head? = some c := by
          rw [hrest, List.head?_append, hc]
          rfl
        have hnot := List.head_dropWhile_not isConfigBlank hne
        rw [List.head?_eq_some_head hne] at hhead
        rw [← Option.some.inj hhead]
        simpa using hnot
      · intro hc
        cases chars with
        | nil => cases hc
        | cons c chars =>
            obtain rfl := Option.some.inj hc
            exact hcomment _ hrest
      · rw [← hkey, hrest, htake]
      · rw [← hvalue, hrest, hdrop]
        rfl

/-! ## Values -/

/-- A value whose ends are both double quotes; a single double quote is both ends at once. -/
def isQuoted (value : List Char) : Prop := value.head? = some '"' ∧ value.getLast? = some '"'

instance (value : List Char) : Decidable (isQuoted value) := inferInstanceAs (Decidable (_ ∧ _))

theorem parseConfigValue_eq (rawValue : List Char) :
    parseConfigValue rawValue =
      if 2 ≤ rawValue.length ∧ isQuoted (trim isConfigBlank rawValue) then
        String.ofList (((trim isConfigBlank rawValue).drop 1).take ((trim isConfigBlank rawValue).length - 2))
      else String.ofList (trim isConfigBlank rawValue) := rfl

/-- Between double quotes the value is what it is. -/
theorem parseConfigValue_quoted {w w' : List Char} (hw : ∀ c ∈ w, isConfigBlank c = true)
    (hw' : ∀ c ∈ w', isConfigBlank c = true) (value : List Char) :
    parseConfigValue (w ++ ('"' :: value ++ ['"']) ++ w') = String.ofList value := by
  have htrimmed : Trim.Trimmed isConfigBlank ('"' :: value ++ ['"']) := by
    constructor
    · intro c hc
      obtain rfl := Option.some.inj hc
      rfl
    · intro c hc
      rw [List.getLast?_append] at hc
      obtain rfl := Option.some.inj hc
      rfl
  have hquoted : isQuoted ('"' :: value ++ ['"']) := by
    refine ⟨rfl, ?_⟩
    rw [List.getLast?_append]
    rfl
  rw [parseConfigValue_eq, Trim.trim_append hw hw', Trim.trim_eq_self htrimmed, if_pos]
  · simp
  · exact ⟨by simp; omega, hquoted⟩

/-- A text of one double quote is the only one whose value depends on the blanks around it. -/
theorem parseConfigValue_padded_iff {w w' : List Char} (hw : ∀ c ∈ w, isConfigBlank c = true)
    (hw' : ∀ c ∈ w', isConfigBlank c = true) (r : List Char) :
    parseConfigValue (w ++ r ++ w') = parseConfigValue r ↔ ¬ (r = ['"'] ∧ w ++ w' ≠ []) := by
  have hlen := Trim.length_trim_le isConfigBlank r
  rw [parseConfigValue_eq, parseConfigValue_eq, Trim.trim_append hw hw']
  by_cases hquoted : isQuoted (trim isConfigBlank r)
  · by_cases hlong : 2 ≤ r.length
    · have hpadded : 2 ≤ (w ++ r ++ w').length := by
        simp only [List.length_append]
        omega
      refine iff_of_true ?_ ?_
      · rw [if_pos ⟨hpadded, hquoted⟩, if_pos ⟨hlong, hquoted⟩]
      · rintro ⟨rfl, -⟩
        exact absurd hlong (by decide)
    · -- the text has one character, the double quote
      obtain ⟨c, hc⟩ : ∃ c, r = [c] := by
        match r, hlong with
        | [], _ => exact absurd hquoted (by decide)
        | [c], _ => exact ⟨c, rfl⟩
        | _ :: _ :: _, hlong => exact absurd hlong (by simp)
      have hquote : r = ['"'] := by
        have hmem : '"' ∈ r := Trim.mem_of_mem_trim (List.mem_of_mem_head? hquoted.1)
        rw [hc] at hmem ⊢
        rw [List.mem_singleton.mp hmem]
      subst hquote
      have htrim : trim isConfigBlank ['"'] = ['"'] := by decide
      by_cases hpad : w ++ w' = []
      · obtain ⟨rfl, rfl⟩ := List.append_eq_nil_iff.mp hpad
        exact iff_of_true rfl fun h => h.2 rfl
      · have hpos : 0 < (w ++ w').length := List.length_pos_of_ne_nil hpad
        have hpadded : 2 ≤ (w ++ ['"'] ++ w').length := by
          simp only [List.length_append, List.length_cons, List.length_nil] at hpos ⊢
          omega
        rw [if_pos ⟨hpadded, hquoted⟩, if_neg fun h => hlong h.1, htrim]
        exact iff_of_false (by decide) (not_not.mpr ⟨rfl, hpad⟩)
  · rw [if_neg fun h => hquoted h.2, if_neg fun h => hquoted h.2]
    refine iff_of_true rfl ?_
    rintro ⟨rfl, -⟩
    exact hquoted (by decide)

/-- **When blanks around a key and its text do not count.** A line with blanks gives the same key and value as the
line without them, and a text in double quotes gives what stands between the quotes, if and only if the text is not a
single double quote with blanks beside it. -/
theorem parseConfigLine_padded_iff {w₁ w₂ w₃ key : List Char} (hkey : ConfigKey key)
    (hw₁ : ∀ c ∈ w₁, isConfigBlank c = true) (hw₂ : ∀ c ∈ w₂, isConfigBlank c = true)
    (hw₃ : ∀ c ∈ w₃, isConfigBlank c = true) (r : List Char) :
    (parseConfigLine (w₁ ++ key ++ '=' :: (w₂ ++ r ++ w₃)) = parseConfigLine (key ++ '=' :: r) ∧
        ∀ value, r = '"' :: value ++ ['"'] →
          parseConfigLine (w₁ ++ key ++ '=' :: (w₂ ++ r ++ w₃)) =
            .setting (String.ofList key) (String.ofList value)) ↔
      ¬ (r = ['"'] ∧ w₂ ++ w₃ ≠ []) := by
  have hplain : parseConfigLine (key ++ '=' :: r) = .setting (String.ofList key) (parseConfigValue r) :=
    parseConfigLine_setting (w := []) (by simp) hkey.parsedKey r
  rw [parseConfigLine_setting hw₁ hkey.parsedKey, hplain, ← parseConfigValue_padded_iff hw₂ hw₃ r]
  constructor
  · rintro ⟨hsame, -⟩
    exact (ConfigLine.setting.inj hsame).2
  · intro hsame
    refine ⟨congrArg _ hsame, ?_⟩
    rintro value rfl
    rw [parseConfigValue_quoted hw₂ hw₃]

/-- A flag in double quotes, with a blank before it. -/
theorem parseConfigLine_padded_iff_flag :
    (parseConfigLine (['\t'] ++ ['K'] ++ '=' :: ([' '] ++ ['"', 'v', '"'] ++ [])) =
          parseConfigLine (['K'] ++ '=' :: ['"', 'v', '"']) ∧
        ∀ value, ['"', 'v', '"'] = '"' :: value ++ ['"'] →
          parseConfigLine (['\t'] ++ ['K'] ++ '=' :: ([' '] ++ ['"', 'v', '"'] ++ [])) =
            .setting (String.ofList ['K']) (String.ofList value)) ↔
      ¬ (['"', 'v', '"'] = ['"'] ∧ [' '] ++ [] ≠ []) :=
  parseConfigLine_padded_iff ⟨by decide, List.forall_mem_singleton.mpr rfl, by decide⟩
    (List.forall_mem_singleton.mpr rfl) (List.forall_mem_singleton.mpr rfl) (List.forall_mem_nil _) _

/-- The value of `K= "` is empty; without the blank it is the double quote. -/
theorem parseConfigLine_single_quote :
    parseConfigLine ([] ++ ['K'] ++ '=' :: ([' '] ++ ['"'] ++ [])) = .setting "K" "" ∧
      parseConfigLine (['K'] ++ '=' :: ['"']) = .setting "K" "\"" ∧
      parseConfigLine ([] ++ ['K'] ++ '=' :: ([' '] ++ ['"'] ++ [])) ≠ parseConfigLine (['K'] ++ '=' :: ['"']) := by
  decide

/-! ## Null characters -/

theorem isConfigBlank_nul : isConfigBlank nul = false := rfl

/-- A null character in the text is one in the value. -/
theorem nul_mem_parseConfigValue {rawValue : List Char} : nul ∈ (parseConfigValue rawValue).toList ↔ nul ∈ rawValue := by
  rw [parseConfigValue_eq]
  have htrim : nul ∈ trim isConfigBlank rawValue ↔ nul ∈ rawValue :=
    ⟨Trim.mem_of_mem_trim, fun h => Trim.mem_trim h isConfigBlank_nul⟩
  split
  · next hquoted =>
      obtain ⟨-, hhead, hlast⟩ := hquoted
      rw [String.toList_ofList, ← htrim]
      constructor
      · exact fun h => List.mem_of_mem_drop (List.mem_of_mem_take h)
      · intro h
        -- the null character is not one of the quotes
        generalize trim isConfigBlank rawValue = value at hhead hlast h
        obtain ⟨value, rfl⟩ : ∃ rest, value = '"' :: rest := List.head?_eq_some_iff.mp hhead
        have hrest : nul ∈ value := by simpa [nul] using h
        obtain ⟨inner, hinner⟩ : ∃ inner, '"' :: value = inner ++ ['"'] := List.getLast?_eq_some_iff.mp hlast
        cases inner with
        | nil =>
            obtain ⟨-, rfl⟩ := List.cons.inj hinner
            cases hrest
        | cons c inner =>
            obtain ⟨-, rfl⟩ := List.cons.inj hinner
            have hmem : nul ∈ inner := by simpa [nul] using hrest
            simpa using hmem
  · rw [String.toList_ofList, htrim]

theorem nul_notMem_name (k : Setting) : nul ∉ k.name.toList := by cases k <;> decide

theorem given_of_nul_mem {k : Setting} {value : String} (h : nul ∈ value.toList) :
    k.given (some value) = some value := by
  have hne : value ≠ "" := by
    rintro rfl
    simp at h
  unfold Setting.given
  split
  · rfl
  · simp [hne]

/-- A line that gives a setting: blanks, the key, and the text of the value. -/
theorem exists_of_lineSource {line : List Char} {k : Setting} {v : String} (h : lineSource line k = some v) :
    ∃ w rawValue, line = w ++ k.name.toList ++ '=' :: rawValue ∧ (∀ c ∈ w, isConfigBlank c = true) ∧
      ParsedKey k.name.toList ∧ k.given (some (parseConfigValue rawValue)) = some v ∧ v = parseConfigValue rawValue := by
  unfold lineSource at h
  cases hparse : parseConfigLine line with
  | ignored => rw [hparse] at h; cases h
  | invalid _ => rw [hparse] at h; cases h
  | setting key value =>
      rw [hparse] at h
      obtain ⟨w, chars, rawValue, hline, hw, hkey, rfl, rfl⟩ := exists_of_parseConfigLine hparse
      simp only at h
      split at h
      · next hname =>
          have hchars : k.name.toList = chars := by rw [← hname, String.toList_ofList]
          refine ⟨w, rawValue, hchars ▸ hline, hw, hchars ▸ hkey, h, ?_⟩
          unfold Setting.given at h
          split at h
          · exact (Option.some.inj h).symm
          · exact (Option.filter_eq_some_iff.mp h).1 |> Option.some.inj |> Eq.symm
      · cases h

theorem lineSource_line {w : List Char} {k : Setting} (hw : ∀ c ∈ w, isConfigBlank c = true)
    (hkey : ParsedKey k.name.toList) (rawValue : List Char) :
    lineSource (w ++ k.name.toList ++ '=' :: rawValue) k = k.given (some (parseConfigValue rawValue)) := by
  unfold lineSource
  rw [parseConfigLine_setting hw hkey, String.ofList_toList]
  simp

theorem nul_notMem_of_blank {w : List Char} (hw : ∀ c ∈ w, isConfigBlank c = true) : nul ∉ w := by
  intro hmem
  have hblank := hw nul hmem
  rw [isConfigBlank_nul] at hblank
  cases hblank

/-- The value of a line has a null character if and only if the line has one. -/
theorem nul_mem_of_lineSource {line : List Char} {k : Setting} {v : String} (h : lineSource line k = some v) :
    nul ∈ v.toList ↔ nul ∈ line := by
  obtain ⟨w, rawValue, rfl, hw, -, -, rfl⟩ := exists_of_lineSource h
  have hequals : nul ≠ '=' := by decide
  rw [nul_mem_parseConfigValue]
  simp [nul_notMem_of_blank hw, nul_notMem_name k, hequals]

/-- What the line gives up to its null character, the whole line gives too, with another value. -/
theorem lineSource_isSome_of_cString {line : List Char} {k : Setting} {v : String}
    (h : lineSource (cString line) k = some v) : ∃ v', lineSource line k = some v' := by
  by_cases hnul : nul ∈ line
  · obtain ⟨w, rawValue, hline, hw, hkey, -, -⟩ := exists_of_lineSource h
    obtain ⟨first, rest, hsplit, hno⟩ := List.eq_append_cons_of_mem hnul
    have hcut : cString line = first := by
      have hpos : ∀ c ∈ first, decide (c ≠ nul) = true := by
        intro c hc
        have hne : c ≠ nul := by
          rintro rfl
          exact hno hc
        simpa using hne
      rw [hsplit, cString, List.takeWhile_append_of_pos hpos]
      simp
    have hwhole : line = w ++ k.name.toList ++ '=' :: (rawValue ++ nul :: rest) := by
      rw [hsplit, ← hcut, hline]
      simp
    refine ⟨parseConfigValue (rawValue ++ nul :: rest), ?_⟩
    rw [hwhole, lineSource_line hw hkey]
    exact given_of_nul_mem (nul_mem_parseConfigValue.mpr (by simp))
  · rw [cString_eq_self hnul] at h
    exact ⟨v, h⟩

/-! ## The lines that are read -/

/-- The lines of the file that the loop reads without failing. -/
def readLines (lines : List (List Char)) : List (List Char) := lines.takeWhile (·.length < 4096)

theorem readLines_cons {line : List Char} (hlen : line.length < 4096) (lines : List (List Char)) :
    readLines (line :: lines) = line :: readLines lines := List.takeWhile_cons_of_pos (by simpa using hlen)

theorem readLines_long {line : List Char} (hlen : 4096 ≤ line.length) (lines : List (List Char)) :
    readLines (line :: lines) = [] := List.takeWhile_cons_of_neg (by simpa using hlen)

/-- The first of the lines that gives the setting `k`. -/
def firstLine (lines : List (List Char)) (k : Setting) : Option (List Char) :=
  lines.find? fun line => (lineSource line k).isSome

/-- The line that gives the setting is read, and read whole. -/
def FirstLineRead (lines : List (List Char)) (k : Setting) : Prop :=
  ∀ line, firstLine lines k = some line → line ∈ readLines lines ∧ nul ∉ line

/-- No value that is read has a null character. -/
theorem nul_notMem_of_firstGiven {lines : List (List Char)} {k : Setting} {v : String}
    (h : firstGiven ((lines.map cString).map lineSource) k = some v) : nul ∉ v.toList := by
  obtain ⟨source, hsource, hv⟩ := List.exists_of_findSome?_eq_some h
  obtain ⟨cut, hcut, rfl⟩ := List.mem_map.mp hsource
  obtain ⟨line, -, rfl⟩ := List.mem_map.mp hcut
  rw [nul_mem_of_lineSource hv]
  exact nul_notMem_cString line

/-- **One setting.** The lines that are read give what the lines of the file give, if and only if the first line that
gives the setting is read whole. -/
theorem firstGiven_readLines_iff (lines : List (List Char)) (k : Setting) :
    firstGiven (((readLines lines).map cString).map lineSource) k = firstGiven (lines.map lineSource) k ↔
      FirstLineRead lines k := by
  unfold FirstLineRead
  induction lines with
  | nil => simp [readLines, firstLine]
  | cons line lines ih =>
      by_cases hlen : line.length < 4096
      · rw [readLines_cons hlen, List.map_cons, List.map_cons, List.map_cons, firstGiven_cons, firstGiven_cons]
        cases hgives : lineSource line k with
        | none =>
            -- a line that gives no value gives none when it is cut at a NUL either
            have hcut : lineSource (cString line) k = none := by
              cases hv : lineSource (cString line) k with
              | none => rfl
              | some v =>
                  obtain ⟨v', hv'⟩ := lineSource_isSome_of_cString hv
                  rw [hgives] at hv'
                  cases hv'
            have hfirst : firstLine (line :: lines) k = firstLine lines k := by simp [firstLine, hgives]
            rw [hcut, Option.none_or, Option.none_or, ih, hfirst]
            refine forall₂_congr fun first hfound => and_congr_left fun _ => ?_
            have hne : first ≠ line := by
              rintro rfl
              have hsome := List.find?_some hfound
              rw [hgives] at hsome
              cases hsome
            simp [hne]
        | some v =>
            have hfirst : firstLine (line :: lines) k = some line := by simp [firstLine, hgives]
            rw [hfirst, Option.some_or]
            have hmem : line ∈ line :: readLines lines := List.mem_cons_self
            -- the value is kept exactly when no NUL cuts the line it stands on
            constructor
            · intro hv first hsame
              obtain rfl := Option.some.inj hsame
              refine ⟨hmem, fun hnul => ?_⟩
              have hgiven : firstGiven (((line :: readLines lines).map cString).map lineSource) k = some v := by
                rw [List.map_cons, List.map_cons, firstGiven_cons, hv]
              exact nul_notMem_of_firstGiven hgiven ((nul_mem_of_lineSource hgives).mpr hnul)
            · intro h
              obtain ⟨-, hnul⟩ := h line rfl
              rw [cString_eq_self hnul, hgives, Option.some_or]
      · -- nothing is read any more
        have hwhole : firstGiven ((line :: lines).map lineSource) k = none ↔ firstLine (line :: lines) k = none := by
          rw [firstGiven, List.findSome?_eq_none_iff, firstLine, List.find?_eq_none]
          simp
        rw [readLines_long (by omega), List.map_nil, List.map_nil, firstGiven_nil, eq_comm, hwhole]
        cases firstLine (line :: lines) k <;> simp

theorem configLines_eq (text : List Char) : configLines text = (readLines (splitLines text)).map cString := rfl

/-! ## `ReadConfigFile` -/

namespace Configuration

/-- `while(config.getline(buf, 4096))`, with the body of the loop. -/
def configPass (s : IStream × Configuration) : Pass (IStream × Configuration) Configuration :=
  let (buf, config) := s.1.getline 4096
  if config.failbit then .leave s.2 else .again (config, readConfigLine s.2 (cString buf))

theorem splitLines_last {line : List Char} (hline : '\n' ∉ line) :
    splitLines line = if line = [] then [] else [line] := by
  have hsplit : line.splitOn '\n' = [line] := List.splitOn_eq_singleton hline
  unfold splitLines
  rw [hsplit]
  by_cases hempty : line = [] <;> simp [hempty]

theorem splitLines_line {line : List Char} (hline : '\n' ∉ line) (rest : List Char) :
    splitLines (line ++ '\n' :: rest) = line :: splitLines rest := by
  obtain ⟨first, more, hsplit⟩ := List.exists_cons_of_ne_nil (List.splitOn_ne_nil '\n' rest)
  unfold splitLines
  rw [splitOn_line hline, hsplit]
  simp only [List.getLast?_cons_cons, List.dropLast_cons_cons]
  split <;> rfl

/-- A line that does not fit in the buffer ends the loop. -/
theorem configPass_overlong {text : List Char} (hlen : 4096 ≤ (text.takeWhile (· ≠ '\n')).length) (s : Configuration) :
    configPass ({ rest := text }, s) = .leave s := by
  unfold configPass
  rw [IStream.getline_overlong hlen]
  rfl

theorem configPass_line {line : List Char} (hline : '\n' ∉ line) (hlen : line.length < 4096) (rest : List Char)
    (s : Configuration) :
    configPass ({ rest := line ++ '\n' :: rest }, s) = .again ({ rest := rest }, readConfigLine s (cString line)) := by
  unfold configPass
  rw [IStream.getline_line hline hlen]
  rfl

/-- The last line, without a newline. -/
theorem configPass_last {line : List Char} (hline : '\n' ∉ line) (hlen : line.length < 4096) (hempty : line ≠ [])
    (s : Configuration) :
    configPass ({ rest := line }, s) = .again ({ rest := [], eofbit := true }, readConfigLine s (cString line)) := by
  unfold configPass
  rw [IStream.getline_last hline hlen]
  simp [hempty]

/-- **The lines that the loop gets** are those of `configLines`: the loop ends, and its body has been run for each. -/
theorem configPass_result (text : List Char) (s : Configuration) :
    Loop.Result configPass ({ rest := text }, s) ((configLines text).foldl readConfigLine s) := by
  rw [configLines_eq]
  induction text using line_induction generalizing s with
  | last line hline =>
      by_cases hempty : line = []
      · subst hempty
        exact .of_leave rfl
      rw [splitLines_last hline, if_neg hempty]
      by_cases hlen : line.length < 4096
      · rw [readLines_cons hlen]
        -- the pass after the last line finds the end of the file
        exact .of_again (configPass_last hline hlen hempty s) (.of_leave rfl)
      · rw [readLines_long (by omega)]
        refine .of_leave (configPass_overlong ?_ s)
        rw [IStream.takeWhile_last hline]
        omega
  | cons line rest hline ih =>
      rw [splitLines_line hline]
      by_cases hlen : line.length < 4096
      · rw [readLines_cons hlen]
        exact .of_again (configPass_line hline hlen rest s) (ih _)
      · rw [readLines_long (by omega)]
        refine .of_leave (configPass_overlong ?_ s)
        rw [IStream.takeWhile_line hline]
        omega

/-- **The file is read to the end**: unless `ReadConfigFile` fails, each setting that was not set before gets the value
of the first line of the file that gives it, and those that were set stay. -/
def AppliesEveryLine (host : Host) (s : Configuration) : Prop :=
  ∀ text s', host.openFile s.gccxmlConfig = some text → readConfigFile host s = .ok s' →
    ∀ k, s'.setting? k = (s.setting? k).or (firstGiven ((splitLines text).map lineSource) k)

/-- **When a configuration file is read to the end.** Every line is applied, if and only if for each setting that was
not set before the first line that gives it is read, and read whole: no line up to there has 4096 characters or more,
and the line itself has no null character. -/
theorem appliesEveryLine_iff (host : Host) (s : Configuration) :
    AppliesEveryLine host s ↔
      (host.fileExists s.gccxmlConfig = true → ∀ text, host.openFile s.gccxmlConfig = some text →
        ∀ k, s.setting? k = none → FirstLineRead (splitLines text) k) := by
  have hread : host.fileExists s.gccxmlConfig = true → ∀ text, host.openFile s.gccxmlConfig = some text →
      readConfigFile host s = .ok ((configLines text).foldl readConfigLine s) := by
    intro hexists text hopen
    rw [readConfigFile, if_pos hexists, hopen]
  constructor
  · intro happlies hexists text hopen k hunset
    have hall := happlies text _ hopen (hread hexists text hopen) k
    rw [setting?_readConfigLines, hunset, Option.none_or, Option.none_or, configLines_eq] at hall
    exact (firstGiven_readLines_iff _ k).mp hall
  · intro hfirst text s' hopen hok k
    have hexists : host.fileExists s.gccxmlConfig = true := by
      by_contra hmissing
      rw [readConfigFile, if_neg hmissing] at hok
      cases hok
    rw [hread hexists text hopen] at hok
    cases hok
    rw [setting?_readConfigLines]
    cases hset : s.setting? k with
    | some v => rfl
    | none =>
        rw [Option.none_or, Option.none_or, configLines_eq]
        exact (firstGiven_readLines_iff _ k).mpr (hfirst hexists text hopen k hset)

/-! ### A line that does not fit into the buffer -/

/-- A configuration file of a comment that does not fit into the buffer, and a setting. -/
def longCommentFile : List Char := List.replicate 4096 '#' ++ '\n' :: "GCCXML_ROOT=r".toList

/-- A host with that configuration file. -/
def longCommentHost : Host where
  getEnv _ := none
  fileExists name := name = "my.config"
  openFile name := if name = "my.config" then some longCommentFile else none
  collapseDirectory name := name
  dataRoot := "/usr/share/gccxml"
  runningInBuildTree := false

theorem newline_notMem_comment : '\n' ∉ List.replicate 4096 '#' := by
  intro hmem
  exact absurd (List.eq_of_mem_replicate hmem) (by decide)

/-- Nothing is read behind that comment. -/
theorem not_appliesEveryLine_longComment :
    ∃ s', readConfigFile longCommentHost { gccxmlConfig := "my.config" } = .ok s' ∧ s'.gccxmlRoot = "" ∧
      firstGiven ((splitLines longCommentFile).map lineSource) .root = some "r" ∧
      ¬ AppliesEveryLine longCommentHost { gccxmlConfig := "my.config" } := by
  have hlines : splitLines longCommentFile = [List.replicate 4096 '#', "GCCXML_ROOT=r".toList] := by
    rw [longCommentFile, splitLines_line newline_notMem_comment]
    rfl
  have hread : readConfigFile longCommentHost { gccxmlConfig := "my.config" } = .ok { gccxmlConfig := "my.config" } := by
    have hnone : configLines longCommentFile = [] := by
      rw [configLines_eq, hlines, readLines_long List.length_replicate.ge]
      rfl
    show Except.ok ((configLines longCommentFile).foldl readConfigLine _) = _
    rw [hnone]
    rfl
  have hgiven : firstGiven ((splitLines longCommentFile).map lineSource) .root = some "r" := by
    have hcomment : lineSource (List.replicate 4096 '#') .root = none := by
      rw [List.replicate_succ, lineSource, parseConfigLine]
      rfl
    rw [hlines, List.map_cons, firstGiven_cons, hcomment]
    rfl
  refine ⟨_, hread, rfl, hgiven, fun happlies => ?_⟩
  have hroot := happlies longCommentFile _ rfl hread .root
  rw [hgiven] at hroot
  cases hroot

end Configuration

end GccXml

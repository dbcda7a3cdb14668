import GccXml.Front.FindFlags
import GccXml.Front.QuotedFlags
import GccXml.Lib.Pieces

namespace GccXml

/-! # `Front.FlagsText` — what is written for what the compiler reports

The definitions and the search path that a compiler can report, the output that reports them, and the flags that are
written for that output: one for each definition that is matched, one for each directory with support headers, and one
for each directory of the search path.

The scanners of the front end go through the output line by line with two regular expressions and with comparisons of
its beginning. A report is the other way round: a list of definitions or directories, from which the lines of the
output are made. The module computes what the scanners do with such an output, and so replaces matching by facts about
the report:

* what is matched of the line of a definition is its name and its value, if it is written in the simple form; otherwise
  the expression matches at a later place of the line, or nowhere, and what it finds lies within the value;

* a line adds the flag that `MacroDefinition.item` and `DirectoryLine` give for it, whatever was collected before.

The text of a run is then the concatenation of these flags, which is what `FlagsReadBack` reads. -/

/-! ## Definitions -/

/-- `[A-Za-z0-9_]`. -/
def isIdentChar (c : Char) : Bool := isNameStart c || ('0' ≤ c && c ≤ '9')

/-- An identifier. -/
def IsIdentifier (chars : List Char) : Prop :=
  (∃ c, chars.head? = some c ∧ isNameStart c = true) ∧ ∀ c ∈ chars, isIdentChar c = true

/-- A parameter of a macro; the last one can stand for the rest of the arguments. -/
def IsParameter (chars : List Char) : Prop :=
  IsIdentifier chars ∨ ∃ name, (name = [] ∨ IsIdentifier name) ∧ chars = name ++ "...".toList

/-- A definition that the compiler reports. -/
structure MacroDefinition where
  ident : List Char
  parameters : Option (List (List Char))
  value : List Char
  hident : IsIdentifier ident
  hparameters : ∀ ps ∈ parameters, ∀ p ∈ ps, IsParameter p
  oneLine : '\n' ∉ value
  noNul : nul ∉ value

namespace MacroDefinition

/-- `NAME`, with the list of parameters. -/
def name (d : MacroDefinition) : List Char :=
  d.ident ++ d.parameters.elim [] fun ps => '(' :: ([','].intercalate ps ++ [')'])

/-- `#define NAME VALUE`. -/
def line (d : MacroDefinition) : List Char := defineStart ++ (d.name ++ ' ' :: d.value)

/-- `-DNAME=VALUE`. -/
def argument (d : MacroDefinition) : List Char := '-' :: 'D' :: (d.name ++ '=' :: d.value)

end MacroDefinition

/-- The output that reports definitions. -/
def definesOutput (defs : List MacroDefinition) : List Char := defs.flatMap fun d => d.line ++ ['\n']

/-! ## Search paths -/

/-- A line of output. -/
structure IsOutputLine (line : List Char) : Prop where
  ne_nil : line ≠ []
  oneLine : '\n' ∉ line
  noNul : nul ∉ line

/-- A line with a directory. -/
structure DirectoryLine where
  line : List Char
  isOutputLine : IsOutputLine line
  indented : line.head? = some ' ' ∨ line.head? = some '/'

/-- The output that reports a search path: lines, the one that starts the list, the directories, the line behind them
and further text. -/
structure SearchReport where
  before : List (List Char)
  start : List Char
  directories : List DirectoryLine
  stop : List Char
  after : List Char
  hbefore : ∀ line ∈ before, IsOutputLine line ∧ ¬ searchStart <:+: line
  hstart : IsOutputLine start ∧ searchStart <:+: start
  hstop : IsOutputLine stop ∧ ¬ (stop.head? = some ' ' ∨ stop.head? = some '/')
  hafter : nul ∉ after ∧ ¬ searchStart <:+: after

namespace SearchReport

def lines (r : SearchReport) : List (List Char) :=
  r.before ++ r.start :: (r.directories.map DirectoryLine.line ++ [r.stop])

def text (r : SearchReport) : List Char := r.lines.flatMap (· ++ ['\n']) ++ r.after

end SearchReport

/-! ## Lines -/

theorem splitPieces_line {sep : Char} {line : List Char} (hline : sep ∉ line) {piece : List Char}
    (hne : piece ++ line ≠ []) (rest : List Char) :
    splitPieces sep piece (line ++ sep :: rest) = (piece ++ line) :: splitPieces sep [] rest := by
  induction line generalizing piece with
  | nil =>
      rw [List.append_nil] at hne
      simp [splitPieces, hne]
  | cons c line ih =>
      rw [List.mem_cons, not_or] at hline
      have hc : ¬ (c = sep ∧ piece ≠ []) := fun h => hline.1 h.1.symm
      rw [List.cons_append, splitPieces, if_neg hc, ih hline.2 (by simp)]
      simp

theorem splitPieces_lines {lines : List (List Char)} (hlines : ∀ line ∈ lines, IsOutputLine line) (rest : List Char) :
    splitPieces '\n' [] (lines.flatMap (· ++ ['\n']) ++ rest) = lines ++ splitPieces '\n' [] rest := by
  induction lines with
  | nil => rfl
  | cons line lines ih =>
      rw [List.forall_mem_cons] at hlines
      rw [List.flatMap_cons, List.append_assoc, List.append_assoc, List.singleton_append,
        splitPieces_line hlines.1.oneLine (by simpa using hlines.1.ne_nil), ih hlines.2]
      rfl

/-- The pieces of a text are stretches of it. -/
theorem infix_of_mem_splitPieces {sep : Char} (piece chars : List Char) :
    ∀ p ∈ splitPieces sep piece chars, p <:+: piece ++ chars := by
  fun_induction splitPieces sep piece chars with
  | case1 piece => simp
  | case2 piece c cs hsep ih =>
      refine List.forall_mem_cons.mpr ⟨(List.prefix_append piece _).isInfix, fun p hp => ?_⟩
      exact (ih p hp).trans ((List.suffix_cons c cs).trans (List.suffix_append piece _)).isInfix
  | case3 piece c cs hsep ih =>
      intro p hp
      simpa using ih p hp

theorem nul_notMem_lines {lines : List (List Char)} (hlines : ∀ line ∈ lines, IsOutputLine line) :
    nul ∉ lines.flatMap (· ++ ['\n']) := by
  intro hmem
  obtain ⟨line, hline, hc⟩ := List.mem_flatMap.mp hmem
  rw [List.mem_append] at hc
  rcases hc with hc | hc
  · exact (hlines line hline).noNul hc
  · revert hc
    decide

/-- **An output is split into its lines.** -/
theorem splitString_lines {lines : List (List Char)} (hlines : ∀ line ∈ lines, IsOutputLine line) (hne : lines ≠ [])
    {rest : List Char} (hrest : nul ∉ rest) :
    splitString (lines.flatMap (· ++ ['\n']) ++ rest) '\n' = lines ++ splitPieces '\n' [] rest := by
  have hnul : nul ∉ lines.flatMap (· ++ ['\n']) ++ rest := by
    rw [List.mem_append, not_or]
    exact ⟨nul_notMem_lines hlines, hrest⟩
  have hpath : lines.flatMap (· ++ ['\n']) ++ rest ≠ [] := by
    obtain ⟨line, lines, rfl⟩ := List.exists_cons_of_ne_nil hne
    simp
  simp only [splitString, cString_eq_self hnul, if_neg hpath]
  exact splitPieces_lines hlines rest

/-! ## What is matched -/

theorem isNameChar_of_isIdentChar {c : Char} (h : isIdentChar c = true) : isNameChar c = true := by
  rw [isNameChar, ← isIdentChar, h]
  rfl

theorem IsIdentifier.isNameChar {chars : List Char} (h : IsIdentifier chars) : ∀ c ∈ chars, isNameChar c = true :=
  fun c hc => isNameChar_of_isIdentChar (h.2 c hc)

/-- The characters of a name: those of the expression, and those that only stand in lists of parameters. -/
def InName (c : Char) : Prop := isNameChar c = true ∨ c = ',' ∨ c = '.'

theorem IsParameter.inName {chars : List Char} (h : IsParameter chars) : ∀ c ∈ chars, InName c := by
  intro c hc
  rcases h with h | ⟨name, hname, rfl⟩
  · exact .inl (h.isNameChar c hc)
  · rcases List.mem_append.mp hc with hc | hc
    · rcases hname with rfl | hname
      · cases hc
      · exact .inl (hname.isNameChar c hc)
    · exact .inr (.inr (by simpa using hc))

namespace MacroDefinition

variable (d : MacroDefinition)

theorem inName : ∀ c ∈ d.name, InName c := by
  intro c hc
  rcases List.mem_append.mp hc with hc | hc
  · exact .inl (d.hident.isNameChar c hc)
  · cases hps : d.parameters with
    | none => simp [hps] at hc
    | some ps =>
        simp only [hps, Option.elim_some, List.mem_cons, List.mem_append, List.not_mem_nil, or_false] at hc
        rcases hc with rfl | hc | rfl
        · exact .inl (by decide)
        · exact forall_mem_intercalate (by simp [InName]) (fun p hp => (d.hparameters ps hps p hp).inName) c hc
        · exact .inl (by decide)

theorem blank_notMem_name : ' ' ∉ d.name := by
  intro h
  rcases d.inName ' ' h with h | h | h <;> revert h <;> decide

theorem nul_notMem_name : nul ∉ d.name := by
  intro h
  rcases d.inName nul h with h | h | h <;> revert h <;> decide

theorem exists_name : ∃ c rest, d.name = c :: rest ∧ isNameStart c = true := by
  obtain ⟨⟨c, hc, hstart⟩, -⟩ := d.hident
  obtain ⟨rest, hrest⟩ := List.head?_eq_some_iff.mp hc
  exact ⟨c, _, by rw [name, hrest]; rfl, hstart⟩

/-- A macro with at most one parameter, and without a variable number of arguments. -/
def Simple : Prop := ',' ∉ d.name ∧ '.' ∉ d.name

instance : Decidable d.Simple := inferInstanceAs (Decidable (_ ∧ _))

theorem simple_iff : d.Simple ↔ ∀ c ∈ d.name, isNameChar c = true := by
  constructor
  · rintro ⟨hcomma, hdot⟩ c hc
    rcases d.inName c hc with h | rfl | rfl
    · exact h
    · exact absurd hc hcomma
    · exact absurd hc hdot
  · intro h
    exact ⟨fun hc => absurd (h _ hc) (by decide), fun hc => absurd (h _ hc) (by decide)⟩

theorem isOutputLine : IsOutputLine d.line where
  ne_nil := by simp [line]
  oneLine := by
    intro h
    simp only [line, List.mem_append, List.mem_cons] at h
    rcases h with h | h | h | h
    · revert h
      decide
    · rcases d.inName _ h with h | h | h <;> revert h <;> decide
    · revert h
      decide
    · exact d.oneLine h
  noNul := by
    intro h
    simp only [line, List.mem_append, List.mem_cons] at h
    rcases h with h | h | h | h
    · revert h
      decide
    · exact d.nul_notMem_name h
    · revert h
      decide
    · exact d.noNul h

end MacroDefinition

/-- A blank splits a text in one way if what stands before it has none. -/
theorem append_blank_inj {xs ys xs' ys' : List Char} (hxs : ' ' ∉ xs) (hxs' : ' ' ∉ xs')
    (h : xs ++ ' ' :: ys = xs' ++ ' ' :: ys') : xs = xs' ∧ ys = ys' := by
  have hsplit : ∀ xs ys : List Char, ' ' ∉ xs → (xs ++ ' ' :: ys).takeWhile (· ≠ ' ') = xs := by
    intro xs ys hxs
    rw [List.takeWhile_append_of_pos]
    · simp
    · intro c hc
      simp only [decide_eq_true_eq]
      rintro rfl
      exact hxs hc
  obtain rfl : xs = xs' := by rw [← hsplit xs ys hxs, h, hsplit xs' ys' hxs']
  exact ⟨rfl, (List.cons.inj (List.append_cancel_left h)).2⟩

/-- What the groups of a match are. -/
structure DefineMatch (text name value : List Char) : Prop where
  text_eq : text = defineStart ++ (name ++ ' ' :: value)
  start : ∃ c rest, name = c :: rest ∧ isNameStart c = true
  chars : ∀ c ∈ name, isNameChar c = true

theorem blank_notMem_of_isNameChar {name : List Char} (h : ∀ c ∈ name, isNameChar c = true) : ' ' ∉ name :=
  fun hc => absurd (h _ hc) (by decide)

/-- **What is matched at the start of a text.** -/
theorem matchDefine_eq_some {text name value : List Char} :
    matchDefine text = some (name, value) ↔ DefineMatch text name value := by
  constructor
  · intro h
    unfold matchDefine at h
    split at h
    case isFalse => cases h
    case isTrue hdefine =>
      obtain ⟨rest, rfl⟩ := List.isPrefixOf_iff_prefix.mp hdefine
      have hdrop : (defineStart ++ rest).drop defineStart.length = rest := List.drop_left
      simp only [hdrop] at h
      split at h
      case isFalse => cases h
      case isTrue hhead =>
        split at h
        case h_2 => cases h
        case h_1 value' hvalue =>
          obtain ⟨rfl, rfl⟩ := Prod.mk.inj (Option.some.inj h)
          have hrest := List.takeWhile_append_dropWhile (p := isNameChar) (l := rest)
          rw [hvalue] at hrest
          refine ⟨by rw [hrest], ?_, fun c hc => List.mem_takeWhile_imp hc⟩
          -- the first character starts a name, so the name is not empty
          obtain ⟨c, hc, hstart⟩ := (Option.any_eq_true ..).mp hhead
          obtain ⟨tail, rfl⟩ := List.head?_eq_some_iff.mp hc
          have hname : isNameChar c = true := by simp [isNameChar, hstart]
          exact ⟨c, _, List.takeWhile_cons_of_pos hname, hstart⟩
  · rintro ⟨rfl, ⟨c, rest, rfl, hstart⟩, hchars⟩
    have hdefine : defineStart.isPrefixOf (defineStart ++ (c :: rest ++ ' ' :: value)) = true :=
      List.isPrefixOf_iff_prefix.mpr (List.prefix_append _ _)
    have hdrop : (defineStart ++ (c :: rest ++ ' ' :: value)).drop defineStart.length = c :: rest ++ ' ' :: value := List.drop_left
    unfold matchDefine
    rw [if_pos hdefine]
    simp only [hdrop]
    rw [if_pos (by simpa using hstart), List.dropWhile_append_of_pos hchars, List.takeWhile_append_of_pos hchars,
      List.dropWhile_cons_of_neg (by decide), List.takeWhile_cons_of_neg (by decide), List.append_nil]
    rfl

theorem DefineMatch.length {text name value : List Char} (h : DefineMatch text name value) :
    text.length = name.length + value.length + 9 := by
  have hstart : defineStart.length = 8 := rfl
  rw [h.text_eq, List.length_append, List.length_append, List.length_cons, hstart]
  omega

/-- What is found was matched somewhere. -/
theorem exists_suffix_of_findDefine {line name value : List Char} (h : findDefine line = some (name, value)) :
    ∃ text, text <:+ line ∧ DefineMatch text name value := by
  obtain ⟨text, htext, hmatch⟩ := List.exists_of_findSome?_eq_some h
  exact ⟨text, (List.mem_tails _ _).mp htext, matchDefine_eq_some.mp hmatch⟩

namespace MacroDefinition

variable (d : MacroDefinition)

theorem defineMatch_line (h : d.Simple) : DefineMatch d.line d.name d.value :=
  ⟨rfl, d.exists_name, d.simple_iff.mp h⟩

/-- A definition is matched in its place exactly if it is simple. -/
theorem matchDefine_line : matchDefine d.line = if d.Simple then some (d.name, d.value) else none := by
  split
  case isTrue h => exact matchDefine_eq_some.mpr (d.defineMatch_line h)
  case isFalse h =>
    rw [Option.eq_none_iff_forall_ne_some]
    rintro ⟨name, value⟩ hmatch
    have hmatch := matchDefine_eq_some.mp hmatch
    have htext := List.append_cancel_left hmatch.text_eq
    obtain ⟨hname, -⟩ := append_blank_inj d.blank_notMem_name (blank_notMem_of_isNameChar hmatch.chars) htext
    exact h (d.simple_iff.mpr (hname ▸ hmatch.chars))

theorem findDefine_line (h : d.Simple) : findDefine d.line = some (d.name, d.value) := by
  have htails : d.line.tails = d.line :: d.line.tail.tails := by
    rw [line, defineStart, List.cons_append, List.tails_cons]
    rfl
  rw [findDefine, htails, List.findSome?_cons, matchDefine_line, if_pos h]

/-- **What is found of a definition that is not simple** is behind its start, in its value. -/
theorem length_of_findDefine_line (h : ¬ d.Simple) {name value : List Char}
    (hfind : findDefine d.line = some (name, value)) : name.length + value.length + 3 ≤ d.name.length + d.value.length := by
  obtain ⟨text, htext, hmatch⟩ := exists_suffix_of_findDefine hfind
  have hlen := hmatch.length
  have hstart : defineStart.length = 8 := rfl
  obtain ⟨rest, rfl⟩ : ∃ rest, text = '#' :: rest := ⟨_, hmatch.text_eq⟩
  -- it does not start in the first three characters
  have hne : '#' :: rest ≠ d.line := by
    intro heq
    have hnone := d.matchDefine_line
    rw [if_neg h, ← heq, matchDefine_eq_some.mpr hmatch] at hnone
    cases hnone
  have hrest : '#' :: rest <:+ 'f' :: 'i' :: 'n' :: 'e' :: ' ' :: (d.name ++ ' ' :: d.value) := by
    obtain heq | htext := List.suffix_cons_iff.mp htext
    · exact absurd heq hne
    obtain heq | htext := List.suffix_cons_iff.mp htext
    · exact absurd (List.cons.inj heq).1 (by decide)
    obtain heq | htext := List.suffix_cons_iff.mp htext
    · exact absurd (List.cons.inj heq).1 (by decide)
    exact htext
  have hle := hrest.length_le
  simp only [List.length_cons, List.length_append] at hle hlen
  omega

end MacroDefinition

/-! ## The flag for a definition -/

theorem toNat_le_toNat {a c : Char} (h : a ≤ c) : a.toNat ≤ c.toNat := UInt32.le_iff_toNat_le.mp h

theorem isspace_eq_false {c : Char} (h : 40 ≤ c.toNat) : isspace c = false := by
  rw [← Bool.not_eq_true]
  intro hspace
  simp only [isspace, Bool.or_eq_true, Bool.and_eq_true, decide_eq_true_eq] at hspace
  rcases hspace with rfl | ⟨-, hspace⟩
  · exact absurd h (by decide)
  · exact absurd (h.trans (toNat_le_toNat hspace)) (by decide)

theorem le_toNat_of_isNameChar {c : Char} (h : isNameChar c = true) : 40 ≤ c.toNat := by
  simp only [isNameChar, isNameStart, Bool.or_eq_true, Bool.and_eq_true, decide_eq_true_eq] at h
  rcases h with ((((⟨h, -⟩ | ⟨h, -⟩) | rfl) | ⟨h, -⟩) | rfl) | rfl
  · exact Nat.le_trans (by decide) (toNat_le_toNat h)
  · exact Nat.le_trans (by decide) (toNat_le_toNat h)
  · decide
  · exact Nat.le_trans (by decide) (toNat_le_toNat h)
  · decide
  · decide

theorem isPlain_of_isNameChar {c : Char} (h : isNameChar c = true) : IsPlain c := by
  refine ⟨isspace_eq_false (le_toNat_of_isNameChar h), ?_, ?_, ?_, ?_⟩
  all_goals
    rintro rfl
    revert h
    decide

/-- The flag for a match. -/
def definitionFlag (name value : List Char) (hname : ∀ c ∈ name, isNameChar c = true) (hvalue : nul ∉ value) :
    QuotedFlag where
  lead := '-' :: 'D' :: (name ++ ['='])
  quoted := .single
  quote := '\''
  content := value
  opened := Quoted.openedBy_single
  plain := by
    have hother : IsPlain '-' ∧ IsPlain '=' := by
      constructor <;> exact ⟨by decide, by decide, by decide, by decide, by decide⟩
    simp only [List.mem_cons, List.mem_append, List.not_mem_nil, or_false]
    rintro c (rfl | rfl | hc | rfl)
    · exact hother.1
    · exact isPlain_of_isNameChar (by decide)
    · exact isPlain_of_isNameChar (hname c hc)
    · exact hother.2
  long := by simp
  noNul := hvalue

/-- `MACROS` and the blank behind it. -/
def MacroScan.leading (s : MacroScan) : List Char := if s.macros = [] then [] else s.macros ++ [' ']

namespace MacroDefinition

variable (d : MacroDefinition)

theorem groups_of_findDefine_line {name value : List Char} (h : findDefine d.line = some (name, value)) :
    (∀ c ∈ name, isNameChar c = true) ∧ nul ∉ value := by
  obtain ⟨text, htext, hmatch⟩ := exists_suffix_of_findDefine h
  refine ⟨hmatch.chars, fun hc => d.isOutputLine.noNul (htext.subset ?_)⟩
  rw [hmatch.text_eq]
  simp [hc]

/-- The flag that is written for a definition. -/
def flag : Option QuotedFlag :=
  match h : findDefine d.line with
  | none => none
  | some (name, value) =>
      if name = blocksName then none
      else some (definitionFlag name value (d.groups_of_findDefine_line h).1 (d.groups_of_findDefine_line h).2)

theorem flag_eq_none (h : findDefine d.line = none) : d.flag = none := by
  unfold flag
  split
  · rfl
  · simp_all

theorem flag_eq {name value : List Char} (h : findDefine d.line = some (name, value)) :
    d.flag = if name = blocksName then none
      else some (definitionFlag name value (d.groups_of_findDefine_line h).1 (d.groups_of_findDefine_line h).2) := by
  unfold flag
  split
  case h_1 hnone => rw [h] at hnone; cases hnone
  case h_2 name' value' hsome =>
    rw [h] at hsome
    obtain ⟨rfl, rfl⟩ := Prod.mk.inj (Option.some.inj hsome)
    rfl

/-- The argument that is expected for a definition, with the flag that is written. -/
def item : FlagItem := ⟨d.argument, d.flag⟩

/-- **A line with a definition** adds its flag. -/
theorem leading_addLine (s : MacroScan) : (s.addLine d.line).leading = s.leading ++ d.item.text := by
  cases hfind : findDefine d.line with
  | none => simp [MacroScan.addLine, hfind, item, FlagItem.text, d.flag_eq_none hfind]
  | some groups =>
      obtain ⟨name, value⟩ := groups
      by_cases hblocks : name = blocksName
      · simp only [MacroScan.addLine, hfind, if_pos hblocks, item, FlagItem.text, d.flag_eq hfind]
        simp
      · simp only [MacroScan.addLine, hfind, if_neg hblocks, item, FlagItem.text, d.flag_eq hfind, MacroScan.leading]
        by_cases hs : s.macros = [] <;> simp [hs, QuotedFlag.text, definitionFlag]

theorem length_argument : d.argument.length = d.name.length + d.value.length + 3 := by
  simp only [argument, List.length_cons, List.length_append]
  omega

theorem text_item {f : QuotedFlag} (h : d.flag = some f) : d.item.text.length = f.value.length + 3 := by
  simp only [item, FlagItem.text, h, Option.elim_some, List.length_append, f.length_text, List.length_cons,
    List.length_nil]

/-- The flag for a definition that is not simple is shorter than what is expected. -/
theorem length_flag (h : ¬ d.Simple) {f : QuotedFlag} (hf : d.flag = some f) :
    f.value.length + 3 ≤ d.argument.length := by
  cases hfind : findDefine d.line with
  | none => rw [d.flag_eq_none hfind] at hf; cases hf
  | some groups =>
      obtain ⟨name, value⟩ := groups
      have hlen := d.length_of_findDefine_line h hfind
      rw [d.flag_eq hfind] at hf
      split at hf
      · cases hf
      · obtain rfl := Option.some.inj hf
        rw [d.length_argument]
        simp only [QuotedFlag.value, definitionFlag, List.length_append, List.length_cons, List.length_nil]
        omega

/-- The value can stand between single quotes as it is. -/
def Unquoted : Prop := '\'' ∉ d.value ∧ '\\' ∉ d.value

instance : Decidable d.Unquoted := inferInstanceAs (Decidable (_ ∧ _))

theorem exists_flag (hsimple : d.Simple) (hblocks : d.name ≠ blocksName) :
    ∃ f, d.flag = some f ∧ f.value = d.argument ∧ (f.Literal ↔ d.Unquoted) := by
  have hflag := d.flag_eq (d.findDefine_line hsimple)
  rw [if_neg hblocks] at hflag
  refine ⟨_, hflag, by simp [QuotedFlag.value, definitionFlag, argument], ?_⟩
  constructor
  · intro h
    exact ⟨fun hc => (h _ hc).1 rfl, fun hc => (h _ hc).2 rfl⟩
  · rintro ⟨hquote, hescape⟩ c hc
    constructor
    · rintro rfl
      exact hquote hc
    · rintro rfl
      exact hescape hc

theorem fair_item (hblocks : d.name ≠ blocksName) : d.item.Fair := by
  by_cases hsimple : d.Simple
  · obtain ⟨f, hf, hvalue, -⟩ := d.exists_flag hsimple hblocks
    exact .inl ⟨f, hf, hvalue⟩
  · right
    cases hf : d.flag with
    | none => simp [item, FlagItem.text, hf]
    | some f =>
        rw [d.text_item hf]
        exact d.length_flag hsimple hf

/-- **A definition is read back** exactly if it is simple and its value needs no escapes. -/
theorem readBack_item_iff (hblocks : d.name ≠ blocksName) : d.item.ReadBack ↔ d.Simple ∧ d.Unquoted := by
  constructor
  · rintro ⟨f, hf, hvalue, hlit⟩
    have hsimple : d.Simple := by
      by_contra hsimple
      have hlen := d.length_flag hsimple hf
      have heq := congrArg List.length hvalue
      simp only [item] at heq
      omega
    obtain ⟨f', hf', -, hlit'⟩ := d.exists_flag hsimple hblocks
    obtain rfl := Option.some.inj (hf.symm.trans hf')
    exact ⟨hsimple, hlit'.mp hlit⟩
  · rintro ⟨hsimple, hvalue⟩
    obtain ⟨f, hf, hexpected, hlit⟩ := d.exists_flag hsimple hblocks
    exact ⟨f, hf, hexpected, hlit.mpr hvalue⟩

/-- For `__BLOCKS__` no flag is written. -/
theorem text_item_blocks (h : d.name = blocksName) : d.item.text = [] := by
  have hsimple : d.Simple := by
    rw [simple_iff, h]
    exact List.all_eq_true.mp (by decide)
  have hflag := d.flag_eq (d.findDefine_line hsimple)
  rw [if_pos h] at hflag
  simp [item, FlagItem.text, hflag]

end MacroDefinition

/-- The definitions other than that of `__BLOCKS__`. -/
def wanted (defs : List MacroDefinition) : List MacroDefinition := defs.filter fun d => d.name ≠ blocksName

theorem mem_wanted {defs : List MacroDefinition} {d : MacroDefinition} :
    d ∈ wanted defs ↔ d ∈ defs ∧ d.name ≠ blocksName := by
  rw [wanted, List.mem_filter, decide_eq_true_iff]

/-- The output that reports definitions is scanned line by line. -/
theorem scanMacros_definesOutput (defs : List MacroDefinition) :
    scanMacros (definesOutput defs) = (defs.map MacroDefinition.line).foldl MacroScan.addLine {} := by
  cases defs with
  | nil => rfl
  | cons d defs =>
      have hlines : ∀ line ∈ (d :: defs).map MacroDefinition.line, IsOutputLine line := by
        rw [List.forall_mem_map]
        exact fun d _ => d.isOutputLine
      have hnil : nul ∉ ([] : List Char) := by simp
      have hsplit := splitString_lines hlines (by simp) hnil
      have houtput : definesOutput (d :: defs) =
          ((d :: defs).map MacroDefinition.line).flatMap (· ++ ['\n']) ++ [] := by
        rw [List.append_nil, List.flatMap_map, definesOutput]
      rw [scanMacros, houtput, hsplit, List.foldl_append]
      rfl

/-- **What is written for the definitions.** -/
theorem leading_scanMacros (defs : List MacroDefinition) :
    (scanMacros (definesOutput defs)).leading = ((wanted defs).map MacroDefinition.item).flatMap FlagItem.text := by
  have hfold : ∀ (defs : List MacroDefinition) (s : MacroScan),
      ((defs.map MacroDefinition.line).foldl MacroScan.addLine s).leading =
        s.leading ++ ((wanted defs).map MacroDefinition.item).flatMap FlagItem.text := by
    intro defs
    induction defs with
    | nil => simp [wanted]
    | cons d defs ih =>
        intro s
        rw [List.map_cons, List.foldl_cons, ih, d.leading_addLine, List.append_assoc]
        congr 1
        by_cases hblocks : d.name = blocksName
        · rw [d.text_item_blocks hblocks, wanted, wanted, List.filter_cons_of_neg (by simpa using hblocks)]
          rfl
        · rw [wanted, wanted, List.filter_cons_of_pos (by simpa using hblocks)]
          rfl
  rw [scanMacros_definesOutput, hfold]
  rfl

/-! ## The flag for a directory -/

theorem nul_notMem_convertBackslashes {path : List Char} (h : nul ∉ path) : nul ∉ convertBackslashes path := by
  induction path with
  | nil => exact h
  | cons c cs ih =>
      rw [List.mem_cons, not_or] at h
      rw [convertBackslashes, List.mem_cons, not_or]
      refine ⟨?_, ih h.2⟩
      split
      · decide
      · exact h.1

theorem replaceDoubleSlashes_sublist (path : List Char) : (replaceDoubleSlashes path).Sublist path := by
  fun_induction replaceDoubleSlashes path with
  | case1 cs ih => exact (ih.cons '/').cons_cons '/'
  | case2 c cs hne ih => exact ih.cons_cons c
  | case3 => exact .slnil

theorem nul_notMem_expandHome (dirs : HomeDirectories) {path : List Char} (h : nul ∉ path) :
    nul ∉ expandHome dirs path := by
  have hrest : nul ∉ path.drop 1 := fun hc => h (List.mem_of_mem_drop hc)
  unfold expandHome
  split
  case isFalse => exact h
  case isTrue =>
    dsimp only
    split
    · cases hhome : dirs.home with
      | none => exact h
      | some home => simpa [home.noNul] using hrest
    · cases hdir : dirs.getpwnam ((path.drop 1).takeWhile (· ≠ '/')) with
      | none => exact h
      | some dir => simpa [dir.noNul] using fun hc => hrest ((List.dropWhile_suffix _).subset hc)

theorem nul_notMem_convertToUnixSlashes (dirs : HomeDirectories) {path : List Char} (h : nul ∉ path) :
    nul ∉ convertToUnixSlashes dirs path := by
  have hconverted := nul_notMem_convertBackslashes h
  unfold convertToUnixSlashes
  dsimp only
  have hreplaced : nul ∉ (if decide ("//".toList <:+: path.drop 1) = true then
      replaceDoubleSlashes (convertBackslashes path) else convertBackslashes path) := by
    split
    · exact fun hc => hconverted ((replaceDoubleSlashes_sublist _).subset hc)
    · exact hconverted
  have htrailing : ∀ path : List Char, nul ∉ path → nul ∉ (if 1 < path.length ∧ path.getLast? = some '/' ∧
      ¬ (path.length = 3 ∧ path[1]? = some ':') then path.dropLast else path) := by
    intro path hpath
    split
    · exact fun hc => hpath (List.mem_of_mem_dropLast hc)
    · exact hpath
  exact htrailing _ (nul_notMem_expandHome dirs hreplaced)

theorem nul_notMem_directoryText (dirs : HomeDirectories) (d : DirectoryLine) : nul ∉ directoryText dirs d.line :=
  nul_notMem_convertToUnixSlashes dirs fun hc => d.isOutputLine.noNul ((List.dropWhile_suffix _).subset hc)

instance (c : Char) : Decidable (IsPlain c) := inferInstanceAs (Decidable (_ ∧ _))

theorem plain_of_all {chars : List Char} (h : (chars.all fun c => decide (IsPlain c)) = true) :
    ∀ c ∈ chars, IsPlain c := fun c hc => of_decide_eq_true (List.all_eq_true.mp h c hc)

/-- The flag for a line with a directory. -/
def directoryFlag (dirs : HomeDirectories) (d : DirectoryLine) : QuotedFlag where
  lead := directoryOption (directoryText dirs d.line)
  quoted := .double
  quote := '"'
  content := directoryText dirs d.line
  opened := Quoted.openedBy_double
  plain := by
    unfold directoryOption
    split
    · exact plain_of_all (by decide)
    · exact plain_of_all (by decide)
  long := by
    unfold directoryOption
    split <;> decide
  noNul := nul_notMem_directoryText dirs d

/-- `INCLUDES` and the blank behind it. -/
def IncludeScan.leading (s : IncludeScan) : List Char := if s.includes = [] then [] else s.includes ++ [' ']

/-- **A line with a directory** adds its flag. -/
theorem addLine_directory (dirs : HomeDirectories) (d : DirectoryLine) {s : IncludeScan} (hs : s.collecting = true) :
    s.addLine dirs d.line = ⟨true, s.leading ++ (directoryFlag dirs d).text⟩ := by
  unfold IncludeScan.addLine
  rw [if_pos hs, if_pos d.indented]
  simp only [IncludeScan.leading, directoryFlag, QuotedFlag.text, hs]
  by_cases hincludes : s.includes = [] <;> simp [hincludes]

theorem leading_addLine_directory (dirs : HomeDirectories) (d : DirectoryLine) {s : IncludeScan}
    (hs : s.collecting = true) : (s.addLine dirs d.line).leading = s.leading ++ ((directoryFlag dirs d).text ++ [' ']) := by
  rw [addLine_directory dirs d hs, IncludeScan.leading, if_neg, List.append_assoc]
  simp [QuotedFlag.text]

/-- The run over the lines with directories. -/
theorem foldl_directories (dirs : HomeDirectories) (ds : List DirectoryLine) {s : IncludeScan}
    (hs : s.collecting = true) :
    ((ds.map DirectoryLine.line).foldl (IncludeScan.addLine dirs) s).collecting = true ∧
      ((ds.map DirectoryLine.line).foldl (IncludeScan.addLine dirs) s).leading =
        s.leading ++ ds.flatMap fun d => (directoryFlag dirs d).text ++ [' '] := by
  induction ds generalizing s with
  | nil => exact ⟨hs, by simp⟩
  | cons d ds ih =>
      have hnext : (s.addLine dirs d.line).collecting = true := by rw [addLine_directory dirs d hs]
      obtain ⟨hcollecting, hleading⟩ := ih hnext
      refine ⟨hcollecting, ?_⟩
      rw [List.map_cons, List.foldl_cons, hleading, leading_addLine_directory dirs d hs, List.flatMap_cons,
        List.append_assoc]

/-- Text without the start of a list is passed over. -/
theorem foldl_addLine_other (dirs : HomeDirectories) {lines : List (List Char)}
    (hlines : ∀ line ∈ lines, ¬ searchStart <:+: line) {s : IncludeScan} (hs : s.collecting = false) :
    lines.foldl (IncludeScan.addLine dirs) s = s := by
  induction lines with
  | nil => rfl
  | cons line lines ih =>
      rw [List.forall_mem_cons] at hlines
      have hskip : s.addLine dirs line = s := by
        unfold IncludeScan.addLine
        rw [if_neg (by simp [hs]), if_neg hlines.1]
      rw [List.foldl_cons, hskip, ih hlines.2]

theorem SearchReport.isOutputLine (r : SearchReport) : ∀ line ∈ r.lines, IsOutputLine line := by
  intro line hline
  simp only [lines, List.mem_append, List.mem_cons, List.mem_map, List.not_mem_nil, or_false] at hline
  rcases hline with h | rfl | ⟨d, -, rfl⟩ | rfl
  · exact (r.hbefore line h).1
  · exact r.hstart.1
  · exact d.isOutputLine
  · exact r.hstop.1

/-- **What is collected** from a report is what its directories add. -/
theorem scanIncludes_text (dirs : HomeDirectories) (r : SearchReport) :
    scanIncludes dirs r.text =
      ((r.directories.map DirectoryLine.line).foldl (IncludeScan.addLine dirs) ⟨true, []⟩).includes := by
  have hsplit : splitString r.text '\n' = r.lines ++ splitPieces '\n' [] r.after :=
    splitString_lines r.isOutputLine (by simp [SearchReport.lines]) r.hafter.1
  have hafter : ∀ piece ∈ splitPieces '\n' [] r.after, ¬ searchStart <:+: piece := by
    intro piece hpiece hsearch
    exact r.hafter.2 (hsearch.trans (infix_of_mem_splitPieces [] r.after piece hpiece))
  have hbefore := foldl_addLine_other dirs (fun line hline => (r.hbefore line hline).2) (s := {}) rfl
  have hstart : IncludeScan.addLine dirs {} r.start = ⟨true, []⟩ := by
    unfold IncludeScan.addLine
    rw [if_neg (by simp), if_pos r.hstart.2]
  have hcollecting := (foldl_directories dirs r.directories (s := ⟨true, []⟩) rfl).1
  rw [scanIncludes, hsplit, SearchReport.lines, List.foldl_append, List.foldl_append, hbefore, List.foldl_cons, hstart,
    List.foldl_append, List.foldl_cons, List.foldl_nil]
  generalize (r.directories.map DirectoryLine.line).foldl (IncludeScan.addLine dirs) ⟨true, []⟩ = s at hcollecting ⊢
  have hstop : s.addLine dirs r.stop = { s with collecting := false } := by
    unfold IncludeScan.addLine
    rw [if_pos hcollecting, if_neg r.hstop.2]
  rw [hstop, foldl_addLine_other dirs hafter rfl]

end GccXml

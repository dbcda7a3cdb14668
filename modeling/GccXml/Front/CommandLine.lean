import GccXml.Front.Precedence
import GccXml.Lib.CString
import GccXml.Lib.Pieces
import GccXml.Lib.Trim

namespace GccXml

/-! # `Front.CommandLine` — how the command line is divided up

`ProcessCommandLine` walks over the arguments by one or by two. The parts that it takes are described without it: an
option with its argument, an option at the end that misses one, or an argument that stands for itself.

The loop of the source keeps an index and reads the argument behind it when an option needs one. `commandParts` divides
the list by the same question, whether an argument takes another one, and no argument is taken twice or lost: the
arguments of the parts, one after the other, are the command line. `Partitioned` says what the parts make of the
members: each setting has the argument of the last option for it, each flag is raised by its options, and what is
passed to the compiler is what the parts give, in order. One pass of the loop does this for one part, and so the loop
does it for all.

One option needs care. The argument of `--gccxml-gcc-options` names a file with an argument on each line, and the
source cuts spaces and tabs off the ends, where its comment says white space. So a line with a carriage return at
its end gives another argument than it should. This is the condition of the last theorem, and nothing else goes wrong.
-/

/-! ## The parts of a command line -/

/-- A part of the command line. -/
inductive CommandPart
  /-- An argument that is no option with an argument, and no argument of one. -/
  | plain (arg : String)
  /-- An option with its argument. -/
  | option (name v : String)
  /-- An option that takes an argument, at the end of the command line. -/
  | incomplete (name : String)
  deriving DecidableEq

/-- The parts of a command line, in order. -/
def commandParts : List String → List CommandPart
  | [] => []
  | [arg] => if takesArgument arg then [.incomplete arg] else [.plain arg]
  | arg :: v :: rest =>
      if takesArgument arg then .option arg v :: commandParts rest else .plain arg :: commandParts (v :: rest)

/-- The arguments of a part. -/
def CommandPart.arguments : CommandPart → List String
  | plain arg => [arg]
  | option name v => [name, v]
  | incomplete name => [name]

/-- **No argument is taken twice or lost.** -/
theorem commandParts_arguments (argv : List String) : (commandParts argv).flatMap CommandPart.arguments = argv := by
  fun_induction commandParts argv with
  | case1 => rfl
  | case2 arg harg => rfl
  | case3 arg harg => rfl
  | case4 arg v rest harg ih =>
      rw [List.flatMap_cons, ih]
      rfl
  | case5 arg v rest harg ih =>
      rw [List.flatMap_cons, ih]
      rfl

/-! ## What the parts stand for -/

/-- The settings that an option gives. -/
def commandSettings : List (String × (Configuration → String)) :=
  [("--gccxml-compiler", (·.gccxmlCompiler)), ("--gccxml-cxxflags", (·.gccxmlCxxflags)),
    ("--gccxml-executable", (·.gccxmlExecutable)), ("--gccxml-cpp", (·.gccxmlCpp)),
    ("--gccxml-config", (·.gccxmlConfig)), ("--gccxml-root", (·.gccxmlRoot))]

/-- The flags, each with the options that raise it. -/
def commandFlags : List (List String × (Configuration → Bool)) :=
  [(["--help"], (·.helpFlag)), (["--version"], (·.versionFlag)), (["--print"], (·.printFlag)),
    (["--preprocess", "-E"], (·.preprocessFlag)), (["--debug"], (·.debugFlag)), (["--man"], (·.manFlag)),
    (["--copyright"], (·.copyrightFlag)), (["--help-html"], (·.helpHTMLFlag))]

/-- The options that are not passed on, although they take no argument. -/
def keptOptions : List String := commandFlags.flatMap (·.1) ++ ["-c"]

/-- The argument on a line of an options file, without the blanks around it; a comment or an empty line has none. -/
def lineArgument (blank : Char → Bool) (line : List Char) : Option String :=
  let option := trim blank line
  if option ≠ [] ∧ option.head? ≠ some '#' then some (String.ofList option) else none

/-- The arguments for the compiler that a part gives. -/
def passedArguments (host : Host) (blank : Char → Bool) : CommandPart → List String
  | .plain arg => if arg ∈ keptOptions then [] else [arg]
  | .option "-o" v => ["-fxml=" ++ v]
  | .option "--gccxml-gcc-options" fname =>
      (splitLines ((host.openFile fname).getD [])).flatMap fun line => (lineArgument blank line).toList
  | .option _ _ => []
  | .incomplete _ => []

/-- Every option has its argument, and every options file can be opened. -/
def CompleteCommand (host : Host) (argv : List String) : Prop :=
  ∀ part ∈ commandParts argv, (∀ name, part ≠ .incomplete name) ∧
    ∀ fname, part = .option "--gccxml-gcc-options" fname → (host.openFile fname).isSome = true

/-- What a command line makes of the members: the arguments are those of its parts, with `blank` the characters that
are cut off in an options file, a setting has the argument of the last option for it, and a flag is raised by its
options. -/
structure Partitioned (host : Host) (blank : Char → Bool) (argv : List String) (s s' : Configuration) : Prop where
  arguments : s'.arguments = s.arguments ++ (commandParts argv).flatMap (passedArguments host blank)
  setting : ∀ f ∈ commandSettings, f.2 s' = (lastArgument f.1 argv).getD (f.2 s)
  haveCxxflags : s'.haveGccxmlCxxflags = (s.haveGccxmlCxxflags || (lastArgument "--gccxml-cxxflags" argv).isSome)
  flag : ∀ f ∈ commandFlags, f.2 s' = true ↔ f.2 s = true ∨ ∃ option ∈ f.1, .plain option ∈ commandParts argv

/-- The blanks of `find_first_not_of (" \t")`. -/
def isOptionBlank (c : Char) : Bool := c = ' ' ∨ c = '\t'

/-! ## One part -/

namespace Configuration

theorem readArgumentFile_arguments {host : Host} {fname : String} {s s' : Configuration}
    (h : readArgumentFile host fname s = .ok s') :
    s' = { s with arguments :=
      s.arguments ++ passedArguments host isOptionBlank (.option "--gccxml-gcc-options" fname) } := by
  unfold readArgumentFile at h
  cases hopen : host.openFile fname with
  | none => rw [hopen] at h; cases h
  | some text =>
      rw [hopen] at h
      cases h
      -- the source reads, trims and skips line by line; the parts take each line by itself
      have hline : ∀ lines : List (List Char),
          ((lines.map (trim isOptionBlank)).filter fun option => option ≠ [] ∧ option.head? ≠ some '#').map
              String.ofList =
            lines.flatMap fun line => (lineArgument isOptionBlank line).toList := by
        intro lines
        induction lines with
        | nil => rfl
        | cons line lines ih =>
            rw [List.map_cons, List.filter_cons, List.flatMap_cons, ← ih]
            unfold lineArgument
            by_cases hkept : trim isOptionBlank line ≠ [] ∧ (trim isOptionBlank line).head? ≠ some '#'
            · rw [if_pos hkept, if_pos (decide_eq_true hkept)]
              rfl
            · rw [if_neg hkept, if_neg (decide_eq_true_iff.not.mpr hkept)]
              rfl
      simp only [passedArguments, hopen, Option.getD_some]
      rw [← hline]
      rfl

/-- What an option with its argument changes. -/
structure OptionTaken (host : Host) (arg v : String) (s s' : Configuration) : Prop where
  arguments : s'.arguments = s.arguments ++ passedArguments host isOptionBlank (.option arg v)
  setting : ∀ f ∈ commandSettings, f.2 s' = if f.1 = arg then v else f.2 s
  haveCxxflags : s'.haveGccxmlCxxflags = (s.haveGccxmlCxxflags || arg = "--gccxml-cxxflags")
  flag : ∀ f ∈ commandFlags, f.2 s' = f.2 s

theorem optionTaken {host : Host} {s s' : Configuration} {arg v : String}
    {option : String → Except String Configuration} (h : optionWithArgument host s arg = some option)
    (hv : option v = .ok s') : OptionTaken host arg v s s' := by
  unfold optionWithArgument at h
  split at h
  case h_7 =>
    obtain rfl := Option.some.inj h
    obtain rfl := readArgumentFile_arguments hv
    exact ⟨rfl, by simp [commandSettings], by simp, by simp [commandFlags]⟩
  case h_8 =>
    obtain rfl := Option.some.inj h
    cases hv
    exact ⟨rfl, by simp [commandSettings], by simp, by simp [commandFlags]⟩
  case h_9 => cases h
  all_goals
    obtain rfl := Option.some.inj h
    cases hv
    exact ⟨(List.append_nil _).symm, by simp [commandSettings], by simp, by simp [commandFlags]⟩

/-- What an argument that stands for itself changes. -/
structure PlainTaken (host : Host) (arg : String) (s s' : Configuration) : Prop where
  arguments : s'.arguments = s.arguments ++ passedArguments host isOptionBlank (.plain arg)
  setting : ∀ f ∈ commandSettings, f.2 s' = f.2 s
  haveCxxflags : s'.haveGccxmlCxxflags = s.haveGccxmlCxxflags
  flag : ∀ f ∈ commandFlags, f.2 s' = true ↔ f.2 s = true ∨ arg ∈ f.1

theorem plainTaken (host : Host) (s : Configuration) (arg : String) : PlainTaken host arg s (plainOption s arg) := by
  unfold plainOption
  split
  case h_11 =>
    have hkept : arg ∉ keptOptions := by simp_all [keptOptions, commandFlags]
    refine ⟨?_, by simp [commandSettings], rfl, ?_⟩
    · rw [passedArguments, if_neg hkept]
    · intro f hf
      have hnot : arg ∉ f.1 := fun harg => hkept (List.mem_append_left _ (List.mem_flatMap.mpr ⟨f, hf, harg⟩))
      simp only [commandFlags, List.mem_cons, List.not_mem_nil, or_false] at hf
      rcases hf with rfl | rfl | rfl | rfl | rfl | rfl | rfl | rfl <;> simp [hnot]
  all_goals exact ⟨(List.append_nil _).symm, by simp [commandSettings], rfl, by simp [commandFlags]⟩

/-! ## The whole command line -/

theorem lastArgument_plain {arg : String} (harg : takesArgument arg = false) (option : String) (rest : List String) :
    lastArgument option (arg :: rest) = lastArgument option rest := by
  cases rest with
  | nil => rfl
  | cons v rest =>
      rw [lastArgument_cons, harg]
      rfl

/-- An argument that stands for itself, in front of a command line. -/
theorem partitioned_plain {host : Host} {arg : String} {rest : List String} {s s₁ s' : Configuration}
    (harg : takesArgument arg = false) (hparts : commandParts (arg :: rest) = .plain arg :: commandParts rest)
    (h : PlainTaken host arg s s₁) (hrest : Partitioned host isOptionBlank rest s₁ s') :
    Partitioned host isOptionBlank (arg :: rest) s s' where
  arguments := by
    rw [hrest.arguments, h.arguments, hparts, List.flatMap_cons, List.append_assoc]
  setting f hf := by rw [hrest.setting f hf, h.setting f hf, lastArgument_plain harg]
  haveCxxflags := by rw [hrest.haveCxxflags, h.haveCxxflags, lastArgument_plain harg]
  flag f hf := by
    rw [hrest.flag f hf, h.flag f hf, hparts, or_assoc]
    refine or_congr_right ?_
    constructor
    · rintro (hmem | ⟨option, hoption, hmem⟩)
      · exact ⟨arg, hmem, List.mem_cons_self⟩
      · exact ⟨option, hoption, List.mem_cons_of_mem _ hmem⟩
    · rintro ⟨option, hoption, hmem⟩
      rcases List.mem_cons.mp hmem with hsame | hmem
      · rw [CommandPart.plain.injEq] at hsame
        exact .inl (hsame ▸ hoption)
      · exact .inr ⟨option, hoption, hmem⟩

/-- An option with its argument, in front of a command line. -/
theorem partitioned_option {host : Host} {arg v : String} {rest : List String} {s s₁ s' : Configuration}
    (harg : takesArgument arg = true) (h : OptionTaken host arg v s s₁)
    (hrest : Partitioned host isOptionBlank rest s₁ s') :
    Partitioned host isOptionBlank (arg :: v :: rest) s s' := by
  have hparts : commandParts (arg :: v :: rest) = .option arg v :: commandParts rest := by
    rw [commandParts, if_pos harg]
  have hlast : ∀ option, lastArgument option (arg :: v :: rest) =
      (lastArgument option rest).or (if arg = option then some v else none) := by
    intro option
    rw [lastArgument_cons, if_pos harg]
  constructor
  case arguments => rw [hrest.arguments, h.arguments, hparts, List.flatMap_cons, List.append_assoc]
  case setting =>
    intro f hf
    -- a later occurrence wins, so this one counts only when the rest gives none
    rw [hrest.setting f hf, h.setting f hf, hlast]
    cases lastArgument f.1 rest with
    | some w => rfl
    | none =>
        by_cases hsame : f.1 = arg
        · simp [hsame]
        · simp [hsame, Ne.symm hsame]
  case haveCxxflags =>
    rw [hrest.haveCxxflags, h.haveCxxflags, hlast, Bool.or_assoc]
    congr 1
    cases lastArgument "--gccxml-cxxflags" rest with
    | some w => simp
    | none => by_cases hsame : arg = "--gccxml-cxxflags" <;> simp [hsame]
  case flag =>
    intro f hf
    rw [hrest.flag f hf, h.flag f hf, hparts]
    simp

/-- **`ProcessCommandLine` takes the parts of the command line** one after the other, with the blanks of an options
file as the code has them. -/
theorem processCommandLine_partitioned {host : Host} {argv : List String} {s s' : Configuration}
    (h : processCommandLine host s argv = .ok s') : Partitioned host isOptionBlank argv s s' := by
  fun_induction processCommandLine host s argv with
  | case1 s =>
      cases h
      refine ⟨(List.append_nil _).symm, fun _ _ => rfl, ?_, ?_⟩
      · exact (Bool.or_false _).symm
      · simp [commandParts]
  | case2 s arg option hoption => cases h
  | case3 s arg hoption =>
      cases h
      have harg : takesArgument arg = false := by rw [takesArgument_iff host s, hoption]; rfl
      have hnil : Partitioned host isOptionBlank [] (plainOption s arg) (plainOption s arg) :=
        ⟨(List.append_nil _).symm, fun _ _ => rfl, (Bool.or_false _).symm, by simp [commandParts]⟩
      refine partitioned_plain harg ?_ (plainTaken host s arg) hnil
      simp [commandParts, harg]
  | case4 s arg v rest option hoption s₁ hs₁ ih =>
      have harg : takesArgument arg = true := by rw [takesArgument_iff host s, hoption]; rfl
      exact partitioned_option harg (optionTaken hoption hs₁) (ih h)
  | case5 s arg v rest option hoption message hmessage => cases h
  | case6 s arg v rest hoption ih =>
      have harg : takesArgument arg = false := by rw [takesArgument_iff host s, hoption]; rfl
      refine partitioned_plain harg ?_ (plainTaken host s arg) (ih h)
      rw [commandParts, harg]
      rfl

theorem readArgumentFile_ok_iff (host : Host) (fname : String) (s : Configuration) :
    (∃ s', readArgumentFile host fname s = .ok s') ↔ (host.openFile fname).isSome = true := by
  unfold readArgumentFile
  cases host.openFile fname with
  | none => exact iff_of_false (fun ⟨_, h⟩ => nomatch h) (by decide)
  | some text => exact iff_of_true ⟨_, rfl⟩ rfl

/-- An option fails only for an options file that cannot be opened. -/
theorem option_ok_iff {host : Host} {s : Configuration} {arg : String} {option : String → Except String Configuration}
    (h : optionWithArgument host s arg = some option) (v : String) :
    (∃ s', option v = .ok s') ↔ (arg = "--gccxml-gcc-options" → (host.openFile v).isSome = true) := by
  unfold optionWithArgument at h
  split at h
  case h_7 =>
    obtain rfl := Option.some.inj h
    rw [readArgumentFile_ok_iff]
    simp
  case h_9 => cases h
  all_goals
    obtain rfl := Option.some.inj h
    simp

/-- **`ProcessCommandLine` succeeds** on the command lines that are complete. -/
theorem processCommandLine_ok_iff (host : Host) (argv : List String) (s : Configuration) :
    (∃ s', processCommandLine host s argv = .ok s') ↔ CompleteCommand host argv := by
  unfold CompleteCommand
  fun_induction processCommandLine host s argv with
  | case1 s => simp [commandParts]
  -- an option at the end of the command, with no argument behind it
  | case2 s arg option hoption =>
      have harg : takesArgument arg = true := by rw [takesArgument_iff host s, hoption]; rfl
      simp [commandParts, harg]
  | case3 s arg hoption =>
      have harg : takesArgument arg = false := by rw [takesArgument_iff host s, hoption]; rfl
      simp [commandParts, harg]
  | case4 s arg v rest option hoption s₁ hs₁ ih =>
      have harg : takesArgument arg = true := by rw [takesArgument_iff host s, hoption]; rfl
      have hopen := (option_ok_iff hoption v).mp ⟨s₁, hs₁⟩
      rw [ih, commandParts, if_pos harg, List.forall_mem_cons]
      refine (and_iff_right ⟨by simp, fun fname hsame => ?_⟩).symm
      obtain ⟨hname, rfl⟩ := CommandPart.option.inj hsame
      exact hopen hname
  | case5 s arg v rest option hoption message hmessage =>
      have harg : takesArgument arg = true := by rw [takesArgument_iff host s, hoption]; rfl
      -- the only option that fails is the one whose file does not open
      have hclosed : ¬ (arg = "--gccxml-gcc-options" → (host.openFile v).isSome = true) := by
        rw [← option_ok_iff hoption v, hmessage]
        simp
      rw [commandParts, if_pos harg, List.forall_mem_cons]
      simp only [not_forall] at hclosed
      obtain ⟨rfl, hclosed⟩ := hclosed
      simp [hclosed]
  | case6 s arg v rest hoption ih =>
      have harg : takesArgument arg = false := by rw [takesArgument_iff host s, hoption]; rfl
      rw [ih, commandParts, harg]
      simp

/-! ## White space in an options file -/

/-- A line of an options file around which no white space is left when the spaces and tabs are cut off, or that is a
comment. -/
def LineTrimmed (line : List Char) : Prop :=
  (trim isOptionBlank line).head? = some '#' ∨ Trim.Trimmed isspace (trim isOptionBlank line)

theorem isspace_of_isOptionBlank (c : Char) (hc : isOptionBlank c = true) : isspace c = true := by
  simp only [isOptionBlank, decide_eq_true_eq] at hc
  rcases hc with rfl | rfl <;> rfl

theorem lineArgument_eq_some {blank : Char → Bool} {line : List Char} {option : String} :
    lineArgument blank line = some option ↔
      (trim blank line ≠ [] ∧ (trim blank line).head? ≠ some '#') ∧ String.ofList (trim blank line) = option := by
  unfold lineArgument
  by_cases hkept : trim blank line ≠ [] ∧ (trim blank line).head? ≠ some '#'
  · rw [if_pos hkept, Option.some.injEq, and_iff_right hkept]
  · rw [if_neg hkept]
    exact iff_of_false (fun h => nomatch h) fun h => hkept h.1

theorem lineArgument_eq_none_of_comment {blank : Char → Bool} {line : List Char}
    (h : (trim blank line).head? = some '#') : lineArgument blank line = none := by
  unfold lineArgument
  exact if_neg fun hkept => hkept.2 h

/-- A comment for the code is one for every notion of white space. -/
theorem head?_trim_isspace {line : List Char} (h : (trim isOptionBlank line).head? = some '#') :
    (trim isspace line).head? = some '#' := by
  rw [← Trim.trim_of_trim isspace_of_isOptionBlank]
  exact Trim.head?_trim h (by decide)

/-- A line without its white space gives an argument only if the code takes one from it. -/
theorem lineArgument_isSome {line : List Char} {option : String} (h : lineArgument isspace line = some option) :
    ∃ option', lineArgument isOptionBlank line = some option' := by
  obtain ⟨⟨hne, hcomment⟩, -⟩ := lineArgument_eq_some.mp h
  refine ⟨_, lineArgument_eq_some.mpr ⟨⟨?_, fun hcode => hcomment (head?_trim_isspace hcode)⟩, rfl⟩⟩
  intro hnil
  rw [← Trim.trim_of_trim isspace_of_isOptionBlank, hnil] at hne
  exact hne rfl

/-- **One line.** The code takes the argument of a line as it should, if and only if no white space is left at the ends
or the line is a comment. -/
theorem lineArgument_eq_iff (line : List Char) :
    lineArgument isOptionBlank line = lineArgument isspace line ↔ LineTrimmed line := by
  unfold LineTrimmed
  by_cases hcomment : (trim isOptionBlank line).head? = some '#'
  · rw [lineArgument_eq_none_of_comment hcomment, lineArgument_eq_none_of_comment (head?_trim_isspace hcomment)]
    exact iff_of_true rfl (.inl hcomment)
  · rw [or_iff_right hcomment, ← Trim.trim_eq_trim_iff isspace_of_isOptionBlank]
    constructor
    · intro heq
      by_cases hnil : trim isOptionBlank line = []
      · rw [← Trim.trim_of_trim isspace_of_isOptionBlank, hnil]
        rfl
      · have hcode : lineArgument isOptionBlank line = some (String.ofList (trim isOptionBlank line)) :=
          if_pos ⟨hnil, hcomment⟩
        obtain ⟨-, hsame⟩ := lineArgument_eq_some.mp (heq.symm.trans hcode)
        exact String.ofList_injective hsame
    · intro hsame
      rw [lineArgument, lineArgument, hsame]

theorem length_passedArguments_le (host : Host) (part : CommandPart) :
    (passedArguments host isspace part).length ≤ (passedArguments host isOptionBlank part).length := by
  unfold passedArguments
  split
  case h_3 fname =>
    refine length_flatMap_le fun line _ => ?_
    cases hspace : lineArgument isspace line with
    | none => exact Nat.zero_le _
    | some option =>
        obtain ⟨option', hcode⟩ := lineArgument_isSome hspace
        rw [hcode]
        exact Nat.le_refl 1
  all_goals exact Nat.le_refl _

/-- **One part** gives the arguments that it should, if and only if every line of its options file is trimmed. -/
theorem passedArguments_eq_iff (host : Host) (part : CommandPart) :
    passedArguments host isOptionBlank part = passedArguments host isspace part ↔
      ∀ fname text, part = .option "--gccxml-gcc-options" fname → host.openFile fname = some text →
        ∀ line ∈ splitLines text, LineTrimmed line := by
  -- trimming more never makes an argument longer, so the two lists agree only line by line
  have hline : ∀ line, (lineArgument isspace line).toList.length ≤ (lineArgument isOptionBlank line).toList.length := by
    intro line
    cases hspace : lineArgument isspace line with
    | none => exact Nat.zero_le _
    | some option =>
        obtain ⟨option', hcode⟩ := lineArgument_isSome hspace
        rw [hcode]
        exact Nat.le_refl 1
  have htoList : ∀ line, (lineArgument isOptionBlank line).toList = (lineArgument isspace line).toList ↔
      LineTrimmed line := by
    intro line
    rw [← lineArgument_eq_iff]
    exact ⟨fun h => by simpa using congrArg List.head? h, fun h => by rw [h]⟩
  unfold passedArguments
  split
  case h_3 fname =>
    rw [flatMap_eq_iff fun line _ => hline line]
    simp only [htoList]
    constructor
    · intro h fname' text hsame hopen
      obtain ⟨-, rfl⟩ := CommandPart.option.inj hsame
      rw [hopen] at h
      exact h
    · intro h
      cases hopen : host.openFile fname with
      | none =>
          have hnil : splitLines [] = [] := rfl
          simp [hnil]
      | some text => exact h fname text rfl hopen
  case h_4 name v hout hoptions =>
    refine iff_of_true rfl fun fname text hpart => ?_
    obtain ⟨hname, rfl⟩ := CommandPart.option.inj hpart
    exact absurd hname hoptions
  all_goals exact iff_of_true rfl (by simp)

/-- **The command line is divided up as documented**: every argument is in exactly one of its parts, it is accepted if
it is complete, and then each member has what the parts of the command line give it. -/
def DividesCommandLine (host : Host) (argv : List String) : Prop :=
  (commandParts argv).flatMap CommandPart.arguments = argv ∧
    ((∃ s, processCommandLine host {} argv = .ok s) ↔ CompleteCommand host argv) ∧
    ∀ s, processCommandLine host {} argv = .ok s → Partitioned host isspace argv {} s

/-- **When a command line is divided up as documented.** Every accepted command line gives the members what its parts
stand for, if and only if in each of its options files the only white space around an argument are spaces and tabs. -/
theorem dividesCommandLine_iff (host : Host) (argv : List String) :
    DividesCommandLine host argv ↔
      (CompleteCommand host argv → ∀ fname text, .option "--gccxml-gcc-options" fname ∈ commandParts argv →
        host.openFile fname = some text → ∀ line ∈ splitLines text, LineTrimmed line) := by
  have hparts : (commandParts argv).flatMap (passedArguments host isOptionBlank) =
      (commandParts argv).flatMap (passedArguments host isspace) ↔
        ∀ fname text, .option "--gccxml-gcc-options" fname ∈ commandParts argv →
          host.openFile fname = some text → ∀ line ∈ splitLines text, LineTrimmed line := by
    rw [flatMap_eq_iff fun part _ => length_passedArguments_le host part]
    simp only [passedArguments_eq_iff]
    constructor
    · exact fun h fname text hmem => h _ hmem fname text rfl
    · rintro h part hmem fname text rfl
      exact h fname text hmem
  rw [← hparts]
  constructor
  · rintro ⟨-, hok, hdivided⟩ hcomplete
    obtain ⟨s, hs⟩ := hok.mpr hcomplete
    have hcode := (processCommandLine_partitioned hs).arguments
    rw [(hdivided s hs).arguments] at hcode
    exact (List.append_cancel_left hcode).symm
  · intro hsame
    refine ⟨commandParts_arguments argv, processCommandLine_ok_iff host argv {}, fun s hs => ?_⟩
    have hcomplete := (processCommandLine_ok_iff host argv {}).mp ⟨s, hs⟩
    obtain ⟨harguments, hsetting, hhave, hflag⟩ := processCommandLine_partitioned hs
    exact ⟨hsame hcomplete ▸ harguments, hsetting, hhave, hflag⟩

/-! ### An options file with carriage returns -/

/-- A host with an options file whose line ends with a carriage return. -/
def carriageReturnHost : Host where
  getEnv _ := none
  fileExists name := name = "f"
  openFile name := if name = "f" then some ['a', '\r', '\n'] else none
  collapseDirectory name := name
  dataRoot := "/usr/share/gccxml"
  runningInBuildTree := false

/-- The carriage return stays in the argument. -/
theorem not_dividesCommandLine_carriageReturn :
    ∃ s, processCommandLine carriageReturnHost {} ["--gccxml-gcc-options", "f"] = .ok s ∧ s.arguments = ["a\r"] ∧
      ¬ DividesCommandLine carriageReturnHost ["--gccxml-gcc-options", "f"] := by
  refine ⟨_, rfl, rfl, fun hdivides => ?_⟩
  have harguments := (hdivides.2.2 _ rfl).arguments
  revert harguments
  decide

end Configuration

end GccXml

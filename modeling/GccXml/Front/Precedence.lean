import GccXml.Front.Configuration

namespace GccXml

/-! # `Front.Precedence` — which source a setting comes from

A source gives a value to some settings: the command line, the environment, a line of a configuration file, the file
with all its lines one behind the other, and for the compiler and its flags the variables `CXX` and `CXXFLAGS`. The
documented precedence (`documentedSources`) is a list of sources, and the value of a setting is that of the first
source that gives one.

Each step of `Configure` puts one source behind those already used: `setting?_processCommandLine`,
`setting?_checkEnvironment`, `setting?_checkConfigFile` and `setting?_checkCxxEnvironment`, one lemma each. What
`ReadConfigFile` takes from a file is only what its loop gets of it (`readConfigSource`), which need not be the whole
file; `Front.Documented` puts the steps together and says when the documented order comes out. -/

/-! ## Settings and sources -/

/-- The settings that a source can give. -/
inductive Setting
  | compiler | cxxflags | executable | cpp | root | flags | userFlags
  deriving DecidableEq

namespace Setting

/-- The name of the environment variable, and of the key in a configuration file. -/
def name : Setting → String
  | compiler => "GCCXML_COMPILER"
  | cxxflags => "GCCXML_CXXFLAGS"
  | executable => "GCCXML_EXECUTABLE"
  | cpp => "GCCXML_CPP"
  | root => "GCCXML_ROOT"
  | flags => "GCCXML_FLAGS"
  | userFlags => "GCCXML_USER_FLAGS"

/-- The command-line option. -/
def option? : Setting → Option String
  | compiler => some "--gccxml-compiler"
  | cxxflags => some "--gccxml-cxxflags"
  | executable => some "--gccxml-executable"
  | cpp => some "--gccxml-cpp"
  | root => some "--gccxml-root"
  | flags | userFlags => none

/-- The value that counts as given: for most settings an empty value is none. -/
def given (k : Setting) (value : Option String) : Option String :=
  if k = cxxflags then value else value.filter (· ≠ "")

end Setting

/-- What a source gives. -/
abbrev Source := Setting → Option String

/-- **The documented value** of a setting: that of the first source that gives one. -/
def firstGiven (sources : List Source) (k : Setting) : Option String := sources.findSome? fun source => source k

@[simp] theorem firstGiven_nil (k : Setting) : firstGiven [] k = none := rfl

@[simp] theorem firstGiven_cons (source : Source) (sources : List Source) (k : Setting) :
    firstGiven (source :: sources) k = (source k).or (firstGiven sources k) := by
  unfold firstGiven
  rw [List.findSome?_cons]
  cases source k <;> rfl

/-- The options of `ProcessCommandLine` that take an argument. -/
def takesArgument (arg : String) : Bool :=
  arg ∈ ["--gccxml-compiler", "--gccxml-cxxflags", "--gccxml-executable", "--gccxml-cpp", "--gccxml-config",
    "--gccxml-root", "--gccxml-gcc-options", "-o"]

/-- The options on the command line that take an argument, each with its argument. -/
def givenOptions : List String → List (String × String)
  | arg :: v :: rest => if takesArgument arg then (arg, v) :: givenOptions rest else givenOptions (v :: rest)
  | _ => []

/-- The argument of the last option `option` on the command line. -/
def lastArgument (option : String) (argv : List String) : Option String :=
  (((givenOptions argv).filter fun given => given.1 = option).getLast?).map (·.2)

/-- The command line as a source. -/
def commandLine (argv : List String) : Source := fun k => k.given (k.option?.bind fun option => lastArgument option argv)

/-- The environment as a source. -/
def environment (host : Host) : Source := fun k => k.given (host.getEnv k.name)

/-- The variables `CXX` and `CXXFLAGS` as a source. -/
def cxxEnvironment (host : Host) : Source
  | .compiler => Setting.given .compiler (host.getEnv "CXX")
  | .cxxflags => host.getEnv "CXXFLAGS"
  | _ => none

/-- What a line of a configuration file gives. -/
def lineSource (line : List Char) : Source := fun k =>
  match parseConfigLine line with
  | .setting key value => if key = k.name then k.given (some value) else none
  | _ => none

/-- A configuration file as a source, with all its lines one behind the other; nothing comes from a file that cannot be
opened. -/
def configFile (host : Host) (name : String) : Source :=
  firstGiven ((((host.openFile name).map splitLines).getD []).map lineSource)

/-- The lines of a configuration file that the loop of `ReadConfigFile` gets, as a source. -/
def readConfigSource (host : Host) (name : String) : Source :=
  firstGiven ((((host.openFile name).map configLines).getD []).map lineSource)

/-- The configuration file that the command line names. An empty name names none, as the comment in `Configure` has
    it. -/
def configOption (argv : List String) : String := (lastArgument "--gccxml-config" argv).getD ""

/-- The configuration file of `GCCXML_CONFIG`, or the one that is found. -/
def foundConfigFile (host : Host) : Option String :=
  ((host.getEnv "GCCXML_CONFIG").filter (· ≠ "")).or (findConfigFile host)

/-- **The documented order of the sources.** -/
def documentedSources (host : Host) (argv : List String) : List Source :=
  if configOption argv ≠ "" then
    [commandLine argv, configFile host (configOption argv), environment host, cxxEnvironment host]
  else
    [commandLine argv, environment host] ++ (foundConfigFile host).toList.map (configFile host) ++ [cxxEnvironment host]

namespace Configuration

/-- The value of a setting, if it has one. -/
def setting? (s : Configuration) : Source
  | .compiler => Setting.given .compiler (some s.gccxmlCompiler)
  | .cxxflags => if s.haveGccxmlCxxflags then some s.gccxmlCxxflags else none
  | .executable => Setting.given .executable (some s.gccxmlExecutable)
  | .cpp => Setting.given .cpp (some s.gccxmlCpp)
  | .root => Setting.given .root (some s.gccxmlRoot)
  | .flags => Setting.given .flags (some s.gccxmlFlags)
  | .userFlags => Setting.given .userFlags (some s.gccxmlUserFlags)

/-- **The documented precedence**: every setting has its documented value, and the environment was consulted exactly
    once. -/
def Documented (host : Host) (argv : List String) (s : Configuration) : Prop :=
  (∀ k, s.setting? k = firstGiven (documentedSources host argv) k) ∧ s.environmentChecks = 1

/-! ## What each step does to a setting -/

theorem given_getEnvIfEmpty {k : Setting} (hk : k ≠ .cxxflags) (setting : String) (env : Option String) :
    k.given (some (getEnvIfEmpty setting env)) = (k.given (some setting)).or (k.given env) := by
  unfold Setting.given getEnvIfEmpty
  rw [if_neg hk, if_neg hk, if_neg hk]
  by_cases hs : setting = ""
  · cases env <;> simp [hs, Option.filter_some]
  · simp [hs, Option.filter_some]

theorem given_setIfEmpty {k : Setting} (hk : k ≠ .cxxflags) (setting value : String) :
    k.given (some (setIfEmpty setting value)) = (k.given (some setting)).or (k.given (some value)) := by
  have henv : setIfEmpty setting value = getEnvIfEmpty setting (some value) := rfl
  rw [henv, given_getEnvIfEmpty hk]

/-- The flags of the compiler are set once, even to the empty text. -/
theorem cxxflags_or (isSet : Bool) (cxxflags : String) (env : Option String) :
    (if isSet || env.isSome then some (if isSet then cxxflags else env.getD cxxflags) else none) =
      (if isSet then some cxxflags else none).or env := by
  cases isSet <;> cases env <;> rfl

/-- **`CheckEnvironment`** puts the environment behind the sources used so far. -/
theorem setting?_checkEnvironment (host : Host) (s : Configuration) (k : Setting) :
    (checkEnvironment host s).setting? k = (s.setting? k).or (environment host k) := by
  cases k
  case cxxflags => exact cxxflags_or _ _ _
  all_goals exact given_getEnvIfEmpty (by decide) _ _

/-- **`CheckCxxEnvironment`** puts `CXX` and `CXXFLAGS` behind the sources used so far. -/
theorem setting?_checkCxxEnvironment (host : Host) (s : Configuration) (k : Setting) :
    (checkCxxEnvironment host s).setting? k = (s.setting? k).or (cxxEnvironment host k) := by
  cases k
  case compiler => exact given_getEnvIfEmpty (by decide) _ _
  case cxxflags => exact cxxflags_or _ _ _
  all_goals exact (Option.or_none).symm

theorem or_ite_false (o : Option String) {p : Prop} [Decidable p] {o' : Option String} (h : ¬ p) :
    o.or (if p then o' else none) = o := by
  rw [if_neg h, Option.or_none]

/-- A setting in the file is put behind what is known of it; the other settings stay. -/
theorem setting?_readConfigSetting (s : Configuration) (key value : String) (k : Setting) :
    (readConfigSetting s key value).setting? k =
      (s.setting? k).or (if key = k.name then k.given (some value) else none) := by
  unfold readConfigSetting
  split
  case h_2 =>
    cases k
    case cxxflags => cases hhave : s.haveGccxmlCxxflags <;> simp [setting?, hhave, Setting.name, Setting.given]
    all_goals
      rw [or_ite_false _ (by decide)]
      split <;> rfl
  case h_8 hcompiler hcxxflags hexecutable hcpp hroot hflags huserFlags =>
    have hname : key ≠ k.name := by cases k <;> assumption
    exact (or_ite_false _ hname).symm
  -- the other six keys
  all_goals cases k <;> first | exact given_setIfEmpty (by decide) _ _ | exact (or_ite_false _ (by decide)).symm

theorem setting?_readConfigLine (s : Configuration) (line : List Char) (k : Setting) :
    (readConfigLine s line).setting? k = (s.setting? k).or (lineSource line k) := by
  unfold readConfigLine lineSource
  cases parseConfigLine line with
  | ignored => exact (Option.or_none).symm
  | invalid line => cases k <;> exact (Option.or_none).symm
  | setting key value => exact setting?_readConfigSetting s key value k

/-- The lines of a file are sources one behind the other. -/
theorem setting?_readConfigLines (lines : List (List Char)) (s : Configuration) (k : Setting) :
    (lines.foldl readConfigLine s).setting? k = (s.setting? k).or (firstGiven (lines.map lineSource) k) := by
  induction lines generalizing s with
  | nil => exact (Option.or_none).symm
  | cons line lines ih =>
      rw [List.foldl_cons, ih, setting?_readConfigLine, List.map_cons, firstGiven_cons, Option.or_assoc]

/-- **`ReadConfigFile`** puts what it gets of the file behind the sources used so far. -/
theorem setting?_readConfigFile {host : Host} {s s' : Configuration} (h : readConfigFile host s = .ok s')
    (k : Setting) : s'.setting? k = (s.setting? k).or (readConfigSource host s.gccxmlConfig k) := by
  unfold readConfigFile at h
  split at h
  · cases hopen : host.openFile s.gccxmlConfig with
    | none => rw [hopen] at h; cases h
    | some text =>
        rw [hopen] at h
        cases h
        rw [setting?_readConfigLines, readConfigSource, hopen]
        rfl
  · cases h

/-! ## The command line -/

theorem takesArgument_iff (host : Host) (s : Configuration) (arg : String) :
    takesArgument arg = (optionWithArgument host s arg).isSome := by
  unfold optionWithArgument
  split
  case h_9 => simp_all [takesArgument]
  all_goals rfl

theorem lastArgument_cons (option arg v : String) (rest : List String) :
    lastArgument option (arg :: v :: rest) =
      if takesArgument arg then (lastArgument option rest).or (if arg = option then some v else none)
      else lastArgument option (v :: rest) := by
  unfold lastArgument
  rw [givenOptions]
  split
  · rw [List.filter_cons]
    by_cases harg : arg = option
    · simp only [harg, decide_true, if_true, List.getLast?_cons]
      cases ((givenOptions rest).filter fun given => given.1 = option).getLast? <;> rfl
    · simp [harg]
  · rfl

/-- What the option `arg` with the argument `v` changes: the setting that it stands for. -/
structure Changed (arg v : String) (s s' : Configuration) : Prop where
  setting : ∀ k, s'.setting? k = if k.option? = some arg then k.given (some v) else s.setting? k
  config : s'.gccxmlConfig = if "--gccxml-config" = arg then v else s.gccxmlConfig
  checks : s'.environmentChecks = s.environmentChecks

/-- Reading arguments from a file changes no setting. -/
theorem readArgumentFile_eq {host : Host} {fname : String} {s s' : Configuration}
    (h : readArgumentFile host fname s = .ok s') : ∃ arguments, s' = { s with arguments := arguments } := by
  unfold readArgumentFile at h
  split at h
  · cases h
  · cases h
    exact ⟨_, rfl⟩

theorem optionWithArgument_changed {host : Host} {s s' : Configuration} {arg v : String}
    {option : String → Except String Configuration} (h : optionWithArgument host s arg = some option)
    (hv : option v = .ok s') : Changed arg v s s' := by
  unfold optionWithArgument at h
  split at h
  case h_7 =>
    obtain rfl := Option.some.inj h
    obtain ⟨arguments, rfl⟩ := readArgumentFile_eq hv
    exact ⟨fun k => by cases k <;> rfl, rfl, rfl⟩
  case h_9 => cases h
  all_goals
    obtain rfl := Option.some.inj h
    cases hv
    exact ⟨fun k => by cases k <;> rfl, rfl, rfl⟩

theorem plainOption_unchanged (s : Configuration) (arg : String) :
    (plainOption s arg).setting? = s.setting? ∧ (plainOption s arg).gccxmlConfig = s.gccxmlConfig ∧
      (plainOption s arg).environmentChecks = s.environmentChecks := by
  unfold plainOption
  split <;> exact ⟨funext fun k => by cases k <;> rfl, rfl, rfl⟩

/-- What a command line changes: each setting that has an option on it gets the argument of the last one. -/
structure Overridden (argv : List String) (s s' : Configuration) : Prop where
  setting : ∀ k, s'.setting? k =
    ((k.option?.bind fun option => lastArgument option argv).map fun v => k.given (some v)).getD (s.setting? k)
  config : s'.gccxmlConfig = (lastArgument "--gccxml-config" argv).getD s.gccxmlConfig
  checks : s'.environmentChecks = s.environmentChecks

/-- Without an option on it, a command line changes no setting. -/
theorem Overridden.of_plain {argv : List String} {s s' : Configuration}
    (hargv : ∀ option, lastArgument option argv = none) (hsetting : s'.setting? = s.setting?)
    (hconfig : s'.gccxmlConfig = s.gccxmlConfig) (hchecks : s'.environmentChecks = s.environmentChecks) :
    Overridden argv s s' where
  setting k := by
    have hnone : (k.option?.bind fun option => lastArgument option argv) = none := by
      cases k.option? <;> simp [hargv]
    rw [hnone, hsetting]
    rfl
  config := by rw [hargv, hconfig]; rfl
  checks := hchecks

/-- An option in front of a command line. -/
theorem Overridden.cons {arg v : String} {rest : List String} {s s₁ s' : Configuration}
    (harg : takesArgument arg = true) (h : Changed arg v s s₁) (hrest : Overridden rest s₁ s') :
    Overridden (arg :: v :: rest) s s' where
  setting k := by
    rw [hrest.setting k, h.setting k]
    cases hoption : k.option? with
    | none => rfl
    | some option =>
        simp only [Option.bind_some, lastArgument_cons, harg, if_true, Option.some.injEq]
        cases lastArgument option rest with
        | some w => rfl
        | none =>
            by_cases he : option = arg
            · simp [he]
            · simp [he, Ne.symm he]
  config := by
    rw [hrest.config, h.config, lastArgument_cons, if_pos harg]
    cases lastArgument "--gccxml-config" rest with
    | some w => rfl
    | none =>
        by_cases he : arg = "--gccxml-config"
        · simp [he]
        · simp [he, Ne.symm he]
  checks := hrest.checks.trans h.checks

theorem processCommandLine_overridden {host : Host} {argv : List String} {s s' : Configuration}
    (h : processCommandLine host s argv = .ok s') : Overridden argv s s' := by
  fun_induction processCommandLine host s argv with
  | case1 s =>
      cases h
      exact .of_plain (fun _ => rfl) rfl rfl rfl
  | case2 s arg option hoption => cases h
  | case3 s arg hoption =>
      cases h
      obtain ⟨hsetting, hconfig, hchecks⟩ := plainOption_unchanged s arg
      exact .of_plain (fun _ => rfl) hsetting hconfig hchecks
  | case4 s arg v rest option hoption s₁ hs₁ ih =>
      have harg : takesArgument arg = true := by rw [takesArgument_iff host s, hoption]; rfl
      exact .cons harg (optionWithArgument_changed hoption hs₁) (ih h)
  | case5 s arg v rest option hoption message hmessage => cases h
  | case6 s arg v rest hoption ih =>
      have harg : takesArgument arg = false := by rw [takesArgument_iff host s, hoption]; rfl
      have hlast : ∀ option, lastArgument option (arg :: v :: rest) = lastArgument option (v :: rest) := by
        intro option
        rw [lastArgument_cons, harg]
        rfl
      obtain ⟨hsetting, hconfig, hchecks⟩ := plainOption_unchanged s arg
      have hrest := ih h
      refine ⟨fun k => ?_, ?_, hrest.checks.trans hchecks⟩
      · rw [hrest.setting k, hsetting]
        simp only [hlast]
      · rw [hrest.config, hconfig, hlast]

/-- **`ProcessCommandLine`** makes the command line the first source. -/
theorem setting?_processCommandLine {host : Host} {argv : List String} {s : Configuration}
    (h : processCommandLine host {} argv = .ok s) (k : Setting) : s.setting? k = commandLine argv k := by
  rw [(processCommandLine_overridden h).setting k, commandLine]
  have hempty : ({} : Configuration).setting? k = k.given none := by cases k <;> rfl
  rw [hempty]
  cases k.option?.bind fun option => lastArgument option argv <;> rfl

theorem gccxmlConfig_processCommandLine {host : Host} {argv : List String} {s : Configuration}
    (h : processCommandLine host {} argv = .ok s) : s.gccxmlConfig = configOption argv :=
  (processCommandLine_overridden h).config

/-! ## The configuration file -/

theorem environmentChecks_readConfigFile {host : Host} {s s' : Configuration} (h : readConfigFile host s = .ok s') :
    s'.environmentChecks = s.environmentChecks := by
  have hline : ∀ s line, (readConfigLine s line).environmentChecks = s.environmentChecks := by
    intro s line
    unfold readConfigLine
    split
    · rfl
    · rfl
    · unfold readConfigSetting
      split <;> first | rfl | (split <;> rfl)
  have hlines : ∀ lines s, (List.foldl readConfigLine s lines).environmentChecks = s.environmentChecks := by
    intro lines
    induction lines with
    | nil => exact fun s => rfl
    | cons line lines ih => exact fun s => (ih _).trans (hline s line)
  unfold readConfigFile at h
  split at h
  · split at h
    · cases h
      exact hlines _ _
    · cases h
  · cases h

/-- The configuration file that `CheckConfigFile` reads. -/
def usedConfigFile (host : Host) (s : Configuration) : Option String :=
  if s.gccxmlConfig = "" then findConfigFile host else some s.gccxmlConfig

/-- **`CheckConfigFile`** puts what is read of the configuration file behind the sources used so far. -/
theorem setting?_checkConfigFile {host : Host} {s s' : Configuration} (h : checkConfigFile host s = .ok s') :
    (∀ k, s'.setting? k = (s.setting? k).or ((usedConfigFile host s).bind fun name => readConfigSource host name k)) ∧
      s'.environmentChecks = s.environmentChecks := by
  unfold checkConfigFile at h
  unfold usedConfigFile
  split at h
  · rename_i hempty
    rw [if_pos hempty]
    cases hfound : findConfigFile host with
    | none =>
        rw [hfound] at h
        cases h
        exact ⟨fun k => (Option.or_none).symm, rfl⟩
    | some config =>
        rw [hfound] at h
        have hsame : ∀ k, ({ s with gccxmlConfig := config } : Configuration).setting? k = s.setting? k :=
          fun k => by cases k <;> rfl
        have h : readConfigFile host { s with gccxmlConfig := config } = .ok s' := h
        have hchecks := environmentChecks_readConfigFile h
        refine ⟨fun k => ?_, hchecks⟩
        rw [setting?_readConfigFile h k, hsame]
        rfl
  · rename_i hgiven
    rw [if_neg hgiven]
    exact ⟨setting?_readConfigFile h, environmentChecks_readConfigFile h⟩

end Configuration

end GccXml

import Mathlib.Data.List.DropRight

namespace GccXml

/-! # `Front.Configuration` — how `gxConfiguration` collects its settings

`gxConfiguration::Configure` up to the steps that guess. The settings come from the command line, the environment and
a configuration file; a setting is taken from a source only if no earlier source gave it. -/

/-- What `gxConfiguration` reads from its surroundings; the last two are left by `FindRoots`. -/
structure Host where
  getEnv : String → Option String
  fileExists : String → Bool
  /-- The text of a file that `std::ifstream` can open. -/
  openFile : String → Option (List Char)
  collapseDirectory : String → String
  dataRoot : String
  runningInBuildTree : Bool

/-- The members of `gxConfiguration` that are set before the guessing steps. -/
structure Configuration where
  gccxmlConfig : String := ""
  gccxmlCompiler : String := ""
  gccxmlCxxflags : String := ""
  gccxmlExecutable : String := ""
  gccxmlCpp : String := ""
  gccxmlRoot : String := ""
  gccxmlFlags : String := ""
  gccxmlUserFlags : String := ""
  haveGccxmlCxxflags : Bool := false
  helpFlag : Bool := false
  versionFlag : Bool := false
  printFlag : Bool := false
  preprocessFlag : Bool := false
  debugFlag : Bool := false
  manFlag : Bool := false
  copyrightFlag : Bool := false
  helpHTMLFlag : Bool := false
  arguments : List String := []
  /-- The warnings written to `std::cerr`. -/
  warnings : List String := []
  /-- How often `CheckEnvironment` was called. -/
  environmentChecks : Nat := 0
  deriving DecidableEq

/-! ## Lines -/

/-- The lines of a text; a newline ends a line, and nothing is left after the last one. -/
def splitLines (text : List Char) : List (List Char) :=
  let lines := text.splitOn '\n'
  if lines.getLast? = some [] then lines.dropLast else lines

/-- The blanks of `find_first_not_of (" \t\r")`. -/
def isConfigBlank (c : Char) : Bool := c = ' ' || c = '\t' || c = '\r'

/-! ## The command line -/

namespace Configuration

/-- `ReadArgumentFile`: one argument a line, without the blanks around it; comments are skipped. -/
def readArgumentFile (host : Host) (fname : String) (s : Configuration) : Except String Configuration :=
  match host.openFile fname with
  | none => .error ("Error reading options from file \"" ++ fname ++ "\".\n")
  | some text =>
      let isBlank := fun c => c = ' ' ∨ c = '\t'
      let options := (splitLines text).map fun option => (option.dropWhile isBlank).rdropWhile isBlank
      let read := options.filter fun option => option ≠ [] ∧ option.head? ≠ some '#'
      .ok { s with arguments := s.arguments ++ read.map String.ofList }

/-- The options of `ProcessCommandLine` that take an argument. -/
def optionWithArgument (host : Host) (s : Configuration) :
    String → Option (String → Except String Configuration)
  | "--gccxml-compiler" => some fun v => .ok { s with gccxmlCompiler := v }
  | "--gccxml-cxxflags" => some fun v => .ok { s with gccxmlCxxflags := v, haveGccxmlCxxflags := true }
  | "--gccxml-executable" => some fun v => .ok { s with gccxmlExecutable := v }
  | "--gccxml-cpp" => some fun v => .ok { s with gccxmlCpp := v }
  | "--gccxml-config" => some fun v => .ok { s with gccxmlConfig := v }
  | "--gccxml-root" => some fun v => .ok { s with gccxmlRoot := v }
  | "--gccxml-gcc-options" => some fun fname => readArgumentFile host fname s
  -- ccache passes `-o`
  | "-o" => some fun v => .ok { s with arguments := s.arguments ++ ["-fxml=" ++ v] }
  | _ => none

/-- The options of `ProcessCommandLine` without an argument; anything else is an argument for the compiler. -/
def plainOption (s : Configuration) : String → Configuration
  | "--help" => { s with helpFlag := true }
  | "--version" => { s with versionFlag := true }
  | "--print" => { s with printFlag := true }
  | "--preprocess" | "-E" => { s with preprocessFlag := true }
  | "--debug" => { s with debugFlag := true }
  | "--man" => { s with manFlag := true }
  | "--copyright" => { s with copyrightFlag := true }
  | "--help-html" => { s with helpHTMLFlag := true }
  -- accepted and ignored for ccache
  | "-c" => s
  | arg => { s with arguments := s.arguments ++ [arg] }

/-- `ProcessCommandLine`, from the first argument on. -/
def processCommandLine (host : Host) (s : Configuration) : List String → Except String Configuration
  | [] => .ok s
  | [arg] =>
      match optionWithArgument host s arg with
      | some _ => .error ("Option " ++ arg ++ " requires an argument.\n")
      | none => .ok (plainOption s arg)
  | arg :: v :: rest =>
      match optionWithArgument host s arg with
      | some option =>
          match option v with
          | .ok s => processCommandLine host s rest
          | .error message => .error message
      | none => processCommandLine host (plainOption s arg) (v :: rest)

/-! ## The environment -/

/-- `GetEnv` for a setting that is still empty; without the variable the setting stays as it is. -/
def getEnvIfEmpty (setting : String) (env : Option String) : String := if setting = "" then env.getD setting else setting

/-- `CheckEnvironment`. -/
def checkEnvironment (host : Host) (s : Configuration) : Configuration :=
  { s with
    gccxmlConfig := getEnvIfEmpty s.gccxmlConfig (host.getEnv "GCCXML_CONFIG")
    gccxmlCompiler := getEnvIfEmpty s.gccxmlCompiler (host.getEnv "GCCXML_COMPILER")
    gccxmlCxxflags :=
      if s.haveGccxmlCxxflags then s.gccxmlCxxflags else (host.getEnv "GCCXML_CXXFLAGS").getD s.gccxmlCxxflags
    haveGccxmlCxxflags := s.haveGccxmlCxxflags || (host.getEnv "GCCXML_CXXFLAGS").isSome
    gccxmlExecutable := getEnvIfEmpty s.gccxmlExecutable (host.getEnv "GCCXML_EXECUTABLE")
    gccxmlCpp := getEnvIfEmpty s.gccxmlCpp (host.getEnv "GCCXML_CPP")
    gccxmlRoot := getEnvIfEmpty s.gccxmlRoot (host.getEnv "GCCXML_ROOT")
    gccxmlFlags := getEnvIfEmpty s.gccxmlFlags (host.getEnv "GCCXML_FLAGS")
    gccxmlUserFlags := getEnvIfEmpty s.gccxmlUserFlags (host.getEnv "GCCXML_USER_FLAGS")
    environmentChecks := s.environmentChecks + 1 }

/-- `CheckCxxEnvironment`. -/
def checkCxxEnvironment (host : Host) (s : Configuration) : Configuration :=
  { s with
    gccxmlCompiler := getEnvIfEmpty s.gccxmlCompiler (host.getEnv "CXX")
    gccxmlCxxflags := if s.haveGccxmlCxxflags then s.gccxmlCxxflags else (host.getEnv "CXXFLAGS").getD s.gccxmlCxxflags
    haveGccxmlCxxflags := s.haveGccxmlCxxflags || (host.getEnv "CXXFLAGS").isSome }

end Configuration

/-! ## The configuration file -/

/-- What `ParseConfigLine` makes of a line. -/
inductive ConfigLine
  | ignored
  | invalid (line : String)
  | setting (key value : String)
  deriving DecidableEq

/-- The value of a setting: what stands after the equals sign, without the blanks around it and, if it is quoted,
    without the quotes. -/
def parseConfigValue (rawValue : List Char) : String :=
  let strippedValue := (rawValue.dropWhile isConfigBlank).rdropWhile isConfigBlank
  if 2 ≤ rawValue.length ∧ strippedValue.head? = some '"' ∧ strippedValue.getLast? = some '"' then
    String.ofList ((strippedValue.drop 1).take (strippedValue.length - 2))
  else String.ofList strippedValue

/-- `ParseConfigLine`. -/
def parseConfigLine (line : List Char) : ConfigLine :=
  match line.dropWhile isConfigBlank with
  | [] => .ignored
  | '#' :: _ => .ignored
  | rest =>
      if '=' ∈ rest then
        .setting (String.ofList (rest.takeWhile (· ≠ '='))) (parseConfigValue ((rest.dropWhile (· ≠ '=')).drop 1))
      else .invalid (String.ofList line)

/-- The lines that the loop of `ReadConfigFile` gets: a line that does not fit into the buffer of 4096 characters
    ends it, and a null character ends a line. -/
def configLines (text : List Char) : List (List Char) :=
  ((splitLines text).takeWhile (·.length < 4096)).map fun line => line.takeWhile (· ≠ '\x00')

namespace Configuration

/-- A value from the file for a setting that is still empty. -/
def setIfEmpty (setting value : String) : String := if setting = "" then value else setting

/-- The body of the loop of `ReadConfigFile` for a setting. -/
def readConfigSetting (s : Configuration) (key value : String) : Configuration :=
  match key with
  | "GCCXML_COMPILER" => { s with gccxmlCompiler := setIfEmpty s.gccxmlCompiler value }
  | "GCCXML_CXXFLAGS" =>
      if s.haveGccxmlCxxflags then s else { s with gccxmlCxxflags := value, haveGccxmlCxxflags := true }
  | "GCCXML_EXECUTABLE" => { s with gccxmlExecutable := setIfEmpty s.gccxmlExecutable value }
  | "GCCXML_CPP" => { s with gccxmlCpp := setIfEmpty s.gccxmlCpp value }
  | "GCCXML_ROOT" => { s with gccxmlRoot := setIfEmpty s.gccxmlRoot value }
  | "GCCXML_FLAGS" => { s with gccxmlFlags := setIfEmpty s.gccxmlFlags value }
  | "GCCXML_USER_FLAGS" => { s with gccxmlUserFlags := setIfEmpty s.gccxmlUserFlags value }
  | key => { s with warnings := s.warnings ++ ["Warning: ignoring setting for unknown key \"" ++ key ++ "\"\n"] }

/-- The body of the loop of `ReadConfigFile`. -/
def readConfigLine (s : Configuration) (line : List Char) : Configuration :=
  match parseConfigLine line with
  | .ignored => s
  | .invalid line =>
      { s with warnings := s.warnings ++ ["Warning: ignoring invalid config file line:\n" ++ line ++ "\n"] }
  | .setting key value => readConfigSetting s key value

/-- `ReadConfigFile`. -/
def readConfigFile (host : Host) (s : Configuration) : Except String Configuration :=
  if host.fileExists s.gccxmlConfig then
    match host.openFile s.gccxmlConfig with
    | some text => .ok ((configLines text).foldl readConfigLine s)
    | none => .error ("Error opening configuration file \"" ++ s.gccxmlConfig ++ "\".\n")
  else .error ("Configuration file \"" ++ s.gccxmlConfig ++ "\" does not exist.\n")

end Configuration

/-- `FindConfigFile`: the file in the home directory, unless running from the build tree, or the one in the data
    root. -/
def findConfigFile (host : Host) : Option String :=
  let home := (host.getEnv "HOME").filter fun home => !host.runningInBuildTree && home ≠ ""
  let atHome := home.map fun home => host.collapseDirectory (home ++ "/.gccxml/config")
  match atHome.filter host.fileExists with
  | some config => some config
  | none => some (host.dataRoot ++ "/gccxml_config") |>.filter host.fileExists

namespace Configuration

/-- `CheckConfigFile`. -/
def checkConfigFile (host : Host) (s : Configuration) : Except String Configuration :=
  if s.gccxmlConfig = "" then
    match findConfigFile host with
    | none => .ok s
    | some config => readConfigFile host { s with gccxmlConfig := config }
  else readConfigFile host s

/-! ## `Configure` -/

/-- `Configure`, from the command line to the last-resort settings. The local `checkedEnvironment` is assigned only
    when there is no configuration file yet; otherwise it is what happens to be in its place, `garbage`. -/
def configure (host : Host) (garbage : Bool) (argv : List String) : Except String Configuration := do
  let s ← processCommandLine host {} argv
  let (s, checkedEnvironment) := if s.gccxmlConfig = "" then (checkEnvironment host s, true) else (s, garbage)
  let s ← checkConfigFile host s
  let s := if !checkedEnvironment then checkEnvironment host s else s
  pure (checkCxxEnvironment host s)

end Configuration

end GccXml

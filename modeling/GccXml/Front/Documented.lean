import GccXml.Front.ConfigFile

namespace GccXml

/-! # `Front.Documented` — when the documented precedence holds

`Configure` uses the command line, a configuration file, the environment and last `CXX` and `CXXFLAGS`. With
`--gccxml-config` the file comes before the environment, otherwise behind it. Two things can break the documented
order.

* The local `checkedEnvironment` is assigned only when the command line names no file. When one is named and the local
  happens to be true, the environment is never consulted.
* The loop of `ReadConfigFile` need not get the whole file: a line that does not fit into its buffer ends it, and a null
  character ends a line. A setting that is written further on is not seen then, and a source behind the file can take
  its place.

`setting?_configure` gives every setting of a run that consults the environment: what is read of the file stands between
the sources before and behind it. The documented value has the whole file in this place, so the two are compared source
by source (`or_or_eq_iff`), and where the file counts the comparison is that of `ConfigFile` (`FirstLineRead`). -/

/-! ## The sources before and behind the file -/

/-- The sources before the configuration file. -/
def sourcesBeforeFile (host : Host) (argv : List String) : List Source :=
  if configOption argv ≠ "" then [commandLine argv] else [commandLine argv, environment host]

/-- The configuration file of the documented order. -/
def documentedConfigFile (host : Host) (argv : List String) : Option String :=
  if configOption argv ≠ "" then some (configOption argv) else foundConfigFile host

/-- The sources behind the configuration file. -/
def sourcesBehindFile (host : Host) (argv : List String) : List Source :=
  if configOption argv ≠ "" then [environment host, cxxEnvironment host] else [cxxEnvironment host]

theorem firstGiven_documentedSources (host : Host) (argv : List String) (k : Setting) :
    firstGiven (documentedSources host argv) k =
      ((firstGiven (sourcesBeforeFile host argv) k).or
        ((documentedConfigFile host argv).bind fun name => configFile host name k)).or
          (firstGiven (sourcesBehindFile host argv) k) := by
  unfold documentedSources sourcesBeforeFile documentedConfigFile sourcesBehindFile
  split
  · simp [Option.or_assoc]
  · cases foundConfigFile host <;> simp [Option.or_assoc]

/-- What a file gives as far as it is read, the whole file gives in some way. -/
theorem isSome_configFile {host : Host} {name : String} {k : Setting}
    (h : (readConfigSource host name k).isSome = true) : (configFile host name k).isSome = true := by
  unfold readConfigSource at h
  unfold configFile
  cases hopen : host.openFile name with
  | none =>
      rw [hopen] at h
      cases h
  | some text =>
      rw [hopen, Option.map_some, Option.getD_some, configLines_eq] at h
      obtain ⟨v, hv⟩ := Option.isSome_iff_exists.mp h
      obtain ⟨source, hsource, hgives⟩ := List.exists_of_findSome?_eq_some hv
      obtain ⟨cut, hcut, rfl⟩ := List.mem_map.mp hsource
      obtain ⟨line, hline, rfl⟩ := List.mem_map.mp hcut
      obtain ⟨v', hv'⟩ := lineSource_isSome_of_cString hgives
      have hmem : line ∈ splitLines text := List.takeWhile_subset _ hline
      rw [Option.map_some, Option.getD_some, firstGiven, List.findSome?_isSome_iff]
      exact ⟨_, List.mem_map_of_mem hmem, by rw [hv']; rfl⟩

/-- Two lists of sources that differ in one place give the same, if this place counts in neither of them, agrees, or is
filled by what comes behind. -/
theorem or_or_eq_iff {before read written behind : Option String} (hsome : read.isSome = true → written.isSome = true) :
    (before.or read).or behind = (before.or written).or behind ↔
      (before = none → read = written ∨ read = none ∧ behind = written) := by
  cases before with
  | some v => simp
  | none =>
      cases read with
      | some v =>
          cases written with
          | some w => simp
          | none => exact absurd (hsome rfl) (by simp)
      | none => cases written <;> cases behind <;> simp [eq_comm]

namespace Configuration

/-! ## What `Configure` leaves -/

/-- Without `--gccxml-config` the file is that of the environment or the one that is found. -/
theorem usedConfigFile_checkEnvironment (host : Host) {s : Configuration} (hempty : s.gccxmlConfig = "") :
    usedConfigFile host (checkEnvironment host s) = foundConfigFile host := by
  unfold usedConfigFile foundConfigFile checkEnvironment getEnvIfEmpty
  rw [hempty]
  cases host.getEnv "GCCXML_CONFIG" with
  | none => rfl
  | some name => by_cases hname : name = "" <;> simp [hname, Option.filter_some]

/-- **The settings of a run that consults the environment**: what is read of the file stands between the sources before
and behind it. -/
theorem setting?_configure {host : Host} {garbage : Bool} {argv : List String} {s : Configuration}
    (h : configure host garbage argv = .ok s) (hassigned : configOption argv = "" ∨ garbage = false) :
    (∀ k, s.setting? k =
      ((firstGiven (sourcesBeforeFile host argv) k).or
        ((documentedConfigFile host argv).bind fun name => readConfigSource host name k)).or
          (firstGiven (sourcesBehindFile host argv) k)) ∧ s.environmentChecks = 1 := by
  unfold configure at h
  unfold sourcesBeforeFile documentedConfigFile sourcesBehindFile
  cases hcommand : processCommandLine host {} argv with
  | error message => rw [hcommand] at h; cases h
  | ok s₀ =>
      rw [hcommand] at h
      have hconfig : s₀.gccxmlConfig = configOption argv := gccxmlConfig_processCommandLine hcommand
      have hchecks : s₀.environmentChecks = 0 := (processCommandLine_overridden hcommand).checks
      by_cases hno : configOption argv = ""
      · -- the environment first
        have hempty : s₀.gccxmlConfig = "" := hconfig.trans hno
        simp only [bind, Except.bind, hempty, if_true] at h
        cases hfile : checkConfigFile host (checkEnvironment host s₀) with
        | error message => rw [hfile] at h; cases h
        | ok s₁ =>
            rw [hfile] at h
            cases h
            obtain ⟨hsetting, hsame⟩ := setting?_checkConfigFile hfile
            refine ⟨fun k => ?_, ?_⟩
            · simp only [Bool.not_true, Bool.false_eq_true, if_false]
              rw [setting?_checkCxxEnvironment, hsetting, setting?_checkEnvironment,
                setting?_processCommandLine hcommand, usedConfigFile_checkEnvironment host hempty, if_neg (not_not.mpr hno),
                if_neg (not_not.mpr hno), if_neg (not_not.mpr hno)]
              simp
            · show s₁.environmentChecks = 1
              rw [hsame, checkEnvironment, hchecks]
      · -- the file first, and the environment because the local is false
        obtain rfl : garbage = false := hassigned.resolve_left hno
        have hgiven : s₀.gccxmlConfig ≠ "" := hconfig ▸ hno
        simp only [bind, Except.bind, hgiven, if_false] at h
        cases hfile : checkConfigFile host s₀ with
        | error message => rw [hfile] at h; cases h
        | ok s₁ =>
            rw [hfile] at h
            cases h
            obtain ⟨hsetting, hsame⟩ := setting?_checkConfigFile hfile
            refine ⟨fun k => ?_, ?_⟩
            · simp only [Bool.not_false, if_true]
              rw [setting?_checkCxxEnvironment, setting?_checkEnvironment, hsetting,
                setting?_processCommandLine hcommand, usedConfigFile, if_neg hgiven, hconfig, if_pos hno, if_pos hno,
                if_pos hno]
              simp [Option.or_assoc]
            · show s₁.environmentChecks + 1 = 1
              rw [hsame, hchecks]

/-- With a configuration file on the command line and the local true, the environment is never consulted. -/
theorem environmentChecks_configure {host : Host} {argv : List String} {s : Configuration}
    (h : configure host true argv = .ok s) (hgiven : configOption argv ≠ "") : s.environmentChecks = 0 := by
  unfold configure at h
  cases hcommand : processCommandLine host {} argv with
  | error message => rw [hcommand] at h; cases h
  | ok s₀ =>
      rw [hcommand] at h
      have hne : s₀.gccxmlConfig ≠ "" := gccxmlConfig_processCommandLine hcommand ▸ hgiven
      simp only [bind, Except.bind, hne, if_false] at h
      cases hfile : checkConfigFile host s₀ with
      | error message => rw [hfile] at h; cases h
      | ok s₁ =>
          rw [hfile] at h
          cases h
          exact (setting?_checkConfigFile hfile).2.trans (processCommandLine_overridden hcommand).checks

/-! ## The documented precedence -/

/-- **The file counts as it is written** for the setting `k`, unless a source before it gives `k`: the first line that
gives `k` is read, and read whole; or no line that is read gives `k` and the sources behind the file give the value that
is written there. -/
def FileCounts (host : Host) (argv : List String) (k : Setting) : Prop :=
  firstGiven (sourcesBeforeFile host argv) k = none → ∀ name ∈ documentedConfigFile host argv,
    ∀ text ∈ host.openFile name, FirstLineRead (splitLines text) k ∨
      (∀ line ∈ readLines (splitLines text), lineSource (cString line) k = none) ∧
        firstGiven (sourcesBehindFile host argv) k = firstGiven ((splitLines text).map lineSource) k

/-- What is read of a file gives nothing. -/
theorem readConfigSource_eq_none {host : Host} {name : String} {text : List Char} (hopen : host.openFile name = some text)
    (k : Setting) : readConfigSource host name k = none ↔
      ∀ line ∈ readLines (splitLines text), lineSource (cString line) k = none := by
  rw [readConfigSource, hopen, Option.map_some, Option.getD_some, configLines_eq, firstGiven,
    List.findSome?_eq_none_iff]
  simp

/-- With the file as it is read a setting has its documented value if and only if the file counts as it is written. -/
theorem fileCounts_iff (host : Host) (argv : List String) (k : Setting) :
    ((firstGiven (sourcesBeforeFile host argv) k).or
        ((documentedConfigFile host argv).bind fun name => readConfigSource host name k)).or
          (firstGiven (sourcesBehindFile host argv) k) = firstGiven (documentedSources host argv) k ↔
      FileCounts host argv k := by
  rw [firstGiven_documentedSources]
  unfold FileCounts
  cases hname : documentedConfigFile host argv with
  | none => simp
  | some name =>
      rw [Option.bind_some, Option.bind_some, or_or_eq_iff isSome_configFile]
      refine forall_congr' fun _ => ?_
      cases hopen : host.openFile name with
      | none => simp [readConfigSource, configFile, hopen]
      | some text =>
          have hwritten : configFile host name k = firstGiven ((splitLines text).map lineSource) k := by
            rw [configFile, hopen]
            rfl
          have hread : readConfigSource host name k =
              firstGiven (((readLines (splitLines text)).map cString).map lineSource) k := by
            rw [readConfigSource, hopen]
            rfl
          rw [readConfigSource_eq_none hopen, hwritten, hread, firstGiven_readLines_iff]
          simp [hopen]

/-- **When the documented precedence holds.** When the settings have been collected, each of them has its documented
value and the environment was consulted exactly once, if and only if the command line names no configuration file or
the local `checkedEnvironment` happens to be false, and the configuration file counts as it is written for every setting
that no source before it gives. -/
theorem documented_iff {host : Host} {garbage : Bool} {argv : List String} {s : Configuration}
    (h : configure host garbage argv = .ok s) :
    Documented host argv s ↔ (configOption argv = "" ∨ garbage = false) ∧ ∀ k, FileCounts host argv k := by
  by_cases hassigned : configOption argv = "" ∨ garbage = false
  · obtain ⟨hsetting, hchecks⟩ := setting?_configure h hassigned
    constructor
    · intro hdoc
      refine ⟨hassigned, fun k => (fileCounts_iff host argv k).mp ?_⟩
      rw [← hsetting]
      exact hdoc.1 k
    · rintro ⟨-, hfile⟩
      refine ⟨fun k => ?_, hchecks⟩
      rw [hsetting]
      exact (fileCounts_iff host argv k).mpr (hfile k)
  · rw [not_or] at hassigned
    obtain ⟨hgiven, hgarbage⟩ := hassigned
    obtain rfl : garbage = true := by simpa using hgarbage
    refine iff_of_false (fun hdoc => ?_) (fun hcond => ?_)
    · have hnever := environmentChecks_configure h hgiven
      have honce : s.environmentChecks = 1 := hdoc.2
      omega
    · rcases hcond.1 with hno | hfalse
      · exact hgiven hno
      · cases hfalse

/-! ### A configuration file on the command line -/

/-- A host with an empty configuration file and a compiler in the environment. -/
def compilerInEnvironment : Host where
  getEnv name := if name = "GCCXML_COMPILER" then some "g++" else none
  fileExists name := name = "my.config"
  openFile name := if name = "my.config" then some [] else none
  collapseDirectory name := name
  dataRoot := "/usr/share/gccxml"
  runningInBuildTree := false

/-- With the file on the command line and `checkedEnvironment` false, the compiler is that of the environment. -/
theorem documented_iff_compilerInEnvironment :
    ∃ s, configure compilerInEnvironment false ["--gccxml-config", "my.config"] = .ok s ∧
      (Documented compilerInEnvironment ["--gccxml-config", "my.config"] s ↔
        (configOption ["--gccxml-config", "my.config"] = "" ∨ false = false) ∧
          ∀ k, FileCounts compilerInEnvironment ["--gccxml-config", "my.config"] k) :=
  ⟨_, rfl, documented_iff rfl⟩

/-- With the file on the command line and `checkedEnvironment` true, the compiler in the environment is not used. -/
theorem not_documented_compilerInEnvironment :
    ∃ s, configure compilerInEnvironment true ["--gccxml-config", "my.config"] = .ok s ∧ s.gccxmlCompiler = "" ∧
      firstGiven (documentedSources compilerInEnvironment ["--gccxml-config", "my.config"]) .compiler = some "g++" ∧
      ¬ Documented compilerInEnvironment ["--gccxml-config", "my.config"] s := by
  refine ⟨_, rfl, rfl, by decide, fun hdoc => ?_⟩
  have honce : 0 = 1 := hdoc.2
  exact absurd honce (by decide)

end Configuration

end GccXml

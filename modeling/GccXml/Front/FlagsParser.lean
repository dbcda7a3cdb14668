import GccXml.Lib.Loop
import GccXml.Lib.CString

namespace GccXml

/-! # `Front.FlagsParser` — splitting the flags into arguments

`gxFlagsParser`. The scanner runs a cursor over a NUL-terminated string and packs the arguments it finds into a
working space, each ended by a NUL; the working space is then split again. -/

/-! ## The scanner -/

/-- The quoting state `quoted`: none, in single quotes, in double quotes. -/
inductive Quoted where
  | unquoted
  | single
  | double
  deriving DecidableEq

/-- The loop over one argument of `gxFlagsCommandLineParseInternal`; it gives the cursor and what was stored. -/
def scanArgument : Quoted → List Char → List Char → Read (List Char × List Char)
  | _, [], out => .value ([], out)
  | quoted, c :: cs, out =>
      if quoted ≠ .unquoted ∨ ¬ isspace c then
        if c = '\\' then
          match cs with
          -- the cursor stands on the NUL, the loop moves it on and tests what is there
          | [] => .outOfBounds
          | d :: ds => scanArgument quoted ds (out ++ [d])
        else if quoted = .single ∧ c = '\'' ∨ quoted = .double ∧ c = '"' then scanArgument .unquoted cs out
        else if quoted = .unquoted ∧ c = '\'' then scanArgument .single cs out
        else if quoted = .unquoted ∧ c = '"' then scanArgument .double cs out
        else scanArgument quoted cs (out ++ [c])
      else .value (c :: cs, out)

@[simp] theorem scanArgument_nil (quoted : Quoted) (out : List Char) :
    scanArgument quoted [] out = .value ([], out) := by
  rw [scanArgument]

@[simp] theorem scanArgument_escape (quoted : Quoted) (d : Char) (ds out : List Char) :
    scanArgument quoted ('\\' :: d :: ds) out = scanArgument quoted ds (out ++ [d]) := by
  rw [scanArgument]
  simp [isspace]

theorem scanArgument_cons {c : Char} (hc : c ≠ '\\') (quoted : Quoted) (cs out : List Char) :
    scanArgument quoted (c :: cs) out =
      if quoted ≠ .unquoted ∨ ¬ isspace c then
        if quoted = .single ∧ c = '\'' ∨ quoted = .double ∧ c = '"' then scanArgument .unquoted cs out
        else if quoted = .unquoted ∧ c = '\'' then scanArgument .single cs out
        else if quoted = .unquoted ∧ c = '"' then scanArgument .double cs out
        else scanArgument quoted cs (out ++ [c])
      else .value (c :: cs, out) := by
  rw [scanArgument.eq_def]
  simp only [if_neg hc]

/-- The cursor `c`, what was written to `out` and the count `n`. -/
structure ScanState where
  c : List Char
  out : List Char := []
  n : Nat := 0
  deriving DecidableEq

/-- One pass of `while(*c)`. -/
def scanPass (s : ScanState) : Pass ScanState (Read (Nat × List Char)) :=
  match s.c with
  | [] => .leave (.value (s.n, s.out))
  | _ :: _ =>
      match scanArgument .unquoted s.c s.out with
      | .value (c, out) => .again ⟨c.dropWhile isspace, out ++ [nul], s.n + 1⟩
      | .outOfBounds => .leave .outOfBounds

/-- `gxFlagsCommandLineParseInternal`: the number of arguments and what was written to the working space. -/
def gxFlagsCommandLineParseInternal (chars : List Char) : Option (Read (Nat × List Char)) :=
  loopRun scanPass (chars.length + 1) ⟨chars.dropWhile isspace, [], 0⟩

/-! ## The arguments -/

/-- The loop of `gxFlags_CommandLineParse` that copies `argc` arguments out of the working space. -/
def splitBuffer : Nat → List Char → Read (List (List Char))
  | 0, _ => .value []
  | argc + 1, buffer =>
      match buffer.dropWhile (· ≠ nul) with
      | [] => .outOfBounds
      | _ :: rest => (splitBuffer argc rest).map (buffer.takeWhile (· ≠ nul) :: ·)

/-- `gxFlags_CommandLineParse`: `argc` and `argv`. -/
def gxFlags_CommandLineParse (chars : List Char) : Option (Read (Nat × List (List Char))) :=
  (gxFlagsCommandLineParseInternal chars).map fun scanned =>
    scanned.bind fun (argc, buffer) => (splitBuffer argc buffer).map fun argv => (argc, argv)

/-- `gxFlagsParser::AddFlag`; `native` says whether `GCCXML_NATIVE_CC1PLUS` was defined. -/
def addFlag (native : Bool) (flags : List (List Char)) (flag : List Char) : List (List Char) :=
  if ¬ native ∧ flag.take 9 = "-iwrapper".toList then flags ++ ["-I".toList ++ flag.drop 9] else flags ++ [flag]

/-- `gxFlagsParser::Parse`, which adds to the flags `m_Flags`. -/
def parseFlags (native : Bool) (flags : List (List Char)) (chars : List Char) : Option (Read (List (List Char))) :=
  (gxFlags_CommandLineParse chars).map fun parsed => parsed.map fun (_, argv) => argv.foldl (addFlag native) flags

/-- `gxFlagsParser::AddParsedFlags`. -/
def addParsedFlags (flags resultArgs : List (List Char)) : List (List Char) := resultArgs ++ flags

end GccXml

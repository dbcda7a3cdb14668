import GccXml.Lib.CString
import Mathlib.Data.List.Infix

namespace GccXml

/-! # `Front.FindFlags` — the flags of a GCC

`gxConfiguration::FindFlagsGCC`: the macros that the compiler defines and the directories that it searches are read
from what two runs of it print, and are written into one string of flags. -/

/-! ## Strings -/

/-- `SystemTools::SplitString` without a path: `piece` holds what is read of the current piece. The search for a
separator starts behind the first character of a piece. -/
def splitPieces (sep : Char) : List Char → List Char → List (List Char)
  | piece, [] => [piece]
  | piece, c :: cs =>
      if c = sep ∧ piece ≠ [] then piece :: splitPieces sep [] cs else splitPieces sep (piece ++ [c]) cs

/-- `SystemTools::SplitString`. -/
def splitString (p : List Char) (sep : Char) : List (List Char) :=
  let path := cString p
  if path = [] then [] else splitPieces sep [] path

/-- `strtol` to the base ten: blanks, a sign and digits, cut off to what a `long` can hold. -/
def strtol (chars : List Char) : Int :=
  let start := chars.dropWhile isspace
  let digits := if start.head? = some '-' ∨ start.head? = some '+' then start.drop 1 else start
  let n : Int := ((digits.takeWhile Char.isDigit).foldl (fun n d => 10 * n + (d.toNat - '0'.toNat)) 0 : Nat)
  if start.head? = some '-' then max (-n) (-9223372036854775808) else min n 9223372036854775807

/-- `atoi`, which takes the low word of what `strtol` gives. -/
def atoi (chars : List Char) : Int := Int.bmod (strtol chars) 4294967296

/-! ## Directories -/

/-- Where home directories are looked up: `getenv ("HOME")` and `getpwnam`. -/
structure HomeDirectories where
  home : Option CString
  getpwnam : List Char → Option CString

/-- The loop over the characters in `ConvertToUnixSlashes`: backslashes, unless they stand before a blank. -/
def convertBackslashes : List Char → List Char
  | [] => []
  | c :: cs => (if c = '\\' ∧ cs.head? ≠ some ' ' then '/' else c) :: convertBackslashes cs

/-- `ReplaceString (path, "//", "/")`. -/
def replaceDoubleSlashes : List Char → List Char
  | '/' :: '/' :: cs => '/' :: replaceDoubleSlashes cs
  | c :: cs => c :: replaceDoubleSlashes cs
  | [] => []

/-- The step of `ConvertToUnixSlashes` that puts in a home directory. -/
def expandHome (dirs : HomeDirectories) (path : List Char) : List Char :=
  if path.head? = some '~' then
    let rest := path.drop 1
    if rest.head? = some '/' ∨ rest = [] then dirs.home.elim path fun home => home.chars ++ rest
    else
      let user := rest.takeWhile (· ≠ '/')
      (dirs.getpwnam user).elim path fun dir => dir.chars ++ rest.dropWhile (· ≠ '/')
  else path

/-- `SystemTools::ConvertToUnixSlashes`, where there is a `getpwnam`. -/
def convertToUnixSlashes (dirs : HomeDirectories) (path : List Char) : List Char :=
  -- the look ahead for two slashes is at what was there before
  let hasDoubleSlash := decide ("//".toList <:+: path.drop 1)
  let path := convertBackslashes path
  let path := if hasDoubleSlash then replaceDoubleSlashes path else path
  let path := expandHome dirs path
  if 1 < path.length ∧ path.getLast? = some '/' ∧ ¬ (path.length = 3 ∧ path[1]? = some ':') then path.dropLast
  else path

/-! ## The definitions -/

/-- `[A-Za-z_]`. -/
def isNameStart (c : Char) : Bool := ('A' ≤ c && c ≤ 'Z') || ('a' ≤ c && c ≤ 'z') || c = '_'

/-- `[A-Za-z0-9_()]`. -/
def isNameChar (c : Char) : Bool := isNameStart c || ('0' ≤ c && c ≤ '9') || c = '(' || c = ')'

/-- What a definition starts with. -/
def defineStart : List Char := ['#', 'd', 'e', 'f', 'i', 'n', 'e', ' ']

/-- A match of `#define ([A-Za-z_][A-Za-z0-9_()]*) (.*)` at the start of a text, as its two groups. -/
def matchDefine (text : List Char) : Option (List Char × List Char) :=
  if defineStart.isPrefixOf text then
    let rest := text.drop defineStart.length
    if rest.head?.any isNameStart then
      -- no character of a name is a blank, so the longest name is the only one
      match rest.dropWhile isNameChar with
      | ' ' :: value => some (rest.takeWhile isNameChar, value)
      | _ => none
    else none
  else none

/-- `reDefine.find`: the match that starts first. -/
def findDefine (line : List Char) : Option (List Char × List Char) := line.tails.findSome? matchDefine

/-- An Apple extension to gcc, unknown to gccxml. -/
def blocksName : List Char := ['_', '_', 'B', 'L', 'O', 'C', 'K', 'S', '_', '_']

def gnucName : List Char := ['_', '_', 'G', 'N', 'U', 'C', '_', '_']

def gnucMinorName : List Char := ['_', '_', 'G', 'N', 'U', 'C', '_', 'M', 'I', 'N', 'O', 'R', '_', '_']

/-- `MACROS`, `MAJOR_VERSION` and `MINOR_VERSION`. -/
structure MacroScan where
  macros : List Char := []
  majorVersion : Int := -1
  minorVersion : Int := -1

/-- The loop over the lines with the definitions. -/
def MacroScan.addLine (s : MacroScan) (line : List Char) : MacroScan :=
  match findDefine line with
  | none => s
  | some (name, value) =>
      if name = blocksName then s
      else
        { macros :=
            (if s.macros = [] then "-D".toList else s.macros ++ " -D".toList) ++ name ++ "='".toList ++ value ++
              "'".toList
          majorVersion :=
            if s.majorVersion = -1 ∧ name = gnucName then atoi value else s.majorVersion
          minorVersion :=
            if s.minorVersion = -1 ∧ name = gnucMinorName then atoi value else s.minorVersion }

def scanMacros (output : List Char) : MacroScan := (splitString output '\n').foldl MacroScan.addLine {}

/-! ## The search path -/

/-- The directory on a line: the match of `^[ ]*(.*)[ ]*$`, in which the text takes the blanks at the end too. -/
def directoryText (dirs : HomeDirectories) (line : List Char) : List Char :=
  convertToUnixSlashes dirs (line.dropWhile (· = ' '))

/-- The option for a directory. -/
def directoryOption (dir : List Char) : List Char :=
  if "/Frameworks".toList <:+: dir then ['-', 'F'] else ['-', 'i', 's', 'y', 's', 't', 'e', 'm']

/-- What a list of directories starts with. -/
def searchStart : List Char := ['#', 'i', 'n', 'c', 'l', 'u', 'd', 'e', ' ', '<', '.', '.', '.']

/-- `collecting` and `INCLUDES`. -/
structure IncludeScan where
  collecting : Bool := false
  includes : List Char := []

/-- The loop over the lines with the search path. -/
def IncludeScan.addLine (dirs : HomeDirectories) (s : IncludeScan) (line : List Char) : IncludeScan :=
  if s.collecting then
    if line.head? = some ' ' ∨ line.head? = some '/' then
      let dir := directoryText dirs line
      { s with includes :=
          (if s.includes = [] then [] else s.includes ++ [' ']) ++ directoryOption dir ++ ['"'] ++ dir ++ ['"'] }
    else { s with collecting := false }
  else if searchStart <:+: line then { s with collecting := true }
  else s

def scanIncludes (dirs : HomeDirectories) (output : List Char) : List Char :=
  ((splitString output '\n').foldl (IncludeScan.addLine dirs) {}).includes

/-! ## The flags -/

/-- The hack to handle bad gcc 4.0 on RedHat. -/
def hackVersion (majorVersion minorVersion : Int) (includes : List Char) : Int × Int :=
  if 4 = majorVersion ∧ "c++/3.4".toList <:+: includes then (3, 4) else (majorVersion, minorVersion)

/-- A number as a stream writes it. -/
def decimal : Int → List Char
  | .ofNat n => Nat.toDigits 10 n
  | .negSucc n => '-' :: Nat.toDigits 10 (n + 1)

/-- The directories with support headers that are put before the search path, and whether there are built-ins. -/
def supportSettings : Int × Int → List (List Char) × Bool
  | (majorVersion, minorVersion) =>
      if majorVersion < 3 then
        if minorVersion = 96 then (["2.96".toList, "2.95".toList], false) else (["2.95".toList], false)
      else if majorVersion ≥ 4 then
        ([decimal majorVersion ++ '.' :: decimal minorVersion], true)
      else if majorVersion = 3 ∧ minorVersion ≥ 4 then (["3.4".toList], true)
      else if majorVersion = 3 ∧ minorVersion = 3 then (["3.3".toList], true)
      else if majorVersion = 3 ∧ minorVersion = 2 then (["3.2".toList], false)
      else if majorVersion = 3 ∧ minorVersion = 1 then (["3.1".toList], false)
      else if majorVersion = 3 ∧ minorVersion = 0 then (["3.0".toList], false)
      else ([], false)

/-- `-iwrapper`. -/
def wrapperOption : List Char := ['-', 'i', 'w', 'r', 'a', 'p', 'p', 'e', 'r']

/-- `SPECIAL`. -/
def specialFlags (builtins : Bool) : List Char := if builtins then "-include \"gccxml_builtins.h\"".toList else []

/-- `FindFlagsGCC`, from the support path and what the two runs of the compiler print; a run that fails counts as one
that prints nothing. There is no result where it reports an error. -/
def findFlagsGCC (dirs : HomeDirectories) (supportPath defineOutput verboseOutput : List Char) :
    Option (List Char) :=
  let scan := scanMacros defineOutput
  if scan.majorVersion = -1 then none
  else if scan.minorVersion = -1 then none
  else
    let includes := scanIncludes dirs verboseOutput
    let (supports, builtins) := supportSettings (hackVersion scan.majorVersion scan.minorVersion includes)
    let includes :=
      supports.flatMap (fun dir => wrapperOption ++ ['"'] ++ supportPath ++ ['/'] ++ dir ++ ['"', ' ']) ++ includes
    let special := specialFlags builtins
    let flags := scan.macros
    let flags := if includes ≠ [] then (if flags ≠ [] then flags ++ [' '] else flags) ++ includes else flags
    let flags := if special ≠ [] then (if flags ≠ [] then flags ++ [' '] else flags) ++ special else flags
    if flags ≠ [] then some flags else none

end GccXml

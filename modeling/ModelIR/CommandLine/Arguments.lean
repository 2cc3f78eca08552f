import ModelIR.Cache.Filter
import ModelIR.Text.CommaList

/-!
# Command line arguments

Options are written `--name value` or `--name=value`; there are no other arguments. They are read
from left to right. A value behind `=` belongs to its option at once; else the option is open until
the next option is known, or until the end, and only then its value is looked at. So what stands in
the wrong place is reported before a fault in the value of the option that is open.
-/

namespace ModelIR.CommandLine

/-- The options that take a value. -/
inductive Opt where
  | testConf
  | refsConf
  | irCacheDir
  | topology
  | framework
  | precision
  | notTopology
deriving DecidableEq, Repr

namespace Opt

/-- All options. -/
def all : List Opt :=
  [testConf, refsConf, irCacheDir, topology, framework, precision, notTopology]

/-- The name of an option. -/
def name : Opt → String
  | testConf => "test_conf"
  | refsConf => "refs_conf"
  | irCacheDir => "ir_cache_dir"
  | topology => "topology"
  | framework => "framework"
  | precision => "precision"
  | notTopology => "not_topology"

/-- The option of a name. -/
def ofName? (name : String) : Option Opt :=
  all.find? (·.name = name)

/-- Whether the value is a path, which may not be empty. -/
def isPath : Opt → Bool
  | testConf | refsConf | irCacheDir => true
  | _ => false

end Opt

/-- What ends the reading of arguments before its time. -/
inductive Stop where
  | displayHelp
  | displayVersion
  /-- A value is missing, or a path is empty. -/
  | invalidValue
  | unknownArgument
  /-- An option is given twice. -/
  | argumentConflict
  /-- A value for an option that takes none. -/
  | tooManyValues
  | missingRequiredArgument
deriving DecidableEq, Repr

/-- The state of reading: the values so far, and the option that is open, with its value if it has
one. -/
structure State where
  values : List (Opt × String) := []
  pending : Option (Opt × Option String) := none
deriving DecidableEq, Repr

namespace State

/-- Gives an option its value. -/
def give (s : State) (opt : Opt) (value : Option String) : Except Stop State :=
  match value with
  | none => .error .invalidValue
  | some value =>
    if (s.values.lookup opt).isSome then .error .argumentConflict
    else if opt.isPath && value.isEmpty then .error .invalidValue
    else .ok { values := s.values ++ [(opt, value)] }

/-- Looks at the option that is open. -/
def settle (s : State) : Except Stop State :=
  match s.pending with
  | none => .ok s
  | some (opt, value) => s.give opt value

end State

/-- A name and, behind the first `=`, a value. -/
def splitAssignment (text : List Char) : String × Option String :=
  let name := String.ofList (text.takeWhile (· ≠ '='))
  match text.dropWhile (· ≠ '=') with
  | [] => (name, none)
  | _ :: value => (name, some (String.ofList value))

/-- The options without a value, by their names. -/
def display? (name : String) : Option Stop :=
  if name = "help" then some .displayHelp
  else if name = "version" then some .displayVersion
  else none

/-- The options without a value, by their letters. -/
def displayLetter? (c : Char) : Option Stop :=
  if c = 'h' then some .displayHelp
  else if c = 'V' then some .displayVersion
  else none

/-- Reads an argument that begins with two dashes. -/
def readLong (s : State) (text : List Char) : Except Stop State := do
  let (name, value) := splitAssignment text
  match Opt.ofName? name, display? name with
  | some opt, _ =>
    let s ← s.settle
    match value with
    | some value => s.give opt (some value)
    | none => return { s with pending := some (opt, none) }
  | none, some stop =>
    if value.isSome then throw .tooManyValues
    discard s.settle
    throw stop
  | none, none => throw .unknownArgument

/-- Reads a cluster of letters, of which the first decides. -/
def readShort (s : State) (letter : Char) : Except Stop State := do
  match displayLetter? letter with
  | some stop =>
    discard s.settle
    throw stop
  | none => throw .unknownArgument

/-- Reads the value of the option that is open. -/
def readValue (s : State) (text : String) : Except Stop State :=
  match s.pending with
  | some (opt, none) => .ok { s with pending := some (opt, some text) }
  | _ => .error .unknownArgument

/-- Reads one argument. -/
def readArgument (s : State) (text : String) : Except Stop State :=
  match text.toList with
  | '-' :: '-' :: long => readLong s long
  | '-' :: letter :: _ => readShort s letter
  | _ => readValue s text

/-- Reads all arguments. Nothing may stand behind `--`. -/
def readAll (s : State) : List String → Except Stop State
  | [] => s.settle
  | arg :: args =>
    if arg = "--" then
      if args.isEmpty then s.settle else .error .unknownArgument
    else do
      readAll (← readArgument s arg) args

/-- What the arguments say. -/
structure Arguments where
  testConf : Path
  refsConf : Path
  /-- The directory to scan, if one is given. -/
  irCacheDir : Option Path := none
  filter : Filter := {}
deriving DecidableEq, Repr

/-- The references document, unless another is given. -/
def defaultRefsConf : String := "references_config.xml"

/-- The directory to scan, unless another is given, seen from the directory of the program. -/
def defaultIrCacheDir : String := "../ir_cache"

namespace Arguments

/-- The items of a list option; none if it is not given. -/
def listValue (values : List (Opt × String)) (opt : Opt) : List String :=
  ((values.lookup opt).map CommaList.parse).getD []

/-- The arguments from the values of the options. -/
def ofValues (values : List (Opt × String)) : Except Stop Arguments :=
  match values.lookup .testConf with
  | none => .error .missingRequiredArgument
  | some testConf =>
    .ok
      { testConf := .ofString testConf
        refsConf := .ofString ((values.lookup .refsConf).getD defaultRefsConf)
        irCacheDir := (values.lookup .irCacheDir).map Path.ofString
        filter :=
          { topology := listValue values .topology
            notTopology := listValue values .notTopology
            framework := listValue values .framework
            precision := listValue values .precision } }

/-- Reads the arguments that follow the name of the program. -/
def parse (args : List String) : Except Stop Arguments := do
  ofValues (← readAll {} args).values

end Arguments

end ModelIR.CommandLine

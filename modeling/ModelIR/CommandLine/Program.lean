import ModelIR.CommandLine.Arguments
import ModelIR.Manifest.Generation

/-!
# The program

The program generates what its arguments ask for. Its exit code tells whether it has done so: it is
1 if the generation fails and 2 if the arguments are at fault.
-/

namespace ModelIR.CommandLine

/-- The name of the program. -/
def programName : String := "gen-testdata"

/-- The version of the program. -/
def version : String := "0.1.0"

/-- How the program is called. -/
def usage : String :=
  s!"Usage: {programName} [OPTIONS] --test_conf <test_conf>\n\nOptions:" ++
    String.join (Opt.all.map fun opt => s!"\n      --{opt.name} <{opt.name}>")

/-- How the program ends, and what it says. -/
structure Outcome where
  exitCode : Nat := 0
  output : Option String := none
  complaint : Option String := none
deriving DecidableEq, Repr

/-- The job that arguments ask for, with the directory to scan unless they give one. -/
def Arguments.toJob (a : Arguments) (defaultDir : Path) : Job where
  testConf := a.testConf
  refsConf := a.refsConf
  irCacheDir := a.irCacheDir.getD defaultDir
  filter := a.filter

/-- What is wrong with arguments. -/
def Stop.message : Stop → String
  | displayHelp | displayVersion => ""
  | invalidValue => "a value is required, and a path may not be empty"
  | unknownArgument => "unexpected argument found"
  | argumentConflict => "an option cannot be used multiple times"
  | tooManyValues => "unexpected value found for an option that takes none"
  | missingRequiredArgument => s!"the option --{Opt.testConf.name} is required"

/-- How the program ends if its arguments stop it. -/
def Stop.outcome (stop : Stop) : Outcome :=
  match stop with
  | displayHelp => { output := some usage }
  | displayVersion => { output := some s!"{programName} {version}" }
  | _ => { exitCode := 2, complaint := some s!"error: {stop.message}" }

/-- How the program ends if a job fails. -/
def failure (job : Job) (e : ManifestError) : Outcome where
  exitCode := 1
  complaint := some
    (s!"Error: failed to generate test data from {job.irCacheDir.toText}\n\n" ++
      s!"Caused by:\n    {e.message}")

/-- Runs the program. -/
def run {m : Type → Type} [Monad m] (files : Files m) (defaultDir : Path) (args : List String) :
    StateT WordSource m Outcome := do
  match Arguments.parse args with
  | .error stop => return stop.outcome
  | .ok a =>
    let job := a.toJob defaultDir
    match ← (job.run files).run with
    | .ok _ => return {}
    | .error e => return failure job e

end ModelIR.CommandLine

import ModelIR.CommandLine.Program
import ModelIR.Files.Walk

/-!
# The command line

Gives the program the files of the system, and a source of words whose seed the system draws.
-/

namespace ModelIR.CommandLine

/-- The reason for which the system refuses access. -/
def refusal : IO.Error → FileError
  | .noFileOrDirectory .. => .missing
  | .inappropriateType .. => .notDirectory
  | .permissionDenied .. => .accessDenied
  | .resourceExhausted .. => .noSpace
  | e => .other (toString e)

/-- The path as the system knows it, seen from the directory where the program works. -/
def located (p : Path) :=
  (· / p.toText) <$> IO.currentDir

/-- An action whose failure is a value. -/
def refusable {ε α : Type} (fault : FileError → ε) (action : IO α) : IO (Except ε α) := do
  match ← action.toBaseIO with
  | .ok a => return .ok a
  | .error e => return .error (fault (refusal e))

/-- Opens a path for reading. -/
def openPath (p : Path) : IO Opened := do
  let place ← located p
  if ← place.isDir then return .directory
  else return .file (← IO.FS.readBinFile place)

/-- The entries of a directory, and what is below them. -/
partial def entriesOf (p : Path) : IO (List (Name × Entry)) := do
  let listed ← (← located p).readDir
  listed.toList.mapM fun listing => do
    let name := listing.fileName.toUTF8.data.toList
    match (← listing.path.symlinkMetadata).type with
    | .dir => return (name, .dir (← entriesOf (p.join name)))
    | _ => return (name, .file {})

/-- What is met below a path. -/
def visitsBelow (p : Path) : IO (List Visit) := do
  if ← (← located p).isDir then
    match ← (entriesOf p).toBaseIO with
    | .ok entries => return (Entry.dir entries).visits p []
    | .error _ => return [.unlistable p]
  else return []

/-- Gives a file its content, and makes it if it is missing. -/
def savePath (p : Path) (content : ByteArray) : IO (Except SaveFault Unit) := do
  let place ← located p
  match ← refusable SaveFault.create (IO.FS.Handle.mk place .write) with
  | .error fault => return .error fault
  | .ok handle =>
    match ← refusable SaveFault.emit (handle.write content) with
    | .error fault => return .error fault
    | .ok _ => refusable SaveFault.flush handle.flush

/-- The files of the system. -/
def systemFiles : Files IO where
  opened p := refusable id (openPath p)
  present p := do (← located p).pathExists
  visits := visitsBelow
  saved := savePath

/-- The directory to scan unless the arguments give one. -/
def systemDir : IO Path := do
  let base := ((← IO.appPath).parent.map toString).getD ""
  return (Path.ofString base).join (Path.ofString defaultIrCacheDir).bytes

/-- A source of words that differ from call to call. -/
def systemWords : IO WordSource := do
  let bytes ← IO.getRandomBytes 8
  return .ofSeed (bytes.data.foldl (fun seed b => seed * 256 + b.toUInt64) 0)

end ModelIR.CommandLine

open ModelIR.CommandLine in
/-- Runs the program on the files of the system. -/
def main (args : List String) : IO UInt32 := do
  let (outcome, _) ← (run systemFiles (← systemDir) args).run (← systemWords)
  if let some text := outcome.output then IO.println text
  if let some text := outcome.complaint then IO.eprintln text
  return outcome.exitCode.toUInt32

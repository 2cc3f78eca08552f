import ModelIR.Files.Basic
import ModelIR.RunConfig.Reader

/-!
# Configurations in files

A file that holds a configuration has to be text.
-/

namespace ModelIR

/-- The reasons for which a configuration cannot be loaded. -/
inductive ConfigError where
  | access (path : Path) (e : FileError)
  | unreadable (path : Path) (fault : Json.Fault)
deriving DecidableEq, Repr

/-- The wording of an error. -/
def ConfigError.message : ConfigError → String
  | access path e => s!"io error reading {path.toText}: {e.message}"
  | unreadable path _ => s!"malformed config in {path.toText}"

namespace RunConfig

/-- The text of what is opened. -/
def textOf : Except FileError Opened → Except FileError String
  | .ok (.file bytes) =>
    match String.fromUTF8? bytes with
    | some text => .ok text
    | none => .error .notText
  | .ok .directory => .error .isDirectory
  | .error e => .error e

/-- The configuration in what is opened. -/
def ofOpened (path : Path) (opened : Except FileError Opened) : Except ConfigError RunConfig :=
  match textOf opened with
  | .ok text => (parse text.toList).mapError (.unreadable path)
  | .error e => .error (.access path e)

/-- Loads a configuration. -/
def load {m : Type → Type} [Monad m] (files : Files m) (path : Path) :
    m (Except ConfigError RunConfig) :=
  return ofOpened path (← files.opened path)

end RunConfig

end ModelIR

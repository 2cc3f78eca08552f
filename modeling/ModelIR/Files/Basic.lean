import ModelIR.Path

/-!
# Access to files

What a program may ask of files: to open one, to tell whether there is one, to list what is below a
directory, and to give one new content. `Files m` answers in a monad `m`, so that the same program
runs on a tree of files that is a value, and on the files of a system.
-/

namespace ModelIR

/-- The reasons for which access fails. -/
inductive FileError where
  | missing
  | notDirectory
  | isDirectory
  | tooManyLinks
  | nameTooLong
  | noSpace
  | accessDenied
  /-- The path holds a zero byte. -/
  | zeroByte
  /-- The content is not text. -/
  | notText
  | other (text : String)
deriving DecidableEq, Repr

namespace FileError

/-- The wording of an error. -/
def message : FileError → String
  | missing => "No such file or directory (os error 2)"
  | notDirectory => "Not a directory (os error 20)"
  | isDirectory => "Is a directory (os error 21)"
  | tooManyLinks => "Too many levels of symbolic links (os error 40)"
  | nameTooLong => "File name too long (os error 36)"
  | noSpace => "No space left on device (os error 28)"
  | accessDenied => "Permission denied (os error 13)"
  | zeroByte => "file name contained an unexpected NUL byte"
  | notText => "stream did not contain valid UTF-8"
  | other text => text

end FileError

/-- What a path may be opened as. A directory has no content to read. -/
inductive Opened where
  | file (content : ByteArray)
  | directory

/-- The step of saving that fails. Content goes out in blocks; the last block, which may not be
full, goes out at the end. -/
inductive SaveFault where
  | create (e : FileError)
  | emit (e : FileError)
  | flush (e : FileError)
deriving DecidableEq, Repr

/-- What is met on the way through a directory. -/
inductive Visit where
  /-- Something other than a directory, and its name. -/
  | file (path : Path) (name : List UInt8)
  /-- A directory that cannot be listed. -/
  | unlistable (path : Path)
deriving DecidableEq, Repr

/-- The files that a program has access to. -/
structure Files (m : Type → Type) where
  /-- Opens a path for reading. -/
  opened : Path → m (Except FileError Opened)
  /-- Whether a path leads to anything. -/
  present : Path → m Bool
  /-- What is below a path, depth first and in every directory by ascending name. -/
  visits : Path → m (List Visit)
  /-- Gives a file its content, and makes it if it is missing. -/
  saved : Path → ByteArray → m (Except SaveFault Unit)

end ModelIR

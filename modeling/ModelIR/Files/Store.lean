import ModelIR.Files.Walk

/-!
# Reading and writing in a tree

A file is written in blocks, so that one with too little room may fail before all of its content is
put out or only at the end; what fits is kept. What is written is the content of all names that the
file has.
-/

namespace ModelIR

/-- How many bytes go out at once. -/
def blockSize : Nat := 8192

/-- How many of some bytes go out before the end: all full blocks, but the last one if nothing is
behind it. This is exact for a file with no room at all. Where the bytes come in pieces, a piece
that does not fit into what is left of a block goes out with the next one, so that the blocks end up
to a piece earlier, and a fault near the end of a block may come a block later than here. -/
def emitted (size : Nat) : Nat :=
  (size - 1) / blockSize * blockSize

namespace File

/-- The file with new content, as far as it fits. -/
def write (f : File) (content : ByteArray) : File :=
  match f.room with
  | none => { f with content }
  | some room => { f with content := content.extract 0 room }

/-- Why new content does not fit. -/
def writeFault? (f : File) (content : ByteArray) : Option SaveFault :=
  match f.room with
  | none => none
  | some room =>
    if content.size ≤ room then none
    else if room < emitted content.size then some (.emit .noSpace)
    else some (.flush .noSpace)

end File

namespace FileTree

/-- Opens a path for reading. -/
def opened (t : FileTree) (p : Path) : Except FileError Opened :=
  match t.resolve p with
  | .ok (.found _ (.file f)) => .ok (.file f.content)
  | .ok (.found _ (.dir _)) => .ok .directory
  | .ok _ => .error .missing
  | .error e => .error e

/-- Puts an entry at a location. -/
def put (t : FileTree) (location : Location) (e : Entry) : FileTree :=
  { t with root := Entry.put e location t.root }

/-- Gives a file at a location its content, and all other names of the file. -/
def store (t : FileTree) (location : Location) (f : File) : FileTree :=
  { t with root := Entry.put (.file f) location (t.root.share f) }

/-- What is to be written at the end of a path, or of the target of a link, that ends in a slash:
nothing, because the slash asks for a directory. The directory above has to be there. -/
def refuseSlash (t : FileTree) (links : Nat) (location : Location) (p : Path) :
    Except FileError Arrival :=
  match t.follow links location p.stepsAbove with
  | .ok _ => .error .isDirectory
  | .error e => .error e

/-- Follows names to what is to be written, and `links` links at most. -/
def followToWrite (t : FileTree) (links : Nat) (location : Location) (names : List Name) :
    Except FileError Arrival :=
  match t.walk location names with
  | .ok (.link directory target rest) =>
    match links with
    | 0 => .error .tooManyLinks
    | links + 1 =>
      let location := start directory target
      if rest = [] && target.endsInSlash then t.refuseSlash links location target
      else followToWrite t links location (target.steps ++ rest)
  | arrival => arrival

/-- What a path leads to, if it is to be written. -/
def resolveToWrite (t : FileTree) (p : Path) : Except FileError Arrival :=
  let location := start t.workplace p
  match p.refusal? with
  | some e => .error e
  | none =>
    if p.endsInSlash then t.refuseSlash maxLinks location p
    else t.followToWrite maxLinks location p.steps

/-- The file that a path gives to write, and where it is. -/
def writable (t : FileTree) (p : Path) : Except FileError (Location × File) :=
  match t.resolveToWrite p with
  | .ok (.found location (.file f)) =>
    if f.writable then .ok (location, f) else .error .accessDenied
  | .ok (.found _ _) => .error .isDirectory
  | .ok (.vacant directory name) => .ok (directory ++ [name], {})
  | .ok (.link ..) => .error .tooManyLinks
  | .error e => .error e

/-- Gives a file its content, and makes it if it is missing. -/
def save (t : FileTree) (p : Path) (content : ByteArray) : Except SaveFault Unit × FileTree :=
  match t.writable p with
  | .error e => (.error (.create e), t)
  | .ok (location, f) =>
    (match f.writeFault? content with
      | none => .ok ()
      | some fault => .error fault,
      t.store location (f.write content))

/-- Makes the directories on the way along some names, where they are missing. -/
def makeDirectories (t : FileTree) (p : Path) (names : List Name) : FileTree :=
  (List.range names.length).foldl (fun t i =>
    match t.resolveNames p (names.take (i + 1)) with
    | .ok (.vacant directory name) => t.put (directory ++ [name]) (.dir [])
    | _ => t) t

/-- Puts an entry where a path leads to, with the directories that are missing on the way. A
directory that is there stays. -/
def place (t : FileTree) (p : Path) (e : Entry) : FileTree :=
  let t := t.makeDirectories p p.names.dropLast
  match t.resolveNames p p.names with
  | .ok (.vacant directory name) => t.put (directory ++ [name]) e
  | .ok (.found location (.file _)) => t.put location e
  | _ => t

/-- The files of a tree. -/
def files : Files (StateM FileTree) where
  opened p := return (← get).opened p
  present p := return (← get).present p
  visits p := return (← get).visits p
  saved p content := modifyGet (·.save p content)

end FileTree

end ModelIR

import ModelIR.Files.Basic

/-!
# Trees of files

A tree is made of files, links and directories. A path is followed name by name from the root or
from the directory where the program works: `walk` goes on until a link is met, and `follow` goes on
behind links, of which there may be forty. A file may have more than one name: then it stands in the
tree once for each of them, with one number for all.
-/

namespace ModelIR

/-- A name in a directory. -/
abbrev Name := List UInt8

/-- A file. -/
structure File where
  content : ByteArray := .empty
  writable : Bool := true
  /-- How many bytes it can hold, if not any number. -/
  room : Option Nat := none
  /-- The number of a file that has more than one name. -/
  inode : Option Nat := none

/-- Whether two names are names of one file, seen from what is at them. -/
def File.isTwin (f g : File) : Bool :=
  f.inode.isSome && f.inode = g.inode

/-- What becomes of a name of a file when another name gets content. -/
def File.sharing (f g : File) : File :=
  if f.isTwin g then { f with content := g.content } else f

/-- What a name in a directory stands for. -/
inductive Entry where
  | file (f : File)
  | link (target : Path)
  | dir (entries : List (Name × Entry))

/-- The way from the root to an entry. -/
abbrev Location := List Name

namespace Entry

/-- The entry at a location below an entry. -/
def at? : Entry → Location → Option Entry
  | e, [] => some e
  | dir entries, name :: rest =>
    match entries.lookup name with
    | some e => e.at? rest
    | none => none
  | _, _ :: _ => none

/-- Gives a name an entry, in its place if it has one. -/
def setName (name : Name) (e : Entry) : List (Name × Entry) → List (Name × Entry)
  | [] => [(name, e)]
  | p :: entries => if p.1 = name then (name, e) :: entries else p :: setName name e entries

/-- Puts an entry at a location; the directory that it is put in has to be there. -/
def put (new : Entry) : Location → Entry → Entry
  | [], _ => new
  | name :: rest, dir entries =>
    match entries.lookup name with
    | some e => dir (setName name (put new rest e) entries)
    | none => if rest = [] then dir (setName name new entries) else dir entries
  | _ :: _, e => e

mutual

/-- Gives all other names of a file the content that it has. -/
def share (f : File) : Entry → Entry
  | file g => file (g.sharing f)
  | link target => link target
  | dir entries => dir (shareAll f entries)

/-- Gives all names of a file among entries and below them the content that it has. -/
def shareAll (f : File) : List (Name × Entry) → List (Name × Entry)
  | [] => []
  | (name, e) :: entries => (name, e.share f) :: shareAll f entries

end

end Entry

/-- A tree of files, and the directory in it where the program works. -/
structure FileTree where
  root : Entry := .dir []
  workplace : Location := []

/-- How many bytes a path may have. -/
def maxPathLength : Nat := 4095

/-- How many bytes a name may have. -/
def maxNameLength : Nat := 255

/-- How many links may be met on a way. -/
def maxLinks : Nat := 40

/-- The names that a path is followed by: a slash at its end asks for a directory. -/
def Path.steps (p : Path) : List Name :=
  if p.endsInSlash then p.names ++ [Path.here] else p.names

/-- The names that lead to the directory where a path's last name is looked up. -/
def Path.stepsAbove (p : Path) : List Name :=
  p.names.dropLast ++ [Path.here]

/-- Why a path is refused before it is followed. -/
def Path.refusal? (p : Path) : Option FileError :=
  if (0 : UInt8) ∈ p.bytes then some .zeroByte
  else if p.bytes = [] then some .missing
  else if p.bytes.length > maxPathLength then some .nameTooLong
  else none

/-- What a way through a tree leads to. -/
inductive Arrival where
  | found (location : Location) (e : Entry)
  /-- A directory that lacks the last name. -/
  | vacant (directory : Location) (name : Name)
  /-- A link in a directory, with names still to follow. -/
  | link (directory : Location) (target : Path) (rest : List Name)

namespace FileTree

variable (t : FileTree)

/-- Follows names from a location, up to the first link. -/
def walk (location : Location) : List Name → Except FileError Arrival
  | [] =>
    match t.root.at? location with
    | some e => .ok (.found location e)
    | none => .error .missing
  | name :: rest =>
    match t.root.at? location with
    | some (.dir entries) =>
      if name = Path.here then walk location rest
      else if name = Path.up then walk location.dropLast rest
      else if name.length > maxNameLength then .error .nameTooLong
      else
        match entries.lookup name with
        | some (.link target) => .ok (.link location target rest)
        | some _ => walk (location ++ [name]) rest
        | none => if rest = [] then .ok (.vacant location name) else .error .missing
    | some _ => .error .notDirectory
    | none => .error .missing

/-- Where a path begins. -/
def start (directory : Location) (p : Path) : Location :=
  if p.isAbsolute then [] else directory

/-- Follows names from a location, and `links` links at most. -/
def follow (links : Nat) (location : Location) (names : List Name) : Except FileError Arrival :=
  match t.walk location names with
  | .ok (.link directory target rest) =>
    match links with
    | 0 => .error .tooManyLinks
    | links + 1 => follow links (start directory target) (target.steps ++ rest)
  | arrival => arrival

/-- Follows names from the place where a path begins. -/
def resolveNames (p : Path) (names : List Name) : Except FileError Arrival :=
  match p.refusal? with
  | some e => .error e
  | none => t.follow maxLinks (start t.workplace p) names

/-- What a path leads to. -/
def resolve (p : Path) : Except FileError Arrival :=
  t.resolveNames p p.steps

end FileTree

end ModelIR

/-!
# File trees

Directories and regular files, each known by the names on the way to it from the root. A path is
followed name by name, and only a directory leads on. Making a directory with all those above it
starts from the deepest one that is there; what was made stays, even where a later name fails.
-/
namespace Quorum

/-- Why nothing is read from a path, or made at it. -/
inductive FileError
  | missing
  | present
  | directory
  | notDirectory
  | nameTooLong
  | nulInPath
  | denied
  | deviceFailed
deriving DecidableEq, Repr

/-- The message of the system, with its number. -/
def FileError.message : FileError → String
  | missing => "No such file or directory (os error 2)"
  | deviceFailed => "Input/output error (os error 5)"
  | denied => "Permission denied (os error 13)"
  | present => "File exists (os error 17)"
  | notDirectory => "Not a directory (os error 20)"
  | directory => "Is a directory (os error 21)"
  | nameTooLong => "File name too long (os error 36)"
  | nulInPath => "file name contained an unexpected NUL byte"

/-- The names on the way from the root. -/
abbrev Place := List String

/-- The part of a file system that matters here: which directories there are, and which files with
what in them. -/
structure FileTree (α : Type) where
  files : List (Place × α) := []
  /-- Every place on the way to one of these is a directory, too. -/
  directories : List Place := []
  /-- Where paths start that do not start at the root. -/
  here : Place := []

namespace FileTree

/-- The longest name, in octets. -/
def longestName : Nat := 255

/-- The longest path, in octets. -/
def longestPath : Nat := 4095

def isDirectoryAt (t : FileTree α) (p : Place) : Bool :=
  p = [] || t.directories.any fun d => p.isPrefixOf d

def put (t : FileTree α) (p : Place) : FileTree α := { t with directories := p :: t.directories }

/-- The place that a name leads to. A name that is missing is an error here; what is to be made is
put below the place of the directory above it. -/
def follow (t : FileTree α) (p : Place) (name : String) : Except FileError Place :=
  let next := p ++ [name]
  if !t.isDirectoryAt p then .error .notDirectory
  else if name = "" || name = "." then .ok p
  else if name = ".." then .ok p.dropLast
  else if longestName < name.utf8ByteSize then .error .nameTooLong
  else if t.isDirectoryAt next || (t.files.lookup next).isSome then .ok next
  else .error .missing

/-- Where a path starts. -/
def start (t : FileTree α) (path : String) : Except FileError Place :=
  if path.contains '\x00' then .error .nulInPath
  else if path = "" then .error .missing
  else if longestPath < path.utf8ByteSize then .error .nameTooLong
  else .ok (if path.startsWith "/" then [] else t.here)

/-- A path that ends in a slash leads to a directory. -/
def locate (t : FileTree α) (path : String) : Except FileError Place := do
  (path.splitOn "/").foldlM t.follow (← t.start path)

def isDirectory (t : FileTree α) (path : String) : Bool :=
  match t.locate path with
  | .ok p => t.isDirectoryAt p
  | .error _ => false

/-- What a file holds, or why it cannot be read. -/
def read (t : FileTree α) (path : String) : Except FileError α := do
  match t.files.lookup (← t.locate path) with
  | some a => return a
  | none => throw .directory

/-- Makes the directory that some names lead to, all but the last of which must be there. -/
def makeOne (t : FileTree α) (start : Place) (names : List String) :
    Except FileError (FileTree α) := do
  match names.getLast? with
  | none => throw .present
  | some last =>
    let p ← names.dropLast.foldlM t.follow start
    match t.follow p last with
    | .ok _ => throw .present
    | .error .missing => return t.put (p ++ [last])
    | .error e => throw e

/-- Whether a path names something that is a directory already. -/
def leadsToDirectory (t : FileTree α) (start : Place) (names : List String) : Bool :=
  match names.foldlM t.follow start with
  | .ok p => t.isDirectoryAt p
  | .error _ => false

/-- Makes directories one after the other, passing over those that are there. -/
def makeEach (t : FileTree α) (start : Place) :
    List (List String) → Except FileError Unit × FileTree α
  | [] => (.ok (), t)
  | names :: more =>
    match t.makeOne start names with
    | .ok t => makeEach t start more
    | .error e =>
      if e = .present && t.leadsToDirectory start names then makeEach t start more
      else (.error e, t)

/-- Looks for the first directory that can be made or is there, and makes those that were missing
before it, the last of them first. -/
def makeFrom (t : FileTree α) (start : Place) (pending : List (List String)) :
    List (List String) → Except FileError Unit × FileTree α
  | [] => makeEach t start pending
  | names :: shorter =>
    match t.makeOne start names with
    | .error .missing => makeFrom t start (names :: pending) shorter
    | _ => makeEach t start (names :: pending)

/-- The names of a path and those of the directories above it. A dot that ends the path belongs to
no other. -/
def ancestors (path : String) : List (List String) :=
  let names := (path.splitOn "/").filter (· ≠ "")
  let plain := names.filter (· ≠ ".")
  names :: (List.range plain.length).reverse.map plain.take

/-- Makes a directory and all those above it. The empty path is the directory one is in. -/
def makeDirectory (t : FileTree α) (path : String) : Except FileError Unit × FileTree α :=
  if path = "" then (.ok (), t)
  else match t.start path with
    | .error e => (.error e, t)
    | .ok start => t.makeFrom start [] (ancestors path)

/-- Makes the directories above a file. -/
def makeParents (t : FileTree α) (path : String) : Except FileError Unit × FileTree α :=
  match t.start path with
  | .error e => (.error e, t)
  | .ok start => t.makeFrom start [] (ancestors path).tail

end FileTree
end Quorum

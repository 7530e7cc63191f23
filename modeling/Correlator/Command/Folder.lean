import Correlator.Stream.Source

/-!
# Opening files

The command sees the world only through a function that opens paths.  A `Folder`
gives such a function for files that are held in memory: a path is walked piece by
piece, and every piece but the last must lead to a folder.
-/

namespace Correlator

/-- Why a file does not open. -/
inductive OpenError
  | notFound
  | notAFolder
  | nameTooLong
  | invalidName
  | denied
  | other (reason : String)
deriving DecidableEq, Repr

def OpenError.message : OpenError → String
  | .notFound => "No such file or directory (os error 2)"
  | .notAFolder => "Not a directory (os error 20)"
  | .nameTooLong => "File name too long (os error 36)"
  | .invalidName => "file name contained an unexpected NUL byte"
  | .denied => "Permission denied (os error 13)"
  | .other reason => reason

/-- How paths are opened. -/
abbrev OpenPath := String → Except OpenError Source

/-- A folder opens like a file, but it cannot be read. -/
def folderSource : Source where
  bytes := #[]
  readFault := some ⟨0, "Is a directory (os error 21)"⟩

/-- The current folder: files with their names, and no folders. -/
structure Folder where
  files : List (String × Array UInt8)

/-- Where a path leads: to the current folder, to a folder outside it of which nothing
is known, or to a file. -/
inductive Place
  | here
  | outside
  | file (bytes : Array UInt8)

def Place.source : Place → Source
  | .here | .outside => folderSource
  | .file bytes => { bytes }

namespace Folder

/-- Limits on names and on whole paths, in bytes. -/
def maxName : Nat := 255

def maxPath : Nat := 4095

/-- Look a name up in the current folder. -/
def find (f : Folder) (name : String) : Except OpenError Place :=
  match f.files.lookup name with
  | some bytes => .ok (.file bytes)
  | none => .error .notFound

/-- Follow one piece of a path.  Nothing can be looked for in a file, an empty piece or
a dot stays where it is, and two dots lead outside. -/
def follow (f : Folder) (place : Place) (piece : String) : Except OpenError Place :=
  match place with
  | .file _ => .error .notAFolder
  | .here | .outside =>
    if piece = "" ∨ piece = "." then .ok place
    else if piece = ".." then .ok .outside
    else if maxName < piece.utf8ByteSize then .error .nameTooLong
    else match place with
      | .here => f.find piece
      | _ => .error .notFound

/-- Walk a path from the current folder, or from outside if it starts with a slash. -/
def walk (f : Folder) (path : String) : Except OpenError Place :=
  (path.splitOn "/").foldlM f.follow (if path.startsWith "/" then .outside else .here)

def openPath (f : Folder) : OpenPath := fun path =>
  if path.contains '\x00' then .error .invalidName
  else if path.isEmpty then .error .notFound
  else if maxPath < path.utf8ByteSize then .error .nameTooLong
  else (f.walk path).map Place.source

end Folder
end Correlator

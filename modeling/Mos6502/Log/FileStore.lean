/-!
Text files in folders, as far as a log needs them. A path is a sequence of names between slashes;
empty names and single dots in it mean nothing, and a double dot leaves the folder again. Names and
paths have a greatest length, in bytes. Files can be opened in folders that exist; opening one that
does not exist creates it.
-/

set_option autoImplicit false

namespace Mos6502

/-- Why a file cannot be opened. -/
inductive OpenFault where
  | notFound
  | isFolder
  | notFolder
  | nameTooLong
  | nameWithNul
  deriving DecidableEq, Repr

/-- The text of an `OpenFault`. -/
def OpenFault.message : OpenFault → String
  | notFound => "No such file or directory (os error 2)"
  | isFolder => "Is a directory (os error 21)"
  | notFolder => "Not a directory (os error 20)"
  | nameTooLong => "File name too long (os error 36)"
  | nameWithNul => "file name contained an unexpected NUL byte"

/-- The names that lead from the starting folder to a file or folder. A path that starts with a
slash leads through the root folder, whose name is a slash. -/
abbrev Place := List String

/-- The files that there are, and the folders that they can be in. -/
structure FileStore where
  /-- The folders that exist: at least the starting folder and the root. -/
  folders : List Place := [[], ["/"]]
  files : List (Place × String) := []
  deriving DecidableEq, Repr, Inhabited

namespace FileStore

/-- The contents of the file at a place. -/
def contents? (store : FileStore) (place : Place) : Option String :=
  store.files.lookup place

/-- The folder that a double dot leads to. The root has none above it, and neither has the starting
folder, as far as paths are concerned. -/
def leave (folder : Place) : Place :=
  if folder = ["/"] then folder else folder.dropLast

/-- How many bytes a name has at most. -/
def nameLimit : Nat := 255

/-- How many bytes a path has at most. -/
def pathLimit : Nat := 4095

/-- Follows one name of a path from a folder. -/
def enter (store : FileStore) (folder : Place) (name : String) : Except OpenFault Place :=
  if folder ∈ store.folders then
    if name = "." then .ok folder
    else if name = ".." then .ok (leave folder)
    else if nameLimit < name.utf8ByteSize then .error .nameTooLong
    else .ok (folder ++ [name])
  else if (store.contents? folder).isSome then .error .notFolder
  else .error .notFound

/-- Where a path starts. -/
def start (path : String) : Place :=
  if path.startsWith "/" then ["/"] else []

/-- The names in a path. -/
def names (path : String) : List String :=
  (path.splitOn "/").filter (· ≠ "")

/-- Refuses what cannot be a path. -/
def checkPath (path : String) : Except OpenFault Unit :=
  if path.contains '\x00' then .error .nameWithNul
  else if path = "" then .error .notFound
  else if pathLimit < path.utf8ByteSize then .error .nameTooLong
  else .ok ()

/-- Where a path leads. The last name need not exist; all before it have to be folders. -/
def locate (store : FileStore) (path : String) : Except OpenFault Place :=
  (names path).foldlM store.enter (start path)

/-- The folder that the last name of a path is looked up in. -/
def locateFolder (store : FileStore) (path : String) : Except OpenFault Place := do
  let place ← (names path).dropLast.foldlM store.enter (start path)
  store.enter place "."

/-- The store with an empty file at a place where there was none. -/
def create (store : FileStore) (place : Place) : FileStore :=
  if (store.contents? place).isSome then store
  else { store with files := store.files ++ [(place, "")] }

/-- Opens the file that a path leads to, creating it if there is none. A path with a slash at its
end can only lead to a folder. -/
def openFile (store : FileStore) (path : String) : Except OpenFault (Place × FileStore) := do
  checkPath path
  if path.endsWith "/" then
    discard (store.locateFolder path)
    throw .isFolder
  let place ← store.locate path
  if place ∈ store.folders then throw .isFolder
  return (place, store.create place)

/-- The text of the file that a path leads to. -/
def read (store : FileStore) (path : String) : Except OpenFault String := do
  checkPath path
  let place ← store.locate path
  if place ∈ store.folders then throw .isFolder
  match store.contents? place with
  | some text => if path.endsWith "/" then throw .notFolder else return text
  | none => throw .notFound

/-- Adds text to the end of the file at a place. -/
def append (store : FileStore) (place : Place) (text : String) : FileStore :=
  { store with files := store.files.map fun (other, old) ↦
      if other = place then (other, old ++ text) else (other, old) }

end FileStore

end Mos6502

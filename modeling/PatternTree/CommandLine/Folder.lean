namespace PatternTree.CommandLine

/-- What there is under a file's name. -/
inductive FileState where
  /-- Nothing that can be opened. -/
  | missing
  /-- Something that can be opened but not read, such as a directory. -/
  | unreadable
  | contents (bytes : ByteArray)

/-! Paths are looked up here as the documented rules of the system have it, for runs on files that
are given as data. A run of the process looks its paths up in the system itself. -/

/-- The names in a path, those between its slashes. A name is empty where two slashes meet and
    where the path starts or ends with one. -/
def pathNames : List Char → List (List Char)
  | [] => [[]]
  | char :: chars =>
    if char = '/' then [] :: pathNames chars
    else
      match pathNames chars with
      | [] => [[char]]
      | name :: names => (char :: name) :: names

/-- A name that leads to the folder in which it stands. -/
def isHere (name : List Char) : Bool :=
  name = [] || name = ['.']

/-- Whether a name leads to the folder around the one in which it stands. -/
def isAround (name : List Char) : Bool :=
  name = ['.', '.']

/-- The files of a folder and of the folders in it, each with the names that lead to it. A folder
    in it is there for the sake of its files, so that none is empty. -/
structure Folder where
  files : List (List (List Char) × ByteArray)

namespace Folder

/-- The folder with the files of these paths. -/
def ofFiles (files : List (String × ByteArray)) : Folder :=
  ⟨files.map fun (path, bytes) =>
    ((pathNames path.toList).filter fun name => !isHere name, bytes)⟩

/-- Where a path can lead. -/
inductive Place where
  /-- A folder, by the names that lead to it. -/
  | folder (names : List (List Char))
  /-- A folder that does not belong to the files at hand, such as the one around them. What else
      is in it is not known. -/
  | outside
  | file (bytes : ByteArray)
  | nowhere

/-- What there is at the end of plain names. -/
def find (folder : Folder) (names : List (List Char)) : Place :=
  match folder.files.lookup names with
  | some bytes => .file bytes
  | none =>
    if folder.files.any fun (others, _) => names.isPrefixOf others then .folder names
    else .nowhere

/-- Goes on by one name. Only a folder leads anywhere: a file before a slash does not, not even
    when nothing follows. -/
def follow (folder : Folder) (place : Place) (name : List Char) : Place :=
  match place with
  | .folder names =>
    if isHere name then .folder names
    else if isAround name then if names = [] then .outside else .folder names.dropLast
    else folder.find (names ++ [name])
  | .outside => if isHere name || isAround name then .outside else .nowhere
  | .file _ | .nowhere => .nowhere

/-- Where a path leads. A path that starts with a slash starts at the top, outside. -/
def placeAt (folder : Folder) (path : List Char) : Place :=
  (pathNames path).foldl folder.follow (if path.head? = some '/' then .outside else .folder [])

/-- The length in bytes from which on the system looks no path up. -/
def pathLimit : Nat :=
  4096

/-- What there is under a path. The empty path leads nowhere. -/
def fileState (folder : Folder) (path : String) : FileState :=
  if path = "" || pathLimit ≤ path.utf8ByteSize then .missing
  else
    match folder.placeAt path.toList with
    | .file bytes => .contents bytes
    | .folder _ | .outside => .unreadable
    | .nowhere => .missing

end Folder

end PatternTree.CommandLine

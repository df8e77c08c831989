/-!
# Directories

Why a file cannot be read or written, and a directory held in memory in which paths are looked up
part by part.
-/

namespace TypeGraph

/-- Why a file cannot be read or written. -/
inductive FileError where
  | missing
  | notDirectory
  | isDirectory
  | nameTooLong
  | nulByte
  | notText
  | other (reason : String)
deriving DecidableEq, Repr

/-- The wording of an error. -/
def FileError.message : FileError → String
  | missing => "No such file or directory (os error 2)"
  | notDirectory => "Not a directory (os error 20)"
  | isDirectory => "Is a directory (os error 21)"
  | nameTooLong => "File name too long (os error 36)"
  | nulByte => "file name contained an unexpected NUL byte"
  | notText => "stream did not contain valid UTF-8"
  | other reason => reason

/-- Files by the parts of their paths. A directory is there as far as a file is in it. -/
structure Directory where
  files : List (List String × String)

/-- Where a path leads. -/
inductive Location where
  | directory (path : List String)
  | file (path : List String) (text : String)
  /-- A name that is not there, in a directory that is. -/
  | vacant (path : List String)

namespace Directory

/-- The greatest number of bytes in a part of a path. -/
def greatestPartSize : Nat :=
  255

/-- The greatest number of bytes in a path. -/
def greatestPathSize : Nat :=
  4095

/-- The directory that holds files with the given paths. -/
def ofFiles (files : List (String × String)) : Directory :=
  ⟨files.map fun (path, text) =>
    ((path.splitOn "/").filter fun part => part != "" && part != ".", text)⟩

def textAt? (directory : Directory) (path : List String) : Option String :=
  (directory.files.find? fun file => file.1 == path).map Prod.snd

/-- Whether some file has the path in front of its own. -/
def hasDirectory (directory : Directory) (path : List String) : Bool :=
  directory.files.any fun file => path.isPrefixOf file.1 && path != file.1

/-- The part that stands for the directory around all others. -/
def root : String :=
  "/"

/-- The directory around a directory. Nothing is around the outermost one but itself, and of what is
around the one that is held no more is known than how far out it lies. -/
def parent (path : List String) : List String :=
  match path.getLast? with
  | none => [".."]
  | some last =>
    if last = root then path
    else if last = ".." then path ++ [".."]
    else path.dropLast

/-- Goes one part further. An empty part leads nowhere else, and no part leads on from what is not
a directory. -/
def enter (directory : Directory) (location : Location) (part : String) :
    Except FileError Location :=
  match location with
  | .file _ _ => .error .notDirectory
  | .vacant _ => .error .missing
  | .directory path =>
    if greatestPartSize < part.utf8ByteSize then .error .nameTooLong
    else if part = "" ∨ part = "." then .ok (.directory path)
    else if part = ".." then .ok (.directory (parent path))
    else
      let inside := path ++ [part]
      match directory.textAt? inside with
      | some text => .ok (.file inside text)
      | none => .ok (if directory.hasDirectory inside then .directory inside else .vacant inside)

def partsToRead (path : String) : List String :=
  path.splitOn "/"

/-- The parts that lead to what is written. A slash at the end asks for a directory, whether or not
there is anything under the name in front of it. -/
def partsToWrite (path : String) : List String :=
  if path.endsWith "/" then ((partsToRead path).filter (· != "")).dropLast ++ [""]
  else partsToRead path

/-- Where the parts of a path lead. A path with a slash in front starts from the outermost
directory. -/
def follow (directory : Directory) (path : String) (parts : List String) :
    Except FileError Location :=
  if path = "" then .error .missing
  else if path.toList.contains '\x00' then .error .nulByte
  else if greatestPathSize < path.utf8ByteSize then .error .nameTooLong
  else
    parts.foldlM directory.enter (.directory (if path.startsWith "/" then [root] else []))

/-- The text of the file that a path leads to. -/
def read (directory : Directory) (path : String) : Except FileError String :=
  match directory.follow path (partsToRead path) with
  | .error error => .error error
  | .ok (.file _ text) => .ok text
  | .ok (.directory _) => .error .isDirectory
  | .ok (.vacant _) => .error .missing

def write (directory : Directory) (path text : String) : Except FileError Directory :=
  match directory.follow path (partsToWrite path) with
  | .error error => .error error
  | .ok (.file parts _) | .ok (.vacant parts) =>
    .ok ⟨(parts, text) :: directory.files.filter fun file => file.1 != parts⟩
  | .ok (.directory _) => .error .isDirectory

end Directory

end TypeGraph

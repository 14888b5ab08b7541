/-
Files: why one could not be used, how their contents reach the rest of the program, and a directory of them
as a value.

Whatever reads a file is given a `TextReader`; it never looks at a disk itself, so what it does is a
function of the contents that the reader reports.

Files are kept under the list of names that leads to them; a list of names with a file further
down is a folder. A path is walked name by name, and every place on the way but the last has to be a folder.
What lies above the directory is out of sight: such folders can be walked through, but nothing is found in
them.
-/
namespace AdaptiveMtu

/-- Why a file could not be read or written. -/
inductive FileFault where
  | notFound
  | notDirectory
  | isDirectory
  | nameTooLong
  | zeroInName
  | notText
  | other (text : String)
deriving DecidableEq, Repr

/-- The system's words for a fault. -/
def FileFault.message : FileFault → String
  | .notFound => "No such file or directory (os error 2)"
  | .notDirectory => "Not a directory (os error 20)"
  | .isDirectory => "Is a directory (os error 21)"
  | .nameTooLong => "File name too long (os error 36)"
  | .zeroInName => "file name contained an unexpected NUL byte"
  | .notText => "stream did not contain valid UTF-8"
  | .other text => text

/-- The text that each path leads to, or why there is none. -/
abbrev TextReader := String → Except FileFault String

/-- The text that bytes encode in UTF-8. -/
def decodeText (bytes : ByteArray) : Except FileFault String :=
  match String.fromUTF8? bytes with
  | some text => .ok text
  | none => .error .notText

/-- The files of a directory and of the folders in it. -/
structure Directory where
  files : List (List String × ByteArray)

namespace Directory

/-- A directory without files. -/
def empty : Directory := ⟨[]⟩

/-- Where a path leads. -/
inductive Place where
  | folder (path : List String)
  | file (path : List String)
  /-- A name that is free in an existing folder. -/
  | vacant (path : List String)
  /-- A folder above the directory. -/
  | outside

/-- The contents of a file. -/
def lookup? (d : Directory) (path : List String) : Option ByteArray := d.files.lookup path

/-- Whether some file lies further down. -/
def isFolder (d : Directory) (path : List String) : Bool :=
  path.isEmpty || d.files.any fun f => path.isPrefixOf f.1 && path.length < f.1.length

/-- What stands at a list of names inside a folder. -/
def placeOf (d : Directory) (path : List String) : Place :=
  if d.isFolder path then .folder path
  else if (d.lookup? path).isSome then .file path
  else .vacant path

/-- One name further on the way. -/
def walkStep (d : Directory) (place : Place) (name : String) : Except FileFault Place :=
  match place with
  | .folder path =>
    if name = "" || name = "." then .ok (.folder path)
    else if name = ".." then .ok (if path.isEmpty then .outside else .folder path.dropLast)
    else if 255 < name.utf8ByteSize then .error .nameTooLong
    else .ok (d.placeOf (path ++ [name]))
  | .outside =>
    if name = "" || name = "." || name = ".." then .ok .outside else .error .notFound
  | .file _ => .error .notDirectory
  | .vacant _ => .error .notFound

/-- The names that the slashes of a path separate. -/
def names (path : String) : List String := path.splitOn "/"

/-- Where a path leads by the given names; one that begins with a slash begins above the directory. -/
def walk (d : Directory) (path : String) (steps : List String) : Except FileFault Place :=
  if path = "" then .error .notFound
  else if path.toList.contains '\x00' then .error .zeroInName
  else if 4096 ≤ path.utf8ByteSize then .error .nameTooLong
  else steps.foldlM d.walkStep (if path.toList.head? = some '/' then .outside else .folder [])

/-- Where a path leads. -/
def resolve (d : Directory) (path : String) : Except FileFault Place := d.walk path (names path)

/-- The names on the way to a file that is to be written. A path that ends in a slash means a folder, which
no file can replace, so of such a path the last name is not even looked at. -/
def namesToWrite (path : String) : List String :=
  match (names path).reverse with
  | "" :: before => ("." :: (before.dropWhile (· = "")).drop 1).reverse
  | _ => names path

/-- The bytes of the file that a path leads to. -/
def read (d : Directory) (path : String) : Except FileFault ByteArray :=
  (d.resolve path).bind fun
    | .file names => (d.lookup? names).elim (.error .notFound) .ok
    | .vacant _ => .error .notFound
    | .folder _ | .outside => .error .isDirectory

/-- The text of the file that a path leads to. -/
def readText (d : Directory) : TextReader := fun path => (d.read path).bind decodeText

/-- The directory with the given contents at a list of names. -/
def put (d : Directory) (path : List String) (contents : ByteArray) : Directory :=
  ⟨(path, contents) :: d.files.filter fun f => f.1 != path⟩

/-- The directory after writing a file: a new one in an existing folder, or one that replaces the old. -/
def write (d : Directory) (path : String) (contents : ByteArray) : Except FileFault Directory :=
  (d.walk path (namesToWrite path)).bind fun
    | .file names | .vacant names => .ok (d.put names contents)
    | .folder _ | .outside => .error .isDirectory

end Directory

end AdaptiveMtu

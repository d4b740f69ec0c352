-- SUMMARY: File systems, and one of files around a working directory to which paths lead.

/-!
# Files

The program reads whole files and writes whole files. All that it asks of a file system is said by
`FileSystem`, whose states may be anything.

`Directory` is a file system that can be run. A path is walked part by part, and every part but the
last has to end in a folder: a name goes down, two points go up, and one point or nothing stays. It
has less than a real one: a folder is there only as long as a file stands somewhere in it, apart from
the working directory, the folders above it, and the root of the system with its usual folders. No
folder is empty otherwise, so that nothing can be written into one that was just made. A path from
the root and one from the working directory never lead to the same file. There are no links and no
permissions, and the only device is the one that stays empty.
-/

namespace FormRules

/-! ## Errors -/

/-- Why a file cannot be read or written. -/
inductive FileError where
  /-- What the operating system says, with its code. -/
  | refused (reason : String) (code : Nat)
  /-- The content of the file is no UTF-8. -/
  | notText
  deriving DecidableEq, Repr, Inhabited

namespace FileError

def notFound : FileError := refused "No such file or directory" 2
def notFolder : FileError := refused "Not a directory" 20
def isFolder : FileError := refused "Is a directory" 21
def nameTooLong : FileError := refused "File name too long" 36

/-- The words for a file error. -/
def message : FileError → String
  | refused reason code => reason ++ " (os error " ++ code.repr ++ ")"
  | notText => "stream did not contain valid UTF-8"

end FileError

/-! ## File systems -/

/-- Reads the file of a path. -/
abbrev FileReader := String → Except FileError String

/-- How the file of a path is read and written in the states of a file system. A write that fails may
have changed something all the same. -/
structure FileSystem (σ : Type) where
  read : σ → FileReader
  write : σ → String → String → Option FileError × σ

/-! ## Locations -/

/-- Where a way down to a file begins. -/
inductive Base where
  /-- So many folders above the working directory. -/
  | above (levels : Nat)
  /-- The root of the system. -/
  | root
  deriving DecidableEq, Repr, Inhabited

/-- Where a file or folder stands: a base, and the names on the way down from it. -/
structure Location where
  base : Base := .above 0
  way : List String := []
  deriving DecidableEq, Repr, Inhabited

namespace Location

/-- The working directory. -/
def working : Location := {}

/-- The location of a name in a folder. -/
def child (l : Location) (name : String) : Location := { l with way := l.way ++ [name] }

/-- The folder that holds a location. The root holds itself. -/
def parent (l : Location) : Location :=
  match l.way, l.base with
  | [], .above levels => ⟨.above (levels + 1), []⟩
  | [], .root => l
  | _ :: _, _ => { l with way := l.way.dropLast }

/-- Whether a location stands somewhere below another. -/
def isBelow (l folder : Location) : Bool :=
  l.base = folder.base && folder.way.isPrefixOf l.way && l.way != folder.way

/-- A file that every system has, and that stays without content whatever is written to it. -/
def emptyFile : Location := ⟨.root, ["dev", "null"]⟩

/-- Whether a location is one of the folders that every system has at its root. -/
def isSystemFolder (l : Location) : Bool :=
  match l.base, l.way with
  | .root, [name] =>
    ["bin", "boot", "dev", "etc", "home", "lib", "media", "mnt", "opt", "proc", "root", "run", "sbin",
      "srv", "sys", "tmp", "usr", "var"].contains name
  | _, _ => false

end Location

/-! ## Paths -/

/-- The longest name of a file or folder, in bytes. -/
def longestName : Nat := 255

/-- The longest path, in bytes. -/
def longestPath : Nat := 4095

/-- A path as it is given to the program. -/
structure FilePath where
  text : String
  deriving DecidableEq, Repr, Inhabited

namespace FilePath

/-- The stretches of characters between slashes. -/
def stretches : List Char → List (List Char)
  | [] => [[]]
  | c :: cs =>
    if c = '/' then [] :: stretches cs
    else
      match stretches cs with
      | [] => [[c]]
      | first :: rest => (c :: first) :: rest

/-- The parts of a path between its slashes. -/
def parts (p : FilePath) : List String := (stretches p.text.toList).map String.ofList

/-- The parts up to the slashes at the end of the path. -/
def namedParts (p : FilePath) : List String := (p.parts.reverse.dropWhile (·.isEmpty)).reverse

/-- Whether a path ends with a slash, and so asks for a folder. -/
def endsWithSlash (p : FilePath) : Bool := p.parts.getLast? == some ""

/-- Where the walk along a path begins: at the root if the path begins with a slash. -/
def start (p : FilePath) : Location :=
  if p.text.toList.head? = some '/' then ⟨.root, []⟩ else .working

/-- The error of a path that cannot be walked at all. -/
def error? (p : FilePath) : Option FileError :=
  if p.text.isEmpty then some .notFound
  else if p.text.utf8ByteSize > longestPath then some .nameTooLong
  else none

end FilePath

/-! ## Directories -/

/-- The contents of the files in and around a working directory. -/
structure Directory where
  files : List (Location × String) := []
  deriving DecidableEq, Repr, Inhabited

namespace Directory

/-- The directory with the given files, each named by the way to it. -/
def ofList (files : List (String × String)) : Directory :=
  ⟨(.emptyFile, "") :: files.map fun (name, content) =>
    ({ way := FilePath.parts ⟨name⟩ }, content)⟩

/-- The content of the file at a location. -/
def content? (d : Directory) (l : Location) : Option String :=
  (d.files.find? (·.1 = l)).map (·.2)

/-- Whether there is a folder at a location. -/
def hasFolder (d : Directory) (l : Location) : Bool :=
  l.way.isEmpty || l.isSystemFolder || d.files.any (·.1.isBelow l)

/-- Whether there is a file at a location. -/
def hasFile (d : Directory) (l : Location) : Bool := (d.content? l).isSome

/-- Go along one part of a path. Nothing leads on from a file. -/
def step (d : Directory) (l : Location) (part : String) : Except FileError Location :=
  if d.hasFile l then .error .notFolder
  else if part = "" ∨ part = "." then .ok l
  else if part = ".." then .ok l.parent
  else if part.utf8ByteSize > longestName then .error .nameTooLong
  else if d.hasFile (l.child part) || d.hasFolder (l.child part) then .ok (l.child part)
  else .error .notFound

/-- Go along the parts of a path. -/
def walk (d : Directory) (l : Location) : List String → Except FileError Location
  | [] => .ok l
  | part :: rest =>
    match d.step l part with
    | .ok l => d.walk l rest
    | .error e => .error e

/-- What a path leads to: a file or a folder that is there. -/
def locate (d : Directory) (p : FilePath) : Except FileError Location :=
  match p.error? with
  | some e => .error e
  | none => d.walk p.start p.parts

/-- Read a file. -/
def read (d : Directory) (path : String) : Except FileError String :=
  match d.locate ⟨path⟩ with
  | .error e => .error e
  | .ok l =>
    match d.content? l with
    | some content => .ok content
    | none => .error .isFolder

/-- Where a path lets a file be written: under the last name of the path, in the folder to which the
rest leads. A path that ends with points or slashes can only mean a folder. -/
def place (d : Directory) (p : FilePath) : Except FileError Location :=
  match p.error?, p.namedParts.getLast? with
  | some e, _ => .error e
  | none, none => .error .isFolder
  | none, some name =>
    if name = "." ∨ name = ".." then (d.walk p.start p.namedParts).bind fun _ => .error .isFolder
    else
      match d.walk p.start (p.namedParts.dropLast ++ ["."]) with
      | .error e => .error e
      | .ok folder =>
        if p.endsWithSlash then .error .isFolder
        else if name.utf8ByteSize > longestName then .error .nameTooLong
        else if d.hasFolder (folder.child name) then .error .isFolder
        else .ok (folder.child name)

/-- Put content at a location, over the content that is there. -/
def put (d : Directory) (l : Location) (content : String) : Directory :=
  if l = .emptyFile then d
  else if d.hasFile l then ⟨d.files.map fun f => if f.1 = l then (l, content) else f⟩
  else ⟨d.files ++ [(l, content)]⟩

/-- Write a file, over the one that is there. -/
def write (d : Directory) (path content : String) : Except FileError Directory :=
  (d.place ⟨path⟩).map fun l => d.put l content

/-- The file system of directories. A directory stays as it is when a file cannot be written. -/
def fileSystem : FileSystem Directory where
  read := read
  write d path content :=
    match d.write path content with
    | .ok d => (none, d)
    | .error e => (some e, d)

end Directory

end FormRules

import TemplateAtlas.Path.Normal
import TemplateAtlas.SortedMap

/-!
# File trees

The files that the library looks at, as a value: every location holds a directory or a version of a
file. A version has bytes and the stamp of the write that made it. Paths are followed step by step,
as an operating system does: a step out of something that is no directory fails, and so does a step
to something that is not there.
-/

namespace TemplateAtlas

open TemplateAtlas.Text
open RawText (slash dot)

/-- The stamp of a write: a time that the writer states, or a moment of its own that no other write
has. -/
inductive Stamp where
  /-- A stated time. -/
  | stated (time : Nat)
  /-- The moment of the write with this serial number. -/
  | moment (serial : Nat)
  deriving DecidableEq, Repr, Inhabited

/-- A version of a file. -/
structure FileVersion where
  /-- Its bytes. -/
  content : ByteArray
  /-- When it was written. -/
  stamp : Stamp
  deriving Inhabited

/-- The text of a version, if its bytes are UTF-8. -/
def FileVersion.text? (v : FileVersion) : Option String :=
  String.fromUTF8? v.content

/-- The names that lead from the root to a place. -/
abbrev Location :=
  List RawText

/-- What stands at a location. -/
inductive Node where
  /-- A directory. -/
  | directory
  /-- A file. -/
  | file (version : FileVersion)
  deriving Inhabited

/-- Why the files refuse a request. -/
inductive FileError where
  /-- A step leads to nothing. -/
  | notFound
  /-- A step leaves something that is no directory. -/
  | notDirectory
  /-- A directory where a file is needed. -/
  | isDirectory
  /-- A name or a whole path is too long. -/
  | nameTooLong
  /-- The path holds the byte zero. -/
  | zeroInPath
  /-- The bytes are not UTF-8. -/
  | notText
  deriving DecidableEq, Repr

namespace FileError

/-- The wording of the error. -/
def message : FileError → String
  | notFound => "No such file or directory (os error 2)"
  | notDirectory => "Not a directory (os error 20)"
  | isDirectory => "Is a directory (os error 21)"
  | nameTooLong => "File name too long (os error 36)"
  | zeroInPath => "file name contained an unexpected NUL byte"
  | notText => "stream did not contain valid UTF-8"

end FileError

/-- The files: what stands where, the directory that relative paths start from, and the serial
number of the next write. The root is always a directory. -/
structure FileTree where
  /-- What stands where. -/
  nodes : SortedMap Location Node := .empty
  /-- The directory that relative paths start from. -/
  working : Location := []
  /-- The serial number of the next write. -/
  serial : Nat := 0
  deriving Inhabited

namespace FileTree

/-- The longest name in bytes. -/
def nameLimit : Nat := 255

/-- The least length in bytes of a path that is too long. -/
def pathLimit : Nat := 4096

/-- What stands at a location. -/
def node? (tree : FileTree) (place : Location) : Option Node :=
  if place.isEmpty then some .directory else tree.nodes.find? place

/-- One step from a place. -/
def step (tree : FileTree) (place : Location) (name : List UInt8) : Except FileError Location :=
  match tree.node? place with
  | some .directory =>
    if name = [dot] then .ok place
    else if name = [dot, dot] then .ok place.dropLast
    else if nameLimit < name.length then .error .nameTooLong
    else
      let next := place ++ [⟨name⟩]
      if (tree.node? next).isSome then .ok next else .error .notFound
  | _ => .error .notDirectory

/-- The steps that a path's text takes. A slash at its end asks for a directory, as a dot does. -/
def stepsOf (text : List UInt8) : List (List UInt8) :=
  (splitOn slash text).filter (!·.isEmpty) ++ (if text.getLast? = some slash then [[dot]] else [])

/-- May the text be followed at all? -/
def checkText (text : List UInt8) : Except FileError Unit :=
  if text.contains 0 then .error .zeroInPath
  else if text.isEmpty then .error .notFound
  else if pathLimit ≤ text.length then .error .nameTooLong
  else .ok ()

/-- Where a path's text starts. -/
def start (tree : FileTree) (text : List UInt8) : Location :=
  if text.head? = some slash then [] else tree.working

/-- The location that a path leads to. -/
def locate (tree : FileTree) (p : Path) : Except FileError Location := do
  let text := p.text.bytes
  checkText text
  (stepsOf text).foldlM tree.step (tree.start text)

/-- What a path leads to. -/
def nodeAt? (tree : FileTree) (p : Path) : Option Node :=
  match tree.locate p with
  | .ok place => tree.node? place
  | .error _ => none

/-- The version of the file that a path leads to. -/
def fileAt? (tree : FileTree) (p : Path) : Option FileVersion :=
  match tree.nodeAt? p with
  | some (.file v) => some v
  | _ => none

/-- Does the path lead to something? -/
def exists? (tree : FileTree) (p : Path) : Bool :=
  (tree.nodeAt? p).isSome

/-- Does the path lead to a file? -/
def isFile (tree : FileTree) (p : Path) : Bool :=
  (tree.fileAt? p).isSome

/-- Does the path lead to a directory? -/
def isDirectory (tree : FileTree) (p : Path) : Bool :=
  tree.nodeAt? p matches some .directory

/-- The text of the file that a path leads to. -/
def readText (tree : FileTree) (p : Path) : Except FileError String := do
  let place ← tree.locate p
  match tree.node? place with
  | none => .error .notFound
  | some .directory => .error .isDirectory
  | some (.file v) =>
    match v.text? with
    | none => .error .notText
    | some text => .ok text

/-- The location that a write through the path makes or changes. -/
def writeLocation (tree : FileTree) (p : Path) : Except FileError Location := do
  let text := p.text.bytes
  checkText text
  let steps := (splitOn slash text).filter (!·.isEmpty)
  match steps.getLast? with
  | none => .error .isDirectory
  | some name =>
    let above ← steps.dropLast.foldlM tree.step (tree.start text)
    match tree.node? above with
    | some .directory =>
      if name = [dot] || name = [dot, dot] || text.getLast? = some slash then .error .isDirectory
      else if nameLimit < name.length then .error .nameTooLong
      else
        let place := above ++ [⟨name⟩]
        match tree.node? place with
        | some .directory => .error .isDirectory
        | _ => .ok place
    | _ => .error .notDirectory

/-- The tree with a version at a location. Without a stated time the write has a moment of its
own. -/
def put (tree : FileTree) (place : Location) (content : ByteArray) (time? : Option Nat) :
    FileTree :=
  match time? with
  | some time => { tree with nodes := tree.nodes.insert place (.file ⟨content, .stated time⟩) }
  | none =>
    { tree with
      nodes := tree.nodes.insert place (.file ⟨content, .moment tree.serial⟩)
      serial := tree.serial + 1 }

/-- The tree after a write through a path. -/
def write (tree : FileTree) (p : Path) (content : ByteArray) (time? : Option Nat) :
    Except FileError FileTree := do
  let place ← tree.writeLocation p
  return tree.put place content time?

/-- The tree with a directory at a location and at every location above it. Files in the way
stay. -/
def makeDirectories (tree : FileTree) (place : Location) : FileTree :=
  let places := (List.range place.length).map fun n => place.take (n + 1)
  { tree with nodes := places.foldl (fun nodes p => nodes.insertNew p .directory) tree.nodes }

/-- The names of the normal form of a path, read in the working directory. -/
def placeOf (tree : FileTree) (p : Path) : Location :=
  (p.absolutize (Path.ofSteps (.root :: tree.working.map .name))).components.filterMap fun
    | .name text => some text
    | _ => none

/-- The tree without what stands at a location and below it. -/
def remove (tree : FileTree) (place : Location) : FileTree :=
  { tree with nodes := tree.nodes.filter fun p _ => !place.isPrefixOf p }

/-- The path of the working directory. -/
def workingPath (tree : FileTree) : Path :=
  Path.ofSteps (.root :: tree.working.map .name)

/-- What a directory holds, under which names. -/
def contents (tree : FileTree) (place : Location) : List (RawText × Node) :=
  tree.nodes.entries.filterMap fun (inner, node) =>
    match inner.getLast? with
    | some name => if inner.dropLast = place then some (name, node) else none
    | none => none

/-- The number of levels of directories and files. -/
def levels (tree : FileTree) : Nat :=
  (tree.nodes.entries.map (·.1.length)).max?.getD 0

end FileTree

end TemplateAtlas

import ShaderStyle.Path
import ShaderStyle.Text.Lowercase
import ShaderStyle.Text.Quoted
import ShaderStyle.Text.Utf8

/-!
# File trees

A file tree is a finite map from places to files and directories, with a directory that relative paths
start from. A place is the list of names that lead to it from the root. There are no links, so a
place has one name only.

Names are followed one after the other: a name that is not there, or that goes on behind a file, is
an error, and double dots lead back. `resolve` in contrast looks at the spelling of a path only.
-/

namespace ShaderStyle

/-- A file with its bytes, or a directory. -/
inductive Node where
  | file (bytes : List UInt8)
  | directory
  deriving DecidableEq, Repr

/-- Names that lead from the root to a file or directory. -/
abbrev Place := List Text

/-- What stands at which place, and where relative paths start. -/
structure FileTree where
  here : Place
  nodes : List (Place × Node)
  deriving DecidableEq, Repr

/-- Why a path cannot be opened. -/
inductive OpenProblem where
  | notFound
  | notADirectory
  | isADirectory
  deriving DecidableEq, Repr

/-- Why a file cannot be read or written. -/
inductive FileError where
  | cannotOpen (problem : OpenProblem) (path : Text)
  | cannotDecode (fault : Text.Utf8.Fault)
  deriving DecidableEq, Repr

namespace FileError

/-- The error as one line of text. -/
def message : FileError → String
  | cannotOpen problem path =>
    let reason := match problem with
      | .notFound => "[Errno 2] No such file or directory: "
      | .notADirectory => "[Errno 20] Not a directory: "
      | .isADirectory => "[Errno 21] Is a directory: "
    reason ++ String.ofList path.quoted
  | cannotDecode fault => fault.message

end FileError

namespace FileTree

/-- What stands at a place; the root is always a directory. -/
def get? (tree : FileTree) (place : Place) : Option Node :=
  if place = [] then some .directory else tree.nodes.lookup place

/-- Puts something at a place, instead of what stood there. -/
def set (tree : FileTree) (place : Place) (node : Node) : FileTree :=
  if (tree.nodes.lookup place).isSome then
    { tree with nodes := tree.nodes.map fun (p, old) => (p, if p = place then node else old) }
  else { tree with nodes := tree.nodes ++ [(place, node)] }

/-- Makes the directories that lead to a place, the place itself left out, where nothing stands. -/
def makeParents (tree : FileTree) (place : Place) : FileTree :=
  (List.range place.length).foldl
    (fun tree n =>
      if (tree.get? (place.take n)).isSome then tree else tree.set (place.take n) .directory)
    tree

/-- Puts something at a place, with the directories that lead there. -/
def add (tree : FileTree) (place : Place) (node : Node) : FileTree :=
  (tree.makeParents place).set place node

/-- The tree of an empty directory in which relative paths start. -/
def emptyAt (here : Place) : FileTree :=
  add ⟨here, []⟩ here .directory

/-! ## Following names -/

/-- The place that a part of a path leads to from a directory. -/
def step (place : Place) (part : Text) : Place :=
  if part = ['.'] then place else if part = ['.', '.'] then place.dropLast else place ++ [part]

/-- Follows the parts of a path from a place. -/
def walk (tree : FileTree) (place : Place) : List Text → Except OpenProblem (Place × Node)
  | [] =>
    match tree.get? place with
    | none => .error .notFound
    | some node => .ok (place, node)
  | part :: more =>
    match tree.get? place with
    | none => .error .notFound
    | some (.file _) => .error .notADirectory
    | some .directory => walk tree (step place part) more

/-- Where the path that a text spells starts, and its parts, dots included. -/
def spelled (tree : FileTree) (t : Text) : Place × List Text :=
  (if t.head? = some '/' then [] else tree.here, (Text.split '/' t).filter (· ≠ []))

/-- Whether a text asks for a directory by a slash at its end. -/
def asksForDirectory (t : Text) : Bool :=
  t.getLast? = some '/'

/-- What stands where a text leads. -/
def find (tree : FileTree) (t : Text) : Except OpenProblem (Place × Node) :=
  if t = [] then .error .notFound
  else
    let (start, parts) := tree.spelled t
    match tree.walk start parts with
    | .ok (place, .file bytes) =>
      if asksForDirectory t then .error .notADirectory else .ok (place, .file bytes)
    | found => found

/-! ## Operations -/

/-- Whether a path leads to a directory. -/
def isDirectory (tree : FileTree) (p : Path) : Bool :=
  match tree.find p.toText with
  | .ok (_, .directory) => true
  | _ => false

/-- The names in a directory, in alphabetical order; none if the path leads to no directory. -/
def list (tree : FileTree) (p : Path) : List Text :=
  match tree.find p.toText with
  | .ok (place, .directory) =>
    let names := tree.nodes.filterMap fun (q, _) =>
      match q.getLast? with
      | none => none
      | some name => if q.dropLast = place then some name else none
    names.mergeSort Text.inOrder
  | _ => []

/-- The bytes of a file. -/
def readBytes (tree : FileTree) (t : Text) : Except FileError (List UInt8) :=
  match tree.find t with
  | .error problem => .error (.cannotOpen problem t)
  | .ok (_, .directory) => .error (.cannotOpen .isADirectory t)
  | .ok (_, .file bytes) => .ok bytes

/-- The text of a file. -/
def read (tree : FileTree) (t : Text) : Except FileError Text :=
  match tree.readBytes t with
  | .error e => .error e
  | .ok bytes =>
    match Text.Utf8.decode bytes with
    | .error fault => .error (.cannotDecode fault)
    | .ok content => .ok content

/-- The place at which a file can be written: a file, or a new name in a directory. -/
def writable (tree : FileTree) (t : Text) : Except OpenProblem Place :=
  if t = [] then .error .notFound
  else
    let (start, parts) := tree.spelled t
    match parts.getLast? with
    | none => .error .isADirectory
    | some name =>
      match tree.walk start parts.dropLast with
      | .error problem => .error problem
      | .ok (_, .file _) => .error .notADirectory
      | .ok (directory, .directory) =>
        if name = ['.'] || name = ['.', '.'] || asksForDirectory t then .error .isADirectory
        else match tree.get? (directory ++ [name]) with
          | some .directory => .error .isADirectory
          | _ => .ok (directory ++ [name])

/-- Writes a text to a file. -/
def write (tree : FileTree) (t content : Text) : Except FileError FileTree :=
  match tree.writable t with
  | .error problem => .error (.cannotOpen problem t)
  | .ok place => .ok (tree.set place (.file (Text.Utf8.encode content)))

/-- The path from the root that a path spells, whether or not anything stands there. -/
def resolve (tree : FileTree) (p : Path) : Path :=
  ⟨.root, p.parts.foldl step (if p.anchor = .here then tree.here else [])⟩

/-- The files at and below a directory, by their paths in alphabetical order. -/
def filesBelow (tree : FileTree) (place : Place) : List Path :=
  let found := tree.nodes.filterMap fun (q, node) =>
    match node with
    | .file _ => if place.isPrefixOf q then some (⟨.root, q⟩ : Path) else none
    | .directory => none
  found.mergeSort fun a b => Text.inOrder a.toText b.toText

/-- The files with certain extensions at a path or below it. A path that leads to no directory
stands for itself. -/
def filesWith (tree : FileTree) (extensions : List String) (p : Path) : List Path :=
  let target := tree.resolve p
  let fits := fun q : Path => extensions.contains (String.ofList (Text.lowercase q.suffix))
  if tree.isDirectory target then (tree.filesBelow target.parts).filter fits
  else [target].filter fits

/-- The files of a tree that are new or have other bytes than before, by their places in
alphabetical order of the paths. -/
def changedSince (tree before : FileTree) : List (Place × List UInt8) :=
  let changed := tree.nodes.filterMap fun (place, node) =>
    match node with
    | .file bytes => if before.get? place = some node then none else some (place, bytes)
    | .directory => none
  changed.mergeSort fun a b => Text.inOrder (Path.toText ⟨.root, a.1⟩) (Path.toText ⟨.root, b.1⟩)

end FileTree

end ShaderStyle

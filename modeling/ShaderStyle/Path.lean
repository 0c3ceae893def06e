import ShaderStyle.Text.Basic

/-!
# Paths

A path is an anchor and the parts below it. Empty parts and single dots are left out, double dots
are kept. Exactly two slashes at the start are an anchor of their own; any other number of them is
the root.
-/

namespace ShaderStyle

/-- Where a path starts: where the reader stands, or one of the two roots. -/
inductive Anchor where
  | here
  | root
  | doubleRoot
  deriving DecidableEq, Repr

/-- A path, as its anchor and its parts. -/
structure Path where
  anchor : Anchor
  parts : List Text
  deriving DecidableEq, Repr

namespace Path

/-- The anchor of a text that starts with `n` slashes. -/
def anchorOf (n : Nat) : Anchor :=
  if n = 0 then .here else if n = 2 then .doubleRoot else .root

/-- The path that a text spells. -/
def ofText (t : Text) : Path :=
  ⟨anchorOf (Text.leading (· = '/') t),
    (Text.split '/' t).filter fun part => part ≠ [] && part ≠ ['.']⟩

/-- The text of a path; a path without anchor and parts is a dot. -/
def toText (p : Path) : Text :=
  let start : Text := match p.anchor with
    | .here => []
    | .root => ['/']
    | .doubleRoot => ['/', '/']
  match start ++ ['/'].intercalate p.parts with
  | [] => ['.']
  | t => t

/-- The path of an entry of a directory. -/
def child (p : Path) (name : Text) : Path :=
  ⟨p.anchor, p.parts ++ [name]⟩

/-- The directory that a path is in; an anchor is in itself. -/
def parent (p : Path) : Path :=
  ⟨p.anchor, p.parts.dropLast⟩

/-- The directories above a path, the nearest first. -/
def parents (p : Path) : List Path :=
  (List.range p.parts.length).reverse.map fun n => ⟨p.anchor, p.parts.take n⟩

/-- The last part, empty for an anchor. -/
def name (p : Path) : Text :=
  p.parts.getLastD []

/-- The extension of a name: from its last dot on, if that is neither its first nor its last
character. -/
def extensionOf (name : Text) : Text :=
  let tail := (name.reverse.takeWhile (· ≠ '.')).reverse
  let dot := name.length - tail.length
  if tail = [] || dot ≤ 1 then [] else '.' :: tail

/-- The extension of a path. -/
def suffix (p : Path) : Text :=
  extensionOf p.name

end Path

end ShaderStyle

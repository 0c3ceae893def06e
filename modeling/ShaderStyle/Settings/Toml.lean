import ShaderStyle.Settings.Toml.Scalar

/-!
# Settings files

A settings file is a TOML document. `Toml.decode?` gives its top-level entries in the order in which
their keys first appear, or nothing if the text is no such document.

What may be extended later in a document is kept as a list of seals. A table that was given by its
header, or along the way of a dotted key, cannot be given again; a value that was written inline
cannot be extended at all. Array tables start afresh with every element.
-/

namespace ShaderStyle.Toml

/-- The entries of a table, in the order in which their keys first appeared. -/
abbrev Entries := List (String × Value)

/-! ## Tables by their paths -/

/-- Replaces the value under a key that is there. -/
def replaceEntry (key : String) (v : Value) (entries : Entries) : Entries :=
  entries.map fun (k, old) => if k = key then (k, v) else (k, old)

/-- Changes the table at a path, with the tables on the way made as needed. With `lists`, the last
element stands for an array of tables. Nothing is given if something on the way is no table. -/
def modifyTable (lists : Bool) (f : Entries → Option Entries) :
    List String → Entries → Option Entries
  | [], entries => f entries
  | key :: more, entries =>
    match entries.lookup key with
    | none => (modifyTable lists f more []).map fun inner => entries ++ [(key, .table inner)]
    | some (.table inner) =>
      (modifyTable lists f more inner).map fun inner => replaceEntry key (.table inner) entries
    | some (.list items) =>
      match lists, items.getLast? with
      | true, some (.table inner) =>
        (modifyTable lists f more inner).map fun inner =>
          replaceEntry key (.list (items.dropLast ++ [.table inner])) entries
      | _, _ => none
    | some _ => none

/-- Adds an entry whose key is not there yet. -/
def addEntry (key : String) (v : Value) (entries : Entries) : Option Entries :=
  if (entries.lookup key).isSome then none else some (entries ++ [(key, v)])

/-- Adds an empty table to the array of tables under a key. -/
def addElement (key : String) (entries : Entries) : Option Entries :=
  match entries.lookup key with
  | none => some (entries ++ [(key, .list [.table []])])
  | some (.list items) => some (replaceEntry key (.list (items ++ [.table []])) entries)
  | some _ => none

/-! ## Seals -/

/-- What may no longer be done at a path. -/
inductive Seal where
  /-- The table cannot be given by a header or extended by a dotted key. -/
  | given (path : List String)
  /-- Neither the value nor anything below it can be changed. -/
  | frozen (path : List String)
  deriving DecidableEq

namespace Seal

/-- The path that is sealed. -/
def path : Seal → List String
  | .given path => path
  | .frozen path => path

end Seal

/-- Whether a path or one above it is frozen. -/
def isFrozen (seals : List Seal) (path : List String) : Bool :=
  seals.any fun s =>
    match s with
    | .frozen above => above.isPrefixOf path
    | .given _ => false

/-- Whether a table has been given. -/
def isGiven (seals : List Seal) (path : List String) : Bool :=
  seals.contains (.given path)

/-- The seals on other paths than `path` and those below it. -/
def release (path : List String) (seals : List Seal) : List Seal :=
  seals.filter fun s => !path.isPrefixOf s.path

/-! ## Blanks, comments and keys -/

/-- The text behind a comment, if one is there; a comment holds no control characters. -/
def skipComment? (t : Text) : Option Text :=
  match t with
  | '#' :: rest =>
    if (rest.takeWhile (· ≠ '\n')).any isControl then none else some (rest.dropWhile (· ≠ '\n'))
  | _ => some t

/-- The text behind blanks, line breaks and comments. -/
def skipLines? (inComment : Bool) : Text → Option Text
  | [] => some []
  | c :: rest =>
    if c = '\n' then skipLines? false rest
    else if inComment then if isControl c then none else skipLines? true rest
    else if isSpace c then skipLines? false rest
    else if c = '#' then skipLines? true rest
    else some (c :: rest)

/-- The text behind blanks. -/
def skipSpace (t : Text) : Text :=
  t.dropWhile isSpace

/-- A character of a key without quotes. -/
def isBareKeyChar (c : Char) : Bool :=
  c.isAlphanum || c = '-' || c = '_'

/-- One part of a key. -/
def keyPart? (t : Text) : Option (String × Text) :=
  match t with
  | '"' :: rest => (basicString false .nothing rest).map fun (s, r) => (String.ofList s, r)
  | '\'' :: rest => (literalString rest).map fun (s, r) => (String.ofList s, r)
  | _ =>
    if t.head?.any isBareKeyChar then
      some (String.ofList (t.takeWhile isBareKeyChar), t.dropWhile isBareKeyChar)
    else none

/-- A key of parts with points between them, and the text behind it and its blanks. The count bounds
the number of parts. -/
def key? : Nat → Text → Option (List String × Text)
  | 0, _ => none
  | n + 1, t =>
    match keyPart? t with
    | none => none
    | some (part, rest) =>
      match skipSpace rest with
      | '.' :: more => (key? n (skipSpace more)).map fun (parts, after) => (part :: parts, after)
      | after => some ([part], after)

/-- A key and the text behind the equals sign that follows it. -/
def keyAndSign? (t : Text) : Option (List String × Text) :=
  match key? t.length t with
  | some (path, '=' :: rest) => some (path, skipSpace rest)
  | _ => none

/-! ## Values -/

/-- Whether a value is written inline with others inside. -/
def isCompound : Value → Bool
  | .list _ => true
  | .table _ => true
  | _ => false

mutual

/-- The value at the start of a text. The count bounds the number of steps. -/
def value? : Nat → Text → Option (Value × Text)
  | 0, _ => none
  | n + 1, t =>
    match t with
    | '[' :: rest =>
      match skipLines? false rest with
      | none => none
      | some (']' :: after) => some (.list [], after)
      | some t => (elements? n t).map fun (items, after) => (.list items, after)
    | '{' :: rest =>
      match skipSpace rest with
      | '}' :: after => some (.table [], after)
      | t => (inlineEntries? n [] [] t).map fun (entries, after) => (.table entries, after)
    | _ => scalar? t

/-- The elements of an array up to its closing bracket; a comma may stand before that. -/
def elements? : Nat → Text → Option (List Value × Text)
  | 0, _ => none
  | n + 1, t =>
    match value? n t with
    | none => none
    | some (v, rest) =>
      match skipLines? false rest with
      | some (']' :: after) => some ([v], after)
      | some (',' :: more) =>
        match skipLines? false more with
        | none => none
        | some (']' :: after) => some ([v], after)
        | some t => (elements? n t).map fun (items, after) => (v :: items, after)
      | _ => none

/-- The entries of an inline table up to its closing brace. -/
def inlineEntries? : Nat → List Seal → Entries → Text → Option (Entries × Text)
  | 0, _, _, _ => none
  | n + 1, seals, entries, t =>
    match keyAndSign? t with
    | none => none
    | some (path, rest) =>
      match value? n rest with
      | none => none
      | some (v, rest) =>
        if isFrozen seals path then none
        else match modifyTable false (addEntry (path.getLastD "") v) path.dropLast entries with
          | none => none
          | some entries =>
            match skipSpace rest with
            | '}' :: after => some (entries, after)
            | ',' :: more =>
              let seals := if isCompound v then .frozen path :: seals else seals
              inlineEntries? n seals entries (skipSpace more)
            | _ => none

end

/-! ## Statements -/

/-- What has been read of a document: its entries, the path of the last header, the seals, and the
seals that hold from the next header on. -/
structure State where
  entries : Entries := []
  header : List String := []
  seals : List Seal := []
  pending : List Seal := []

/-- The paths on the way of a dotted key below a header. -/
def pathsOnTheWay (header key : List String) : List (List String) :=
  (List.range (key.length - 1)).map fun i => header ++ key.take (i + 1)

/-- A key and its value. -/
def assign? (st : State) (t : Text) : Option (State × Text) := do
  let (key, rest) ← keyAndSign? t
  let (v, rest) ← value? (2 * rest.length + 2) rest
  let way := pathsOnTheWay st.header key
  if way.any (isGiven st.seals) || isFrozen st.seals (st.header ++ key.dropLast) then none
  let entries ←
    modifyTable true (addEntry (key.getLastD "") v) (st.header ++ key.dropLast) st.entries
  return ({ st with
    entries := entries
    seals := if isCompound v then .frozen (st.header ++ key) :: st.seals else st.seals
    pending := way.map .given ++ st.pending }, rest)

/-- A table header, from behind its bracket. -/
def openTable? (st : State) (t : Text) : Option (State × Text) := do
  let (key, rest) ← key? t.length (skipSpace t)
  if isGiven st.seals key || isFrozen st.seals key then none
  let entries ← modifyTable true some key st.entries
  let rest ← behind? ']' rest
  return ({ st with entries := entries, header := key, seals := .given key :: st.seals }, rest)

/-- The header of an element of an array of tables, from behind its two brackets. -/
def openElement? (st : State) (t : Text) : Option (State × Text) := do
  let (key, rest) ← key? t.length (skipSpace t)
  if isFrozen st.seals key then none
  let entries ← modifyTable true (addElement (key.getLastD "")) key.dropLast st.entries
  let rest ← behind? ']' rest
  let rest ← behind? ']' rest
  return ({ st with
    entries := entries
    header := key
    seals := .given key :: release key st.seals }, rest)

/-- One statement at the start of a text that is not blank; a comment by itself is one. -/
def statement? (st : State) (t : Text) : Option (State × Text) :=
  match t with
  | '#' :: _ => some (st, t)
  | '[' :: rest =>
    let st := { st with seals := st.pending ++ st.seals, pending := [] }
    match rest with
    | '[' :: more => openElement? st more
    | _ => openTable? st rest
  | _ => assign? st t

/-- Reads statements to the end of the text. The count bounds the number of lines. -/
def statements? : Nat → State → Text → Option State
  | 0, _, _ => none
  | n + 1, st, t =>
    match skipSpace t with
    | [] => some st
    | '\n' :: rest => statements? n st rest
    | t => do
      let (st, rest) ← statement? st t
      let rest ← skipComment? (skipSpace rest)
      match rest with
      | [] => some st
      | '\n' :: rest => statements? n st rest
      | _ => none

/-- The text with a line feed for every carriage return and line feed. -/
def joinBreaks : Text → Text
  | '\r' :: '\n' :: rest => '\n' :: joinBreaks rest
  | c :: rest => c :: joinBreaks rest
  | [] => []

/-- The top-level entries of a document. -/
def decode? (t : Text) : Option Entries :=
  let t := joinBreaks t
  (statements? (t.length + 1) {} t).map State.entries

end ShaderStyle.Toml

import ShaderStyle.Console

/-!
# Plain text on a terminal

Events as lines of plain text: tags of markup and styles are left out, and the columns of a table are
filled up with spaces. Only this much of markup is known here: a tag stands in square brackets, it opens a
style or, behind a slash, closes one, and a style may be left open. A line with a tag that closes what is
not open is refused. Colours, backslashes before brackets, and names of symbols between colons are not
looked at, and in a table a text stands as it is.
-/

namespace ShaderStyle.Terminal

/-- A piece of a line of markup: a text, or a tag without its brackets. -/
inductive Piece where
  | text (t : Text)
  | tag (t : Text)

/-- Whether what stands between square brackets is a tag: it starts with a small letter or a
slash. -/
def isTag : Text → Bool
  | [] => false
  | c :: _ => c.isLower || c = '/'

/-- The pieces of a line. `open?` holds what was read since an opening bracket, the last character
first. -/
def pieces (open? : Option Text) : Text → List Piece
  | [] =>
    match open? with
    | none => []
    | some inner => [.text ('[' :: inner.reverse)]
  | c :: rest =>
    match open? with
    | none => if c = '[' then pieces (some []) rest else .text [c] :: pieces none rest
    | some inner =>
      if c = '[' then .text ('[' :: inner.reverse) :: pieces (some []) rest
      else if c ≠ ']' then pieces (some (c :: inner)) rest
      else if isTag inner.reverse then .tag inner.reverse :: pieces none rest
      else .text ('[' :: inner.reverse ++ [']']) :: pieces none rest

/-- The first tag that closes what is not open; `styles` holds the styles that are open, the last one
first. A slash alone closes the last one. -/
def unmatched? (styles : List Text) : List Piece → Option Text
  | [] => none
  | .text _ :: more => unmatched? styles more
  | .tag ('/' :: name) :: more =>
    if styles = [] then some ('/' :: name)
    else if name = [] then unmatched? styles.tail more
    else if styles.contains name then unmatched? (styles.erase name) more
    else some ('/' :: name)
  | .tag name :: more => unmatched? (name :: styles) more

/-- The text of a line of markup. -/
def plain (markup : String) : String :=
  String.ofList ((pieces none markup.toList).flatMap fun
    | .text t => t
    | .tag _ => [])

/-- The terminal as a console. -/
def console : Console where
  print _
    | .markup _ text =>
      match unmatched? [] (pieces none text.toList) with
      | none => .ok ()
      | some tag => .error ("closing tag [" ++ String.ofList tag ++ "] matches no open tag")
    | _ => .ok ()
  kept := Console.withoutControls

/-- The text of a cell. -/
def cellText : Cell → String
  | .plain text => text
  | .styled text _ => text

/-- A text filled up with spaces to a width. -/
def pad (alignRight : Bool) (width : Nat) (text : String) : String :=
  let spaces := String.ofList (List.replicate (width - text.length) ' ')
  if alignRight then spaces ++ text else text ++ spaces

/-- The width of the widest text in a column. -/
def columnWidth (rows : List (List String)) (i : Nat) : Nat :=
  (rows.map fun row => (row.getD i "").length).foldl max 0

/-- The lines of a table: its title, the headers, the rows, and its caption. -/
def tableLines (table : Table) : List String :=
  let rows := table.columns.map Column.header :: table.rows.map fun row => row.map cellText
  let line row := "  ".intercalate
    ((table.columns.zip row).zipIdx.map fun ((column, text), i) =>
      pad column.alignRight (columnWidth rows i) text)
  table.title :: rows.map line ++ table.caption.toList

/-- The stream on which something is shown, and its lines. -/
def lines : Event → Stream × List String
  | .markup stream text => (stream, [plain text])
  | .styled stream text _ => (stream, [text])
  | .table stream table => (stream, tableLines table)

end ShaderStyle.Terminal

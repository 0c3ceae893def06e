import ShaderStyle.Settings.Value
import ShaderStyle.Text.Basic

/-!
# Scalars of a settings file

The readers of strings, numbers, dates and times of the TOML format. Each one takes a text and gives
the value at its start and the text behind it. The text has line feeds as its only line breaks; a
carriage return that is left is a control character like any other. It is assumed that numbers of every
length can be read; a bound on the digits, as systems have one at some thousands, is not modelled.
-/

namespace ShaderStyle.Toml

/-- A blank within a line. -/
def isSpace (c : Char) : Bool :=
  c = ' ' || c = '\t'

/-- A control character other than the tab, which may stand in no comment and in no string of one
line. -/
def isControl (c : Char) : Bool :=
  (c.toNat < 32 && c ≠ '\t') || c.toNat = 127

/-- A hexadecimal digit. -/
def isHex (c : Char) : Bool :=
  c.isDigit || ('a' ≤ c && c ≤ 'f') || ('A' ≤ c && c ≤ 'F')

/-- The value of a hexadecimal digit. -/
def hexValue (c : Char) : Nat :=
  if c.isDigit then c.toNat - '0'.toNat
  else if 'a' ≤ c && c ≤ 'f' then c.toNat - 'a'.toNat + 10
  else c.toNat - 'A'.toNat + 10

/-- The number that digits of a base spell; underscores between them do not count. -/
def numberOf (base : Nat) (digits : Text) : Nat :=
  (digits.filter (· ≠ '_')).foldl (fun n c => n * base + hexValue c) 0

/-! ## Strings -/

/-- The character with a code point that is given by exactly `width` hexadecimal digits. -/
def escapedCode (width : Nat) (t : Text) : Option Char :=
  let digits := t.take width
  let n := numberOf 16 digits
  if digits.length = width && digits.all isHex && n.isValidChar then some (Char.ofNat n) else none

/-- The character that a backslash and a letter stand for. -/
def escapedLetter : Char → Option Char
  | 'b' => some '\x08'
  | 't' => some '\t'
  | 'n' => some '\n'
  | 'f' => some '\x0c'
  | 'r' => some '\r'
  | '"' => some '"'
  | '\\' => some '\\'
  | _ => none

/-- What a reader of a string of several lines has just passed: a backslash and blanks, which must
end their line, or a backslash and its line break, which take all blanks and breaks along. -/
inductive Passing where
  | nothing
  | blanks
  | lineBreak
  deriving DecidableEq

/-- The rest of a string in double quotes. -/
def basicString (multiline : Bool) (passing : Passing) (t : Text) : Option (Text × Text) :=
  match t with
  | [] => none
  | c :: rest =>
    if passing = .lineBreak && (isSpace c || c = '\n') then basicString multiline .lineBreak rest
    else if passing = .blanks then
      if isSpace c then basicString multiline .blanks rest
      else if c = '\n' then basicString multiline .lineBreak rest
      else none
    else if c = '"' then
      if !multiline then some ([], rest)
      else if rest.take 2 = ['"', '"'] then some ([], rest.drop 2)
      else (basicString multiline .nothing rest).map fun (s, after) => (c :: s, after)
    else if c = '\\' then
      match rest with
      | [] => none
      | e :: more =>
        if multiline && e = '\n' then basicString multiline .lineBreak more
        else if multiline && isSpace e then basicString multiline .blanks more
        else
          let width := if e = 'u' then 4 else if e = 'U' then 8 else 0
          match if width = 0 then escapedLetter e else escapedCode width more with
          | none => none
          | some d =>
            (basicString multiline .nothing (more.drop width)).map fun (s, after) =>
              (d :: s, after)
    else if isControl c && !(multiline && c = '\n') then none
    else (basicString multiline .nothing rest).map fun (s, after) => (c :: s, after)
termination_by t.length
decreasing_by all_goals (simp only [List.length_drop, List.length_cons]; omega)

/-- The rest of a string in single quotes. -/
def literalString (t : Text) : Option (Text × Text) :=
  let body := t.takeWhile (· ≠ '\'')
  match t.dropWhile (· ≠ '\'') with
  | [] => none
  | _ :: rest => if body.any isControl then none else some (body, rest)

/-- The rest of a string of several lines in triple single quotes. -/
def literalLines : Text → Option (Text × Text)
  | [] => none
  | c :: rest =>
    if c = '\'' && rest.take 2 = ['\'', '\''] then some ([], rest.drop 2)
    else if isControl c && c ≠ '\n' then none
    else (literalLines rest).map fun (s, after) => (c :: s, after)

/-- A string of several lines may end in one or two quotes of its own before the closing three. -/
def withExtraQuotes (quote : Char) : Text × Text → Text × Text
  | (s, a :: b :: rest) =>
    if a = quote && b = quote then (s ++ [quote, quote], rest)
    else if a = quote then (s ++ [quote], b :: rest)
    else (s, a :: b :: rest)
  | (s, [a]) => if a = quote then (s ++ [quote], []) else (s, [a])
  | (s, []) => (s, [])

/-- A text without the line feed at its start. -/
def dropFirstBreak : Text → Text
  | '\n' :: rest => rest
  | t => t

/-- A string of any form. -/
def string? (t : Text) : Option (Text × Text) :=
  match t with
  | '"' :: '"' :: '"' :: rest =>
    (basicString true .nothing (dropFirstBreak rest)).map (withExtraQuotes '"')
  | '"' :: rest => basicString false .nothing rest
  | '\'' :: '\'' :: '\'' :: rest =>
    (literalLines (dropFirstBreak rest)).map (withExtraQuotes '\'')
  | '\'' :: rest => literalString rest
  | _ => none

/-! ## Numbers -/

/-- The length of further digits of a number, an underscore allowed before each. -/
def moreDigits (isDigit : Char → Bool) : Text → Nat
  | '_' :: c :: rest => if isDigit c then 2 + moreDigits isDigit rest else 0
  | c :: rest => if isDigit c then 1 + moreDigits isDigit rest else 0
  | [] => 0

/-- The length of the digits at the start of a text. -/
def digitsLength (isDigit : Char → Bool) : Text → Nat
  | [] => 0
  | c :: rest => if isDigit c then 1 + moreDigits isDigit rest else 0

/-- An integer in another base than ten. -/
def basedInteger? : Text → Option (Value × Text)
  | '0' :: letter :: rest =>
    let found : Option (Nat × (Char → Bool)) :=
      if letter = 'x' then some (16, isHex)
      else if letter = 'b' then some (2, fun c => c = '0' || c = '1')
      else if letter = 'o' then some (8, fun c => '0' ≤ c && c ≤ '7')
      else none
    match found with
    | none => none
    | some (base, isDigit) =>
      let n := digitsLength isDigit rest
      if n = 0 then none else some (.integer (numberOf base (rest.take n)), rest.drop n)
  | _ => none

/-- The length of a fraction, zero if there is none. -/
def fractionLength : Text → Nat
  | '.' :: rest =>
    let n := digitsLength Char.isDigit rest
    if n = 0 then 0 else 1 + n
  | _ => 0

/-- The length of an exponent, zero if there is none. -/
def exponentLength : Text → Nat
  | c :: rest =>
    if c = 'e' || c = 'E' then
      let sign := if rest.head?.any (fun s => s = '+' || s = '-') then 1 else 0
      let n := digitsLength Char.isDigit (rest.drop sign)
      if n = 0 then 0 else 1 + sign + n
    else 0
  | [] => 0

/-- The length of the digits before the point; a zero stands alone. -/
def wholeLength (t : Text) : Nat :=
  match t with
  | '0' :: _ => 1
  | _ => digitsLength Char.isDigit t

/-- An integer or a float in base ten. An integer may have any number of digits; a reader that bounds
them refuses longer ones. -/
def decimal? (t : Text) : Option (Value × Text) :=
  let sign := if t.head?.any (fun s => s = '+' || s = '-') then 1 else 0
  let unsigned := t.drop sign
  let whole := wholeLength unsigned
  if whole = 0 then none
  else
    let fraction := fractionLength (unsigned.drop whole)
    let exponent := exponentLength (unsigned.drop (whole + fraction))
    let length := whole + fraction + exponent
    let rest := unsigned.drop length
    if fraction + exponent = 0 then
      let n : Int := numberOf 10 (unsigned.take whole)
      some (.integer (if t.head? = some '-' then -n else n), rest)
    else some (.float (String.ofList (t.take (sign + length))), rest)

/-- Infinity or a value that is no number. -/
def specialFloat? (t : Text) : Option (Value × Text) :=
  let sign := if t.head?.any (fun s => s = '+' || s = '-') then 1 else 0
  let word := (t.drop sign).take 3
  if word = ['i', 'n', 'f'] || word = ['n', 'a', 'n'] then
    some (.float (String.ofList (t.take (sign + 3))), t.drop (sign + 3))
  else none

/-! ## Dates and times -/

/-- A number of exactly `width` digits between two bounds, and the text behind it. -/
def fixedNumber? (width low high : Nat) (t : Text) : Option (Nat × Text) :=
  let digits := t.take width
  let n := numberOf 10 digits
  if digits.length = width && digits.all Char.isDigit && low ≤ n && n ≤ high then
    some (n, t.drop width)
  else none

/-- The text behind a character that has to be there. -/
def behind? (c : Char) : Text → Option Text
  | d :: rest => if d = c then some rest else none
  | [] => none

/-- The text behind the fraction of a second. -/
def behindFraction : Text → Text
  | '.' :: d :: rest => if d.isDigit then rest.dropWhile Char.isDigit else '.' :: d :: rest
  | t => t

/-- The text behind a time of the day. -/
def behindTime? (t : Text) : Option Text := do
  let (_, t) ← fixedNumber? 2 0 23 t
  let t ← behind? ':' t
  let (_, t) ← fixedNumber? 2 0 59 t
  let t ← behind? ':' t
  let (_, t) ← fixedNumber? 2 0 59 t
  return behindFraction t

/-- The text behind a time zone. -/
def behindOffset? : Text → Option Text
  | [] => none
  | c :: rest =>
    if c = 'Z' || c = 'z' then some rest
    else if c = '+' || c = '-' then do
      let (_, t) ← fixedNumber? 2 0 23 rest
      let t ← behind? ':' t
      let (_, t) ← fixedNumber? 2 0 59 t
      return t
    else none

/-- The number of days of a month. -/
def daysIn (year month : Nat) : Nat :=
  if month = 2 then
    if year % 4 = 0 && (year % 100 ≠ 0 || year % 400 = 0) then 29 else 28
  else if month = 4 || month = 6 || month = 9 || month = 11 then 30
  else 31

/-- A date in the form of the calendar, and the text behind it. -/
def calendarDate? (t : Text) : Option ((Nat × Nat × Nat) × Text) := do
  let (year, t) ← fixedNumber? 4 0 9999 t
  let t ← behind? '-' t
  let (month, t) ← fixedNumber? 2 1 12 t
  let t ← behind? '-' t
  let (day, t) ← fixedNumber? 2 1 31 t
  return ((year, month, day), t)

/-- The text behind the time that follows a date. -/
def behindDateTime? : Text → Option Text
  | c :: rest =>
    if c = 'T' || c = 't' || c = ' ' then
      (behindTime? rest).map fun t => (behindOffset? t).getD t
    else none
  | [] => none

/-- What was read between a text and the one behind it. -/
def spelling (t rest : Text) : String :=
  String.ofList (t.take (t.length - rest.length))

/-- A date, or a date and a time. A text that has the form of a date and names no day is refused; a
text of any other form gives `some none`. -/
def date? (t : Text) : Option (Option (Value × Text)) :=
  match calendarDate? t with
  | none => some none
  | some ((year, month, day), rest) =>
    if year = 0 || daysIn year month < day then none
    else match behindDateTime? rest with
      | some behind => some (some (.dateTime (spelling t behind), behind))
      | none => some (some (.date (spelling t rest), rest))

/-- A time of the day. -/
def time? (t : Text) : Option (Value × Text) :=
  (behindTime? t).map fun rest => (.time (spelling t rest), rest)

/-- A truth value. -/
def boolean? : Text → Option (Value × Text)
  | 't' :: 'r' :: 'u' :: 'e' :: rest => some (.boolean true, rest)
  | 'f' :: 'a' :: 'l' :: 's' :: 'e' :: rest => some (.boolean false, rest)
  | _ => none

/-- A value that is neither an array nor a table. -/
def scalar? (t : Text) : Option (Value × Text) :=
  match t.head? with
  | none => none
  | some c =>
    if c = '"' || c = '\'' then
      (string? t).map fun (s, rest) => (.text (String.ofList s), rest)
    else match boolean? t with
      | some found => some found
      | none =>
        match date? t with
        | none => none
        | some (some found) => some found
        | some none =>
          (time? t).orElse fun _ => (basedInteger? t).orElse fun _ => (decimal? t).orElse fun _ =>
            specialFloat? t

end ShaderStyle.Toml

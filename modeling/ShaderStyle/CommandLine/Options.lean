import ShaderStyle.Text.Basic

/-!
# Options

Options start with a dash. A long option starts with two and may have its value behind an equals sign;
short ones may stand together behind one dash, and the rest of such a word is the value of the first
of them that takes one. An option that takes a value and has none with it takes the next word,
whatever it is. Two dashes by themselves end the options.
-/

namespace ShaderStyle.CommandLine

/-- An option: its long name, its letter if it has one, and whether it takes a value. -/
structure OptionRule where
  long : Text
  letter : Option Char
  takesValue : Bool
  deriving DecidableEq, Repr

/-- An option that was given; the value of one that takes none is empty. -/
structure Given where
  long : Text
  value : Text
  deriving DecidableEq, Repr

/-- An option that takes the next word as its value, which is missing at the end. -/
def withNextWord (rule : OptionRule) (before : List Given) :
    List Text → Option (List Given × List Text)
  | [] => none
  | value :: rest => some (before ++ [⟨rule.long, value⟩], rest)

/-- Reads letters that stand together; `before` holds the options read so far. -/
def readLetters (rules : List OptionRule) (rest : List Text) (before : List Given) :
    Text → Option (List Given × List Text)
  | [] => some (before, rest)
  | c :: more =>
    match rules.find? fun r => r.letter = some c with
    | none => none
    | some rule =>
      if rule.takesValue then
        if more = [] then withNextWord rule before rest
        else some (before ++ [⟨rule.long, more⟩], rest)
      else readLetters rules rest (before ++ [⟨rule.long, []⟩]) more

/-- Reads a word that starts with a dash: the options in it and the words behind it and its value.
Nothing is given for an option that is not known or is used wrongly. -/
def readOption (rules : List OptionRule) (word : Text) (rest : List Text) :
    Option (List Given × List Text) :=
  let name := word.takeWhile (· ≠ '=')
  let value := word.dropWhile (· ≠ '=')
  match rules.find? fun r => '-' :: '-' :: r.long = name with
  | some rule =>
    match rule.takesValue, value with
    | true, [] => withNextWord rule [] rest
    | true, _ :: v => some ([⟨rule.long, v⟩], rest)
    | false, [] => some ([⟨rule.long, []⟩], rest)
    | false, _ :: _ => none
  | none => if word.take 2 = ['-', '-'] then none else readLetters rules rest [] word.tail

/-- Whether a word is an option. -/
def isOption (word : Text) : Bool :=
  word.head? = some '-' && 1 < word.length

/-- What was read: the options in order, and the other words. -/
structure Words where
  options : List Given
  others : List Text
  deriving DecidableEq, Repr

/-- Reads words. Without `mixed`, the first word that is no option ends the options. The count bounds
the number of words. -/
def readWords (rules : List OptionRule) (mixed : Bool) : Nat → List Text → Option Words
  | _, [] => some ⟨[], []⟩
  | 0, _ :: _ => none
  | n + 1, word :: rest =>
    if word = ['-', '-'] then some ⟨[], rest⟩
    else if isOption word then
      match readOption rules word rest with
      | none => none
      | some (given, rest) =>
        (readWords rules mixed n rest).map fun w => { w with options := given ++ w.options }
    else if mixed then
      (readWords rules mixed n rest).map fun w => { w with others := word :: w.others }
    else some ⟨[], word :: rest⟩

/-- Reads all words of a command line or of a command. -/
def read (rules : List OptionRule) (mixed : Bool) (words : List Text) : Option Words :=
  readWords rules mixed words.length words

namespace Words

/-- Whether an option was given. -/
def has (w : Words) (long : Text) : Bool :=
  w.options.any fun g => g.long = long

/-- The value of an option that was given, the last one if it was given more than once. -/
def valueOf? (w : Words) (long : Text) : Option Text :=
  (w.options.reverse.find? fun g => g.long = long).map Given.value

end Words

end ShaderStyle.CommandLine

import ShaderStyle.Rules

/-!
# Names

A name is a sequence of words. An underscore ends a word, and so does a change of case: a run of
capitals is one word, but its last capital belongs to the lower-case letters that follow it, as in
`URLPath`. Digits go with small letters. A name is written in a case style when it has the form of
that style and writing its words in the style gives the name back.
-/

namespace ShaderStyle.Naming

/-- A small letter or a digit. -/
def isSmall (c : Char) : Bool :=
  c.isLower || c.isDigit

/-- The words of a name, in order. Characters other than ASCII letters and digits are in no word. -/
def words (t : Text) : List Text :=
  match t with
  | [] => []
  | c :: rest =>
    if c.isUpper then
      let capitals := Text.leading Char.isUpper rest
      if ((rest.drop capitals).head?.any Char.isLower) then
        if capitals = 0 then
          (c :: rest.takeWhile isSmall) :: words (rest.dropWhile isSmall)
        else
          (c :: rest.take (capitals - 1)) :: words (rest.drop (capitals - 1))
      else
        (c :: rest.take capitals) :: words (rest.drop capitals)
    else if isSmall c then
      (c :: rest.takeWhile isSmall) :: words (rest.dropWhile isSmall)
    else words rest
termination_by t.length
decreasing_by
  all_goals
    have := (List.dropWhile_sublist isSmall (l := rest)).length_le
    simp only [List.length_drop, List.length_cons]
    omega

/-- A word in small letters. -/
def lower (word : Text) : Text :=
  word.map Char.toLower

/-- A word in capitals. -/
def upper (word : Text) : Text :=
  word.map Char.toUpper

/-- A word with a capital first letter and small ones after it. -/
def capitalize : Text → Text
  | [] => []
  | c :: rest => c.toUpper :: lower rest

/-- Words written one after the other in a case style. -/
def join (style : CaseStyle) (ws : List Text) : Text :=
  match style with
  | .camel =>
    match ws with
    | [] => []
    | first :: more => lower first ++ more.flatMap capitalize
  | .pascal => ws.flatMap capitalize
  | .snake => ['_'].intercalate (ws.map lower)
  | .upperSnake => ['_'].intercalate (ws.map upper)

/-- The name in a case style. A name without words stays as it is. -/
def convert (name : Text) (style : CaseStyle) : Text :=
  match words name with
  | [] => name
  | ws => join style ws

/-- Whether a text starts with a character of one class and goes on with those of another. -/
def startsAndGoes (start next : Char → Bool) : Text → Bool
  | [] => false
  | c :: rest => start c && rest.all next

/-- A name of parts between underscores, none of them empty. -/
def isSnakeOf (start next : Char → Bool) (name : Text) : Bool :=
  match Text.split '_' name with
  | [] => false
  | first :: more => startsAndGoes start next first && more.all (startsAndGoes next next)

/-- A capital letter or a digit. -/
def isLarge (c : Char) : Bool :=
  c.isUpper || c.isDigit

/-- Whether a name has the form of a case style. -/
def hasForm (name : Text) : CaseStyle → Bool
  | .camel => startsAndGoes Char.isLower Char.isAlphanum name
  | .pascal => startsAndGoes Char.isUpper Char.isAlphanum name
  | .snake => isSnakeOf Char.isLower isSmall name
  | .upperSnake => isSnakeOf Char.isUpper isLarge name

/-- Whether a name is written in a case style: `myUrl` is in camel case, `myURL` is not. -/
def isWritten (name : Text) (style : CaseStyle) : Bool :=
  hasForm name style && convert name style = name

end ShaderStyle.Naming

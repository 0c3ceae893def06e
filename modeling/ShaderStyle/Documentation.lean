import ShaderStyle.Suppression

/-!
# Documentation

A declaration is documented by the comments just above it: a documentation block, or a run of line
comments, each alone on its line, with no empty line between. A documentation block may also stand
earlier on the declaration's own line. A comment with a suppression marker documents nothing.

In the text of the comments, tags name the parameters and the returned value.
-/

namespace ShaderStyle.Documentation

/-- Whether a token is blanks within a line. -/
def isBlanks (t : Token) : Bool :=
  t.kind = .whitespace

/-- Whether a token is a comment without a marker. -/
def isUnmarkedComment (t : Token) : Bool :=
  t.kind.isComment && Marker.of? t.toLexeme = none

/-- The comments that document what stands on the line below, nearest first. The tokens come in
reverse order, and the first of them is the line break above that line. `first` says that no comment
has been found yet; only then a documentation block counts. -/
def commentsAbove (first : Bool) (before : List Token) : List Token :=
  match before with
  | [] => []
  | lineEnd :: above =>
    if lineEnd.kind = .lineBreak then
      match _h : above.dropWhile isBlanks with
      | [] => []
      | comment :: more =>
        let outer := more.dropWhile isBlanks
        if isUnmarkedComment comment && outer.head?.all (fun t => t.kind = .lineBreak) then
          match comment.kind with
          | .blockComment true => if first then [comment] else []
          | .lineComment _ => comment :: commentsAbove false outer
          | _ => []
        else []
    else []
termination_by before.length
decreasing_by
  have h1 := (List.dropWhile_sublist isBlanks (l := more)).length_le
  have h2 := (List.dropWhile_sublist isBlanks (l := above)).length_le
  rw [_h] at h2
  simp only [List.length_cons] at h2 ⊢
  omega

/-- The comments that document what starts at the token with index `i`, top to bottom; empty if
there are none. -/
def find (tokens : List Token) (i : Nat) : List Token :=
  match ((tokens.take i).reverse).dropWhile isBlanks with
  | [] => []
  | t :: above =>
    if t.kind = .blockComment true && Marker.of? t.toLexeme = none then [t]
    else (commentsAbove true (t :: above)).reverse

/-- The text of some comments, their bodies on lines of their own. -/
def text (comments : List Token) : Text :=
  ['\n'].intercalate (comments.map fun t => t.commentBody)

/-! ## Tags -/

/-- The characters that open a tag. -/
def opensTag (c : Char) : Bool :=
  c = '@' || c = '\\'

/-- What follows the word `param` of a tag, behind its direction in square brackets if it has one. -/
def afterDirection (t : Text) : Option Text :=
  match t.dropWhile Text.isBlank with
  | '[' :: inside =>
    match inside.dropWhile (· ≠ ']') with
    | [] => none
    | _ :: rest => some rest
  | _ => some t

/-- The name at the start of a text, behind at least one blank, and the text behind it. -/
def nameBehindBlanks? : Text → Option (Text × Text)
  | [] => none
  | blank :: rest =>
    if Text.isBlank blank then
      match rest.dropWhile Text.isBlank with
      | [] => none
      | c :: more =>
        if Text.isNameStart c then
          some (c :: more.takeWhile Text.isNameChar, more.dropWhile Text.isNameChar)
        else none
    else none

/-- The name that a parameter tag gives and the text behind it; `t` follows the opening character. -/
def parameterTag? : Text → Option (Text × Text)
  | 'p' :: 'a' :: 'r' :: 'a' :: 'm' :: rest => (afterDirection rest).bind nameBehindBlanks?
  | _ => none

theorem length_dropWhile_le (p : Char → Bool) (t : Text) : (t.dropWhile p).length ≤ t.length :=
  (List.dropWhile_sublist p).length_le

theorem length_afterDirection {t rest : Text} (h : afterDirection t = some rest) :
    rest.length ≤ t.length := by
  unfold afterDirection at h
  split at h
  · rename_i inside hi
    have h1 := length_dropWhile_le Text.isBlank t
    have h2 := length_dropWhile_le (· ≠ ']') inside
    rw [hi] at h1
    split at h
    · simp at h
    · rename_i hd
      rw [hd] at h2
      simp only [Option.some.injEq, List.length_cons] at *
      subst h
      omega
  · simp only [Option.some.injEq] at h
    simp [h]

theorem length_nameBehindBlanks? {t name rest : Text}
    (h : nameBehindBlanks? t = some (name, rest)) : rest.length ≤ t.length := by
  unfold nameBehindBlanks? at h
  split at h
  · simp at h
  · rename_i blank more
    have h1 := length_dropWhile_le Text.isBlank more
    split at h
    · split at h
      · simp at h
      · rename_i c after hd
        have h2 := length_dropWhile_le Text.isNameChar after
        rw [hd] at h1
        split at h
        · simp only [Option.some.injEq, Prod.mk.injEq, List.length_cons] at *
          rw [← h.2]
          omega
        · simp at h
    · simp at h

theorem length_parameterTag? {t name rest : Text} (h : parameterTag? t = some (name, rest)) :
    rest.length ≤ t.length := by
  unfold parameterTag? at h
  split at h
  · obtain ⟨behind, hd, hn⟩ := Option.bind_eq_some_iff.1 h
    have h1 := length_afterDirection hd
    have h2 := length_nameBehindBlanks? hn
    simp only [List.length_cons]
    omega
  · simp at h

/-- The names that the parameter tags of a text give, in order. -/
def parameterNames (t : Text) : List Text :=
  match t with
  | [] => []
  | c :: rest =>
    match _h : if opensTag c then parameterTag? rest else none with
    | some (name, after) => name :: parameterNames after
    | none => parameterNames rest
termination_by t.length
decreasing_by
  · have htag : parameterTag? rest = some (name, after) := by
      split at _h
      · exact _h
      · simp at _h
    have := length_parameterTag? htag
    simp only [List.length_cons]
    omega
  · simp

/-- Whether a word is that of a tag for the returned value. -/
def isReturnWord (w : Text) : Bool :=
  w = ['r', 'e', 't', 'u', 'r', 'n'] || w = ['r', 'e', 't', 'u', 'r', 'n', 's']

/-- The number of tags for the returned value. -/
def returnCount : Text → Nat
  | [] => 0
  | c :: rest =>
    (if opensTag c && isReturnWord (rest.takeWhile Text.isWordChar) then 1 else 0) +
      returnCount rest

end ShaderStyle.Documentation

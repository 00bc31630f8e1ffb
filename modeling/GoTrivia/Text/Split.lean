/-!
# Texts in pieces

A text is cut at every occurrence of a character, and nothing but that character is
lost.  The lines of a text are its pieces between line feeds, except that no line
follows a line feed at the very end.  A carriage return is part of the line it ends.
-/

set_option autoImplicit false

namespace GoTrivia.Text

/-- The pieces of a text between the occurrences of a character. -/
def splitAt (separator : Char) : List Char → List (List Char)
  | [] => [[]]
  | c :: cs =>
    if c = separator then [] :: splitAt separator cs
    else
      match splitAt separator cs with
      | [] => [[c]]
      | piece :: pieces => (c :: piece) :: pieces

/-- A text has at least one piece. -/
theorem splitAt_ne_nil (separator : Char) : (s : List Char) → splitAt separator s ≠ []
  | [] => by simp [splitAt]
  | c :: cs => by
    simp only [splitAt]
    split
    · simp
    · split <;> simp

/-- The pieces joined by the character are the text. -/
theorem intercalate_splitAt (separator : Char) :
    (s : List Char) → List.intercalate [separator] (splitAt separator s) = s
  | [] => by simp [splitAt, List.intercalate]
  | c :: cs => by
    have ih := intercalate_splitAt separator cs
    have nonempty := splitAt_ne_nil separator cs
    simp only [splitAt]
    split
    case isTrue equal =>
      subst equal
      cases pieces : splitAt c cs with
      | nil => exact absurd pieces nonempty
      | cons piece rest => simpa [pieces, List.intercalate] using ih
    case isFalse =>
      cases pieces : splitAt separator cs with
      | nil => exact absurd pieces nonempty
      | cons piece rest =>
        cases rest <;> simpa [pieces, List.intercalate] using ih

/-- The lines of a text, without their line feeds. -/
def lines (s : List Char) : List (List Char) :=
  let pieces := splitAt '\n' s
  if pieces.getLast? = some [] then pieces.dropLast else pieces

end GoTrivia.Text

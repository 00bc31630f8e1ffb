import GoTrivia.Text.CharRanges

/-!
# Blank characters

The twenty-five characters with the Unicode property *White_Space*.  Printed text
never ends in one of them, apart from its closing line feed.
-/

set_option autoImplicit false

namespace GoTrivia.Text

/-- The blank characters. -/
def blankRanges : CharRanges :=
  [(0x9, 0xd), (0x20, 0x20), (0x85, 0x85), (0xa0, 0xa0), (0x1680, 0x1680), (0x2000, 0x200a),
   (0x2028, 0x2029), (0x202f, 0x202f), (0x205f, 0x205f), (0x3000, 0x3000)]

/-- Whether a character is blank. -/
def isBlank (c : Char) : Bool :=
  blankRanges.contains c

/-- A text without the blanks at its end. -/
def trimEnd (s : List Char) : List Char :=
  (s.reverse.dropWhile isBlank).reverse

/-- A trimmed text does not end in a blank. -/
theorem isBlank_getLast_trimEnd {s : List Char} {c : Char} (last : (trimEnd s).getLast? = some c) :
    isBlank c = false := by
  rw [trimEnd, List.getLast?_reverse] at last
  simpa [last] using List.head?_dropWhile_not isBlank s.reverse

end GoTrivia.Text

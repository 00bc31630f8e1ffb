/-!
# Sets of characters given by ranges

The character classes of a standard are long, and are kept as data: a list of
closed ranges of code points in ascending order.  Membership is the plain search
through the list, so a class is fully described by its table.
-/

set_option autoImplicit false

namespace GoTrivia.Text

/-- Closed ranges of code points, in ascending order. -/
abbrev CharRanges := List (Nat × Nat)

/-- Whether some range holds the character. -/
def CharRanges.contains (ranges : CharRanges) (c : Char) : Bool :=
  ranges.any fun range => range.1 ≤ c.toNat && c.toNat ≤ range.2

end GoTrivia.Text

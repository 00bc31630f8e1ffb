import GoTrivia.Token.Basic

/-!
# Reading tokens one by one

A cursor stands in front of one token of an item sequence.  Looking at that token
does not move it, and past the last token it stays where it is.  The comments a
cursor has seen are those in front of the token it stands at.
-/

set_option autoImplicit false

namespace GoTrivia

/-- A place in an item sequence: what was passed, the token next in line, and the
items behind it. -/
structure TokenCursor where
  passed : List Item
  current : Token
  rest : List Item
deriving DecidableEq, Repr

namespace TokenCursor

/-- The first token of a sequence with the items on either side of it.  A sequence
without tokens leaves the cursor at `last`. -/
def seek (passed : List Item) (last : Token) : List Item → TokenCursor
  | [] => ⟨passed, last, []⟩
  | .token token :: rest => ⟨passed, token, rest⟩
  | comment :: rest => seek (passed ++ [comment]) last rest

/-- A cursor at the first token of a text. -/
def ofText (text : String) : TokenCursor :=
  seek [] { text := "", span := .point 0, kind := .eof } (items text)

/-- Moves behind the current token, if any token is left there. -/
def advance (cursor : TokenCursor) : TokenCursor :=
  seek (cursor.passed ++ [.token cursor.current]) cursor.current cursor.rest

/-- The comments in front of the current token. -/
def comments (cursor : TokenCursor) : List Lexeme :=
  cursor.passed.filterMap Item.comment?

/-- The unterminated comments in front of the current token. -/
def unterminated (cursor : TokenCursor) : List Span :=
  cursor.passed.filterMap Item.unterminated?

end TokenCursor

end GoTrivia

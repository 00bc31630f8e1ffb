import GoTrivia.Text.Alphabetic
import GoTrivia.Text.Numeric
import GoTrivia.Token.Kind

/-!
# Cutting a text into pieces

A text falls into pieces: blanks, line feeds, comments and tokens.  What the first
piece is and how far it reaches is decided from the front of the text alone, by
longest match; the rest of the text is then cut in the same way.  Nothing is
skipped, so the pieces put back together are the text.

A piece is given by how many characters follow its first one.  Every rule below
only measures, which keeps the cutting itself in one place.
-/

set_option autoImplicit false

namespace GoTrivia

/-- What a piece of text is.  A block comment that runs into the end of the text
is not `closed`. -/
inductive PieceKind
  | blank
  | lineFeed
  | lineComment
  | blockComment (closed : Bool)
  | token (kind : TokenKind)
deriving DecidableEq, Repr

/-- A piece of text: its kind, its first character and those that follow. -/
structure Piece where
  kind : PieceKind
  first : Char
  following : List Char
deriving DecidableEq, Repr

namespace Piece

/-- The characters of a piece. -/
def chars (piece : Piece) : List Char := piece.first :: piece.following

/-- The text of a piece. -/
def text (piece : Piece) : String := String.ofList piece.chars

end Piece

namespace Cut

/-! ## Comments -/

/-- How much of a text belongs to a block comment that is already open, and
whether the comment closes. -/
def blockComment : List Char → Nat × Bool
  | [] => (0, false)
  | '*' :: '/' :: _ => (2, true)
  | _ :: rest => let (n, closed) := blockComment rest; (n + 1, closed)

/-! ## Names -/

/-- Characters a name may begin with. -/
def beginsName (c : Char) : Bool := c == '_' || Text.isAlphabetic c

/-- Characters a name may go on with. -/
def continuesName (c : Char) : Bool := c == '_' || Text.isAlphabetic c || Text.isNumeric c

/-- A name or, if the word is reserved, a keyword. -/
def word (first : Char) (rest : List Char) : TokenKind × Nat :=
  let following := rest.takeWhile continuesName
  ((TokenKind.ofKeyword? (String.ofList (first :: following))).getD .name, following.length)

/-! ## Quoted literals -/

/-- How much of a text belongs to a literal that is already open, and whether its
closing quote was found on the way.  A backslash takes the next character with it,
whatever that is; a line feed or the end of the text interrupts the literal. -/
def quoted (quote : Char) : List Char → Nat × Bool
  | [] => (0, false)
  | '\\' :: [] => (1, false)
  | '\\' :: _ :: rest => let (n, closed) := quoted quote rest; (n + 2, closed)
  | c :: rest =>
    if c = quote then (1, true)
    else if c = '\n' then (0, false)
    else let (n, closed) := quoted quote rest; (n + 1, closed)

/-- A literal between quotes, or an unknown token if it is interrupted. -/
def quotedLiteral (quote : Char) (kind : TokenKind) (rest : List Char) : TokenKind × Nat :=
  let (n, closed) := quoted quote rest
  (if closed then kind else .unknown, n)

/-- A raw string runs to the next back quote, over any number of lines. -/
def rawString (rest : List Char) : TokenKind × Nat :=
  let n := (rest.takeWhile (· ≠ '\x60')).length
  if n < rest.length then (.string, n + 1) else (.unknown, n)

/-! ## Numbers -/

/-- Digits, which may be grouped by underscores. -/
def isDecimal (c : Char) : Bool := c == '_' || c.isDigit

/-- Hexadecimal digits, which may be grouped by underscores. -/
def isHexadecimal (c : Char) : Bool :=
  isDecimal c || ('a' ≤ c && c ≤ 'f') || ('A' ≤ c && c ≤ 'F')

/-- The length of a leading run of digits. -/
def decimals (s : List Char) : Nat := (s.takeWhile isDecimal).length

/-- The length of a leading exponent, zero if there is none. -/
def exponent : List Char → Nat
  | [] => 0
  | c :: rest =>
    if c = 'e' ∨ c = 'E' then
      match rest with
      | [] => 1
      | sign :: digits =>
        if sign = '-' ∨ sign = '+' then 2 + decimals digits else 1 + decimals rest
    else 0

/-- A number of the given kind and length, or an imaginary one if an `i` follows. -/
def imaginary (kind : TokenKind) (length : Nat) (rest : List Char) : TokenKind × Nat :=
  match rest.drop length with
  | 'i' :: _ => (.imaginary, length + 1)
  | _ => (kind, length)

/-- What follows a decimal point: digits and perhaps an exponent. -/
def fraction (s : List Char) : Nat :=
  let n := decimals s
  n + exponent (s.drop n)

/-- A decimal number after its first digit.  A point belongs to it unless a second
one follows. -/
def decimalNumber (rest : List Char) : TokenKind × Nat :=
  let n := decimals rest
  match rest.drop n with
  | '.' :: '.' :: _ => imaginary .int n rest
  | '.' :: tail => imaginary .float (n + 1 + fraction tail) rest
  | tail =>
    if exponent tail = 0 then imaginary .int n rest
    else imaginary .float (n + exponent tail) rest

/-- A number after its first digit.  After a zero a letter may choose the base. -/
def number (first : Char) (rest : List Char) : TokenKind × Nat :=
  match rest with
  | base :: digits =>
    if first = '0' ∧ (base = 'b' ∨ base = 'B' ∨ base = 'o' ∨ base = 'O') then
      imaginary .int (1 + decimals digits) rest
    else if first = '0' ∧ (base = 'x' ∨ base = 'X') then
      imaginary .int (1 + (digits.takeWhile isHexadecimal).length) rest
    else decimalNumber rest
  | [] => decimalNumber rest

/-! ## Operators and punctuation -/

/-- Operators and punctuation, each before its own beginnings. -/
def operators : List (List Char × TokenKind) :=
  [(['&', '^', '='], .ampCaretEq), (['<', '<', '='], .shlEq), (['>', '>', '='], .shrEq),
   (['.', '.', '.'], .ellipsis),
   (['&', '^'], .ampCaret), (['&', '&'], .ampAmp), (['&', '='], .ampEq),
   (['<', '<'], .shl), (['<', '='], .ltEq), (['<', '-'], .arrow),
   (['>', '>'], .shr), (['>', '='], .gtEq),
   ([':', '='], .colonEq),
   (['+', '+'], .plusPlus), (['+', '='], .plusEq),
   (['-', '-'], .minusMinus), (['-', '='], .minusEq),
   (['*', '='], .starEq), (['/', '='], .slashEq), (['%', '='], .percentEq),
   (['^', '='], .caretEq), (['=', '='], .eqEq), (['!', '='], .neq),
   (['|', '|'], .pipePipe), (['|', '='], .pipeEq),
   (['('], .leftParen), ([')'], .rightParen), (['['], .leftBracket), ([']'], .rightBracket),
   (['\x7b'], .leftBrace), (['\x7d'], .rightBrace),
   ([','], .comma), ([';'], .semicolon), ([':'], .colon), (['.'], .dot),
   (['+'], .plus), (['-'], .minus), (['*'], .star), (['/'], .slash), (['%'], .percent),
   (['^'], .caret), (['~'], .tilde), (['='], .eq), (['!'], .bang), (['&'], .amp),
   (['|'], .pipe), (['<'], .lt), (['>'], .gt)]

/-- The longest operator a text begins with. -/
def operator? (s : List Char) : Option (List Char × TokenKind) :=
  operators.find? fun entry => entry.1.isPrefixOf s

/-! ## The first piece of a text -/

/-- The token a text begins with, and how many characters follow its first one. -/
def token (first : Char) (rest : List Char) : TokenKind × Nat :=
  if first = '\x22' then quotedLiteral first .string rest
  else if first = '\x27' then quotedLiteral first .rune rest
  else if first = '\x60' then rawString rest
  else if first.isDigit then number first rest
  else if beginsName first then word first rest
  else if first = '.' ∧ (rest.head?.any Char.isDigit) then
    imaginary .float (fraction rest) rest
  else
    match operator? (first :: rest) with
    | some (chars, kind) => (kind, chars.length - 1)
    | none => (.unknown, 0)

/-- The kind of the first piece of a text, and how many characters follow its
first one. -/
def measure (first : Char) (rest : List Char) : PieceKind × Nat :=
  if first = '\n' then (.lineFeed, 0)
  else if first = ' ' ∨ first = '\t' ∨ first = '\r' then (.blank, 0)
  else
    match first, rest with
    | '/', '/' :: _ => (.lineComment, (rest.takeWhile (· ≠ '\n')).length)
    | '/', '*' :: inside =>
      let (n, closed) := blockComment inside
      (.blockComment closed, n + 1)
    | _, _ =>
      let (kind, n) := token first rest
      (.token kind, n)

end Cut

/-- Cuts a text into pieces. -/
def pieces : List Char → List Piece
  | [] => []
  | first :: rest =>
    let (kind, n) := Cut.measure first rest
    ⟨kind, first, rest.take n⟩ :: pieces (rest.drop n)
termination_by s => s.length
decreasing_by simp only [List.length_drop, List.length_cons]; omega

/-- The pieces of a text put back together are the text. -/
theorem flatMap_chars_pieces (s : List Char) : (pieces s).flatMap Piece.chars = s := by
  fun_induction pieces s with
  | case1 => rfl
  | case2 first rest kind n measured ih =>
    simp [Piece.chars, ih]

end GoTrivia

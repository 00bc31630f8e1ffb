import GoTrivia.Text.Span
import GoTrivia.Token.Piece

/-!
# Tokens, comments and inserted semicolons

Lexing a text yields its tokens and comments as one sequence of items in source
order.  Blanks vanish.  A line feed vanishes too, unless the last token before it
ends a statement: then it stands for a semicolon, which has an empty span and no
text.  A block comment that holds a line feed inserts the semicolon at its end,
and the end of the text inserts one if the last statement is still open.  The
sequence closes with the only `eof` token.

The token list, the comment list and the list of lexical errors are all read off
the items, so their relative order is never in doubt.
-/

set_option autoImplicit false

namespace GoTrivia

/-- A token of the source. -/
structure Token extends Lexeme where
  kind : TokenKind
deriving DecidableEq, Repr, Inhabited

/-- A semicolon without text was inserted at the end of a line. -/
def Token.isImplicit (token : Token) : Bool :=
  token.kind == .semicolon && token.span.isEmpty

/-- A token or a comment.  A comment that the text ends inside of is not
`closed`. -/
inductive Item
  | token (token : Token)
  | comment (lexeme : Lexeme) (closed : Bool)
deriving DecidableEq, Repr

namespace Item

/-- The token, if the item is one. -/
def token? : Item → Option Token
  | .token found => some found
  | .comment _ _ => none

/-- The comment, if the item is one. -/
def comment? : Item → Option Lexeme
  | .token _ => none
  | .comment lexeme _ => some lexeme

/-- The span of a comment that is not closed. -/
def unterminated? : Item → Option Span
  | .comment lexeme false => some lexeme.span
  | _ => none

end Item

namespace Lex

/-- The semicolon inserted at an offset. -/
def implicitSemicolon (offset : Nat) : Item :=
  .token { text := "", span := .point offset, kind := .semicolon }

/-- The token that closes the sequence. -/
def endOfText (offset : Nat) : Item :=
  .token { text := "", span := .point offset, kind := .eof }

/-- The items of a sequence of pieces.  `pending` says that the last token ends a
statement which no semicolon has closed yet, `offset` is where the pieces begin. -/
def arrange (pending : Bool) (offset : Nat) : List Piece → List Item
  | [] => if pending then [implicitSemicolon offset, endOfText offset] else [endOfText offset]
  | piece :: rest =>
    let stop := offset + byteLength piece.chars
    let lexeme : Lexeme := ⟨piece.text, ⟨offset, stop⟩⟩
    match piece.kind with
    | .blank => arrange pending stop rest
    | .lineFeed =>
      if pending then implicitSemicolon offset :: arrange false stop rest
      else arrange false stop rest
    | .lineComment => .comment lexeme true :: arrange pending stop rest
    | .blockComment closed =>
      if pending && piece.chars.contains '\n' then
        .comment lexeme closed :: implicitSemicolon stop :: arrange false stop rest
      else .comment lexeme closed :: arrange pending stop rest
    | .token kind =>
      .token { toLexeme := lexeme, kind := kind } :: arrange kind.endsStatement stop rest

end Lex

/-- The tokens and comments of a text in source order. -/
def items (text : String) : List Item :=
  Lex.arrange false 0 (pieces text.toList)

/-- What lexing a text yields. -/
structure Lexed where
  tokens : List Token
  comments : List Lexeme
  unterminated : List Span
deriving DecidableEq, Repr

/-- Sorts items into tokens, comments and unterminated comments. -/
def Lexed.ofItems (items : List Item) : Lexed where
  tokens := items.filterMap Item.token?
  comments := items.filterMap Item.comment?
  unterminated := items.filterMap Item.unterminated?

/-- Lexes a text. -/
def lex (text : String) : Lexed := .ofItems (items text)

end GoTrivia

/-!
# Kinds of token

The token kinds of Go, in the order the language's tables list them: punctuation,
operators, keywords, names and literals.  `unknown` is a character or an
unfinished literal that no rule accepts, and `eof` closes every token list.

The grammar asks five questions of a kind: whether it is a literal, whether a line
that ends after it ends a statement, how tightly it binds as a binary operator,
and whether it is a unary or an assignment operator.
-/

set_option autoImplicit false

namespace GoTrivia

/-- The kind of a token. -/
inductive TokenKind
  | leftParen | rightParen | leftBracket | rightBracket | leftBrace | rightBrace
  | comma | semicolon | colon | dot | ellipsis
  | plus | minus | star | slash | percent | amp | pipe | caret | shl | shr | ampCaret
  | ampAmp | pipePipe | arrow | plusPlus | minusMinus
  | eqEq | neq | lt | ltEq | gt | gtEq | bang | tilde
  | eq | colonEq | plusEq | minusEq | starEq | slashEq | percentEq | ampEq | pipeEq | caretEq
  | shlEq | shrEq | ampCaretEq
  | breakKw | caseKw | chanKw | constKw | continueKw | defaultKw | deferKw | elseKw
  | fallthroughKw | forKw | funcKw | goKw | gotoKw | ifKw | importKw | interfaceKw | mapKw
  | packageKw | rangeKw | returnKw | selectKw | structKw | switchKw | typeKw | varKw
  | name | int | float | imaginary | rune | string
  | unknown | eof
deriving DecidableEq, Repr, Inhabited

namespace TokenKind

/-- Every kind, in order. -/
def all : List TokenKind :=
  [leftParen, rightParen, leftBracket, rightBracket, leftBrace, rightBrace,
   comma, semicolon, colon, dot, ellipsis,
   plus, minus, star, slash, percent, amp, pipe, caret, shl, shr, ampCaret,
   ampAmp, pipePipe, arrow, plusPlus, minusMinus,
   eqEq, neq, lt, ltEq, gt, gtEq, bang, tilde,
   eq, colonEq, plusEq, minusEq, starEq, slashEq, percentEq, ampEq, pipeEq, caretEq,
   shlEq, shrEq, ampCaretEq,
   breakKw, caseKw, chanKw, constKw, continueKw, defaultKw, deferKw, elseKw,
   fallthroughKw, forKw, funcKw, goKw, gotoKw, ifKw, importKw, interfaceKw, mapKw,
   packageKw, rangeKw, returnKw, selectKw, structKw, switchKw, typeKw, varKw,
   name, int, float, imaginary, rune, string,
   unknown, eof]

theorem mem_all (kind : TokenKind) : kind ∈ all := by
  cases kind <;> decide

/-- The reserved words and their kinds. -/
def keywords : List (String × TokenKind) :=
  [("break", breakKw), ("case", caseKw), ("chan", chanKw), ("const", constKw),
   ("continue", continueKw), ("default", defaultKw), ("defer", deferKw), ("else", elseKw),
   ("fallthrough", fallthroughKw), ("for", forKw), ("func", funcKw), ("go", goKw),
   ("goto", gotoKw), ("if", ifKw), ("import", importKw), ("interface", interfaceKw),
   ("map", mapKw), ("package", packageKw), ("range", rangeKw), ("return", returnKw),
   ("select", selectKw), ("struct", structKw), ("switch", switchKw), ("type", typeKw),
   ("var", varKw)]

/-- The kind of a word, if the word is reserved. -/
def ofKeyword? (word : String) : Option TokenKind :=
  keywords.lookup word

/-- Whether tokens of this kind are literals. -/
def isLiteral : TokenKind → Bool
  | int | float | imaginary | rune | string => true
  | _ => false

/-- Whether a line that ends after a token of this kind ends a statement. -/
def endsStatement : TokenKind → Bool
  | int | float | imaginary | rune | string | name
  | breakKw | continueKw | fallthroughKw | returnKw
  | plusPlus | minusMinus | rightParen | rightBracket | rightBrace => true
  | _ => false

/-- How tightly a binary operator binds, from one for the loosest to five. -/
def precedence? : TokenKind → Option Nat
  | pipePipe => some 1
  | ampAmp => some 2
  | eqEq | neq | lt | ltEq | gt | gtEq => some 3
  | plus | minus | pipe | caret => some 4
  | star | slash | percent | shl | shr | amp | ampCaret => some 5
  | _ => none

/-- Whether tokens of this kind may stand in front of an operand. -/
def isUnaryOperator : TokenKind → Bool
  | plus | minus | bang | caret | star | amp | arrow | tilde => true
  | _ => false

/-- Whether tokens of this kind assign. -/
def isAssignOperator : TokenKind → Bool
  | eq | colonEq | plusEq | minusEq | starEq | slashEq | percentEq | ampEq | pipeEq | caretEq
  | shlEq | shrEq | ampCaretEq => true
  | _ => false

/-- A literal at the end of a line ends the statement. -/
theorem endsStatement_of_isLiteral {kind : TokenKind} (literal : kind.isLiteral = true) :
    kind.endsStatement = true := by
  cases kind <;> simp_all [isLiteral, endsStatement]

end TokenKind

end GoTrivia

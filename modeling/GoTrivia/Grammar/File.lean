import GoTrivia.Grammar.Statement

/-!
# Whole files

A file is a package clause and declarations.  It starts at its package clause, so
that header comments stand in front of it, and ends with the text, so that
trailing comments stand inside.

`parse` ties the rules together: it stacks as many levels of them as the text has
tokens, runs the file rule on top, and adds what the lexer set aside.
-/

set_option autoImplicit false

namespace GoTrivia

namespace Grammar

/-- One more level of rules on top of a given one. -/
def Rules.next (rules : Rules) : Rules where
  type := Grammar.type rules
  binary := Grammar.binary rules
  unary := Grammar.unary rules
  elided := Grammar.elided rules
  block := Grammar.block rules
  statements := Grammar.statements rules
  conditional := Grammar.conditional rules

/-- The rules with a number of levels below them. -/
def Rules.level : Nat → Rules
  | 0 => .exhausted
  | n + 1 => (Rules.level n).next

/-- A file of a given length. -/
def file (rules : Rules) (length : Nat) : Parse Positional := do
  let start ← here
  let keyword ← expect .packageKw "expected `package`"
  let name ← ident
  terminator
  let decls ← terminated .eof (decl rules)
  return .node .file (.closing start length) [.token keyword, childSlot name, decls.slot]

/-- The state at the start of a token list. -/
def ParseState.start (tokens : List Token) (diagnostics : List Diagnostic) : ParseState :=
  match tokens with
  | [] => ⟨default, [], 0, diagnostics⟩
  | token :: rest => ⟨token, rest, 0, diagnostics⟩

end Grammar

/-- The diagnostic for a comment that the text ends inside of. -/
def unterminatedComment (span : Span) : Diagnostic := ⟨"comment not terminated", span⟩

/-! ## The language version -/

/-- Whether a character may be part of a term of a build constraint. -/
def isConstraintChar (c : Char) : Bool := c.isAlphanum || c == '.'

/-- The terms of a build constraint: its runs of letters, digits and dots. -/
def constraintTerms : List Char → List Char → List (List Char)
  | [], term => [term]
  | c :: cs, term =>
    if isConstraintChar c then constraintTerms cs (term ++ [c])
    else term :: constraintTerms cs []

/-- The part of a build constraint comment behind its marker. -/
def buildConstraint? (text : String) : Option (List Char) :=
  let marker := "//go:build".toList
  if marker.isPrefixOf text.toList then some (text.toList.drop marker.length) else none

/-- The first language version that build constraints in front of an offset name. -/
def goVersion? (comments : List Lexeme) (offset : Nat) : Option String :=
  let header := comments.takeWhile (·.span.stop ≤ offset)
  let terms := (header.filterMap (buildConstraint? ·.text)).flatMap (constraintTerms · [])
  (terms.find? ("go1.".toList.isPrefixOf ·)).map String.ofList

/-- The metadata of a file: the language version asked for ahead of its package
clause. -/
def fileMetadata (root : Positional) (comments : List Lexeme) : Metadata :=
  let offset := ((root.token? .packageKw).map (·.span.start)).getD root.span.stop
  match goVersion? comments offset with
  | some version => OrderedMap.empty.insert "go_version" version
  | none => .empty

/-! ## Parsing -/

/-- What parsing a text yields.  The tree is always complete; regions that do not
fit the grammar appear as bad nodes beside a diagnostic. -/
structure Parsed where
  tree : SourceTree
  diagnostics : List Diagnostic

/-- Parses a text. -/
def parse (text : String) : Parsed :=
  let lexed := lex text
  let rules := Grammar.Rules.level (lexed.tokens.length + 1)
  let start := Grammar.ParseState.start lexed.tokens (lexed.unterminated.map unterminatedComment)
  let (root, state) := (Grammar.file rules (byteLength text.toList)).run start
  ⟨⟨root, lexed.comments, fileMetadata root lexed.comments⟩, state.diagnostics⟩

/-- Parsing a text runs the rule for files on its tokens. -/
theorem run_parse (text : String) :
    ∃ state, (Grammar.file (.level ((lex text).tokens.length + 1)) (byteLength text.toList)).run
        (.start (lex text).tokens ((lex text).unterminated.map unterminatedComment)) =
          ((parse text).tree.root, state) ∧
      (parse text).diagnostics = state.diagnostics ∧
      (parse text).tree.comments = (lex text).comments ∧
      (parse text).tree.metadata = fileMetadata (parse text).tree.root (lex text).comments := by
  simp only [parse]
  generalize StateT.run (Grammar.file _ _) _ = result
  obtain ⟨root, state⟩ := result
  exact ⟨state, rfl, rfl, rfl, rfl⟩

end GoTrivia

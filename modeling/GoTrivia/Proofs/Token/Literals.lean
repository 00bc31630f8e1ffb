import GoTrivia.Proofs.Token.Comments

/-!
# What quoted literals are

A literal between quotes runs from its quote to the next one that is not escaped.

**Interruption.** A line feed that is not escaped, or the end of the text, interrupts a literal.
What there is of it is an unknown token then, and nothing else that begins with such a quote is one.

**Lines.** An escaped line feed does not interrupt a literal.  A literal has more than one line
exactly if a backslash stands at the end of one.
-/

set_option autoImplicit false

namespace GoTrivia

/-! ## Quotes -/

/-- The quotes that open a literal, with the kind of the literal. -/
inductive LiteralQuote : Char → TokenKind → Prop
  | string : LiteralQuote '\x22' .string
  | rune : LiteralQuote '\x27' .rune

namespace LiteralQuote

variable {quote : Char} {kind : TokenKind}

theorem ne_backslash (opens : LiteralQuote quote kind) : quote ≠ '\\' := by
  cases opens <;> decide

theorem ne_lineFeed (opens : LiteralQuote quote kind) : quote ≠ '\n' := by
  cases opens <;> decide

theorem ne_unknown (opens : LiteralQuote quote kind) : kind ≠ .unknown := by
  cases opens <;> decide

theorem isGap_eq_false (opens : LiteralQuote quote kind) : isGap quote = false := by
  cases opens <;> rfl

end LiteralQuote

namespace Cut

variable {quote : Char} {kind : TokenKind} {inside back : List Char}

/-- The token that a quote opens. -/
theorem token_quote (opens : LiteralQuote quote kind) (ends : LiteralEnds quote inside back) :
    token quote (inside ++ back) =
      if back.head? = some quote then (kind, inside.length + 1) else (.unknown, inside.length) := by
  have rule : token quote (inside ++ back) = quotedLiteral quote kind (inside ++ back) := by
    cases opens <;> simp [token]
  rw [rule, quotedLiteral, quoted_eq opens.ne_backslash ends]
  by_cases closes : back.head? = some quote <;> simp [closes]

/-- No rule but that for single quotes takes a token for a rune. -/
theorem first_of_rune {first : Char} {rest : List Char} (isRune : (token first rest).1 = .rune) :
    first = '\x27' := by
  unfold token at isRune
  split at isRune
  · simp only [quotedLiteral] at isRune
    split at isRune <;> cases isRune
  split at isRune
  · assumption
  split at isRune
  · simp only [rawString] at isRune
    split at isRune <;> cases isRune
  split at isRune
  · have numeral := @isNumeral_number first rest
    rw [isRune] at numeral
    rcases numeral with same | same | same <;> cases same
  split at isRune
  · rcases word_cases first rest with isName | keyword
    · rw [isName] at isRune
      cases isRune
    · have others : ∀ entry ∈ TokenKind.keywords, entry.2 ≠ .rune := by decide
      exact (others _ keyword isRune).elim
  split at isRune
  · have numeral := @isNumeral_imaginary rest .float (fraction rest) (.inr (.inl rfl))
    rw [isRune] at numeral
    rcases numeral with same | same | same <;> cases same
  split at isRune
  · next chars kind found =>
    have others : ∀ entry ∈ operators, entry.2 ≠ .rune := by decide
    exact (others _ (List.mem_of_find?_eq_some found) isRune).elim
  · cases isRune

end Cut

/-! ## The tokens that quotes open -/

/-- What the token is that a quote opens: a literal if the next quote closes it, and else unknown
text that ends where the literal is interrupted. -/
def Token.OpenedBy (token : Token) (quote : Char) (kind : TokenKind)
    (inside back : List Char) : Prop :=
  if back.head? = some quote then
    token.kind = kind ∧ token.text.toList = quote :: (inside ++ [quote])
  else token.kind = .unknown ∧ token.text.toList = quote :: inside

namespace Lexeme

variable (text : String) (quote : Char) (lexeme : Lexeme)

/-- A quote and what follows it up to the next one that is not escaped. -/
def IsLiteral : Prop :=
  ∃ front inside back, lexeme.Between text front back ∧
    lexeme.text.toList = quote :: (inside ++ [quote]) ∧
    OnlyEscaped quote inside ∧ OnlyEscaped '\n' inside ∧ ¬Escapes inside

/-- A quote and what follows it up to a line feed that is not escaped or to the end of the text. -/
def IsInterrupted : Prop :=
  ∃ front inside back, lexeme.Between text front back ∧
    lexeme.text.toList = quote :: inside ∧
    OnlyEscaped quote inside ∧ OnlyEscaped '\n' inside ∧
    (back = [] ∨ back.head? = some '\n' ∧ ¬Escapes inside)

/-- A literal is not both closed and interrupted. -/
theorem IsLiteral.not_isInterrupted {text : String} {quote : Char} {lexeme : Lexeme}
    (closed : lexeme.IsLiteral text quote) : ¬lexeme.IsInterrupted text quote := by
  obtain ⟨_, inside, _, -, whole, -, -, bare⟩ := closed
  rintro ⟨_, all, _, -, begins, quotes, -⟩
  have same : inside ++ [quote] = all := (List.cons.inj (whole.symm.trans begins)).2
  exact bare (quotes inside [] same.symm)

end Lexeme

namespace CutAt

variable {text : String} {quote : Char} {kind : TokenKind} {front inside back : List Char} {n : Nat}
  {token : Token}

theorem openedBy (opens : LiteralQuote quote kind) (ends : LiteralEnds quote inside back)
    (cut : CutAt 0 text.toList front (inside ++ back) (.token token.kind) quote n token.toLexeme) :
    token.OpenedBy quote kind inside back := by
  have read := (Cut.token_quote opens ends).symm.trans (Cut.token_of_measure cut.measured)
  unfold Token.OpenedBy
  rw [cut.text, String.toList_ofList]
  by_cases closes : back.head? = some quote
  · obtain ⟨behind, rfl⟩ := List.head?_eq_some_iff.mp closes
    rw [if_pos closes] at read ⊢
    obtain ⟨isKind, rfl⟩ := Prod.mk.inj read
    refine ⟨isKind.symm, ?_⟩
    rw [List.take_length_add_append, List.take_succ_cons, List.take_zero]
  · rw [if_neg closes] at read ⊢
    obtain ⟨isKind, rfl⟩ := Prod.mk.inj read
    exact ⟨isKind.symm, by rw [List.take_left]⟩

/-- A token that begins with a quote is a literal or interrupted. -/
theorem isLiteral_or_isInterrupted (opens : LiteralQuote quote kind)
    (ends : LiteralEnds quote inside back)
    (cut : CutAt 0 text.toList front (inside ++ back) (.token token.kind) quote n token.toLexeme) :
    token.kind = kind ∧ token.IsLiteral text quote ∨
      token.kind = .unknown ∧ token.IsInterrupted text quote := by
  have reads := cut.openedBy opens ends
  have between := cut.between
  unfold Token.OpenedBy at reads
  split at reads
  · next closes =>
    obtain ⟨behind, rfl⟩ := List.head?_eq_some_iff.mp closes
    refine .inl ⟨reads.1, front, inside, behind, ⟨?_, between.span⟩, reads.2, ends.quotes, ends.feeds,
      ends.not_escapes⟩
    rw [cut.split, reads.2]
    simp
  · next other =>
    refine .inr ⟨reads.1, front, inside, back, ⟨?_, between.span⟩, reads.2, ends.quotes, ends.feeds,
      ends.stops.imp_right fun stop => ⟨stop.1.resolve_left other, stop.2⟩⟩
    rw [cut.split, reads.2, List.cons_append]

end CutAt

namespace Lex

variable {text : String} {token : Token} {quote : Char} {kind : TokenKind}

/-- A token that says something is cut off where it stands. -/
theorem exists_cutAt_of_head? {first : Char} (mem : token ∈ (lex text).tokens)
    (begins : token.text.toList.head? = some first) :
    ∃ front rest n, CutAt 0 text.toList front rest (.token token.kind) first n token.toLexeme := by
  have visible : token.text ≠ "" := fun none => by
    rw [none] at begins
    cases begins
  obtain ⟨front, rest, _, c, n, cut, what⟩ := exists_cutAt (mem_items_of_token mem) visible
  rcases what with ⟨_, same, rfl⟩ | ⟨_, _, other, -⟩
  · cases same
    have isFirst : c = first := by
      have text : token.text = _ := cut.text
      simpa [text] using begins
    exact ⟨front, rest, n, isFirst ▸ cut⟩
  · cases other

theorem isLiteral_or_isInterrupted (mem : token ∈ (lex text).tokens)
    (opens : LiteralQuote quote kind) (begins : token.text.toList.head? = some quote) :
    token.kind = kind ∧ token.IsLiteral text quote ∨
      token.kind = .unknown ∧ token.IsInterrupted text quote := by
  obtain ⟨front, rest, n, cut⟩ := exists_cutAt_of_head? mem begins
  obtain ⟨inside, back, rfl, ends, -⟩ := Cut.exists_literalEnds opens.ne_backslash rest
  exact cut.isLiteral_or_isInterrupted opens ends

theorem head?_of_rune (mem : token ∈ (lex text).tokens) (isRune : token.kind = .rune) :
    token.text.toList.head? = some '\x27' := by
  have visible := (regular_of_mem_lex mem).visible (by simp [isRune]) (by simp [isRune])
  cases read : token.text.toList with
  | nil => exact absurd (String.toList_eq_nil_iff.mp read) visible.1
  | cons first rest =>
    obtain ⟨_, rest, n, cut⟩ := exists_cutAt_of_head? mem (by rw [read]; rfl)
    have known := Cut.token_of_measure cut.measured
    obtain rfl : first = '\x27' := Cut.first_of_rune (by rw [known, isRune])
    rfl

end Lex

/-- A literal has a second line exactly if a backslash stands at the end of a line. -/
theorem Lexeme.IsLiteral.mem_lineFeed_iff {text : String} {quote : Char} {lexeme : Lexeme}
    (closed : lexeme.IsLiteral text quote) (other : quote ≠ '\n') :
    '\n' ∈ lexeme.text.toList ↔ ['\\', '\n'] <:+: lexeme.text.toList := by
  obtain ⟨_, inside, _, -, whole, -, feeds, -⟩ := closed
  rw [whole]
  refine ⟨fun mem => ?_, fun inner => inner.subset (by simp)⟩
  have mem : '\n' ∈ inside := by simpa [other.symm] using mem
  obtain ⟨front, back, rfl⟩ := List.append_of_mem mem
  obtain ⟨front, rfl⟩ := (feeds front back rfl).exists_concat
  exact ⟨quote :: front, back ++ [quote], by simp⟩

/-! ## Literals are lexed exactly -/

/-- What a token is that begins with a quote. -/
structure Token.Formed (text : String) (quote : Char) (kind : TokenKind) (token : Token) : Prop where
  /-- It is a literal exactly if the next quote that is not escaped ends it, and no line feed that
  is not escaped stands in it. -/
  literal_iff : token.kind = kind ↔ token.IsLiteral text quote
  /-- It is unknown exactly if a line feed or the end of the text interrupts it. -/
  unknown_iff : token.kind = .unknown ↔ token.IsInterrupted text quote
  /-- There is no third. -/
  kinds : token.kind = kind ∨ token.kind = .unknown
  /-- A literal stays on one line, unless a backslash ends a line of it. -/
  lines : token.kind = kind → ('\n' ∈ token.text.toList ↔ ['\\', '\n'] <:+: token.text.toList)

/-- What the tokens are that quotes open in a text. -/
structure LiteralsExact (text : String) (lexed : Lexed) : Prop where
  /-- A rune begins with a single quote. -/
  rune_opened : ∀ token ∈ lexed.tokens, token.kind = .rune → token.text.toList.head? = some '\x27'
  formed : ∀ token ∈ lexed.tokens, ∀ quote kind, LiteralQuote quote kind →
    token.text.toList.head? = some quote → token.Formed text quote kind
  /-- Wherever a quote stands outside of tokens and comments, there begins the token that the text
  behind the quote tells. -/
  begun : ∀ front quote kind inside back, LiteralQuote quote kind →
    text.toList = front ++ quote :: (inside ++ back) → LiteralEnds quote inside back →
    (∃ token ∈ lexed.tokens, token.span.start = byteLength front ∧
        token.OpenedBy quote kind inside back) ∨
      (∃ token ∈ lexed.tokens, token.span.Inside (byteLength front)) ∨
      ∃ comment ∈ lexed.comments, comment.span.Inside (byteLength front)

theorem Lex.formed_of_mem {text : String} {token : Token} {quote : Char} {kind : TokenKind}
    (mem : token ∈ (lex text).tokens) (opens : LiteralQuote quote kind)
    (begins : token.text.toList.head? = some quote) : token.Formed text quote kind := by
  rcases isLiteral_or_isInterrupted mem opens begins with ⟨isKind, closed⟩ | ⟨isUnknown, broken⟩
  · have known : token.kind ≠ .unknown := isKind ▸ opens.ne_unknown
    exact ⟨iff_of_true isKind closed, iff_of_false known closed.not_isInterrupted, .inl isKind,
      fun _ => closed.mem_lineFeed_iff opens.ne_lineFeed⟩
  · have other : token.kind ≠ kind := isUnknown ▸ opens.ne_unknown.symm
    exact ⟨iff_of_false other fun closed => closed.not_isInterrupted broken,
      iff_of_true isUnknown broken, .inr isUnknown, fun isKind => (other isKind).elim⟩

/-- **Exact literals.** -/
theorem literalsExact_lex (text : String) : LiteralsExact text (lex text) where
  rune_opened := fun _ mem isRune => Lex.head?_of_rune mem isRune
  formed := fun _ mem _ _ opens begins => Lex.formed_of_mem mem opens begins
  begun := by
    intro front quote kind inside back opens split ends
    refine (Lex.exists_cutAt_or_inside split opens.isGap_eq_false).imp_left ?_
    rintro ⟨item, mem, _, n, cut, ⟨token, rfl, rfl⟩ | ⟨comment, closed, rfl, isComment⟩⟩
    · refine ⟨token, List.mem_filterMap.mpr ⟨_, mem, rfl⟩, ?_, cut.openedBy opens ends⟩
      rw [show token.span = _ from cut.span, Nat.zero_add]
    · obtain rfl := isComment.first_eq cut.measured
      cases opens

/-- An escaped quote does not close a literal, and an escaped backslash does not escape. -/
example : (lex "\x27\\\x27\x27 \"\\\\\" \"a\n\x27").tokens.map Token.kind =
    [.rune, .string, .unknown, .unknown, .eof] := by
  decide +kernel

/-- A declaration with a string that has a backslash at the end of its first line. -/
def foldedString : String := "var x = \"a\\\nb\"\n"

/-- A string may go on behind a backslash on the next line. -/
theorem string_foldedString :
    ∃ token ∈ (lex foldedString).tokens, token.kind = .string ∧
      token.text.toList.head? = some '\x22' ∧ '\n' ∈ token.text.toList := by
  decide +kernel

end GoTrivia

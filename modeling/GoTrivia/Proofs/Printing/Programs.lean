import GoTrivia.Proofs.Decorating.Outlines
import GoTrivia.Proofs.Grammar.Commas
import GoTrivia.Proofs.Grammar.Edges
import GoTrivia.Proofs.Printing.Reprinting
import GoTrivia.Proofs.Printing.Rereading

/-!
# Programs printed back

The tree of a text, decorated and printed without any edit, gives the program of the text back, with
its comments, unless two tokens were printed side by side that are read as one.  These are two signs
that make an operator, or a number with a point or a step behind it.

**Two ways.** The program of the text is that of the marks, because what may be left out is a comma in
front of a closing delimiter, which is no part of a program (`Keeps.programOf_eq`).  The program of
what was printed is that of the marks, because lexing inserts no semicolon behind a comma
(`programOf_arrange`).
-/

set_option autoImplicit false

namespace GoTrivia

open Print (Mark)

/-! ## Programs of tokens -/

/-- What a token is and says. -/
def Token.entry (token : Token) : TokenKind × String := (token.kind, token.text)

/-- The program of tokens. -/
def programOf (tokens : List Token) : List (TokenKind × String) :=
  ((withoutLastCommas tokens).filter Token.isSolid).map Token.entry

theorem program_eq (text : String) : program text = programOf (lex text).tokens := rfl

/-- Whether the first of some tokens is a closing delimiter. -/
def beginsClosing (tokens : List Token) : Bool := tokens.head?.any (·.kind.isClosing)

section Tokens

variable {token : Token} {front tokens : List Token}

theorem withoutLastCommas_cons (token : Token) (tokens : List Token) :
    withoutLastCommas (token :: tokens) =
      if token.kind == .comma && beginsClosing tokens then withoutLastCommas tokens
      else token :: withoutLastCommas tokens := by
  cases tokens with
  | nil => simp [withoutLastCommas, beginsClosing]
  | cons next tokens => rw [withoutLastCommas]; rfl

/-- A token is part of a program, unless it is a semicolon, the end of the text or a comma in front
of a closing delimiter. -/
theorem programOf_cons (token : Token) (tokens : List Token) :
    programOf (token :: tokens) =
      (if token.isSolid && !(token.kind == .comma && beginsClosing tokens) then [token.entry]
        else []) ++ programOf tokens := by
  rw [programOf, withoutLastCommas_cons, programOf]
  by_cases dropped : (token.kind == .comma && beginsClosing tokens) = true
  · rw [if_pos dropped, if_neg (by simp [dropped])]
    rfl
  · rw [if_neg dropped, List.filter_cons]
    cases token.isSolid <;> simp [dropped]

theorem programOf_of_not_isSolid (hidden : token.isSolid = false) (tokens : List Token) :
    programOf (token :: tokens) = programOf tokens := by
  simp [programOf_cons, hidden]

theorem programOf_of_ne_comma (solid : token.isSolid = true) (other : token.kind ≠ .comma)
    (tokens : List Token) : programOf (token :: tokens) = token.entry :: programOf tokens := by
  simp [programOf_cons, solid, other]

/-- In front of what is no closing delimiter a program is cut. -/
theorem programOf_append (front : List Token) (open' : token.kind.isClosing = false)
    (tokens : List Token) :
    programOf (front ++ token :: tokens) = programOf front ++ programOf (token :: tokens) := by
  induction front with
  | nil => rfl
  | cons first front ih =>
    have same : beginsClosing (front ++ token :: tokens) = beginsClosing front := by
      cases front with
      | nil => simpa [beginsClosing] using open'
      | cons next front => rfl
    rw [List.cons_append, programOf_cons first, ih, programOf_cons first, same, List.append_assoc]

end Tokens

/-! ## Programs of pieces -/

namespace Lex

/-- Where no statement is open, the first token is the first one that is a piece. -/
theorem beginsClosing_arrange (offset : Nat) (ps : List Piece) :
    beginsClosing ((arrange false offset ps).filterMap Item.token?) =
      beginsClosing (ps.filterMap Piece.asToken?) := by
  induction ps generalizing offset with
  | nil => rfl
  | cons piece ps ih =>
    rw [arrange]
    split
    · next isBlank => simpa [Piece.asToken?, isBlank] using ih _
    · next isFeed => simpa [Piece.asToken?, isFeed] using ih _
    · next isLine => simpa [Piece.asToken?, isLine, Item.token?, List.filterMap_cons] using ih _
    · next isBlock => simpa [Piece.asToken?, isBlock, Item.token?, List.filterMap_cons] using ih _
    · next kind isToken => simp [Piece.asToken?, isToken, Item.token?, beginsClosing]

theorem programOf_inserted (offset : Nat) (items : List Item) :
    programOf ((implicitSemicolon offset :: items).filterMap Item.token?) =
      programOf (items.filterMap Item.token?) := by
  rw [implicitSemicolon, List.filterMap_cons, Item.token?]
  exact programOf_of_not_isSolid rfl _

/-- The semicolons that lexing inserts are no part of a program, and none is inserted behind a
comma. -/
theorem programOf_arrange (pending : Bool) (offset : Nat) (ps : List Piece) :
    programOf ((arrange pending offset ps).filterMap Item.token?) =
      programOf (ps.filterMap Piece.asToken?) := by
  induction ps generalizing pending offset with
  | nil =>
    rw [arrange]
    split
    · rw [programOf_inserted]
      rfl
    · rfl
  | cons piece ps ih =>
    rw [arrange]
    split
    · next isBlank => simpa [Piece.asToken?, isBlank] using ih _ _
    · next isFeed =>
      split
      · rw [programOf_inserted]
        simpa [Piece.asToken?, isFeed] using ih _ _
      · simpa [Piece.asToken?, isFeed] using ih _ _
    · next isLine => simpa [Piece.asToken?, isLine, Item.token?, List.filterMap_cons] using ih _ _
    · next closed isBlock =>
      split
      · have ih := ih false (offset + byteLength piece.chars)
        rw [← programOf_inserted (offset + byteLength piece.chars)] at ih
        simpa [Piece.asToken?, isBlock, Item.token?, List.filterMap_cons] using ih
      · simpa [Piece.asToken?, isBlock, Item.token?, List.filterMap_cons] using ih _ _
    · next kind isToken =>
      have found : piece.asToken? = some { text := piece.text, span := .point 0, kind := kind } := by
        rw [Piece.asToken?, isToken]
      rw [List.filterMap_cons, List.filterMap_cons, found, Item.token?]
      simp only
      rw [programOf_cons, programOf_cons, ih]
      by_cases isComma : kind = .comma
      · subst isComma
        rw [show TokenKind.comma.endsStatement = false from rfl, beginsClosing_arrange]
        rfl
      · simp [isComma, Token.entry, Token.isSolid]

/-- The comments of a text are those of its pieces. -/
theorem comments_arrange (pending : Bool) (offset : Nat) (ps : List Piece) :
    ((arrange pending offset ps).filterMap Item.comment?).map (·.text) =
      ps.filterMap Piece.asComment? := by
  induction ps generalizing pending offset with
  | nil => cases pending <;> rfl
  | cons piece ps ih =>
    rw [arrange]
    split
    · next isBlank => simpa [Piece.asComment?, isBlank] using ih _ _
    · next isFeed =>
      split <;>
        simpa [Piece.asComment?, isFeed, implicitSemicolon, Item.comment?, List.filterMap_cons]
          using ih _ _
    · next isLine => simpa [Piece.asComment?, isLine, Item.comment?] using ih _ _
    · next closed isBlock =>
      split <;>
        simpa [Piece.asComment?, isBlock, implicitSemicolon, Item.comment?, List.filterMap_cons]
          using ih _ _
    · next kind isToken =>
      simpa [Piece.asComment?, isToken, Item.comment?, List.filterMap_cons] using ih _ _

end Lex

theorem program_eq_pieces (text : String) :
    program text = programOf ((pieces text.toList).filterMap Piece.asToken?) :=
  (program_eq text).trans (Lex.programOf_arrange false 0 (pieces text.toList))

theorem comments_eq_pieces (text : String) :
    (lex text).comments.map (·.text) = (pieces text.toList).filterMap Piece.asComment? :=
  Lex.comments_arrange false 0 (pieces text.toList)

/-! ## Programs of marks -/

/-- Tokens as those of a text without diagnostics: behind a comma stands a part of the program that
is no comma, what may be left out is a comma in front of a closing delimiter, and the parts of the
program are told by their texts. -/
structure Tidy (mayOmit : List Span) (tokens : List Token) : Prop where
  behind : ∀ comma rest, comma :: rest <:+ tokens → comma.kind = .comma →
    ∃ next others, rest = next :: others ∧ next.kind ≠ .comma ∧ next.isSolid = true
  omitted : ∀ token rest, token :: rest <:+ tokens → token.span ∈ mayOmit →
    token.kind = .comma ∧ beginsClosing rest = true
  kinds : ∀ token ∈ tokens, token.isSolid = true → tokenKind? token.text = some token.kind

theorem tidy_lex {text : String} (clean : (parse text).diagnostics = []) :
    Tidy (trailingSeparators (parse text).tree.root) (lex text).tokens where
  behind _ _ suffix isComma := exists_behind_comma clean suffix isComma
  omitted _ _ suffix may := by
    obtain ⟨isComma, next, rest, rfl, closes⟩ := closing_of_trailing clean suffix may
    exact ⟨isComma, closes⟩
  kinds token mem solid := by
    obtain ⟨noSemicolon, noEnd⟩ : token.kind ≠ .semicolon ∧ token.kind ≠ .eof := by
      simpa [Token.isSolid] using solid
    exact (known_of_mem_lex mem).kind (known_of_clean clean token mem) noSemicolon noEnd

namespace Tidy

variable {mayOmit : List Span} {token : Token} {tokens : List Token}

theorem tail (tidy : Tidy mayOmit (token :: tokens)) : Tidy mayOmit tokens where
  behind comma rest suffix := tidy.behind comma rest (suffix.trans (List.suffix_cons _ _))
  omitted other rest suffix := tidy.omitted other rest (suffix.trans (List.suffix_cons _ _))
  kinds other mem := tidy.kinds other (List.mem_cons_of_mem _ mem)

end Tidy

/-- The token of a mark that is written for a token. -/
theorem asToken?_of_kind {text : String} {kind : TokenKind} (isToken : tokenKind? text = some kind) :
    (Mark.token text).asToken? = some { text := text, span := .point 0, kind := kind } := by
  rw [Print.Mark.asToken?, isToken, Option.getD_some]

/-- The tokens of items that begin with a token. -/
theorem filterMap_token_cons (token : Token) (items : List Item) :
    (Item.token token :: items).filterMap Item.token? = token :: items.filterMap Item.token? := rfl

/-- An item that is written as a token or a comment of its own. -/
def Item.Alone : Item → Prop
  | .token found => found.isSolid = true → (tokenKind? found.text).isSome = true
  | .comment lexeme _ => (Mark.comment lexeme.text).Alone

namespace Keeps

variable {mayOmit : List Span} {items : List Item} {marks : List Mark}

/-- If the first token is a part of the program that may not be left out, it is the first one that
is written. -/
theorem beginsClosing_eq (keeps : Keeps mayOmit items marks) {next : Token} {others : List Token}
    (first : items.filterMap Item.token? = next :: others) (solid : next.isSolid = true)
    (stays : next.span ∉ mayOmit) (isKind : tokenKind? next.text = some next.kind) :
    beginsClosing (marks.filterMap Mark.asToken?) = next.kind.isClosing := by
  induction keeps with
  | nil => cases first
  | comment lexeme closed rest ih => exact ih first
  | token token _ _ rest ih =>
    obtain rfl : token = next := (List.cons.inj first).1
    rw [List.filterMap_cons, asToken?_of_kind isKind]
    rfl
  | semicolon token isSemicolon written rest ih =>
    obtain rfl : token = next := (List.cons.inj first).1
    rw [Token.isSolid, isSemicolon] at solid
    cases solid
  | passed token other rest ih =>
    obtain rfl : token = next := (List.cons.inj first).1
    cases other.symm.trans solid
  | omitted token may rest ih =>
    obtain rfl : token = next := (List.cons.inj first).1
    exact (stays may).elim

/-- The program that is written is the program of the text. -/
theorem programOf_eq (keeps : Keeps mayOmit items marks)
    (tidy : Tidy mayOmit (items.filterMap Item.token?)) :
    programOf (marks.filterMap Mark.asToken?) = programOf (items.filterMap Item.token?) := by
  induction keeps with
  | nil => rfl
  | comment lexeme closed rest ih => exact ih tidy
  | @token token solid other items marks rest ih =>
    rw [filterMap_token_cons] at tidy ⊢
    have isKind := tidy.kinds token List.mem_cons_self solid
    rw [List.filterMap_cons, asToken?_of_kind isKind]
    simp only
    rw [programOf_cons, programOf_cons token, ih tidy.tail]
    by_cases isComma : token.kind = .comma
    · obtain ⟨next, others, first, noComma, isSolid⟩ := tidy.behind token _ List.suffix_rfl isComma
      have suffix : next :: others <:+ token :: items.filterMap Item.token? := by
        rw [first]
        exact List.suffix_cons _ _
      have same := rest.beginsClosing_eq first isSolid
        (fun may => noComma (tidy.omitted next others suffix may).1)
        (tidy.kinds next (suffix.subset List.mem_cons_self) isSolid)
      rw [same, first]
      rfl
    · simp [isComma, Token.entry, Token.isSolid]
  | @semicolon token isSemicolon written items marks rest ih =>
    rw [filterMap_token_cons] at tidy ⊢
    have isKind : tokenKind? token.text = some .semicolon := by
      rw [written]
      decide +kernel
    have hidden : token.isSolid = false := by simp [Token.isSolid, isSemicolon]
    rw [programOf_of_not_isSolid hidden, ← ih tidy.tail, List.filterMap_cons,
      asToken?_of_kind isKind]
    exact programOf_of_not_isSolid rfl _
  | passed token other rest ih =>
    rw [filterMap_token_cons] at tidy ⊢
    rw [programOf_of_not_isSolid other, ih tidy.tail]
  | omitted token may rest ih =>
    rw [filterMap_token_cons] at tidy ⊢
    obtain ⟨isComma, closes⟩ := tidy.omitted token _ List.suffix_rfl may
    rw [programOf_cons, ih tidy.tail]
    simp [isComma, closes]

/-- All comments are written. -/
theorem comments_eq (keeps : Keeps mayOmit items marks) :
    marks.filterMap Mark.asComment? = (items.filterMap Item.comment?).map (·.text) := by
  induction keeps with
  | nil => rfl
  | comment lexeme closed rest ih => exact congrArg (lexeme.text :: ·) ih
  | token | semicolon | passed | omitted => assumption

/-- What is written for items is alone if they are. -/
theorem alone (keeps : Keeps mayOmit items marks) (alone : ∀ item ∈ items, item.Alone) :
    ∀ mark ∈ marks, mark.Alone := by
  induction keeps with
  | nil => exact List.forall_mem_nil _
  | comment lexeme closed rest ih =>
    obtain ⟨here, others⟩ := List.forall_mem_cons.mp alone
    exact List.forall_mem_cons.mpr ⟨here, ih others⟩
  | token token solid other rest ih =>
    obtain ⟨here, others⟩ := List.forall_mem_cons.mp alone
    exact List.forall_mem_cons.mpr ⟨here solid, ih others⟩
  | semicolon token isSemicolon written rest ih =>
    have isToken : (tokenKind? ";").isSome = true := by decide +kernel
    exact List.forall_mem_cons.mpr ⟨written.symm ▸ isToken, ih (List.forall_mem_cons.mp alone).2⟩
  | passed token _ rest ih => exact ih (List.forall_mem_cons.mp alone).2
  | omitted token _ rest ih => exact ih (List.forall_mem_cons.mp alone).2

end Keeps

/-- A comment that is closed is a comment of its own. -/
theorem CutAt.alone {text : String} {front rest : List Char} {kind : PieceKind} {first : Char}
    {n : Nat} {comment : Lexeme} (cut : CutAt 0 text.toList front rest kind first n comment)
    (isComment : IsCommentKind kind true) : (Mark.comment comment.text).Alone := by
  have known : kind ≠ .token .unknown := by
    rcases isComment with ⟨rfl, -⟩ | rfl <;> simp
  have closed : kind ≠ .blockComment false := by
    rcases isComment with ⟨rfl, -⟩ | rfl <;> simp
  have inside := Cut.measure_le cut.measured known closed
  refine ⟨⟨kind, first, rest.take n⟩, ⟨?_, known, closed⟩, ?_, ?_⟩
  · rw [Cut.measure_take cut.measured known closed, List.length_take, Nat.min_eq_left inside]
  · rw [cut.text, String.toList_ofList]
    rfl
  · exact isComment.imp And.left id

/-- The items of a text without diagnostics are tokens and comments of their own. -/
theorem alone_of_mem_items {text : String} (clean : (parse text).diagnostics = []) :
    ∀ item ∈ items text, item.Alone := by
  intro item mem
  cases item with
  | token token =>
    intro solid
    rw [(tidy_lex clean).kinds token (List.mem_filterMap.mpr ⟨_, mem, rfl⟩) solid]
    rfl
  | comment lexeme closed =>
    have isClosed : closed = true := by
      cases closed with
      | true => rfl
      | false =>
        have inside : lexeme.span ∈ (lex text).unterminated :=
          List.mem_filterMap.mpr ⟨_, mem, rfl⟩
        rw [unterminated_of_clean clean] at inside
        cases inside
    subst isClosed
    obtain ⟨front, rest, kind, first, n, cut, what⟩ :=
      Lex.exists_cutAt mem (Lex.visible_of_mem_comments mem)
    rcases what with ⟨token, other, -⟩ | ⟨comment, closed, same, isComment⟩
    · cases other
    · cases same
      exact cut.alone isComment

/-! ## Tokens that are fused -/

/-- The characters that a part of a program begins with only if it is no comma and no closing
delimiter. -/
def enders : List Char := Cut.gapStarts ++ [',', ';', ')', ']', '\x7d']

/-- The kinds of tokens that are no parts of programs, or may be none, and the closing delimiters. -/
def endingKinds : List TokenKind :=
  [.semicolon, .eof, .comma, .rightParen, .rightBracket, .rightBrace]

/-- A token that begins with another character is a part of every program. -/
theorem notMem_endingKinds {first : Char} (other : first ∉ enders) (rest : List Char) :
    (Cut.token first rest).1 ∉ endingKinds := by
  have spelled : ∀ kind ∈ endingKinds, kind ≠ .eof →
      ∃ text ∈ kind.spelling?, text.toList.head?.all enders.contains = true := by decide
  intro mem
  obtain ⟨text, isText, begins⟩ := spelled _ mem Cut.ne_eof_token
  refine other (List.contains_iff_mem.mp ((Option.all_eq_true _ _).mp begins first ?_))
  rw [← Cut.text_of_spelling? isText, String.toList_ofList]
  rfl

/-- What begins with another character is a token. -/
theorem exists_token_of_first {s : List Char} {piece : Piece} (mem : piece ∈ pieces s)
    (other : piece.first ∉ enders) :
    ∃ kind ∉ endingKinds, piece.kind = .token kind := by
  obtain ⟨rest, n, measured, -⟩ := measure_of_mem_pieces mem
  refine ⟨_, notMem_endingKinds other rest, ?_⟩
  rw [Cut.measure_eq_token fun gap => other (List.mem_append_left _ gap)] at measured
  exact (congrArg Prod.fst measured).symm

/-- In front of a token that is a part of every program, a program is cut. -/
theorem programOf_split {token : Token} (part : token.kind ∉ endingKinds)
    (front tokens : List Token) :
    programOf (front ++ token :: tokens) = programOf front ++ token.entry :: programOf tokens := by
  simp only [endingKinds, List.mem_cons, List.not_mem_nil, or_false, not_or] at part
  obtain ⟨noSemicolon, noEnd, noComma, noParen, noBracket, noBrace⟩ := part
  have solid : token.isSolid = true := by simp [Token.isSolid, noSemicolon, noEnd]
  have open' : token.kind.isClosing = false := by
    revert noParen noBracket noBrace
    cases token.kind <;> simp [TokenKind.isClosing]
  rw [programOf_append front open', programOf_of_ne_comma solid noComma]

/-- The texts that may be fused with others begin with a sign, a digit, a point or a letter. -/
theorem Fuses.first {text next : String} (fuses : Fuses text next) :
    ∀ c ∈ text.toList.head?, c ∉ enders := by
  rcases fuses with signs | ⟨isNumeral, -⟩
  · have all : ∀ pair ∈ [("+", "+"), ("-", "-"), ("&", "&"), ("&", "^")],
        (pair.1.toList.head?.all fun c => decide (c ∉ enders)) = true := by decide
    exact forall_mem_of_all (all _ signs)
  · have others : ∀ c ∈ enders, ¬Cut.BeginsNumber c := List.all_iff_forall_prop.mp (by decide +kernel)
    obtain ⟨kind, first, following, -, -, chars, -, begins⟩ := exists_of_isNumeral isNumeral
    intro c head mem
    obtain rfl : first = c := by simpa [chars] using head
    exact others first mem begins

/-! ## Programs of printed marks -/

/-- If some token is not cut off from what is printed behind it, there is a first one. -/
theorem exists_first_fused {marks : List Mark} (fused : ¬Print.CutApart marks) :
    ∃ front text back, marks = front ++ .token text :: back ∧
      ¬ReadApart text (Print.finish back) ∧
      ∀ before other behind, front = before ++ .token other :: behind →
        ReadApart other (Print.finish (behind ++ .token text :: back)) := by
  induction marks with
  | nil => exact (fused fun front _ _ split => by cases front <;> cases split).elim
  | cons mark marks ih =>
    by_cases here : ∃ text, mark = .token text ∧ ¬ReadApart text (Print.finish marks)
    · obtain ⟨text, rfl, notApart⟩ := here
      exact ⟨[], text, marks, rfl, notApart, fun before _ _ split => by cases before <;> cases split⟩
    · have first : ∀ text, mark = .token text → ReadApart text (Print.finish marks) :=
        fun text isToken => by_contra fun notApart => here ⟨text, isToken, notApart⟩
      obtain ⟨front, text, back, rfl, notApart, apart⟩ := ih fun apart => fused
        fun before other behind split => by
          rcases List.cons_eq_append_iff.mp split with ⟨rfl, same⟩ | ⟨before, rfl, rest⟩
          · obtain ⟨rfl, rfl⟩ := List.cons.inj same
            exact first _ rfl
          · exact apart before other behind rest
      refine ⟨mark :: front, text, back, rfl, notApart, fun before other behind split => ?_⟩
      rcases List.cons_eq_append_iff.mp split with ⟨rfl, same⟩ | ⟨before, rfl, rest⟩
      · obtain ⟨rfl, rfl⟩ := List.cons.inj same
        exact first other rfl
      · exact apart before other behind rest

section Marks

variable {marks : List Mark} (alone : ∀ mark ∈ marks, mark.Alone)
  (beside : marks.IsChain (Print.Beside MayTouch))
include alone beside

/-- If its tokens are cut off from each other, a printed text has the program and the comments of
its marks. -/
theorem program_finish (apart : Print.CutApart marks) :
    program (Print.finish marks) = programOf (marks.filterMap Mark.asToken?) ∧
      trimLast ((lex (Print.finish marks)).comments.map (·.text)) =
        trimLast (marks.filterMap Mark.asComment?) := by
  obtain ⟨ps, read, tokens, comments⟩ := Print.exists_pieces_finish [] alone
    (by rwa [List.append_nil]) fun before text behind split => by
      rw [List.append_nil]
      exact apart before text behind split
  have feed : Piece.Whole ⟨.lineFeed, '\n', []⟩ := ⟨by decide, by decide, by decide⟩
  have isEnd : pieces (Print.finish []).toList = [⟨.lineFeed, '\n', []⟩] := feed.pieces_chars
  rw [List.append_nil, isEnd] at read
  have noToken : [(⟨.lineFeed, '\n', []⟩ : Piece)].filterMap Piece.asToken? = [] := rfl
  have noComment : [(⟨.lineFeed, '\n', []⟩ : Piece)].filterMap Piece.asComment? = [] := rfl
  rw [program_eq_pieces, comments_eq_pieces, read, List.filterMap_append, List.filterMap_append,
    noToken, noComment, List.append_nil, List.append_nil, tokens]
  exact ⟨rfl, comments rfl⟩

/-- If some token is not cut off from what is printed behind it, a printed text has another program
than its marks. -/
theorem program_finish_ne (fused : ¬Print.CutApart marks) :
    program (Print.finish marks) ≠ programOf (marks.filterMap Mark.asToken?) := by
  obtain ⟨front, text, back, rfl, notApart, apart⟩ := exists_first_fused fused
  obtain ⟨ps, read, tokens, -⟩ := Print.exists_pieces_finish (.token text :: back)
    (fun mark mem => alone mark (List.mem_append_left _ mem)) beside apart
  obtain ⟨-, behind⟩ := List.forall_mem_append.mp alone
  obtain ⟨here, -⟩ := List.forall_mem_cons.mp behind
  obtain ⟨kind, isToken⟩ := Option.isSome_iff_exists.mp here
  obtain ⟨next, rest, rfl, fuses⟩ :=
    (Print.readApart_or_fuses behind (List.isChain_append.mp beside).2.1).resolve_left notApart
  obtain ⟨piece, others, first, begins, differs⟩ := exists_of_not_readApart isToken notApart
  -- What is read where the token stands is a part of every program, and so is the token.
  have other := fuses.first piece.first begins
  obtain ⟨read', readPart, isRead⟩ := exists_token_of_first (first ▸ List.mem_cons_self) other
  obtain ⟨own, whole, isOwn, chars⟩ := exists_piece isToken
  have ownFirst : own.first = piece.first := by
    rw [← chars] at begins
    exact Option.some.inj begins
  obtain ⟨kind', ownPart, isKind⟩ :=
    exists_token_of_first (whole.pieces_chars ▸ List.mem_cons_self) (ownFirst ▸ other)
  obtain rfl : kind = kind' := PieceKind.token.inj (isOwn.symm.trans isKind)
  have isPiece : piece.asToken? = some { text := piece.text, span := .point 0, kind := read' } := by
    rw [Piece.asToken?, isRead]
  rw [program_eq_pieces, read, Print.finish_token isToken, first, List.filterMap_append,
    List.filterMap_append, tokens, List.filterMap_cons, List.filterMap_cons, isPiece,
    asToken?_of_kind isToken]
  simp only
  rw [programOf_split readPart, programOf_split ownPart]
  intro same
  obtain ⟨entries, -⟩ := List.cons.inj (List.append_cancel_left same)
  obtain ⟨isKind', isText⟩ := Prod.mk.inj entries
  refine differs ⟨?_, isText⟩
  rw [isRead]
  exact congrArg _ isKind'

end Marks

/-! ## Programs printed back -/

/-- The tokens and comments of a tree that is printed back stand where they may. -/
theorem isChain_marks {text : String} (clean : (parse text).diagnostics = []) {tree : DecoratedTree}
    (decorated : decorate text = .ok tree) {output : String} (printed : print tree = .ok output)
    {marks : List Mark} (written : Print.marks .standard (tree.place .standard).root
      (tree.place .standard).comments = .ok marks) : marks.IsChain (Print.Beside MayTouch) := by
  have faultless := exists_print_iff.mp ⟨output, printed⟩
  have accepted := restore_eq_ok_iff.mpr ⟨faultless, rfl⟩
  rw [decorate_of_clean clean] at decorated
  have fits : AllFit (fun _ _ _ => True) (tree.place .standard).root.preorder :=
    allFit_of_restore accepted fun _ _ _ _ _ _ _ => trivial
  have same : (tree.place .standard).root.erase = (parse text).tree.root.erase :=
    (copies_place faultless).erase.trans (erase_of_decorate decorated).1
  obtain ⟨marks', written', beside⟩ := exists_marks_beside lenient_mayTouch fits
    (allSeamed_of_erase clean same fits) (tree.place .standard).comments
  obtain rfl := Except.ok.inj (written.symm.trans written')
  exact beside

/-- **Programs printed back.** The unedited tree of a text is printed with the program of the text
exactly if no two tokens that are printed side by side are read as others, and then with its
comments, but for the blanks at the end of the last one.  Only two signs that make an operator may be
read as others, and a number in front of a point or a step. -/
theorem program_print_iff (text : String) (resolver : LineResolver)
    (indexes : resolver.Indexes text) (clean : (parse text).diagnostics = [])
    (tree : DecoratedTree) (decorated : decorateWith resolver text = .ok tree)
    (counted : ∀ thing ∈ (tree.place .standard).log, thing.offset ≤ Print.lastOffset)
    (output : String) (printed : print tree = .ok output) :
    ∃ marks, Print.marks .standard (tree.place .standard).root (tree.place .standard).comments =
        .ok marks ∧
      output = Print.finish marks ∧
      (program output = program text ↔ Print.ReadsApart marks) ∧
      (Print.ReadsApart marks → trimLast ((lex output).comments.map (·.text)) =
        trimLast ((lex text).comments.map (·.text))) ∧
      ∀ front before next back, marks = front ++ .token before :: .token next :: back →
        ReadApart before next ∨ Fuses before next := by
  rw [decorateWith_eq indexes] at decorated
  obtain ⟨marks, written, finished, keeps⟩ := exists_marks_keeps clean decorated counted printed
  have beside := isChain_marks clean decorated printed written
  have kept : ∀ mark ∈ marks, mark.Alone := by
    intro mark mem
    cases mark with
    | space | tab | lineFeed => trivial
    | token | comment =>
      exact keeps.alone (alone_of_mem_items clean) _ (List.mem_filter.mpr ⟨mem, rfl⟩)
  have noItem (mark : Mark) (blank : mark.isItem = false) :
      mark.asToken? = none ∧ mark.asComment? = none := by
    cases mark with
    | token | comment => cases blank
    | space | tab | lineFeed => exact ⟨rfl, rfl⟩
  have same : programOf (marks.filterMap Mark.asToken?) = program text := by
    rw [← Print.filterMap_filter_isItem fun mark blank => (noItem mark blank).1]
    exact keeps.programOf_eq (tidy_lex clean)
  have said : marks.filterMap Mark.asComment? = (lex text).comments.map (·.text) := by
    rw [← Print.filterMap_filter_isItem fun mark blank => (noItem mark blank).2]
    exact keeps.comments_eq
  subst finished
  refine ⟨marks, written, rfl, ?_⟩
  rw [← Print.cutApart_iff kept beside]
  refine ⟨⟨fun unchanged => by_contra fun fused => ?_, fun apart => ?_⟩, fun apart => ?_,
    fun _ _ _ _ => Print.touch_or_fuses kept beside⟩
  · exact program_finish_ne kept beside fused (unchanged.trans same.symm)
  · exact (program_finish kept beside apart).1.trans same
  · rw [(program_finish kept beside apart).2, said]

theorem program_print_separatedArguments :
    ∃ tree output marks, decorate separatedArguments = .ok tree ∧ print tree = .ok output ∧
      output = Print.finish marks ∧ Print.ReadsApart marks ∧
      trimLast ((lex output).comments.map (·.text)) =
        trimLast ((lex separatedArguments).comments.map (·.text)) := by
  have clean : (parse separatedArguments).diagnostics = [] := by decide +kernel
  have same : program "package p\n\nvar x = f(a, /* b */ b) // c\n" = program separatedArguments := by
    decide +kernel
  obtain ⟨tree, decorated, counted, printed⟩ := exists_of_printsAs
    (show printsAs separatedArguments "package p\n\nvar x = f(a, /* b */ b) // c\n" = true by
      decide +kernel)
  obtain ⟨marks, -, finished, back, comments, -⟩ :=
    program_print_iff separatedArguments _ (indexes_ofText _) clean tree decorated counted _ printed
  exact ⟨tree, _, marks, decorated, printed, finished, back.mp same, comments (back.mp same)⟩

end GoTrivia

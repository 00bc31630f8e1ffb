import GoTrivia.Proofs.Token.Lexing
import GoTrivia.Proofs.Token.Recutting

/-!
# Writing tokens one by one

The tokens of a text can be written down again without the text: each token with a space behind
it, and a line feed for each inserted semicolon.  Read again, they are the same tokens.

**Two halves.** What is written falls into the pieces it was put together from, because no token
goes on with a blank (`pieces_respaced`).  These pieces yield the tokens, because the line feeds
stand exactly where a statement is open (`rereads_arrange`).
-/

set_option autoImplicit false

namespace GoTrivia

/-- What a token says: its kind, its text, and whether it was inserted. -/
def Token.reading (token : Token) : TokenKind × String × Bool :=
  (token.kind, token.text, token.isImplicit)

/-- A token written on its own: a line feed for an inserted semicolon, else its text and a space. -/
def Token.respaced (token : Token) : String :=
  if token.isImplicit then "\n" else token.text ++ " "

/-- Tokens written one by one. -/
def respaced (tokens : List Token) : String := String.join (tokens.map Token.respaced)

/-! ## Pieces of what is written -/

/-- The piece that a line feed is. -/
def Piece.feed : Piece := ⟨.lineFeed, '\n', []⟩

/-- The piece that a space is. -/
def Piece.space : Piece := ⟨.blank, ' ', []⟩

/-- The pieces of a token written on its own. -/
def Token.respacedPieces (token : Token) : List Piece :=
  if token.isImplicit then [.feed]
  else match token.text.toList with
    | [] => [.space]
    | first :: following => [⟨.token token.kind, first, following⟩, .space]

theorem Lex.isImplicit_inserted (place : Nat) :
    Token.isImplicit { text := "", span := .point place, kind := .semicolon } = true := by
  simp [Token.isImplicit, Span.isEmpty, Span.point]

/-- A token that can be written and read again: it was inserted, it says nothing, or it stands for
itself. -/
inductive Token.Stands (token : Token) : Prop
  | inserted (isImplicit : token.isImplicit = true)
  | silent (explicit : token.isImplicit = false) (none : token.text = "")
  | piece (explicit : token.isImplicit = false) (first : Char) (following : List Char)
      (chars : token.text.toList = first :: following)
      (whole : Piece.Whole ⟨.token token.kind, first, following⟩)

theorem Token.respacedPieces_of_text {token : Token} (explicit : token.isImplicit = false)
    {first : Char} {following : List Char} (chars : token.text.toList = first :: following) :
    token.respacedPieces = [⟨.token token.kind, first, following⟩, .space] := by
  rw [respacedPieces, explicit, chars]
  rfl

theorem Token.flatMap_respacedPieces (token : Token) :
    token.respacedPieces.flatMap Piece.chars = token.respaced.toList := by
  unfold respacedPieces respaced
  split
  · rfl
  · rw [String.toList_append]
    cases token.text.toList <;> rfl

/-- A token that is not unknown can be written and read again. -/
theorem Token.stands_of_mem {text : String} {token : Token} (mem : token ∈ (lex text).tokens)
    (known : token.kind ≠ .unknown) : token.Stands := by
  obtain ⟨item, mem, found⟩ := List.mem_filterMap.mp mem
  obtain rfl : item = .token token := by
    cases item <;> cases found
    rfl
  rcases Lex.token_of_mem mem with ⟨place, same⟩ | ⟨place, same⟩ | ⟨piece, cut, isToken, start, same⟩
  · obtain rfl : token = _ := Item.token.inj same
    exact .inserted (Lex.isImplicit_inserted place)
  · obtain rfl : token = _ := Item.token.inj same
    exact .silent rfl rfl
  · have explicit := isImplicit_of_piece (congrArg Lexeme.span same)
    refine .piece explicit piece.first piece.following ?_ ?_
    · rw [same]
      exact String.toList_ofList
    · have whole := whole_of_mem_pieces cut (by simpa [isToken] using known) (by simp [isToken])
      rwa [← isToken]

/-- The pieces of a token stand for themselves, and each is cut off in front of the next.  The last
one is cut off in front of anything. -/
structure Separate (ps : List Piece) : Prop where
  whole : ∀ piece ∈ ps, piece.Whole
  apart : ps.IsChain fun piece next => piece.endsBefore next = true
  closed : ∀ last ∈ ps.getLast?, ∀ next, last.endsBefore next = true

theorem Token.Stands.separate {token : Token} (stands : token.Stands) :
    Separate token.respacedPieces := by
  have space : Piece.Whole .space := ⟨by decide, by decide, by decide⟩
  have feed : Piece.Whole .feed := ⟨by decide, by decide, by decide⟩
  cases stands with
  | inserted isImplicit =>
    rw [respacedPieces, isImplicit]
    exact ⟨List.forall_mem_singleton.mpr feed, .singleton _, fun _ isLast _ => by cases isLast; rfl⟩
  | silent explicit none =>
    rw [respacedPieces, explicit, none]
    exact ⟨List.forall_mem_singleton.mpr space, .singleton _, fun _ isLast _ => by cases isLast; rfl⟩
  | piece explicit first following chars whole =>
    rw [respacedPieces_of_text explicit chars]
    refine ⟨?_, .cons_cons ?_ (.singleton _), fun _ isLast _ => by cases isLast; rfl⟩
    · exact List.forall_mem_cons.mpr ⟨whole, List.forall_mem_singleton.mpr space⟩
    · have stops := Cut.mayGoOn_blank (show Text.isBlank ' ' = true by decide) first following
      simp [Piece.endsBefore, Piece.space, stops]

theorem Separate.flatMap {tokens : List Token} (stand : ∀ token ∈ tokens, token.Stands) :
    Separate (tokens.flatMap Token.respacedPieces) := by
  induction tokens with
  | nil => exact ⟨List.forall_mem_nil _, .nil, fun _ isLast => by cases isLast⟩
  | cons token tokens ih =>
    obtain ⟨here, others⟩ := List.forall_mem_cons.mp stand
    have first := here.separate
    have rest := ih others
    rw [List.flatMap_cons]
    refine ⟨List.forall_mem_append.mpr ⟨first.whole, rest.whole⟩, ?_, ?_⟩
    · exact List.isChain_append.mpr
        ⟨first.apart, rest.apart, fun last isLast next _ => first.closed last isLast next⟩
    · intro last isLast
      rw [List.getLast?_append] at isLast
      rcases Option.or_eq_some_iff.mp isLast with behind | ⟨-, here⟩
      · exact rest.closed last behind
      · exact first.closed last here

/-- What is written falls into its pieces. -/
theorem pieces_respaced {tokens : List Token} (stand : ∀ token ∈ tokens, token.Stands) :
    pieces (respaced tokens).toList = tokens.flatMap Token.respacedPieces := by
  have chars : (respaced tokens).toList = (tokens.flatMap Token.respacedPieces).flatMap Piece.chars := by
    rw [respaced, String.toList_join, List.flatMap_map, List.flatMap_assoc]
    exact List.flatMap_congr fun token _ => token.flatMap_respacedPieces.symm
  have separate := Separate.flatMap stand
  rw [chars, pieces_flatMap_chars separate.whole separate.apart]

/-! ## Tokens of what is written -/

/-- The pieces that an item is written as. -/
def Item.respacedPieces (item : Item) : List Piece := item.token?.toList.flatMap Token.respacedPieces

/-- Items that can be read again once their tokens are written one by one: behind a statement that
is `pending`, what is written yields nothing but tokens, and they say the same. -/
def Rereads (pending : Bool) (items : List Item) : Prop :=
  ∀ offset, ∃ tokens : List Token,
    Lex.arrange pending offset (items.flatMap Item.respacedPieces) = tokens.map Item.token ∧
      tokens.map Token.reading = (items.filterMap Item.token?).map Token.reading

namespace Rereads

variable {pending : Bool} {items : List Item}

theorem comment (lexeme : Lexeme) (closed : Bool) (rereads : Rereads pending items) :
    Rereads pending (.comment lexeme closed :: items) :=
  rereads

/-- A line feed closes an open statement where the text closed it. -/
theorem inserted (place : Nat) (rereads : Rereads false items) :
    Rereads true (Lex.implicitSemicolon place :: items) := by
  intro offset
  obtain ⟨tokens, same, readings⟩ := rereads (offset + 1)
  refine ⟨{ text := "", span := .point offset, kind := .semicolon } :: tokens, ?_, ?_⟩
  · have pieces : (Lex.implicitSemicolon place).respacedPieces = [.feed] := by
      simp [Item.respacedPieces, Lex.implicitSemicolon, Item.token?, Token.respacedPieces,
        Lex.isImplicit_inserted]
    rw [List.flatMap_cons, pieces, List.map_cons, ← same]
    rfl
  · have found : (Lex.implicitSemicolon place).token? =
      some { text := "", span := .point place, kind := .semicolon } := rfl
    rw [List.filterMap_cons, found, List.map_cons, readings]
    simp only [List.map_cons, Token.reading, Lex.isImplicit_inserted]

/-- The token that a piece is. -/
def read (piece : Piece) (kind : TokenKind) (start : Nat) : Token :=
  { toLexeme := ⟨piece.text, ⟨start, start + byteLength piece.chars⟩⟩, kind := kind }

/-- A token that is a piece is read again as what it is. -/
theorem token {piece : Piece} {kind : TokenKind} (isToken : piece.kind = .token kind) (start : Nat)
    (rereads : Rereads kind.endsStatement items) :
    Rereads pending (.token (read piece kind start) :: items) := by
  intro offset
  obtain ⟨tokens, same, readings⟩ := rereads (offset + byteLength piece.chars + 1)
  have explicit (place : Nat) : (read piece kind place).isImplicit = false := isImplicit_of_piece rfl
  refine ⟨read piece kind offset :: tokens, ?_, ?_⟩
  · have pieces : (Item.token (read piece kind start)).respacedPieces = [piece, .space] := by
      obtain ⟨_, first, following⟩ := piece
      cases isToken
      exact congrArg (· ++ [])
        (Token.respacedPieces_of_text (explicit start) String.toList_ofList)
    rw [List.flatMap_cons, pieces, List.map_cons, ← same]
    simp only [List.cons_append, Lex.arrange, isToken]
    rfl
  · show (read piece kind offset).reading :: _ = (read piece kind start).reading :: _
    rw [Token.reading, Token.reading, explicit, explicit, readings]
    rfl

end Rereads

/-- The items of any pieces can be read again. -/
theorem rereads_arrange (ps : List Piece) (pending : Bool) (offset : Nat) :
    Rereads pending (Lex.arrange pending offset ps) := by
  induction ps generalizing pending offset with
  | nil =>
    have closing (place : Nat) : Rereads false [Lex.endOfText place] := fun offset =>
      ⟨[{ text := "", span := .point (offset + 1), kind := .eof }], rfl, rfl⟩
    cases pending with
    | false => exact closing offset
    | true => exact .inserted offset (closing offset)
  | cons piece ps ih =>
    rw [Lex.arrange]
    split
    · exact ih _ _
    · split
      · next isPending => exact isPending ▸ .inserted _ (ih _ _)
      · next closed => exact Bool.eq_false_iff.mpr closed ▸ ih _ _
    · exact ih _ _
    · split
      · next breaks =>
        obtain ⟨isPending, -⟩ := (Bool.and_eq_true _ _).mp breaks
        exact isPending ▸ .inserted _ (ih _ _)
      · exact ih _ _
    · next kind isToken => exact .token isToken offset (ih _ _)

/-! ## Reading again -/

/-- **Tokens written one by one.** If every token of a text is known, writing each one down with a
space behind it, and each inserted semicolon as a line feed, makes a text of the same tokens.  It
holds no comments, and nothing in it stays open. -/
theorem readings_lex_respaced (text : String)
    (known : ∀ token ∈ (lex text).tokens, token.kind ≠ .unknown) :
    (lex (respaced (lex text).tokens)).tokens.map Token.reading =
        (lex text).tokens.map Token.reading ∧
      (lex (respaced (lex text).tokens)).comments = [] ∧
      (lex (respaced (lex text).tokens)).unterminated = [] := by
  have fell := pieces_respaced fun token mem => Token.stands_of_mem mem (known token mem)
  have written : (items text).flatMap Item.respacedPieces =
      (lex text).tokens.flatMap Token.respacedPieces := by
    rw [lex, Lexed.ofItems, List.filterMap_eq_flatMap_toList, List.flatMap_assoc]
    rfl
  obtain ⟨tokens, same, readings⟩ := rereads_arrange (pieces text.toList) false 0 0
  have reread : items (respaced (lex text).tokens) = tokens.map Item.token := by
    rw [items, fell, ← written]
    exact same
  have onlyTokens : (tokens.map Item.token).filterMap Item.token? = tokens := by
    simp [List.filterMap_map, Function.comp_def, Item.token?]
  refine ⟨?_, ?_, ?_⟩
  · show ((items _).filterMap Item.token?).map Token.reading = _
    rw [reread, onlyTokens, readings]
    rfl
  · show (items _).filterMap Item.comment? = []
    rw [reread]
    simp [Item.comment?]
  · show (items _).filterMap Item.unterminated? = []
    rw [reread]
    simp [Item.unterminated?]

/-- A text whose tokens stand close together, with a raw string and comments across lines. -/
def crowdedText : String := "x:=`a\nb`/* c\n */+1..2//d\n\ty<<='e'"

theorem readings_lex_respaced_crowdedText :
    respaced (lex crowdedText).tokens = "x := `a\nb` \n+ 1 . .2 \ny <<= 'e' \n " ∧
      (lex (respaced (lex crowdedText).tokens)).tokens.map Token.reading =
        (lex crowdedText).tokens.map Token.reading :=
  ⟨by decide +kernel, (readings_lex_respaced crowdedText (by decide +kernel)).1⟩

end GoTrivia

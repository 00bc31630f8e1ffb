import GoTrivia.Proofs.Token.Cutting
import GoTrivia.Decorate.Resolver
import GoTrivia.Trivia.Comment

/-!
# What lexing yields

The tokens of a text are a lawful list.  Everything is read off the pieces the text was cut
into: each item is a piece of its own or was inserted behind one, so items do not overlap
and begin and end between two characters.
-/

set_option autoImplicit false

namespace GoTrivia

/-! ## Where items stand -/

/-- Where an item stands. -/
def Item.span : Item → Span
  | .token found => found.span
  | .comment lexeme _ => lexeme.span

/-- What an item says and where. -/
def Item.lexeme : Item → Lexeme
  | .token found => found.toLexeme
  | .comment lexeme _ => lexeme

/-- A stretch of a text that begins at an offset. -/
def Covers (offset : Nat) (s : List Char) (span : Span) : Prop :=
  ∃ front inside back, s = front ++ (inside ++ back) ∧
    span = ⟨offset + byteLength front, offset + byteLength (front ++ inside)⟩

namespace Covers

variable {offset : Nat} {s : List Char} {span : Span}

theorem ordered (covers : Covers offset s span) : span.start ≤ span.stop := by
  obtain ⟨front, inside, back, -, rfl⟩ := covers
  simp only [byteLength_append]
  omega

theorem le (covers : Covers offset s span) : offset ≤ span.start := by
  obtain ⟨front, inside, back, -, rfl⟩ := covers
  exact Nat.le_add_right _ _

end Covers

/-- A lexeme whose text is what stands at its span, in a text that begins at an offset. -/
def Cites (offset : Nat) (s : List Char) (lexeme : Lexeme) : Prop :=
  ∃ front back, s = front ++ (lexeme.text.toList ++ back) ∧
    lexeme.span = ⟨offset + byteLength front, offset + byteLength (front ++ lexeme.text.toList)⟩

namespace Cites

variable {offset : Nat} {s t : List Char} {lexeme : Lexeme}

theorem covers (cites : Cites offset s lexeme) : Covers offset s lexeme.span := by
  obtain ⟨front, back, split, spans⟩ := cites
  exact ⟨front, _, back, split, spans⟩

theorem start_append (offset : Nat) (s t : List Char) :
    Cites offset (s ++ t) ⟨String.ofList s, ⟨offset, offset + byteLength s⟩⟩ :=
  ⟨[], t, by simp, by simp⟩

/-- A lexeme without text stands anywhere. -/
theorem point (offset : Nat) (s : List Char) : Cites offset s ⟨"", .point offset⟩ :=
  start_append offset [] s

/-- A lexeme of what follows a beginning. -/
theorem append (cites : Cites (offset + byteLength t) s lexeme) : Cites offset (t ++ s) lexeme := by
  obtain ⟨front, back, rfl, spans⟩ := cites
  refine ⟨t ++ front, back, by simp, ?_⟩
  rw [spans]
  simp only [byteLength_append, Nat.add_assoc]

end Cites

namespace Lex

/-- The items of one piece. -/
def emitted (pending : Bool) (offset : Nat) (piece : Piece) : List Item :=
  let stop := offset + byteLength piece.chars
  let lexeme : Lexeme := ⟨piece.text, ⟨offset, stop⟩⟩
  match piece.kind with
  | .blank => []
  | .lineFeed => if pending then [implicitSemicolon offset] else []
  | .lineComment => [.comment lexeme true]
  | .blockComment closed =>
    if pending && piece.chars.contains '\n' then
      [.comment lexeme closed, implicitSemicolon stop]
    else [.comment lexeme closed]
  | .token kind => [.token { toLexeme := lexeme, kind := kind }]

/-- Whether a statement is open behind a piece. -/
def pendingBehind (pending : Bool) (piece : Piece) : Bool :=
  match piece.kind with
  | .blank => pending
  | .lineFeed => false
  | .lineComment => pending
  | .blockComment _ => pending && !piece.chars.contains '\n'
  | .token kind => kind.endsStatement

theorem arrange_cons (pending : Bool) (offset : Nat) (piece : Piece) (rest : List Piece) :
    arrange pending offset (piece :: rest) = emitted pending offset piece ++
      arrange (pendingBehind pending piece) (offset + byteLength piece.chars) rest := by
  obtain ⟨kind, first, following⟩ := piece
  rw [arrange]
  cases kind with
  | blank => rfl
  | lineFeed => cases pending <;> rfl
  | lineComment => rfl
  | blockComment closed =>
    cases pending
    · rfl
    · cases found : (Piece.chars ⟨.blockComment closed, first, following⟩).contains '\n' <;>
        simp only [emitted, pendingBehind, found] <;> rfl
  | token kind => rfl

variable {pending : Bool} {offset : Nat} {ps : List Piece} {piece : Piece} {item : Item}

theorem cites_of_mem_emitted (mem : item ∈ emitted pending offset piece) (rest : List Char) :
    Cites offset (piece.chars ++ rest) item.lexeme := by
  have here := Cites.start_append offset piece.chars rest
  have behind : Cites offset (piece.chars ++ rest)
      ⟨"", .point (offset + byteLength piece.chars)⟩ := (Cites.point _ rest).append
  unfold emitted at mem
  split at mem
  · simp at mem
  · split at mem <;> simp at mem
    subst mem
    exact .point offset _
  · simp at mem
    subst mem
    exact here
  · split at mem <;> simp at mem
    · rcases mem with rfl | rfl
      · exact here
      · exact behind
    · subst mem
      exact here
  · simp at mem
    subst mem
    exact here

/-- Every item says what stands at its place in the text. -/
theorem cites_of_mem (mem : item ∈ arrange pending offset ps) :
    Cites offset (ps.flatMap Piece.chars) item.lexeme := by
  induction ps generalizing pending offset with
  | nil =>
    unfold arrange at mem
    split at mem <;> simp at mem
    · rcases mem with rfl | rfl <;> exact .point offset []
    · subst mem
      exact .point offset []
  | cons piece ps ih =>
    rw [arrange_cons, List.mem_append] at mem
    rw [List.flatMap_cons]
    rcases mem with here | behind
    · exact cites_of_mem_emitted here _
    · exact (ih behind).append

theorem span_lexeme (item : Item) : item.lexeme.span = item.span := by
  cases item <;> rfl

theorem covers_of_mem_emitted (mem : item ∈ emitted pending offset piece) (rest : List Char) :
    Covers offset (piece.chars ++ rest) item.span :=
  span_lexeme item ▸ (cites_of_mem_emitted mem rest).covers

/-- Every item covers a stretch of the text. -/
theorem covers_of_mem (mem : item ∈ arrange pending offset ps) :
    Covers offset (ps.flatMap Piece.chars) item.span :=
  span_lexeme item ▸ (cites_of_mem mem).covers

/-- Items stand one behind the other. -/
theorem pairwise_arrange :
    (arrange pending offset ps).Pairwise fun item next => item.span.stop ≤ next.span.start := by
  induction ps generalizing pending offset with
  | nil =>
    unfold arrange
    split <;> simp [implicitSemicolon, endOfText, Item.span]
  | cons piece ps ih =>
    rw [arrange_cons, List.pairwise_append]
    refine ⟨?_, ih, ?_⟩
    · unfold emitted
      split
      · simp
      · split <;> simp
      · simp
      · split <;> simp [implicitSemicolon, Item.span]
      · simp
    · intro item here next behind
      obtain ⟨front, inside, back, split, spans⟩ := covers_of_mem_emitted here []
      have later := (covers_of_mem behind).le
      have inside : byteLength (front ++ inside) ≤ byteLength piece.chars := by
        rw [List.append_nil] at split
        rw [split]
        simp only [byteLength_append]
        omega
      rw [spans]
      show offset + byteLength (front ++ _) ≤ _
      omega

/-- A token behind a piece is inserted at the end of a line or the piece itself. -/
theorem token_of_mem_emitted {token : Token} (mem : .token token ∈ emitted pending offset piece) :
    (∃ place, .token token = implicitSemicolon place) ∨
      piece.kind = .token token.kind ∧
        token.toLexeme = ⟨piece.text, ⟨offset, offset + byteLength piece.chars⟩⟩ := by
  unfold emitted at mem
  split at mem
  · simp at mem
  · split at mem <;> simp at mem
    exact .inl ⟨_, mem⟩
  · simp at mem
  · split at mem <;> simp at mem
    exact .inl ⟨_, mem⟩
  · next kind isToken =>
    obtain rfl : token = _ := by simpa using mem
    exact .inr ⟨isToken, rfl⟩

/-- A token is inserted at the end of a line, closes the sequence, or is a piece. -/
theorem token_of_mem {token : Token} (mem : .token token ∈ arrange pending offset ps) :
    (∃ place, .token token = implicitSemicolon place) ∨ (∃ place, .token token = endOfText place) ∨
      ∃ piece ∈ ps, piece.kind = .token token.kind ∧ ∃ start,
        token.toLexeme = ⟨piece.text, ⟨start, start + byteLength piece.chars⟩⟩ := by
  induction ps generalizing pending offset with
  | nil =>
    unfold arrange at mem
    split at mem <;> simp only [List.mem_cons, List.not_mem_nil, or_false] at mem
    · rcases mem with same | same
      · exact .inl ⟨_, same⟩
      · exact .inr (.inl ⟨_, same⟩)
    · exact .inr (.inl ⟨_, mem⟩)
  | cons piece ps ih =>
    rw [arrange_cons, List.mem_append] at mem
    rcases mem with here | behind
    · rcases token_of_mem_emitted here with inserted | ⟨isToken, same⟩
      · exact .inl inserted
      · exact .inr (.inr ⟨piece, by simp, isToken, offset, same⟩)
    · rcases ih behind with inserted | closing | ⟨piece, mem, found⟩
      · exact .inl inserted
      · exact .inr (.inl closing)
      · exact .inr (.inr ⟨piece, by simp [mem], found⟩)

/-- The sequence closes with its only `eof`. -/
theorem ended_arrange (measured : ∀ piece ∈ ps, ∀ kind, piece.kind = .token kind → kind ≠ .eof)
    (pending : Bool) (offset : Nat) :
    ∃ front, arrange pending offset ps =
        front ++ [endOfText (offset + byteLength (ps.flatMap Piece.chars))] ∧
      ∀ token, .token token ∈ front → token.kind ≠ .eof := by
  induction ps generalizing pending offset with
  | nil =>
    unfold arrange
    split
    · refine ⟨[implicitSemicolon offset], rfl, ?_⟩
      intro token mem
      obtain rfl : token = _ := by simpa [implicitSemicolon] using mem
      simp
    · exact ⟨[], rfl, by simp⟩
  | cons piece ps ih =>
    obtain ⟨front, split, others⟩ := ih (fun piece mem => measured piece (by simp [mem]))
      (pendingBehind pending piece) (offset + byteLength piece.chars)
    refine ⟨emitted pending offset piece ++ front, ?_, ?_⟩
    · rw [arrange_cons, split, List.flatMap_cons, byteLength_append, List.append_assoc,
        Nat.add_assoc]
    · intro token mem
      rcases List.mem_append.mp mem with here | behind
      · rcases token_of_mem_emitted here with ⟨place, same⟩ | ⟨isToken, -⟩
        · obtain rfl : token = _ := by simpa [implicitSemicolon] using same
          simp
        · exact measured piece (by simp) _ isToken
      · exact others token behind

end Lex

/-! ## Tokens -/

theorem ofList_chars_ne_empty (piece : Piece) : piece.text ≠ "" := by
  intro none
  have := congrArg String.toList none
  simp [Piece.text, Piece.chars] at this

theorem byteLength_pos (piece : Piece) : 0 < byteLength piece.chars := by
  have := piece.first.utf8Size_pos
  simp only [Piece.chars, byteLength_cons]
  omega

/-- A token that is a piece was not inserted. -/
theorem isImplicit_of_piece {token : Token} {start : Nat} {piece : Piece}
    (spans : token.span = ⟨start, start + byteLength piece.chars⟩) : token.isImplicit = false := by
  have visible : token.span.isEmpty = false := by
    rw [spans]
    exact beq_false_of_ne (Nat.ne_of_lt (Nat.lt_add_of_pos_right (byteLength_pos piece)))
  rw [Token.isImplicit, visible, Bool.and_false]

theorem regular_of_mem_lex {text : String} {token : Token} (mem : token ∈ (lex text).tokens) :
    token.Regular := by
  have mem : .token token ∈ items text := by
    obtain ⟨item, mem, found⟩ := List.mem_filterMap.mp mem
    cases item with
    | token other => cases found; exact mem
    | comment lexeme closed => cases found
  rcases Lex.token_of_mem mem with ⟨place, same⟩ | ⟨place, same⟩ | ⟨piece, mem, isToken, start, same⟩
  · obtain rfl : token = _ := by simpa [Lex.implicitSemicolon] using same
    exact ⟨by simp, by simp, by simp, by simp, by simp⟩
  · obtain rfl : token = _ := by simpa [Lex.endOfText] using same
    exact ⟨by simp, fun _ text found => (by cases found), by simp, by simp, by simp⟩
  · obtain ⟨rest, n, measured, following⟩ := measure_of_mem_pieces mem
    rw [isToken] at measured
    have cut := Cut.token_of_measure measured
    have kinds : (Cut.token piece.first rest).1 = token.kind := by rw [cut]
    have texts : token.text =
        String.ofList (piece.first :: rest.take (Cut.token piece.first rest).2) := by
      rw [cut, ← following]
      exact congrArg Lexeme.text same
    have spans : token.span = ⟨start, start + byteLength piece.chars⟩ := congrArg Lexeme.span same
    have long := byteLength_pos piece
    refine ⟨by rw [spans]; exact Nat.le_add_right _ _, ?_, ?_, ?_, ?_⟩
    · intro _ text spelled
      rw [texts, Cut.text_of_spelling? (kinds ▸ spelled)]
    · intro isSemicolon
      have spelled : (Cut.token piece.first rest).1.spelling? = some ";" := by
        rw [kinds, isSemicolon]
        rfl
      exact .inl (texts.trans (Cut.text_of_spelling? spelled))
    · intro other semicolon
      rw [texts] at semicolon
      have first : piece.first = ';' := by
        have chars := congrArg String.toList semicolon
        simp at chars
        exact chars.1
      rw [first, Cut.token_semicolon] at kinds
      exact other kinds.symm
    · intro _ _
      refine ⟨?_, by rw [spans]; show start < start + _; omega⟩
      rw [show token.text = piece.text from congrArg Lexeme.text same]
      exact ofList_chars_ne_empty piece

/-- The tokens of a text end with its only `eof`, which stands at the end of the text. -/
theorem ended_lex (text : String) :
    ∃ front, (lex text).tokens =
        front ++ [{ text := "", span := .point (byteLength text.toList), kind := .eof }] ∧
      ∀ token ∈ front, token.kind ≠ .eof := by
  have measured : ∀ piece ∈ pieces text.toList, ∀ kind, piece.kind = .token kind → kind ≠ .eof := by
    intro piece mem kind isToken
    obtain ⟨rest, n, measured, -⟩ := measure_of_mem_pieces mem
    rw [isToken] at measured
    have other : (Cut.token piece.first rest).1 ≠ .eof := Cut.ne_eof_token
    rwa [Cut.token_of_measure measured] at other
  obtain ⟨front, split, others⟩ := Lex.ended_arrange measured false 0
  rw [flatMap_chars_pieces, Nat.zero_add] at split
  refine ⟨front.filterMap Item.token?, ?_, ?_⟩
  · show (items text).filterMap _ = _
    rw [items, split, List.filterMap_append]
    rfl
  · intro token mem
    obtain ⟨item, mem, found⟩ := List.mem_filterMap.mp mem
    cases item with
    | token other => cases found; exact others token mem
    | comment lexeme closed => cases found

/-- The tokens of a text are lawful. -/
theorem lawful_lex (text : String) : Lawful (lex text).tokens := by
  refine ⟨?_, ?_, fun token mem => regular_of_mem_lex mem⟩
  · obtain ⟨front, split, others⟩ := ended_lex text
    exact ⟨front, _, split, rfl, others⟩
  · have pairwise : (items text).Pairwise fun item next => item.span.stop ≤ next.span.start :=
      Lex.pairwise_arrange
    refine pairwise.filterMap Item.token? fun item next apart token isToken other isOther => ?_
    cases item <;> cases isToken
    cases next <;> cases isOther
    exact apart

/-! ## Lines -/

theorem getElem?_placesFrom (front back : List Char) (place : LineColumn) :
    ∃ column, (placesFrom place (front ++ back))[byteLength front]? =
      some (some ⟨place.line + front.count '\n', column⟩) := by
  induction front generalizing place with
  | nil => cases back <;> exact ⟨place.column, rfl⟩
  | cons c front ih =>
    obtain ⟨column, found⟩ := ih (place.behind c)
    refine ⟨column, ?_⟩
    have size := c.utf8Size_pos
    rw [List.cons_append, placesFrom, byteLength_cons,
      show c.utf8Size + byteLength front = (c.utf8Size - 1 + byteLength front) + 1 by omega,
      List.getElem?_cons_succ, List.getElem?_append_right (by simp)]
    simp only [List.length_replicate, Nat.add_sub_cancel_left, found, Option.some.injEq,
      LineColumn.mk.injEq, and_true, List.count_cons]
    unfold LineColumn.behind
    split
    · next isFeed => simp [isFeed]; omega
    · next other => simp [other]

/-- The line of an offset is the number of line feeds in front of it. -/
theorem lineOf?_byteLength {text : String} {front back : List Char}
    (split : text.toList = front ++ back) :
    (LineResolver.ofText text).lineOf? (byteLength front) = some (front.count '\n') := by
  obtain ⟨column, found⟩ := getElem?_placesFrom front back ⟨0, 0⟩
  simp [LineResolver.ofText, LineIndex.ofText, LineIndex.lineOf?, LineIndex.lineColumn?, split, found]

/-- A resolver that numbers the lines of a text: an offset between two characters lies on the line
whose number is that of the line feeds in front of it, and nodes are found where they stand. -/
structure LineResolver.Indexes (resolver : LineResolver) (text : String) : Prop where
  stands : resolver.resolve = Positional.span
  counts : ∀ {front back : List Char}, text.toList = front ++ back →
    resolver.lineOf? (byteLength front) = some (front.count '\n')

theorem indexes_ofText (text : String) : (LineResolver.ofText text).Indexes text :=
  ⟨rfl, lineOf?_byteLength⟩

/-- Items begin and end on lines. -/
theorem lineOf?_of_mem_items {text : String} {item : Item} (mem : item ∈ items text) :
    (∃ line, (LineResolver.ofText text).lineOf? item.span.start = some line) ∧
      ∃ line, (LineResolver.ofText text).lineOf? item.span.stop = some line := by
  obtain ⟨front, inside, back, split, spans⟩ := Lex.covers_of_mem mem
  rw [flatMap_chars_pieces] at split
  rw [spans, Nat.zero_add, Nat.zero_add]
  exact ⟨⟨_, lineOf?_byteLength split⟩,
    ⟨_, lineOf?_byteLength (split.trans (List.append_assoc _ _ _).symm)⟩⟩

/-- A comment that stays on a line and leaves room behind it. -/
structure Calm (resolver : LineResolver) (line : Nat) (comment : Lexeme) : Prop where
  begins : resolver.lineOf? comment.span.start = some line
  ends : resolver.lineOf? comment.span.stop = some line
  closed : isLineComment comment.text = false

/-- Blanks are single characters other than line feeds. -/
theorem Cut.measure_blank {first : Char} {rest : List Char} {n : Nat}
    (measured : measure first rest = (.blank, n)) : first ≠ '\n' ∧ n = 0 := by
  cases measured_of_measure measured with
  | blank isBlank => exact ⟨by rintro rfl; simp at isBlank, rfl⟩

/-- Behind a line comment there is a line feed or nothing. -/
theorem Cut.measure_lineComment {first : Char} {rest : List Char} {n : Nat}
    (measured : measure first rest = (.lineComment, n)) :
    rest.drop n = [] ∨ ∃ tail, rest.drop n = '\n' :: tail := by
  cases measured_of_measure measured with
  | @lineComment inside isSlash begins =>
    subst begins
    clear measured
    rw [List.drop_succ_cons]
    induction inside with
    | nil => exact .inl rfl
    | cons c inside ih =>
      by_cases feed : c = '\n'
      · exact .inr ⟨inside, by simp [feed]⟩
      · simpa [feed] using ih

/-- A block comment begins with its marker. -/
theorem Cut.measure_blockComment {first : Char} {rest : List Char} {closed : Bool} {n : Nat}
    (measured : measure first rest = (.blockComment closed, n)) :
    first = '/' ∧ ∃ tail, rest.take n = '*' :: tail := by
  cases measured_of_measure measured with
  | blockComment isSlash begins => exact ⟨isSlash, _, by rw [begins, List.take_succ_cons]⟩

namespace Lex

/-- While a statement is open, comments stay on its line up to the next token, unless this
is a semicolon. -/
theorem arrange_pending {text : String} {done s : List Char} (whole : text.toList = done ++ s) :
    ∃ comments token rest,
      arrange true (byteLength done) (pieces s) = comments ++ .token token :: rest ∧
      (∀ item ∈ comments, item.token? = none) ∧
      (token.kind = .semicolon ∨
        (LineResolver.ofText text).lineOf? token.span.start = some (done.count '\n') ∧
        ∀ item ∈ comments, ∀ lexeme, item.comment? = some lexeme →
          Calm (.ofText text) (done.count '\n') lexeme) := by
  induction s using pieces.induct generalizing done with
  | case1 => exact ⟨[], _, _, by rw [pieces]; rfl, by simp, .inl rfl⟩
  | case2 first rest kind n measured ih =>
    have further : text.toList = (done ++ first :: rest.take n) ++ rest.drop n := by simp [whole]
    rw [pieces, measured, arrange_cons]
    cases kind with
    | blank =>
      obtain ⟨other, rfl⟩ := Cut.measure_blank measured
      obtain ⟨comments, token, tail, split, others, calm⟩ := ih further
      refine ⟨comments, token, tail, ?_, others, ?_⟩
      · simpa [emitted, pendingBehind, Piece.chars] using split
      · simpa [List.count_append, other] using calm
    | lineFeed => exact ⟨[], _, _, rfl, by simp, .inl rfl⟩
    | lineComment =>
      rcases Cut.measure_lineComment measured with empty | ⟨tail, feed⟩
      · rw [empty, pieces]
        exact ⟨[_], _, _, rfl, by simp [Item.token?], .inl rfl⟩
      · rw [feed, pieces]
        exact ⟨[_], _, _, rfl, by simp [Item.token?], .inl rfl⟩
    | blockComment closed =>
      obtain ⟨rfl, inside, marker⟩ := Cut.measure_blockComment measured
      by_cases feeds : (Piece.chars ⟨.blockComment closed, '/', rest.take n⟩).contains '\n' = true
      · simp only [emitted, feeds, Bool.and_self, if_true]
        exact ⟨[_], _, _, rfl, by simp [Item.token?], .inl rfl⟩
      · obtain ⟨comments, token, tail, split, others, calm⟩ := ih further
        have lines : (done ++ '/' :: rest.take n).count '\n' = done.count '\n' := by
          have none : '\n' ∉ '/' :: rest.take n := by simpa [Piece.chars] using feeds
          rw [List.count_append, List.count_eq_zero_of_not_mem none, Nat.add_zero]
        rw [lines] at calm
        have stop : byteLength done + byteLength ('/' :: rest.take n) =
            byteLength (done ++ '/' :: rest.take n) := (byteLength_append _ _).symm
        have first : Calm (.ofText text) (done.count '\n')
            ⟨.ofList ('/' :: rest.take n),
              ⟨byteLength done, byteLength (done ++ '/' :: rest.take n)⟩⟩ :=
          ⟨lineOf?_byteLength whole, lines ▸ lineOf?_byteLength further, by
            simp [isLineComment, marker]⟩
        simp only [emitted, pendingBehind, feeds, Bool.and_false, Bool.false_eq_true, if_false]
        rw [show Piece.chars ⟨.blockComment closed, '/', rest.take n⟩ = '/' :: rest.take n from rfl,
          stop]
        refine ⟨_ :: comments, token, tail, congrArg _ split, ?_, ?_⟩
        · simpa [Item.token?] using others
        · rcases calm with isSemicolon | ⟨same, calm⟩
          · exact .inl isSemicolon
          · refine .inr ⟨same, List.forall_mem_cons.mpr ⟨?_, calm⟩⟩
            intro lexeme found
            cases found
            exact first
    | token kind =>
      refine ⟨[], _, _, rfl, by simp, .inr ⟨lineOf?_byteLength whole, by simp⟩⟩

/-- Behind a token that a text holds, a statement is open if the token ends statements. -/
theorem arrange_behind {pending : Bool} {offset : Nat} {s : List Char} {token : Token}
    {front tail : List Item}
    (split : arrange pending offset (pieces s) = front ++ .token token :: tail)
    (held : token.text ≠ "") :
    ∃ done rest, s = done ++ rest ∧ token.span.stop = offset + byteLength done ∧
      tail = arrange token.kind.endsStatement (offset + byteLength done) (pieces rest) := by
  induction s using pieces.induct generalizing pending offset front with
  | case1 =>
    have mem : .token token ∈ arrange pending offset (pieces []) := by simp [split]
    rw [pieces] at mem
    unfold arrange at mem
    split at mem <;> simp [implicitSemicolon, endOfText] at mem
    · rcases mem with rfl | rfl <;> exact absurd rfl held
    · exact absurd (congrArg (·.text) mem) held
  | case2 first rest kind n measured ih =>
    rw [pieces, measured, arrange_cons] at split
    have later : ∀ {pending : Bool} {front : List Item},
        arrange pending (offset + byteLength (first :: rest.take n)) (pieces (rest.drop n)) =
          front ++ .token token :: tail →
        ∃ done rest', first :: rest = done ++ rest' ∧
          token.span.stop = offset + byteLength done ∧
          tail = arrange token.kind.endsStatement (offset + byteLength done) (pieces rest') := by
      intro pending front behind
      obtain ⟨done, rest', same, stop, last⟩ := ih behind
      refine ⟨first :: rest.take n ++ done, rest', ?_, ?_, ?_⟩
      · rw [List.append_assoc, ← same]
        simp
      · rw [stop, byteLength_append, Nat.add_assoc]
      · rw [last, byteLength_append, ← Nat.add_assoc]
    rcases List.append_eq_append_iff.mp split with ⟨gap, -, behind⟩ | ⟨gap, here, behind⟩
    · exact later behind
    · cases gap with
      | nil => exact @later _ [] behind.symm
      | cons item gap =>
        obtain ⟨rfl, rfl⟩ := List.cons.inj behind
        have mem : .token token ∈ emitted pending offset ⟨kind, first, rest.take n⟩ := by
          rw [here]
          simp
        rcases token_of_mem_emitted mem with ⟨place, inserted⟩ | ⟨isToken, lexeme⟩
        · obtain rfl : token = _ := by simpa [implicitSemicolon] using inserted
          exact absurd rfl held
        · obtain rfl : kind = .token token.kind := isToken
          have alone : front = [] ∧ gap = [] := by
            have lengths := congrArg List.length here
            simp [emitted] at lengths
            exact ⟨List.length_eq_zero_iff.mp (by omega), List.length_eq_zero_iff.mp (by omega)⟩
          obtain ⟨rfl, rfl⟩ := alone
          refine ⟨first :: rest.take n, rest.drop n, by simp, ?_, rfl⟩
          exact congrArg (·.span.stop) lexeme

end Lex

/-- Where a token stands among the tokens of a text, it stands among its items. -/
theorem exists_items_of_tokens {text : String} {front back : List Token} {token : Token}
    (split : (lex text).tokens = front ++ token :: back) :
    ∃ before tail, items text = before ++ .token token :: tail ∧
      before.filterMap Item.token? = front ∧ tail.filterMap Item.token? = back := by
  obtain ⟨before, rest, cut, first, second⟩ := List.filterMap_eq_append_iff.mp split
  obtain ⟨skipped, item, tail, rfl, none, found, others⟩ := List.filterMap_eq_cons_iff.mp second
  obtain rfl : item = .token token := by
    cases item <;> cases found
    rfl
  refine ⟨before ++ skipped, tail, by simp [cut], ?_, others⟩
  rw [List.filterMap_append, first, List.filterMap_eq_nil_iff.mpr none, List.append_nil]

/-- **Quiet tokens.** If a token that ends statements is followed by another token than a
semicolon, then nothing between the two ends the line. -/
theorem calm_of_ends {text : String} {front back : List Token} {token next : Token}
    (split : (lex text).tokens = front ++ token :: next :: back)
    (ends : token.kind.endsStatement = true) (goesOn : next.kind ≠ .semicolon) :
    ∃ line, (LineResolver.ofText text).lineOf? token.span.stop = some line ∧
      (LineResolver.ofText text).lineOf? next.span.start = some line ∧
      ∀ comment ∈ (lex text).comments, token.span.stop ≤ comment.span.start →
        comment.span.start < next.span.start → Calm (.ofText text) line comment := by
  obtain ⟨before, tail, cut, -, rest⟩ := exists_items_of_tokens split
  have mem : token ∈ (lex text).tokens := by
    rw [split]
    simp
  obtain ⟨held, filled⟩ : token.text ≠ "" ∧ token.span.start < token.span.stop := by
    refine (regular_of_mem_lex mem).visible ?_ ?_ <;> intro other <;> rw [other] at ends <;> cases ends
  obtain ⟨done, chars, whole, stop, rfl⟩ := Lex.arrange_behind cut held
  rw [Nat.zero_add] at stop rest cut
  rw [ends] at rest cut
  obtain ⟨comments, token', tail, arranged, others, calm⟩ := Lex.arrange_pending whole
  rw [arranged, List.filterMap_append, List.filterMap_eq_nil_iff.mpr others] at rest
  obtain ⟨rfl, -⟩ : token' = next ∧ _ := by simpa [Item.token?] using rest
  rcases calm with isSemicolon | ⟨same, calm⟩
  · exact absurd isSemicolon goesOn
  refine ⟨done.count '\n', stop ▸ lineOf?_byteLength whole, same, ?_⟩
  intro comment mem after inFront
  obtain ⟨item, mem, found⟩ := List.mem_filterMap.mp mem
  obtain ⟨closed, rfl⟩ : ∃ closed, item = .comment comment closed := by
    cases item <;> cases found
    exact ⟨_, rfl⟩
  have pairwise : (items text).Pairwise fun item next => item.span.stop ≤ next.span.start :=
    Lex.pairwise_arrange
  have ordered := (Lex.covers_of_mem mem).ordered
  rw [cut, arranged, List.pairwise_append, List.pairwise_cons, List.pairwise_append,
    List.pairwise_cons] at pairwise
  obtain ⟨-, ⟨-, -, ⟨behind, -⟩, -⟩, earlier⟩ := pairwise
  rw [cut, arranged] at mem
  simp only [List.mem_append, List.mem_cons, reduceCtorEq, false_or] at mem
  rcases mem with before | between | beyond
  · have apart : comment.span.stop ≤ token.span.start := earlier _ before (.token token) (by simp)
    have ordered : comment.span.start ≤ comment.span.stop := ordered
    omega
  · exact calm _ between comment rfl
  · have apart : token'.span.stop ≤ comment.span.start := behind _ beyond
    have mem : token' ∈ (lex text).tokens := by
      rw [split]
      simp
    have ordered := (regular_of_mem_lex mem).ordered
    omega

end GoTrivia

import GoTrivia.Proofs.Token.Lexing

/-!
# Nothing of a text is lost

A text is its items and the blanks between them.  Items stand one behind the other, they
begin and end between two characters, and they say what stands at their place.  What no item
covers is a space, a tab, a carriage return or a line feed.

Each fact is proved for the items of any sequence of pieces and read off for a text.
-/

set_option autoImplicit false

namespace GoTrivia

variable {text : String}

/-! ## The order of items -/

theorem mem_items_of_token {token : Token} (mem : token ∈ (lex text).tokens) :
    .token token ∈ items text := by
  obtain ⟨item, mem, found⟩ := List.mem_filterMap.mp mem
  cases item <;> cases found
  exact mem

theorem mem_items_of_comment {comment : Lexeme} (mem : comment ∈ (lex text).comments) :
    ∃ closed, .comment comment closed ∈ items text := by
  obtain ⟨item, mem, found⟩ := List.mem_filterMap.mp mem
  cases item <;> cases found
  exact ⟨_, mem⟩

theorem pairwise_items (text : String) :
    (items text).Pairwise fun item next => item.span.stop ≤ next.span.start :=
  Lex.pairwise_arrange

theorem ordered_of_mem_items {item : Item} (mem : item ∈ items text) :
    item.span.start ≤ item.span.stop := (Lex.covers_of_mem mem).ordered

/-- Items end with the text. -/
theorem stop_le_of_mem_items {item : Item} (mem : item ∈ items text) :
    item.span.stop ≤ byteLength text.toList := by
  obtain ⟨front, inside, back, split, spans⟩ := Lex.covers_of_mem mem
  rw [flatMap_chars_pieces] at split
  rw [spans, split]
  simp only [byteLength_append]
  omega

theorem Lex.lt_of_mem_comment {pending : Bool} {offset : Nat} {ps : List Piece} {comment : Lexeme}
    {closed : Bool} (mem : .comment comment closed ∈ arrange pending offset ps) :
    comment.span.start < comment.span.stop := by
  induction ps generalizing pending offset with
  | nil =>
    unfold arrange at mem
    split at mem <;> simp [implicitSemicolon, endOfText] at mem
  | cons piece ps ih =>
    rw [arrange_cons, List.mem_append] at mem
    rcases mem with here | behind
    · have size := byteLength_pos piece
      unfold emitted at here
      split at here
      · simp at here
      · split at here <;> simp [implicitSemicolon] at here
      · obtain ⟨rfl, -⟩ : comment = _ ∧ _ := by simpa using here
        simpa using size
      · split at here <;> simp [implicitSemicolon] at here <;> obtain ⟨rfl, -⟩ := here <;> simpa using size
      · simp at here
    · exact ih behind

/-- A comment is not empty. -/
theorem lt_of_mem_items {comment : Lexeme} {closed : Bool}
    (mem : .comment comment closed ∈ items text) : comment.span.start < comment.span.stop :=
  Lex.lt_of_mem_comment mem

/-- Comments stand one behind the other. -/
theorem pairwise_comments (text : String) :
    (lex text).comments.Pairwise fun comment next => comment.span.stop ≤ next.span.start := by
  have pairwise := pairwise_items text
  show ((items text).filterMap Item.comment?).Pairwise _
  generalize items text = all at pairwise ⊢
  refine pairwise.filterMap Item.comment? fun item next apart comment found other foundOther => ?_
  cases item <;> cases found
  cases next <;> cases foundOther
  exact apart

/-- A token and a comment do not overlap. -/
theorem apart_of_mem {token : Token} {comment : Lexeme} (isToken : token ∈ (lex text).tokens)
    (isComment : comment ∈ (lex text).comments) :
    token.span.stop ≤ comment.span.start ∨ comment.span.stop ≤ token.span.start := by
  obtain ⟨closed, second⟩ := mem_items_of_comment isComment
  have first := mem_items_of_token isToken
  obtain ⟨i, iLt, atToken⟩ := List.getElem_of_mem first
  obtain ⟨j, jLt, atComment⟩ := List.getElem_of_mem second
  have apart := List.pairwise_iff_getElem.mp (pairwise_items text)
  rcases Nat.lt_trichotomy i j with before | rfl | behind
  · have := apart i j iLt jLt before
    rw [atToken, atComment] at this
    exact .inl this
  · rw [atToken] at atComment
    cases atComment
  · have := apart j i jLt iLt behind
    rw [atToken, atComment] at this
    exact .inr this

/-! ## Blanks -/

/-- The characters that may stand between two items. -/
def isGap (c : Char) : Bool := c == ' ' || c == '\t' || c == '\r' || c == '\n'

/-- The bytes of these characters in UTF-8. -/
def gapBytes : List UInt8 := [0x20, 0x09, 0x0D, 0x0A]

theorem mem_gapBytes {c : Char} {byte : UInt8} (gap : isGap c = true)
    (mem : byte ∈ String.utf8EncodeChar c) : byte ∈ gapBytes := by
  have blanks : c = ' ' ∨ c = '\t' ∨ c = '\r' ∨ c = '\n' := by
    simpa [isGap, or_assoc] using gap
  have encoded : ([' ', '\t', '\r', '\n'] : List Char).map String.utf8EncodeChar =
      [[0x20], [0x09], [0x0D], [0x0A]] := rfl
  have listed : String.utf8EncodeChar c ∈
      ([' ', '\t', '\r', '\n'] : List Char).map String.utf8EncodeChar :=
    List.mem_map_of_mem (by simpa using blanks)
  rw [encoded] at listed
  simp only [List.mem_cons, List.not_mem_nil, or_false] at listed
  rcases listed with one | one | one | one <;> rw [one, List.mem_singleton] at mem <;> subst mem <;>
    simp [gapBytes]

/-- A piece that yields no item is a single blank. -/
theorem Cut.isGap_of_measure {first : Char} {rest : List Char} {kind : PieceKind} {n : Nat}
    (measured : measure first rest = (kind, n)) (blank : kind = .blank ∨ kind = .lineFeed) :
    isGap first = true ∧ n = 0 := by
  cases measured_of_measure measured with
  | lineFeed isFeed => exact ⟨by simp [isGap, isFeed], rfl⟩
  | blank isBlank => rcases isBlank with rfl | rfl | rfl <;> exact ⟨rfl, rfl⟩
  | lineComment | blockComment | token => simp at blank

/-! ## What the items cover -/

/-- The bytes between two offsets lie in a span. -/
def Span.Holds (span : Span) (start stop : Nat) : Prop := span.start ≤ start ∧ stop ≤ span.stop

namespace Lex

variable {pending : Bool} {offset : Nat}

/-- Any other piece yields an item of its own. -/
theorem exists_emitted {piece : Piece} (solid : ¬(piece.kind = .blank ∨ piece.kind = .lineFeed)) :
    ∃ item ∈ emitted pending offset piece,
      item.span = ⟨offset, offset + byteLength piece.chars⟩ := by
  unfold emitted
  split
  · next isBlank => exact absurd (.inl isBlank) solid
  · next isFeed => exact absurd (.inr isFeed) solid
  · exact ⟨_, List.mem_singleton_self _, rfl⟩
  · split <;> exact ⟨_, List.mem_cons_self, rfl⟩
  · exact ⟨_, List.mem_singleton_self _, rfl⟩

/-- Every character is a blank or lies in an item. -/
theorem isGap_or_holds {s front back : List Char} {c : Char} (split : s = front ++ c :: back) :
    isGap c = true ∨ ∃ item ∈ arrange pending offset (pieces s),
      item.span.Holds (offset + byteLength front) (offset + byteLength (front ++ [c])) := by
  induction s using pieces.induct generalizing pending offset front with
  | case1 => simp at split
  | case2 first rest kind n measured ih =>
    rw [pieces, measured, arrange_cons]
    have cut : (first :: rest.take n) ++ rest.drop n = front ++ c :: back := by simpa using split
    -- a character behind the first piece is looked for among what follows
    have later : ∀ gap, front = (first :: rest.take n) ++ gap → rest.drop n = gap ++ c :: back →
        isGap c = true ∨ ∃ item ∈ emitted pending offset ⟨kind, first, rest.take n⟩ ++
          arrange (pendingBehind pending ⟨kind, first, rest.take n⟩)
            (offset + byteLength (first :: rest.take n)) (pieces (rest.drop n)),
          item.span.Holds (offset + byteLength front) (offset + byteLength (front ++ [c])) := by
      rintro gap rfl behind
      rcases ih behind with blank | ⟨item, mem, holds⟩
      · exact .inl blank
      · refine .inr ⟨item, List.mem_append_right _ mem, ?_⟩
        simp only [Span.Holds, byteLength_append] at holds ⊢
        omega
    rcases List.append_eq_append_iff.mp cut with ⟨gap, same, behind⟩ | ⟨gap, inside, behind⟩
    · exact later gap same behind
    · cases gap with
      | nil => exact later [] (by simpa using inside.symm) (by simpa using behind.symm)
      | cons head gap =>
        obtain ⟨rfl, -⟩ := List.cons.inj behind
        by_cases solid : kind = .blank ∨ kind = .lineFeed
        · obtain ⟨isGap, rfl⟩ := Cut.isGap_of_measure measured solid
          obtain ⟨-, rfl, -⟩ : front = [] ∧ first = c ∧ gap = [] := by
            rw [List.take_zero] at inside
            cases front with
            | nil => simpa using inside
            | cons other front => simp at inside
          exact .inl isGap
        · obtain ⟨item, mem, spans⟩ :=
            @exists_emitted pending offset ⟨kind, first, rest.take n⟩ solid
          refine .inr ⟨item, List.mem_append_left _ mem, ?_⟩
          have chars : Piece.chars ⟨kind, first, rest.take n⟩ = front ++ c :: gap := inside
          rw [spans, chars]
          simp only [Span.Holds, byteLength_append, byteLength_cons, byteLength_nil]
          omega

/-- Items are not more than characters, but for what the end of the text adds. -/
theorem length_emitted_le {first : Char} {rest : List Char} {kind : PieceKind} {n : Nat}
    (measured : Cut.measure first rest = (kind, n)) :
    (emitted pending offset ⟨kind, first, rest.take n⟩).length ≤ (rest.take n).length + 1 := by
  unfold emitted
  split
  · simp
  · split <;> simp
  · simp
  · next closed isBlock =>
    obtain rfl : kind = .blockComment closed := isBlock
    obtain ⟨-, tail, marker⟩ := Cut.measure_blockComment measured
    split <;> simp [marker]
  · simp

theorem length_arrange_le (s : List Char) :
    (arrange pending offset (pieces s)).length ≤ s.length + 2 := by
  induction s using pieces.induct generalizing pending offset with
  | case1 =>
    rw [pieces, arrange]
    split <;> simp
  | case2 first rest kind n measured ih =>
    rw [pieces, measured, arrange_cons, List.length_append]
    have here := @length_emitted_le pending offset _ _ _ _ measured
    have later := @ih (pendingBehind pending ⟨kind, first, rest.take n⟩)
      (offset + byteLength (Piece.chars ⟨kind, first, rest.take n⟩))
    have lengths := congrArg List.length (List.take_append_drop n rest)
    simp only [List.length_append, List.length_cons] at lengths ⊢
    omega

end Lex

/-! ## Bytes -/

/-- A byte of a text belongs to one of its characters. -/
theorem exists_of_getElem?_utf8 {s : List Char} {place : Nat} {byte : UInt8}
    (found : (s.flatMap String.utf8EncodeChar)[place]? = some byte) :
    ∃ front c back, s = front ++ c :: back ∧ byte ∈ String.utf8EncodeChar c ∧
      byteLength front ≤ place ∧ place < byteLength (front ++ [c]) := by
  induction s generalizing place with
  | nil => simp at found
  | cons first s ih =>
    rw [List.flatMap_cons] at found
    have size := String.length_utf8EncodeChar first
    by_cases inside : place < (String.utf8EncodeChar first).length
    · rw [List.getElem?_append_left inside] at found
      exact ⟨[], first, s, rfl, List.mem_of_getElem? found, Nat.zero_le _, by simpa [size] using inside⟩
    · rw [List.getElem?_append_right (by omega)] at found
      obtain ⟨front, c, back, rfl, mem, begins, ends⟩ := ih found
      refine ⟨first :: front, c, back, rfl, mem, ?_, ?_⟩ <;>
        simp only [List.cons_append, byteLength_cons] <;> omega

/-- A lexeme covers nothing exactly if it says nothing. -/
theorem Cites.empty_iff {offset : Nat} {s : List Char} {lexeme : Lexeme}
    (cites : Cites offset s lexeme) : lexeme.span.start = lexeme.span.stop ↔ lexeme.text = "" := by
  obtain ⟨front, back, -, spans⟩ := cites
  have length : lexeme.span.start = lexeme.span.stop ↔ byteLength lexeme.text.toList = 0 := by
    rw [spans]
    simp only [byteLength_append]
    omega
  rw [length, ← String.toList_eq_nil_iff]
  cases lexeme.text.toList with
  | nil => simp
  | cons c rest =>
    have size := c.utf8Size_pos
    simp only [byteLength_cons, reduceCtorEq, iff_false]
    omega

/-- What lexing keeps of a text. -/
structure Lossless (text : String) (lexed : Lexed) : Prop where
  /-- The tokens end with the only `eof`, at the end of the text. -/
  ended : ∃ front, lexed.tokens =
      front ++ [{ text := "", span := .point (byteLength text.toList), kind := .eof }] ∧
    ∀ token ∈ front, token.kind ≠ .eof
  /-- There are not more tokens and comments than characters, but for two at the end. -/
  bounded : lexed.tokens.length + lexed.comments.length ≤ text.toList.length + 2
  tokens_ascend : lexed.tokens.Pairwise fun token next => token.span.stop ≤ next.span.start
  comments_ascend :
    lexed.comments.Pairwise fun comment next => comment.span.stop ≤ next.span.start
  apart : ∀ token ∈ lexed.tokens, ∀ comment ∈ lexed.comments,
    token.span.stop ≤ comment.span.start ∨ comment.span.stop ≤ token.span.start
  /-- Only inserted semicolons and `eof` are empty. -/
  empty_iff : ∀ token ∈ lexed.tokens, token.span.start = token.span.stop ↔
    token.text = "" ∧ (token.kind = .semicolon ∨ token.kind = .eof)
  comment_filled : ∀ comment ∈ lexed.comments, comment.span.start < comment.span.stop
  /-- Tokens and comments say what stands between the two characters they are found at. -/
  cites_token : ∀ token ∈ lexed.tokens, Cites 0 text.toList token.toLexeme
  cites_comment : ∀ comment ∈ lexed.comments, Cites 0 text.toList comment
  /-- A byte that no token and no comment covers is a blank. -/
  covered : ∀ place byte, text.toByteArray.data[place]? = some byte →
    (∃ token ∈ lexed.tokens, token.span.Holds place (place + 1)) ∨
      (∃ comment ∈ lexed.comments, comment.span.Holds place (place + 1)) ∨ byte ∈ gapBytes

/-- **Lossless lexing.** Whatever a text holds, lexing loses nothing but blanks. -/
theorem lossless_lex (text : String) : Lossless text (lex text) where
  ended := ended_lex text
  bounded := by
    have bound : (items text).length ≤ _ := Lex.length_arrange_le text.toList
    have halves : ∀ all : List Item, (all.filterMap Item.token?).length +
        (all.filterMap Item.comment?).length = all.length := by
      intro all
      induction all with
      | nil => rfl
      | cons item all ih =>
        cases item <;> simp [List.filterMap_cons, Item.token?, Item.comment?] <;> omega
    exact Nat.le_trans (Nat.le_of_eq (halves (items text))) bound
  tokens_ascend := (lawful_lex text).ordered
  comments_ascend := pairwise_comments text
  apart := fun token isToken comment isComment => apart_of_mem isToken isComment
  empty_iff := by
    intro token mem
    have empty : token.span.start = token.span.stop ↔ token.text = "" :=
      (Lex.cites_of_mem (mem_items_of_token mem)).empty_iff
    rw [empty]
    refine ⟨fun none => ⟨none, ?_⟩, And.left⟩
    by_contra other
    rw [not_or] at other
    exact ((regular_of_mem_lex mem).visible other.1 other.2).1 none
  comment_filled := by
    intro comment mem
    obtain ⟨closed, mem⟩ := mem_items_of_comment mem
    exact lt_of_mem_items mem
  cites_token := by
    intro token mem
    have cites := Lex.cites_of_mem (mem_items_of_token mem)
    rwa [flatMap_chars_pieces] at cites
  cites_comment := by
    intro comment mem
    obtain ⟨closed, mem⟩ := mem_items_of_comment mem
    have cites := Lex.cites_of_mem mem
    rwa [flatMap_chars_pieces] at cites
  covered := by
    intro place byte found
    rw [← Array.getElem?_toList, ← String.utf8Encode_toList, List.utf8Encode,
      List.data_toByteArray] at found
    obtain ⟨front, c, back, split, mem, begins, ends⟩ := exists_of_getElem?_utf8 found
    rcases @Lex.isGap_or_holds false 0 _ _ _ _ split with gap | ⟨item, isItem, holds⟩
    · exact .inr (.inr (mem_gapBytes gap mem))
    · have holds : item.span.Holds place (place + 1) := by
        simp only [Span.Holds, Nat.zero_add] at holds ⊢
        omega
      cases item with
      | token token => exact .inl ⟨token, List.mem_filterMap.mpr ⟨_, isItem, rfl⟩, holds⟩
      | comment comment closed =>
        exact .inr (.inl ⟨comment, List.mem_filterMap.mpr ⟨_, isItem, rfl⟩, holds⟩)

end GoTrivia

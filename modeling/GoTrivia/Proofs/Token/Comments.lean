import GoTrivia.Proofs.Token.Items
import GoTrivia.Proofs.Token.Recutting

/-!
# What comments are

A comment runs from two slashes to the end of its line, or from a slash and a star to the first
star with a slash behind it, or, if there is none, to the end of the text.  Each form is told by
the characters of the text alone, with what stands in front of the comment and behind it.

**Unterminated comments.** Lexing reports just the comments of the last form.  Such a comment
reaches to the end of the text and comments do not overlap, so there is one at most, and it is the
last comment.

**Openers.** Two slashes, or a slash and a star, begin a comment wherever lexing gets to them.
Inside a literal it does not, and tokens and comments do not overlap.
-/

set_option autoImplicit false

namespace GoTrivia

/-! ## The forms of comments -/

/-- A lexeme of a text, with what stands in front of it and behind it. -/
structure Lexeme.Between (text : String) (front back : List Char) (lexeme : Lexeme) : Prop where
  split : text.toList = front ++ (lexeme.text.toList ++ back)
  span : lexeme.span = ⟨byteLength front, byteLength front + byteLength lexeme.text.toList⟩

/-- A star with a slash behind it stands at a place. -/
def ClosesAt (s : List Char) (place : Nat) : Prop := ['*', '/'] <+: s.drop place

/-- Two slashes, or a slash with a star behind it, open a comment. -/
def OpensComment (s : List Char) : Prop := ['/', '/'] <+: s ∨ ['/', '*'] <+: s

namespace Lexeme

variable (text : String) (comment : Lexeme)

/-- Two slashes and the rest of the line. -/
def IsLine : Prop :=
  ∃ front inside back, comment.Between text front back ∧
    comment.text.toList = '/' :: '/' :: inside ∧ '\n' ∉ inside ∧
    (back = [] ∨ back.head? = some '\n')

/-- A slash and a star up to the first star with a slash behind it. -/
def IsBlock : Prop :=
  ∃ front inside back, comment.Between text front back ∧
    comment.text.toList = '/' :: '*' :: (inside ++ ['*', '/']) ∧
    ∀ place < inside.length, ¬ClosesAt (inside ++ '*' :: '/' :: back) place

/-- A slash and a star that nothing closes, and the rest of the text. -/
def IsOpenBlock : Prop :=
  ∃ front inside, comment.Between text front [] ∧
    comment.text.toList = '/' :: '*' :: inside ∧ ∀ place, ¬ClosesAt inside place

end Lexeme

/-! ## Block comments -/

namespace Cut

theorem closesAt_cons_zero (c : Char) (s : List Char) :
    ClosesAt (c :: s) 0 ↔ c = '*' ∧ ∃ rest, s = '/' :: rest := by
  rw [ClosesAt, List.drop_zero, List.cons_prefix_cons]
  refine and_congr eq_comm ⟨?_, ?_⟩
  · rintro ⟨rest, rfl⟩
    exact ⟨rest, rfl⟩
  · rintro ⟨rest, rfl⟩
    exact ⟨rest, rfl⟩

/-- A block comment that is closed ends with the first star with a slash behind it. -/
theorem exists_of_closed {s : List Char} (closed : (blockComment s).2 = true) :
    ∃ inside back, s = inside ++ '*' :: '/' :: back ∧ (blockComment s).1 = inside.length + 2 ∧
      ∀ place < inside.length, ¬ClosesAt s place := by
  fun_induction blockComment s with
  | case1 => cases closed
  | case2 back => exact ⟨[], back, rfl, rfl, fun place lt => absurd lt (Nat.not_lt_zero _)⟩
  | case3 c rest other n isClosed read ih =>
    rw [read] at ih
    obtain ⟨inside, back, rfl, length, first⟩ := ih closed
    refine ⟨c :: inside, back, rfl, congrArg (· + 1) length, fun place lt => ?_⟩
    cases place with
    | zero =>
      rw [closesAt_cons_zero]
      rintro ⟨isStar, tail, begins⟩
      exact other tail isStar begins
    | succ place => exact first place (Nat.lt_of_succ_lt_succ lt)

/-- A block comment that is not closed takes everything, and nothing closes it. -/
theorem not_closesAt_of_open {s : List Char} (isOpen : (blockComment s).2 = false) :
    (blockComment s).1 = s.length ∧ ∀ place, ¬ClosesAt s place := by
  fun_induction blockComment s with
  | case1 =>
    refine ⟨rfl, fun place closes => ?_⟩
    rw [ClosesAt, List.drop_nil] at closes
    cases List.prefix_nil.mp closes
  | case2 => cases isOpen
  | case3 c rest other n isClosed read ih =>
    rw [read] at ih
    obtain ⟨length, none⟩ := ih isOpen
    refine ⟨congrArg (· + 1) length, fun place => ?_⟩
    cases place with
    | zero =>
      rw [closesAt_cons_zero]
      rintro ⟨isStar, tail, begins⟩
      exact other tail isStar begins
    | succ place => exact none place

/-- A token does not begin where a comment opens. -/
theorem not_opensComment_of_measure {first : Char} {rest : List Char} {kind : TokenKind} {n : Nat}
    (measured : measure first rest = (.token kind, n)) : ¬OpensComment (first :: rest) := by
  rintro (⟨back, begins⟩ | ⟨back, begins⟩) <;> obtain ⟨rfl, rfl⟩ := List.cons.inj begins
  · exact nomatch (measure_line back).symm.trans measured
  · exact nomatch (measure_block back).symm.trans measured

theorem exists_of_line {first : Char} {rest : List Char} {n : Nat}
    (measured : measure first rest = (.lineComment, n)) :
    first = '/' ∧ ∃ s, rest = '/' :: s ∧ n = (s.takeWhile (· ≠ '\n')).length + 1 := by
  cases measured_of_measure measured with
  | lineComment isSlash begins => exact ⟨isSlash, _, begins, rfl⟩

theorem exists_of_block {first : Char} {rest : List Char} {closed : Bool} {n : Nat}
    (measured : measure first rest = (.blockComment closed, n)) :
    first = '/' ∧ ∃ s, rest = '*' :: s ∧ blockComment s = (n - 1, closed) ∧ 0 < n := by
  cases measured_of_measure measured with
  | blockComment isSlash begins => exact ⟨isSlash, _, begins, rfl, Nat.succ_pos _⟩

end Cut

/-! ## Where pieces stand -/

/-- The kind of piece that a comment is. -/
def IsCommentKind (kind : PieceKind) (closed : Bool) : Prop :=
  kind = .lineComment ∧ closed = true ∨ kind = .blockComment closed

/-- A comment begins with a slash. -/
theorem IsCommentKind.first_eq {kind : PieceKind} {closed : Bool} {first : Char} {rest : List Char}
    {n : Nat} (isComment : IsCommentKind kind closed)
    (measured : Cut.measure first rest = (kind, n)) : first = '/' := by
  rcases isComment with ⟨rfl, -⟩ | rfl
  · exact (Cut.exists_of_line measured).1
  · exact (Cut.exists_of_block measured).1

/-- A piece that is cut off a text, with what stands in front of it and what it was cut off. -/
structure CutAt (offset : Nat) (s front rest : List Char) (kind : PieceKind) (first : Char)
    (n : Nat) (lexeme : Lexeme) : Prop where
  split : s = front ++ first :: rest
  measured : Cut.measure first rest = (kind, n)
  text : lexeme.text = String.ofList (first :: rest.take n)
  span : lexeme.span = ⟨offset + byteLength front,
    offset + byteLength front + byteLength (first :: rest.take n)⟩

namespace CutAt

variable {offset : Nat} {s front rest : List Char} {kind : PieceKind} {first : Char} {n : Nat}
  {lexeme : Lexeme}

/-- A piece of what follows a beginning. -/
theorem behind {t : List Char}
    (cut : CutAt (offset + byteLength t) s front rest kind first n lexeme) :
    CutAt offset (t ++ s) (t ++ front) rest kind first n lexeme where
  split := by rw [cut.split, List.append_assoc]
  measured := cut.measured
  text := cut.text
  span := by rw [cut.span, byteLength_append, Nat.add_assoc offset]

theorem between {text : String} (cut : CutAt 0 text.toList front rest kind first n lexeme) :
    lexeme.Between text front (rest.drop n) where
  split := by
    rw [cut.text, String.toList_ofList, List.cons_append, List.take_append_drop]
    exact cut.split
  span := by
    rw [cut.text, String.toList_ofList, cut.span, Nat.zero_add]

end CutAt

namespace Lex

/-- Each item that says something is a piece that was cut off. -/
theorem exists_cutAt {pending : Bool} {offset : Nat} {s : List Char} {item : Item}
    (mem : item ∈ arrange pending offset (pieces s)) (visible : item.lexeme.text ≠ "") :
    ∃ front rest kind first n, CutAt offset s front rest kind first n item.lexeme ∧
      ((∃ token, item = .token token ∧ kind = .token token.kind) ∨
        ∃ comment closed, item = .comment comment closed ∧ IsCommentKind kind closed) := by
  induction s using pieces.induct generalizing pending offset with
  | case1 =>
    rw [pieces, arrange] at mem
    split at mem <;> simp at mem
    · rcases mem with rfl | rfl <;> exact absurd rfl visible
    · subst mem
      exact absurd rfl visible
  | case2 first rest kind n measured ih =>
    rw [pieces, measured, arrange_cons] at mem
    rcases List.mem_append.mp mem with here | later
    · have cut (lexeme : Lexeme) (same : lexeme = ⟨String.ofList (first :: rest.take n),
          ⟨offset, offset + byteLength (first :: rest.take n)⟩⟩) :
          CutAt offset (first :: rest) [] rest kind first n lexeme := by
        subst same
        exact ⟨rfl, measured, rfl, rfl⟩
      refine ⟨[], rest, kind, first, n, ?_⟩
      unfold emitted at here
      split at here
      · cases here
      · split at here <;> simp at here
        subst here
        exact absurd rfl visible
      · next isLine =>
        obtain rfl := List.mem_singleton.mp here
        exact ⟨cut _ rfl, .inr ⟨_, _, rfl, .inl ⟨isLine, rfl⟩⟩⟩
      · next closed isBlock =>
        have isComment : IsCommentKind kind closed := .inr isBlock
        split at here
        · rcases List.mem_cons.mp here with rfl | inserted
          · exact ⟨cut _ rfl, .inr ⟨_, _, rfl, isComment⟩⟩
          · obtain rfl := List.mem_singleton.mp inserted
            exact absurd rfl visible
        · obtain rfl := List.mem_singleton.mp here
          exact ⟨cut _ rfl, .inr ⟨_, _, rfl, isComment⟩⟩
      · next tokenKind isToken =>
        obtain rfl := List.mem_singleton.mp here
        exact ⟨cut _ rfl, .inl ⟨_, rfl, isToken⟩⟩
    · obtain ⟨front, rest', kind', first', n', cut, what⟩ := ih later
      have whole : Piece.chars ⟨kind, first, rest.take n⟩ ++ rest.drop n = first :: rest := by
        rw [Piece.chars, List.cons_append, List.take_append_drop]
      exact ⟨_, rest', kind', first', n', whole ▸ cut.behind, what⟩

end Lex

/-! ## What each comment is -/

namespace CutAt

variable {text : String} {front rest : List Char} {first : Char} {n : Nat} {comment : Lexeme}

theorem isLine (cut : CutAt 0 text.toList front rest .lineComment first n comment) :
    comment.IsLine text := by
  have behind := Cut.measure_lineComment cut.measured
  obtain ⟨rfl, s, rfl, rfl⟩ := Cut.exists_of_line cut.measured
  refine ⟨front, s.takeWhile (· ≠ '\n'), _, cut.between, ?_, ?_, ?_⟩
  · rw [cut.text, String.toList_ofList, List.take_succ_cons,
      ← List.prefix_iff_eq_take.mp <| List.takeWhile_prefix _]
  · intro feed
    simpa using List.mem_takeWhile_imp feed
  · rcases behind with none | ⟨tail, feed⟩
    · exact .inl none
    · exact .inr (by rw [feed]; rfl)

theorem isBlock (cut : CutAt 0 text.toList front rest (.blockComment true) first n comment) :
    comment.IsBlock text := by
  obtain ⟨rfl, s, rfl, read, pos⟩ := Cut.exists_of_block cut.measured
  obtain ⟨inside, back, rfl, length, earliest⟩ := Cut.exists_of_closed (congrArg Prod.snd read)
  obtain rfl : n = inside.length + 2 + 1 := by
    rw [read] at length
    omega
  have split : inside ++ '*' :: '/' :: back = (inside ++ ['*', '/']) ++ back := by simp
  have taken : (inside ++ '*' :: '/' :: back).take (inside.length + 2) = inside ++ ['*', '/'] := by
    rw [split]
    exact List.take_left' (by simp)
  have behind : ('*' :: (inside ++ '*' :: '/' :: back)).drop (inside.length + 2 + 1) = back := by
    rw [List.drop_succ_cons, split]
    exact List.drop_left' (by simp)
  refine ⟨front, inside, back, behind ▸ cut.between, ?_, earliest⟩
  rw [cut.text, String.toList_ofList, List.take_succ_cons, taken]

theorem isOpenBlock (cut : CutAt 0 text.toList front rest (.blockComment false) first n comment) :
    comment.IsOpenBlock text := by
  obtain ⟨rfl, s, rfl, read, pos⟩ := Cut.exists_of_block cut.measured
  obtain ⟨length, never⟩ := Cut.not_closesAt_of_open (congrArg Prod.snd read)
  obtain rfl : n = s.length + 1 := by
    rw [read] at length
    omega
  have behind : ('*' :: s).drop (s.length + 1) = [] := List.drop_length
  refine ⟨front, s, behind ▸ cut.between, ?_, never⟩
  rw [cut.text, String.toList_ofList, List.take_succ_cons, List.take_length]

end CutAt

namespace Lexeme.IsOpenBlock

variable {text : String} {comment : Lexeme}

theorem not_isLine (isOpen : comment.IsOpenBlock text) : ¬comment.IsLine text := by
  rintro ⟨_, _, _, -, opens, -⟩
  obtain ⟨_, _, -, begins, -⟩ := isOpen
  exact nomatch opens.symm.trans begins

theorem not_isBlock (isOpen : comment.IsOpenBlock text) : ¬comment.IsBlock text := by
  rintro ⟨_, inside, _, -, closes, -⟩
  obtain ⟨_, all, -, begins, never⟩ := isOpen
  have same : inside ++ ['*', '/'] = all := by simpa using closes.symm.trans begins
  have rest : all.drop inside.length = ['*', '/'] := by rw [← same, List.drop_left]
  exact never inside.length ⟨[], by rw [rest, List.append_nil]⟩

/-- A comment that nothing closes ends with the text. -/
theorem stop_eq (isOpen : comment.IsOpenBlock text) :
    comment.span.stop = byteLength text.toList := by
  obtain ⟨front, _, between, -⟩ := isOpen
  rw [between.span, between.split, List.append_nil, byteLength_append]

end Lexeme.IsOpenBlock

namespace Lex

variable {text : String}

theorem visible_of_mem_comments {comment : Lexeme} {closed : Bool}
    (mem : .comment comment closed ∈ items text) : comment.text ≠ "" := by
  have cites := cites_of_mem mem
  exact fun none => Nat.ne_of_lt (lt_of_mem_items mem) (cites.empty_iff.mpr none)

/-- A comment has the form that lexing has taken it for. -/
theorem form_of_mem_items {comment : Lexeme} {closed : Bool}
    (mem : .comment comment closed ∈ items text) :
    if closed then comment.IsLine text ∨ comment.IsBlock text else comment.IsOpenBlock text := by
  obtain ⟨front, rest, kind, first, n, cut, what⟩ := exists_cutAt mem (visible_of_mem_comments mem)
  rcases what with ⟨token, other, -⟩ | ⟨comment, closed, same, isComment⟩
  · cases other
  · cases same
    rcases isComment with ⟨rfl, rfl⟩ | rfl
    · exact .inl cut.isLine
    · cases closed with
      | true => exact .inr cut.isBlock
      | false => exact cut.isOpenBlock

/-- A comment is not closed exactly if nothing closes it. -/
theorem isOpenBlock_iff {comment : Lexeme} {closed : Bool}
    (mem : .comment comment closed ∈ items text) : comment.IsOpenBlock text ↔ closed = false := by
  have form := form_of_mem_items mem
  cases closed with
  | true => exact iff_of_false (fun isOpen => form.elim isOpen.not_isLine isOpen.not_isBlock) nofun
  | false => exact iff_of_true form rfl

theorem mem_unterminated_iff {span : Span} :
    span ∈ (lex text).unterminated ↔
      ∃ comment, .comment comment false ∈ items text ∧ comment.span = span := by
  refine List.mem_filterMap.trans ⟨?_, ?_⟩
  · rintro ⟨item, mem, found⟩
    rcases item with token | ⟨comment, _ | _⟩ <;> cases found
    exact ⟨comment, mem, rfl⟩
  · rintro ⟨comment, mem, rfl⟩
    exact ⟨_, mem, rfl⟩

/-- Two comments are not both without an end. -/
theorem length_unterminated_le (text : String) : (lex text).unterminated.length ≤ 1 := by
  have pairwise : (lex text).unterminated.Pairwise fun _ _ => False := by
    have apart := (pairwise_items text).imp_of_mem (S := fun item next =>
      ∀ span ∈ item.unterminated?, ∀ other ∈ next.unterminated?, False) ?_
    · exact List.Pairwise.filterMap _
        (fun _ _ never _ isSpan _ isOther => never _ isSpan _ isOther) apart
    intro item next mem memNext apart span isOpen other isOpenNext
    rcases item with token | ⟨comment, _ | _⟩ <;> cases isOpen
    rcases next with token | ⟨follower, _ | _⟩ <;> cases isOpenNext
    have stop := ((isOpenBlock_iff mem).mpr rfl).stop_eq
    have nextStop := ((isOpenBlock_iff memNext).mpr rfl).stop_eq
    have filled := lt_of_mem_items memNext
    simp only [Item.span] at apart
    omega
  rcases found : (lex text).unterminated with _ | ⟨first, _ | ⟨second, rest⟩⟩
  · exact Nat.zero_le _
  · exact Nat.le_refl _
  · rw [found, List.pairwise_cons] at pairwise
    exact (pairwise.1 _ List.mem_cons_self).elim

/-- No comment follows one without an end. -/
theorem getLast?_comments {comment : Lexeme} (mem : comment ∈ (lex text).comments)
    (isOpen : comment.IsOpenBlock text) : (lex text).comments.getLast? = some comment := by
  obtain ⟨front, back, split⟩ := List.append_of_mem mem
  cases back with
  | nil => rw [split, List.getLast?_concat]
  | cons next back =>
    have apart := pairwise_comments text
    rw [split, List.pairwise_append, List.pairwise_cons] at apart
    have before := apart.2.1.1 next List.mem_cons_self
    have isComment : next ∈ (lex text).comments := by simp [split]
    obtain ⟨closed, isItem⟩ := mem_items_of_comment isComment
    have filled := lt_of_mem_items isItem
    have within := stop_le_of_mem_items isItem
    have stop := isOpen.stop_eq
    simp only [Item.span] at within
    omega

end Lex

/-! ## What stands at a place -/

/-- A place lies behind the beginning of a stretch of text and in front of its end. -/
def Span.Inside (span : Span) (place : Nat) : Prop := span.start < place ∧ place < span.stop

/-- Two beginnings of a text that are equally long are one. -/
theorem eq_of_byteLength {front front' back back' : List Char}
    (same : front ++ back = front' ++ back') (length : byteLength front = byteLength front') :
    front = front' ∧ back = back' := by
  have longer {s t : List Char} (equal : byteLength s = byteLength (s ++ t)) : t = [] := by
    rw [byteLength_append] at equal
    cases t with
    | nil => rfl
    | cons c t =>
      have := c.utf8Size_pos
      simp only [byteLength_cons] at equal
      omega
  rcases List.append_eq_append_iff.mp same with ⟨gap, rfl, rfl⟩ | ⟨gap, rfl, rfl⟩
  · simp [longer length]
  · simp [longer length.symm]

namespace Lex

/-- Where a character stands that is not a blank, there an item is cut off, unless the place lies
inside a token or inside a comment. -/
theorem exists_cutAt_or_inside {text : String} {front rest : List Char} {c : Char}
    (split : text.toList = front ++ c :: rest) (solid : isGap c = false) :
    (∃ item ∈ items text, ∃ kind n, CutAt 0 text.toList front rest kind c n item.lexeme ∧
      ((∃ token, item = .token token ∧ kind = .token token.kind) ∨
        ∃ comment closed, item = .comment comment closed ∧ IsCommentKind kind closed)) ∨
      (∃ token ∈ (lex text).tokens, token.span.Inside (byteLength front)) ∨
      ∃ comment ∈ (lex text).comments, comment.span.Inside (byteLength front) := by
  obtain ⟨item, mem, start, stop⟩ :=
    (@isGap_or_holds false 0 _ _ _ _ split).resolve_left (by simp [solid])
  have size : byteLength (front ++ [c]) = byteLength front + c.utf8Size := byteLength_append _ _
  have pos := c.utf8Size_pos
  rw [Nat.zero_add] at start stop
  rw [size] at stop
  rcases Nat.lt_or_eq_of_le start with behind | same
  · have inside : item.span.Inside (byteLength front) := ⟨behind, by omega⟩
    right
    cases item with
    | token token => exact .inl ⟨token, List.mem_filterMap.mpr ⟨_, mem, rfl⟩, inside⟩
    | comment comment closed => exact .inr ⟨comment, List.mem_filterMap.mpr ⟨_, mem, rfl⟩, inside⟩
  · have visible : item.lexeme.text ≠ "" := fun none => by
      have empty := (cites_of_mem mem).empty_iff.mpr none
      rw [span_lexeme] at empty
      omega
    obtain ⟨front', rest', kind, first, n, cut, what⟩ := exists_cutAt mem visible
    have begins : byteLength front' = byteLength front := by
      rw [← same, ← span_lexeme, cut.span, Nat.zero_add]
    obtain ⟨rfl, whole⟩ := eq_of_byteLength (cut.split.symm.trans split) begins
    obtain ⟨rfl, rfl⟩ := List.cons.inj whole
    exact .inl ⟨item, mem, kind, n, cut, what⟩

/-- Where two characters open a comment, there begins one, unless the place lies inside a token or
inside another comment. -/
theorem begins_or_inside {text : String} {front back : List Char}
    (split : text.toList = front ++ back) (opens : OpensComment back) :
    (∃ comment ∈ (lex text).comments, comment.span.start = byteLength front) ∨
      (∃ token ∈ (lex text).tokens, token.span.Inside (byteLength front)) ∨
      ∃ comment ∈ (lex text).comments, comment.span.Inside (byteLength front) := by
  obtain ⟨rest, rfl⟩ : ∃ rest, back = '/' :: rest := by
    rcases opens with ⟨rest, rfl⟩ | ⟨rest, rfl⟩ <;> exact ⟨_, rfl⟩
  refine (exists_cutAt_or_inside split (by decide)).imp_left ?_
  rintro ⟨item, mem, kind, n, cut, ⟨token, rfl, rfl⟩ | ⟨comment, closed, rfl, -⟩⟩
  · exact (Cut.not_opensComment_of_measure cut.measured opens).elim
  · exact ⟨comment, List.mem_filterMap.mpr ⟨_, mem, rfl⟩, by
      rw [show comment.span = _ from cut.span, Nat.zero_add]⟩

end Lex

/-! ## Comments are lexed exactly -/

/-- What the comments of a text are, and which of them are reported. -/
structure CommentsExact (text : String) (lexed : Lexed) : Prop where
  /-- A comment has one of three forms. -/
  formed : ∀ comment ∈ lexed.comments,
    comment.IsLine text ∨ comment.IsBlock text ∨ comment.IsOpenBlock text
  /-- Reported are the comments of the last form. -/
  reported : ∀ span, span ∈ lexed.unterminated ↔
    ∃ comment ∈ lexed.comments, comment.IsOpenBlock text ∧ comment.span = span
  single : lexed.unterminated.length ≤ 1
  /-- What is reported is the last comment. -/
  last : ∀ span ∈ lexed.unterminated, lexed.comments.getLast?.map Lexeme.span = some span
  /-- A comment begins wherever one opens outside of tokens and other comments. -/
  begun : ∀ front back, text.toList = front ++ back → OpensComment back →
    (∃ comment ∈ lexed.comments, comment.span.start = byteLength front) ∨
      (∃ token ∈ lexed.tokens, token.span.Inside (byteLength front)) ∨
      ∃ comment ∈ lexed.comments, comment.span.Inside (byteLength front)
  /-- What opens inside of a token is not seen. -/
  apart : ∀ token ∈ lexed.tokens, ∀ comment ∈ lexed.comments,
    token.span.stop ≤ comment.span.start ∨ comment.span.stop ≤ token.span.start

/-- **Exact comments.** -/
theorem commentsExact_lex (text : String) : CommentsExact text (lex text) where
  formed := by
    intro comment mem
    obtain ⟨closed, mem⟩ := mem_items_of_comment mem
    have form := Lex.form_of_mem_items mem
    cases closed with
    | true => exact form.imp_right .inl
    | false => exact .inr (.inr form)
  reported := by
    intro span
    rw [Lex.mem_unterminated_iff]
    constructor
    · rintro ⟨comment, mem, spans⟩
      exact ⟨comment, List.mem_filterMap.mpr ⟨_, mem, rfl⟩, (Lex.isOpenBlock_iff mem).mpr rfl,
        spans⟩
    · rintro ⟨comment, mem, isOpen, spans⟩
      obtain ⟨closed, mem⟩ := mem_items_of_comment mem
      obtain rfl := (Lex.isOpenBlock_iff mem).mp isOpen
      exact ⟨comment, mem, spans⟩
  single := Lex.length_unterminated_le text
  last := by
    intro span mem
    obtain ⟨comment, isItem, rfl⟩ := Lex.mem_unterminated_iff.mp mem
    rw [Lex.getLast?_comments (List.mem_filterMap.mpr ⟨_, isItem, rfl⟩)
      ((Lex.isOpenBlock_iff isItem).mpr rfl), Option.map_some]
  begun := fun _ _ split opens => Lex.begins_or_inside split opens
  apart := fun token isToken comment isComment => apart_of_mem isToken isComment

/-- The star of an opener does not close the comment, and a star alone does not either. -/
example : (lex "a /*/ */ \"//\" /* *").comments.map Lexeme.text = ["/*/ */", "/* *"] ∧
    (lex "a /*/ */ \"//\" /* *").unterminated = [⟨14, 18⟩] := by
  decide +kernel

end GoTrivia

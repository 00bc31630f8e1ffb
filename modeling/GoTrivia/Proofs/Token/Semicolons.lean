import GoTrivia.Proofs.Token.Outline
import Mathlib.Data.List.Find

/-!
# Where semicolons are inserted

A semicolon is inserted behind a token that ends a statement if a line feed stands between the
token and the next one, or if the text ends.  One is inserted, not more, however many line feeds
and comments stand there.  It marks the first of these line feeds, or the end of the comment that
holds it.

**The invariant.** Lexing carries along whether a statement is open.  What stands in front of the
next token depends on this alone and on the text from here on (`exists_next`): blanks and comments
without line feeds are passed, and the first piece with a line feed closes the statement.
-/

set_option autoImplicit false

namespace GoTrivia

/-- An inserted semicolon. -/
def semicolonAt (offset : Nat) : Token := { text := "", span := .point offset, kind := .semicolon }

/-- The first line feed of a text between two offsets, inside a comment or outside. -/
def firstFeed? (text : String) (start stop : Nat) : Option Nat :=
  (lineFeedsFrom 0 text.toList).find? fun feed => decide (start ≤ feed) && decide (feed < stop)

/-- Where a line feed ends the line: behind the comment that holds it, or else where it stands.
Only block comments hold line feeds. -/
def lineEnd (text : String) (feed : Nat) : Nat :=
  match (lex text).comments.find? fun comment =>
    decide (comment.span.start ≤ feed) && decide (feed < comment.span.stop) with
  | some comment => comment.span.stop
  | none => feed

/-- What closes a statement that is open at an offset, given the next token.  The end of the text
closes it at the latest. -/
def semicolonsUpTo (text : String) (offset : Nat) (next : Token) : List Token :=
  match firstFeed? text offset next.span.start with
  | some feed => [semicolonAt (lineEnd text feed)]
  | none => if next.kind = .eof then [semicolonAt (byteLength text.toList)] else []

/-- The semicolons inserted between a token and the next one. -/
def semicolonsBetween (text : String) (token next : Token) : List Token :=
  if token.kind.endsStatement then semicolonsUpTo text token.span.stop next else []

/-! ## The first line feed -/

section Feeds

variable {text : String} {done inside back : List Char} {stop : Nat}

theorem firstFeed?_self (text : String) (offset : Nat) : firstFeed? text offset offset = none := by
  refine List.find?_eq_none.mpr fun feed _ => ?_
  simp only [Bool.and_eq_true, decide_eq_true_eq, not_and]
  omega

/-- The line feeds of a text fall into those in front of a stretch, those in it and those behind. -/
theorem lineFeedsFrom_split (split : text.toList = done ++ (inside ++ back)) :
    lineFeedsFrom 0 text.toList = lineFeedsFrom 0 done ++ (lineFeedsFrom (byteLength done) inside ++
      lineFeedsFrom (byteLength (done ++ inside)) back) := by
  rw [split, lineFeedsFrom_append, lineFeedsFrom_append, Nat.zero_add, byteLength_append]

/-- A stretch without line feeds is passed. -/
theorem firstFeed?_skip (split : text.toList = done ++ (inside ++ back)) (quiet : '\n' ∉ inside) :
    firstFeed? text (byteLength done) stop = firstFeed? text (byteLength (done ++ inside)) stop := by
  have none : lineFeedsFrom (byteLength done) inside = [] := by
    rw [← List.length_eq_zero_iff, length_lineFeedsFrom, List.count_eq_zero_of_not_mem quiet]
  rw [firstFeed?, firstFeed?, lineFeedsFrom_split split, none, List.nil_append]
  refine List.find?_congr fun feed mem => ?_
  have size := byteLength_append done inside
  have same : decide (byteLength done ≤ feed) = decide (byteLength (done ++ inside) ≤ feed) := by
    rw [decide_eq_decide]
    rcases List.mem_append.mp mem with early | late
    · have := mem_lineFeedsFrom early
      omega
    · have := mem_lineFeedsFrom late
      omega
  rw [same]

/-- A stretch with a line feed holds the first one. -/
theorem exists_firstFeed? (split : text.toList = done ++ (inside ++ back)) (feeds : '\n' ∈ inside)
    (le : byteLength (done ++ inside) ≤ stop) :
    ∃ feed, firstFeed? text (byteLength done) stop = some feed ∧ byteLength done ≤ feed ∧
      feed < byteLength (done ++ inside) := by
  have some : lineFeedsFrom (byteLength done) inside ≠ [] := by
    rw [← List.length_pos_iff, length_lineFeedsFrom]
    exact List.count_pos_iff.mpr feeds
  obtain ⟨feed, more, listed⟩ := List.exists_cons_of_ne_nil some
  have bounds := mem_lineFeedsFrom (listed ▸ List.mem_cons_self : feed ∈ _)
  have size := byteLength_append done inside
  refine ⟨feed, ?_, bounds.1, by omega⟩
  have early : (lineFeedsFrom 0 done).find?
      (fun feed => decide (byteLength done ≤ feed) && decide (feed < stop)) = none := by
    refine List.find?_eq_none.mpr fun feed mem => ?_
    have := mem_lineFeedsFrom mem
    simp only [Bool.and_eq_true, decide_eq_true_eq, not_and]
    omega
  have here : (decide (byteLength done ≤ feed) && decide (feed < stop)) = true := by
    simp only [Bool.and_eq_true, decide_eq_true_eq]
    omega
  rw [firstFeed?, lineFeedsFrom_split split, List.find?_append, early, Option.none_or, listed,
    List.cons_append]
  exact List.find?_cons_of_pos here

/-- A line feed outside comments ends the line itself. -/
theorem lineEnd_outside {feed : Nat} (outside : ∀ comment ∈ (lex text).comments,
    comment.span.stop ≤ feed ∨ feed < comment.span.start) : lineEnd text feed = feed := by
  have none : (lex text).comments.find? (fun comment =>
      decide (comment.span.start ≤ feed) && decide (feed < comment.span.stop)) = none := by
    refine List.find?_eq_none.mpr fun comment mem => ?_
    have := outside comment mem
    simp only [Bool.and_eq_true, decide_eq_true_eq, not_and]
    omega
  rw [lineEnd, none]

/-- A line feed inside a comment ends the line behind the comment. -/
theorem lineEnd_inside {feed : Nat} {comment : Lexeme} (mem : comment ∈ (lex text).comments)
    (begins : comment.span.start ≤ feed) (ends : feed < comment.span.stop) :
    lineEnd text feed = comment.span.stop := by
  have holds : (decide (comment.span.start ≤ feed) && decide (feed < comment.span.stop)) = true := by
    simp [begins, ends]
  rw [lineEnd]
  cases found : (lex text).comments.find? fun comment =>
      decide (comment.span.start ≤ feed) && decide (feed < comment.span.stop) with
  | none => exact absurd holds (List.find?_eq_none.mp found comment mem)
  | some first =>
  have inside := List.find?_some found
  simp only [Bool.and_eq_true, decide_eq_true_eq] at inside
  -- comments do not overlap, so no other one holds the line feed
  have same : first = comment := by
    rcases eq_or_of_pairwise (pairwise_comments text) (List.mem_of_find?_eq_some found) mem with
      same | before | behind
    · exact same
    · omega
    · omega
  rw [same]

end Feeds

/-! ## Up to the next token -/

variable {text : String}

theorem semicolonsUpTo_skip {done inside back : List Char} (next : Token)
    (split : text.toList = done ++ (inside ++ back)) (quiet : '\n' ∉ inside) :
    semicolonsUpTo text (byteLength done) next =
      semicolonsUpTo text (byteLength (done ++ inside)) next := by
  rw [semicolonsUpTo, semicolonsUpTo, firstFeed?_skip split quiet]

theorem semicolonsUpTo_feed {offset feed : Nat} {next : Token}
    (found : firstFeed? text offset next.span.start = some feed) :
    semicolonsUpTo text offset next = [semicolonAt (lineEnd text feed)] := by
  rw [semicolonsUpTo, found]

/-- A line feed outside comments closes the statement where it stands. -/
theorem semicolonsUpTo_lineFeed {done back : List Char} {next : Token}
    (split : text.toList = done ++ (['\n'] ++ back))
    (behind : byteLength (done ++ ['\n']) ≤ next.span.start)
    (outside : ∀ comment ∈ (lex text).comments,
      comment.span.stop ≤ byteLength done ∨ byteLength done < comment.span.start) :
    semicolonsUpTo text (byteLength done) next = [semicolonAt (byteLength done)] := by
  obtain ⟨feed, found, begins, ends⟩ := exists_firstFeed? split (List.mem_singleton_self _) behind
  have single : byteLength (done ++ ['\n']) = byteLength done + 1 := by
    rw [byteLength_append]
    rfl
  obtain rfl : feed = byteLength done := by omega
  rw [semicolonsUpTo_feed found, lineEnd_outside outside]

/-- A comment that holds a line feed closes the statement where the comment ends. -/
theorem semicolonsUpTo_comment {done inside back : List Char} {next : Token} {comment : Lexeme}
    (split : text.toList = done ++ (inside ++ back)) (feeds : '\n' ∈ inside)
    (behind : byteLength (done ++ inside) ≤ next.span.start) (mem : comment ∈ (lex text).comments)
    (span : comment.span = ⟨byteLength done, byteLength (done ++ inside)⟩) :
    semicolonsUpTo text (byteLength done) next = [semicolonAt (byteLength (done ++ inside))] := by
  obtain ⟨feed, found, begins, ends⟩ := exists_firstFeed? split feeds behind
  rw [semicolonsUpTo_feed found, lineEnd_inside mem (span ▸ begins) (span ▸ ends), span]

/-- The items of a piece end where it ends at the latest. -/
theorem stop_le_of_emitted {pending : Bool} {done : List Char} {piece : Piece} {before : List Item}
    (early : ∀ item ∈ before, item.span.stop ≤ byteLength done) :
    ∀ item ∈ before ++ Lex.emitted pending (byteLength done) piece,
      item.span.stop ≤ byteLength (done ++ piece.chars) := by
  intro item mem
  rw [byteLength_append]
  rcases List.mem_append.mp mem with mem | mem
  · exact Nat.le_trans (early item mem) (Nat.le_add_right _ _)
  · obtain ⟨front, inside, back, same, spans⟩ := Lex.covers_of_mem_emitted mem []
    have := congrArg byteLength same
    rw [spans]
    simp only [byteLength_append, byteLength_nil] at this ⊢
    omega

/-- The tokens of what is left of a text: whatever closes the statement that is open, and then the
next token. -/
theorem exists_next {pending : Bool} {done s : List Char} {before : List Item}
    (whole : text.toList = done ++ s)
    (cut : items text = before ++ Lex.arrange pending (byteLength done) (pieces s))
    (early : ∀ item ∈ before, item.span.stop ≤ byteLength done) :
    ∃ next rest, next.isImplicit = false ∧ byteLength done ≤ next.span.start ∧
      (Lex.arrange pending (byteLength done) (pieces s)).filterMap Item.token? =
        (if pending then semicolonsUpTo text (byteLength done) next else []) ++ next :: rest := by
  induction s using pieces.induct generalizing pending done before with
  | case1 =>
    refine ⟨{ text := "", span := .point (byteLength done), kind := .eof }, [], rfl, Nat.le_refl _, ?_⟩
    have atEnd : text.toList = done := by simpa using whole
    rw [pieces]
    cases pending with
    | false => rfl
    | true =>
      rw [if_pos rfl, semicolonsUpTo, Span.start_point, firstFeed?_self, atEnd]
      rfl
  | case2 first rest kind n measured ih =>
    have split : text.toList = done ++ ((first :: rest.take n) ++ rest.drop n) := by simp [whole]
    have further : text.toList = (done ++ first :: rest.take n) ++ rest.drop n := by simp [whole]
    have stop : byteLength done + byteLength (Piece.chars ⟨kind, first, rest.take n⟩) =
        byteLength (done ++ first :: rest.take n) := (byteLength_append _ _).symm
    have size := byteLength_pos ⟨kind, first, rest.take n⟩
    rw [pieces, measured, Lex.arrange_cons, stop] at cut ⊢
    rw [← List.append_assoc] at cut
    obtain ⟨next, more, explicit, behind, listed⟩ := ih further cut (stop_le_of_emitted early)
    have later : byteLength done ≤ next.span.start := by omega
    rw [List.filterMap_append, listed]
    cases kind with
    | blank =>
      obtain ⟨other, rfl⟩ := Cut.measure_blank measured
      refine ⟨next, more, explicit, later, ?_⟩
      rw [semicolonsUpTo_skip next split (by simpa using fun same => other same.symm)]
      rfl
    | lineFeed =>
      obtain ⟨rfl, rfl⟩ := Cut.measure_lineFeed measured
      refine ⟨next, more, explicit, later, ?_⟩
      cases pending with
      | false => rfl
      | true =>
        have outside : ∀ comment ∈ (lex text).comments,
            comment.span.stop ≤ byteLength done ∨ byteLength done < comment.span.start := by
          intro comment mem
          obtain ⟨isClosed, mem⟩ := mem_items_of_comment mem
          rw [cut] at mem
          rcases List.mem_append.mp mem with mem | mem
          · rcases List.mem_append.mp mem with mem | mem
            · exact .inl (early _ mem)
            · simp [Lex.emitted, Lex.implicitSemicolon] at mem
          · have begins : _ ≤ comment.span.start := (Lex.covers_of_mem mem).le
            exact .inr (by omega)
        rw [if_pos rfl, semicolonsUpTo_lineFeed split behind outside]
        rfl
    | lineComment =>
      refine ⟨next, more, explicit, later, ?_⟩
      rw [semicolonsUpTo_skip next split (Cut.not_mem_lineComment measured)]
      rfl
    | blockComment isClosed =>
      refine ⟨next, more, explicit, later, ?_⟩
      by_cases feeds : '\n' ∈ first :: rest.take n
      · have holds :
            (Piece.chars ⟨.blockComment isClosed, first, rest.take n⟩).contains '\n' = true := by
          simpa [Piece.chars] using feeds
        cases pending with
        | false => rfl
        | true =>
          have mem : (⟨Piece.text ⟨.blockComment isClosed, first, rest.take n⟩,
              ⟨byteLength done, byteLength (done ++ first :: rest.take n)⟩⟩ : Lexeme) ∈
              (lex text).comments := by
            refine List.mem_filterMap.mpr ⟨.comment _ isClosed, ?_, rfl⟩
            rw [cut]
            refine List.mem_append_left _ (List.mem_append_right _ ?_)
            rw [← stop]
            simp only [Lex.emitted, holds, Bool.and_self, if_true]
            exact List.mem_cons_self
          rw [if_pos rfl, semicolonsUpTo_comment split feeds behind mem rfl]
          simp only [Lex.emitted, Lex.pendingBehind, holds, stop, Bool.and_self, Bool.not_true, if_true]
          rfl
      · have none :
            (Piece.chars ⟨.blockComment isClosed, first, rest.take n⟩).contains '\n' = false := by
          simpa [Piece.chars] using feeds
        rw [semicolonsUpTo_skip next split feeds]
        simp only [Lex.emitted, Lex.pendingBehind, none, Bool.and_false, Bool.not_false, Bool.and_true,
          Bool.false_eq_true, if_false]
        rfl
    | token kind =>
      have goesOn : kind ≠ .eof := by
        have other : (Cut.token first rest).1 ≠ .eof := Cut.ne_eof_token
        rwa [Cut.token_of_measure measured] at other
      obtain ⟨token, emits, spans, rfl⟩ : ∃ token : Token,
          Lex.emitted pending (byteLength done) ⟨.token kind, first, rest.take n⟩ = [.token token] ∧
            token.span = ⟨byteLength done, byteLength done +
              byteLength (Piece.chars ⟨.token kind, first, rest.take n⟩)⟩ ∧
            token.kind = kind := ⟨_, rfl, rfl, rfl⟩
      have begins : byteLength done = token.span.start := by rw [spans]
      refine ⟨token, (if token.kind.endsStatement then
        semicolonsUpTo text (byteLength (done ++ first :: rest.take n)) next else []) ++ next :: more,
        isImplicit_of_piece spans, Nat.le_of_eq begins, ?_⟩
      · have none : semicolonsUpTo text (byteLength done) token = [] := by
          rw [semicolonsUpTo, begins, firstFeed?_self]
          exact if_neg goesOn
        rw [none, ite_self, emits]
        rfl

/-! ## Inserted semicolons -/

/-- A token that was not inserted and is not the end of the text can be seen. -/
theorem text_ne_of_explicit {token : Token} (mem : token ∈ (lex text).tokens)
    (explicit : token.isImplicit = false) (goesOn : token.kind ≠ .eof) : token.text ≠ "" := by
  intro none
  by_cases isSemicolon : token.kind = .semicolon
  · have point : token.span.start = token.span.stop :=
      (Lex.cites_of_mem (mem_items_of_token mem)).empty_iff.mpr none
    simp [Token.isImplicit, Span.isEmpty, isSemicolon, point] at explicit
  · exact ((regular_of_mem_lex mem).visible isSemicolon goesOn).1 none

/-- Where semicolons are inserted among the tokens of a text. -/
structure SemicolonsInserted (text : String) (tokens : List Token) : Prop where
  /-- None in front of the first token. -/
  first : ∃ next rest, tokens = next :: rest ∧ next.isImplicit = false
  /-- Between a token and the next one, what closes the statement. -/
  between : ∀ front token back, tokens = front ++ token :: back → token.isImplicit = false →
    token.kind ≠ .eof → ∃ next rest, next.isImplicit = false ∧
      back = semicolonsBetween text token next ++ next :: rest

/-- **Inserted semicolons.** Whatever a text holds, a semicolon is inserted behind each token that
ends a statement and has a line feed or the end of the text behind it, and nowhere else. -/
theorem semicolonsInserted_lex (text : String) : SemicolonsInserted text (lex text).tokens where
  first := by
    obtain ⟨next, rest, explicit, -, listed⟩ :=
      @exists_next text false [] text.toList [] rfl rfl (List.forall_mem_nil _)
    exact ⟨next, rest, listed, explicit⟩
  between := by
    intro front token back split explicit goesOn
    have mem : token ∈ (lex text).tokens := split ▸ List.mem_append_right front List.mem_cons_self
    obtain ⟨before, tail, cut, -, rfl⟩ := exists_items_of_tokens split
    obtain ⟨done, rest, whole, stop, rfl⟩ :=
      Lex.arrange_behind cut (text_ne_of_explicit mem explicit goesOn)
    rw [Nat.zero_add] at stop cut
    have early : ∀ item ∈ before ++ [.token token], item.span.stop ≤ byteLength done := by
      have apart := pairwise_items text
      rw [cut, List.pairwise_append] at apart
      have ordered := (regular_of_mem_lex mem).ordered
      intro item mem
      rcases List.mem_append.mp mem with mem | mem
      · have := apart.2.2 item mem (.token token) List.mem_cons_self
        have : item.span.stop ≤ token.span.start := this
        omega
      · rw [List.mem_singleton.mp mem, ← stop]
        exact Nat.le_refl _
    obtain ⟨next, more, explicit, -, listed⟩ :=
      exists_next whole (cut.trans (List.append_cons ..)) early
    refine ⟨next, more, explicit, ?_⟩
    rw [Nat.zero_add, listed, semicolonsBetween, stop]

end GoTrivia

import GoTrivia.Proofs.Printing.Touching
import GoTrivia.Proofs.Token.Comments
import GoTrivia.Proofs.Token.Lookahead
import GoTrivia.Proofs.Token.Respacing

/-!
# Reading what was printed

Printed marks are cut into pieces again.  A blank is a piece of its own wherever it stands, and a
comment is cut off from what follows it, since a line comment has a line feed behind it.  So the
pieces of a printed text are those of its marks, as long as each token is cut off from what follows
(`ReadApart`).

**The end.** A printed text has no blanks at its end but one line feed.  The blanks of the last line
comment are lost with the others (`trimLast`).
-/

set_option autoImplicit false

namespace GoTrivia

open Print (Mark)

/-! ## Blanks at the end -/

namespace Text

variable {s t : List Char}

theorem trimEnd_append (s t : List Char) :
    trimEnd (s ++ t) = if trimEnd t = [] then trimEnd s else s ++ trimEnd t := by
  simp only [trimEnd, List.reverse_append, List.dropWhile_append, List.reverse_eq_nil_iff,
    List.isEmpty_iff]
  split
  · rfl
  · rw [List.reverse_append, List.reverse_reverse]

theorem trimEnd_eq_self (sharp : ∀ c ∈ s.getLast?, isBlank c = false) : trimEnd s = s := by
  rcases List.eq_nil_or_concat s with rfl | ⟨front, last, rfl⟩
  · rfl
  · have isSharp : isBlank last = false := sharp last (by simp)
    simp [trimEnd, isSharp]

theorem trimEnd_trimEnd (s : List Char) : trimEnd (trimEnd s) = trimEnd s :=
  trimEnd_eq_self fun _ last => isBlank_getLast_trimEnd last

theorem trimEnd_eq_nil_iff : trimEnd s = [] ↔ ∀ c ∈ s, isBlank c = true := by
  simp [trimEnd, List.dropWhile_eq_nil_iff]

/-- What does not end with a blank stays in front of anything. -/
theorem trimEnd_append_of_sharp (sharp : ∀ c ∈ s.getLast?, isBlank c = false) :
    trimEnd (s ++ t) = s ++ trimEnd t := by
  rw [trimEnd_append]
  split
  · next blank => rw [blank, List.append_nil, trimEnd_eq_self sharp]
  · rfl

end Text

/-- A text without the blanks at its end. -/
def trimmed (text : String) : String := String.ofList (Text.trimEnd text.toList)

/-- Texts of which the last one has no blanks at its end. -/
def trimLast : List String → List String
  | [] => []
  | [text] => [trimmed text]
  | text :: next :: texts => text :: trimLast (next :: texts)

theorem trimmed_trimmed (text : String) : trimmed (trimmed text) = trimmed text := by
  rw [trimmed, trimmed, String.toList_ofList, Text.trimEnd_trimEnd]

theorem trimLast_eq_nil_iff {texts : List String} : trimLast texts = [] ↔ texts = [] := by
  match texts with
  | [] => exact Iff.rfl
  | [_] => simp [trimLast]
  | _ :: _ :: _ => simp [trimLast]

/-- Texts that are the same but for the blanks at the end are so behind another one. -/
theorem trimLast_cons_congr {texts others : List String} (same : trimLast texts = trimLast others)
    (text : String) : trimLast (text :: texts) = trimLast (text :: others) := by
  match texts, others with
  | [], others =>
    obtain rfl := trimLast_eq_nil_iff.mp same.symm
    rfl
  | texts, [] =>
    obtain rfl := trimLast_eq_nil_iff.mp same
    rfl
  | _ :: _, _ :: _ => exact congrArg (text :: ·) same

/-! ## Pieces in front of others -/

namespace Piece

variable {piece : Piece}

/-- The token that a piece is, without its place. -/
def asToken? (piece : Piece) : Option Token :=
  match piece.kind with
  | .token kind => some { text := piece.text, span := .point 0, kind := kind }
  | _ => none

/-- The text of a piece that is a comment. -/
def asComment? (piece : Piece) : Option String :=
  match piece.kind with
  | .lineComment | .blockComment _ => some piece.text
  | _ => none

/-- A piece that stands for itself is cut off from what follows, if it does not go on with that. -/
theorem Whole.pieces_append (whole : piece.Whole) {rest : List Char}
    (line : piece.kind = .lineComment → ∀ c ∈ rest.head?, c = '\n')
    (stops : ∀ kind, piece.kind = .token kind → ∀ c ∈ rest.head?,
      Cut.mayGoOn piece.first piece.following c = false) :
    pieces (piece.chars ++ rest) = piece :: pieces rest := by
  have measured : Cut.measure piece.first (piece.following ++ rest) =
      (piece.kind, piece.following.length) := by
    cases rest with
    | nil => simpa using whole.measured
    | cons next rest =>
      exact Cut.measure_append whole.measured whole.known whole.closed (fun isLine => line isLine next rfl)
        (fun kind isToken => stops kind isToken next rfl) rest
  rw [chars, List.cons_append, pieces]
  simp [measured]

theorem Whole.pieces_chars (whole : piece.Whole) : pieces piece.chars = [piece] := by
  have alone : pieces (piece.chars ++ []) = piece :: pieces [] :=
    whole.pieces_append (fun _ _ found => by cases found) fun _ _ _ found => by cases found
  simpa [pieces] using alone

/-- No token and no block comment ends with a blank. -/
theorem Whole.sharp (whole : piece.Whole)
    (other : (∃ kind, piece.kind = .token kind) ∨ piece.kind = .blockComment true) :
    ∀ c ∈ piece.chars.getLast?, Text.isBlank c = false := by
  obtain ⟨kind, first, following⟩ := piece
  intro c last
  have measured : Cut.measure first following = (kind, following.length) := whole.measured
  by_contra blank
  have blank : Text.isBlank c = true := Bool.not_eq_false _ ▸ blank
  rcases other with ⟨token, isToken⟩ | isBlock
  · obtain rfl : kind = .token token := isToken
    have cut := Cut.token_of_measure measured
    have known : token ≠ .unknown := by simpa using whole.known
    rcases List.eq_nil_or_concat following with rfl | ⟨front, next, rfl⟩
    · obtain rfl : first = c := by simpa [chars] using last
      have unknown := Cut.token_blank blank []
      rw [cut] at unknown
      exact known unknown
    · obtain rfl : next = c := by simpa [chars, List.getLast?_cons] using last
      have short : (Cut.token first (front ++ [next])).2 ≤ front.length := Cut.token_append_blank blank
        (by rw [← List.concat_eq_append, cut]; exact known)
      rw [← List.concat_eq_append, cut, List.length_concat] at short
      exact Nat.not_succ_le_self _ short
  · obtain rfl : kind = .blockComment true := isBlock
    obtain ⟨rfl, s, rfl, read, -⟩ := Cut.exists_of_block measured
    obtain ⟨inside, back, rfl, stable⟩ := Cut.exists_of_blockComment (congrArg Prod.snd read)
    rw [stable] at read
    obtain rfl : back = [] := by simpa using (Prod.mk.inj read).1
    obtain rfl : '/' = c := by simpa [chars, List.getLast?_cons, List.getLast?_append] using last
    cases blank

/-- A line comment without the blanks at its end is a line comment. -/
theorem Whole.exists_trimmed (whole : piece.Whole) (isLine : piece.kind = .lineComment) :
    ∃ short : Piece, short.Whole ∧ short.kind = .lineComment ∧
      short.chars = Text.trimEnd piece.chars := by
  obtain ⟨kind, first, following⟩ := piece
  obtain rfl : kind = .lineComment := isLine
  obtain ⟨rfl, s, rfl, length⟩ := Cut.exists_of_line whole.measured
  have noFeed : ∀ c ∈ s, c ≠ '\n' := by
    have all : s.takeWhile (· ≠ '\n') = s :=
      (List.takeWhile_prefix _).eq_of_length (Nat.succ.inj length).symm
    exact fun c mem => by simpa using List.takeWhile_eq_self_iff.mp all c mem
  have short : Text.trimEnd ('/' :: '/' :: s) = '/' :: '/' :: Text.trimEnd s := by
    exact Text.trimEnd_append_of_sharp (s := ['/', '/']) fun c last => by
      obtain rfl : '/' = c := by simpa using last
      decide
  have sublist : Text.trimEnd s ⊆ s := by
    intro c mem
    rw [Text.trimEnd, List.mem_reverse] at mem
    exact List.mem_reverse.mp ((List.dropWhile_sublist _).subset mem)
  refine ⟨⟨.lineComment, '/', '/' :: Text.trimEnd s⟩, ⟨?_, by simp, by simp⟩, rfl, short.symm⟩
  have all : (Text.trimEnd s).takeWhile (· ≠ '\n') = Text.trimEnd s :=
    List.takeWhile_eq_self_iff.mpr fun c mem => by simpa using noFeed c (sublist mem)
  rw [Cut.measure_line, all]
  rfl

end Piece

/-! ## Texts in front of others -/

/-- A text that is cut into the same pieces in front of another one. -/
def ReadApart (text rest : String) : Prop :=
  pieces (text ++ rest).toList = pieces text.toList ++ pieces rest.toList

section Texts

variable {text rest : String} {kind : TokenKind}

/-- A text that is one token, as a piece. -/
theorem exists_piece (isToken : tokenKind? text = some kind) :
    ∃ piece : Piece, piece.Whole ∧ piece.kind = .token kind ∧ piece.chars = text.toList := by
  obtain ⟨first, following, chars, whole⟩ := exists_whole isToken
  exact ⟨_, whole, rfl, chars.symm⟩

/-- A token is cut off in front of what it does not go on with. -/
theorem readApart_of_goesOn (isToken : tokenKind? text = some kind)
    (off : ∀ c ∈ rest.toList.head?, goesOn text c = false) : ReadApart text rest := by
  obtain ⟨piece, whole, isKind, chars⟩ := exists_piece isToken
  rw [ReadApart, String.toList_append, ← chars, whole.pieces_chars,
    whole.pieces_append (fun isLine => ?_) fun _ _ c first => ?_]
  · rfl
  · cases isKind.symm.trans isLine
  · have same := off c first
    rwa [goesOn, ← chars, Piece.chars] at same

/-- A text that is one piece is cut off from what it is not read on into. -/
theorem readApart_iff {piece : Piece} (whole : piece.Whole) (chars : piece.chars = text.toList) :
    ReadApart text rest ↔ Cut.measure piece.first (piece.following ++ rest.toList) =
      (piece.kind, piece.following.length) := by
  obtain ⟨kind, first, following⟩ := piece
  rw [ReadApart, String.toList_append, ← chars, whole.pieces_chars, Piece.chars, List.cons_append,
    pieces]
  generalize measured : Cut.measure first (following ++ rest.toList) = cut
  obtain ⟨kind', n⟩ := cut
  constructor
  · intro same
    obtain ⟨rfl, -, taken⟩ := Piece.mk.inj (List.cons.inj same).1
    have length := congrArg List.length taken
    rw [List.length_take, Nat.min_eq_left (Cut.measure_le measured whole.known whole.closed)]
      at length
    exact congrArg _ length
  · intro same
    obtain ⟨rfl, rfl⟩ := Prod.mk.inj same
    simp

/-- A token that is not cut off from what follows is not what is read there. -/
theorem exists_of_not_readApart (isToken : tokenKind? text = some kind)
    (fused : ¬ReadApart text rest) :
    ∃ piece ps, pieces (text ++ rest).toList = piece :: ps ∧
      text.toList.head? = some piece.first ∧ ¬(piece.kind = .token kind ∧ piece.text = text) := by
  obtain ⟨⟨_, first, following⟩, whole, rfl, chars⟩ := exists_piece isToken
  rw [readApart_iff whole chars] at fused
  generalize measured : Cut.measure first (following ++ rest.toList) = cut at fused
  obtain ⟨kind', n⟩ := cut
  have read : pieces (text ++ rest).toList =
      ⟨kind', first, (following ++ rest.toList).take n⟩ ::
        pieces ((following ++ rest.toList).drop n) := by
    rw [String.toList_append, ← chars, Piece.chars, List.cons_append, pieces]
    simp only [measured]
  refine ⟨_, _, read, by rw [← chars]; rfl, ?_⟩
  rintro ⟨rfl, isText⟩
  have taken := congrArg String.toList isText
  rw [Piece.text, String.toList_ofList, ← chars] at taken
  have length := congrArg List.length (List.cons.inj taken).2
  rw [List.length_take, Nat.min_eq_left (Cut.measure_le measured whole.known whole.closed)]
    at length
  exact fused (congrArg _ length)

/-- Signs that make an operator are never cut off from each other. -/
theorem not_readApart_of_signs {next : String} (isToken : tokenKind? text = some kind)
    (signs : (text, next) ∈ [("+", "+"), ("-", "-"), ("&", "&"), ("&", "^")]) (rest : String) :
    ¬ReadApart text (next ++ rest) := by
  obtain ⟨first, second, isFirst, isSecond, pair⟩ : ∃ first second, text.toList = [first] ∧
      next.toList = [second] ∧
      (first, second) ∈ [('+', '+'), ('-', '-'), ('&', '&'), ('&', '^')] := by
    simp only [List.mem_cons, Prod.mk.injEq, List.not_mem_nil, or_false] at signs
    rcases signs with ⟨rfl, rfl⟩ | ⟨rfl, rfl⟩ | ⟨rfl, rfl⟩ | ⟨rfl, rfl⟩ <;>
      exact ⟨_, _, rfl, rfl, by decide⟩
  have others : ∀ pair ∈ [('+', '+'), ('-', '-'), ('&', '&'), ('&', '^')],
      pair.1 ∉ Cut.gapStarts := by decide
  obtain ⟨⟨_, own, following⟩, whole, -, chars⟩ := exists_piece isToken
  obtain ⟨rfl, rfl⟩ := List.cons.inj (chars.trans isFirst)
  rw [readApart_iff whole chars, Cut.measure_eq_token (others _ pair), String.toList_append,
    isSecond]
  intro same
  exact Nat.ne_of_gt (Cut.length_token_signs pair rest.toList) (congrArg Prod.snd same)

/-- Whether two texts that may fuse are cut off from each other does not depend on what follows,
but for a second point. -/
theorem Fuses.readApart_iff {next : String} (isToken : tokenKind? text = some kind)
    (fuses : Fuses text next) (points : next = "." → rest.toList.head? ≠ some '.') :
    ReadApart text (next ++ rest) ↔ ReadApart text next := by
  rcases fuses with signs | ⟨isNumeral, mem⟩
  · have alone := not_readApart_of_signs isToken signs ""
    rw [String.append_empty] at alone
    exact iff_of_false (not_readApart_of_signs isToken signs rest) alone
  · obtain ⟨kind, first, following, -, numeral, chars, whole, begins⟩ := exists_of_isNumeral isNumeral
    have others : ∀ c ∈ Cut.gapStarts, ¬Cut.BeginsNumber c :=
      List.all_iff_forall_prop.mp (by decide +kernel)
    have other : first ∉ Cut.gapStarts := fun mem => others first mem begins
    obtain ⟨c, d, split, word, single⟩ : ∃ c d, next.toList = c :: d ∧
        Cut.continuesName c = false ∧ (d = [] → next = ".") := by
      simp only [List.mem_cons, List.not_mem_nil, or_false] at mem
      rcases mem with rfl | rfl | rfl | rfl
      · exact ⟨'.', [], rfl, by decide +kernel, fun _ => rfl⟩
      · exact ⟨'.', ['.', '.'], rfl, by decide +kernel, fun none => by cases none⟩
      · exact ⟨'+', ['+'], rfl, by decide +kernel, fun none => by cases none⟩
      · exact ⟨'-', ['-'], rfl, by decide +kernel, fun none => by cases none⟩
    have same : (d ++ rest.toList).head? = some '.' ↔ d.head? = some '.' := by
      cases d with
      | nil => simpa using points (single rfl)
      | cons _ _ => rfl
    have alike := Cut.token_alike word same (Cut.token_of_measure whole.measured) numeral
    rw [GoTrivia.readApart_iff whole chars.symm, GoTrivia.readApart_iff whole chars.symm,
      String.toList_append, split, Cut.measure_eq_token other, Cut.measure_eq_token other,
      List.cons_append]
    rcases alike with same | ⟨one, two⟩
    · rw [same]
    · refine iff_of_false (fun same => ?_) fun same => ?_
      · exact Nat.ne_of_gt one (congrArg Prod.snd same)
      · exact Nat.ne_of_gt two (congrArg Prod.snd same)

end Texts

namespace Print

/-- The tokens of marks are cut off from what is printed behind them. -/
def CutApart (marks : List Mark) : Prop :=
  ∀ front text back, marks = front ++ .token text :: back → ReadApart text (finish back)

/-- Tokens that are printed side by side are cut off from each other. -/
def ReadsApart (marks : List Mark) : Prop :=
  ∀ front text next back, marks = front ++ .token text :: .token next :: back → ReadApart text next

namespace Mark

/-- A mark whose text is a token or a comment, as a piece of its own. -/
def Alone : Mark → Prop
  | token text => (tokenKind? text).isSome = true
  | comment text => ∃ piece : Piece, piece.Whole ∧ piece.chars = text.toList ∧
      (piece.kind = .lineComment ∨ piece.kind = .blockComment true)
  | space => True
  | tab => True
  | lineFeed => True

/-- The token that a mark is, without its place. -/
def asToken? : Mark → Option Token
  | token text => some { text := text, span := .point 0, kind := (tokenKind? text).getD .unknown }
  | comment _ => none
  | space => none
  | tab => none
  | lineFeed => none

/-- The text of a mark that is a comment. -/
def asComment? : Mark → Option String
  | token _ => none
  | comment text => some text
  | space => none
  | tab => none
  | lineFeed => none

end Mark

/-! ## The end of a printed text -/

variable {mark : Mark} {marks : List Mark}

theorem toList_finish (marks : List Mark) :
    (finish marks).toList = Text.trimEnd (render marks).toList ++ ['\n'] := by
  rw [finish, String.toList_append, String.toList_ofList]
  rfl

theorem toList_render_cons (mark : Mark) (marks : List Mark) :
    (render (mark :: marks)).toList = mark.text.toList ++ (render marks).toList := by
  simp [render]

/-- What does not end with a blank stands in front of what is printed behind it. -/
theorem finish_of_sharp (sharp : ∀ c ∈ mark.text.toList.getLast?, Text.isBlank c = false) :
    (finish (mark :: marks)).toList = mark.text.toList ++ (finish marks).toList := by
  rw [toList_finish, toList_finish, toList_render_cons, Text.trimEnd_append_of_sharp sharp,
    List.append_assoc]

/-- Behind anything there are blanks alone, or it stands in front of what is printed behind it. -/
theorem finish_cons (mark : Mark) (marks : List Mark) :
    (Text.trimEnd (render marks).toList = [] ∧ finish marks = "\n" ∧
      (finish (mark :: marks)).toList = Text.trimEnd mark.text.toList ++ ['\n']) ∨
    (finish (mark :: marks)).toList = mark.text.toList ++ (finish marks).toList := by
  rw [toList_finish, toList_render_cons, Text.trimEnd_append]
  split
  · next blank =>
    refine .inl ⟨blank, ?_, rfl⟩
    rw [← String.toList_inj, toList_finish, blank]
    rfl
  · rw [toList_finish, List.append_assoc]
    exact .inr rfl

theorem head?_finish_nil : (finish []).toList.head? = some '\n' := by decide

theorem head?_finish_lineFeed (marks : List Mark) :
    (finish (.lineFeed :: marks)).toList.head? = some '\n' := by
  rcases finish_cons .lineFeed marks with ⟨-, -, same⟩ | same <;> rw [same] <;> rfl

/-- What a mark adds to the pieces of a printed text. -/
structure Adds (mark : Mark) (marks : List Mark) (ps : List Piece) : Prop where
  pieces : pieces (finish (mark :: marks)).toList = ps ++ pieces (finish marks).toList
  tokens : ps.filterMap Piece.asToken? = mark.asToken?.toList
  comments : ps.filterMap Piece.asComment? = mark.asComment?.toList ∨
    (Text.trimEnd (render marks).toList = [] ∧
      ps.filterMap Piece.asComment? = mark.asComment?.toList.map trimmed)

/-- A blank adds itself, unless it stands at the end. -/
theorem exists_adds_of_blank {piece : Piece} (whole : piece.Whole)
    (chars : piece.chars = mark.text.toList) (other : piece.kind = .blank ∨ piece.kind = .lineFeed)
    (blank : Text.trimEnd mark.text.toList = []) (noItem : mark.asToken? = none ∧ mark.asComment? = none)
    (marks : List Mark) : ∃ ps, Adds mark marks ps := by
  obtain ⟨noToken, noComment⟩ := noItem
  rcases finish_cons mark marks with ⟨-, isEnd, same⟩ | same
  · refine ⟨[], ?_, by rw [noToken]; rfl, .inl (by rw [noComment]; rfl)⟩
    rw [same, blank, isEnd]
    rfl
  · refine ⟨[piece], ?_, ?_, .inl ?_⟩
    · rw [same, ← chars, whole.pieces_append]
      · rfl
      · intro isLine
        rcases other with isKind | isKind <;> cases isKind.symm.trans isLine
      · intro kind isToken
        rcases other with isKind | isKind <;> cases isKind.symm.trans isToken
    · rcases other with isKind | isKind <;> simp [noToken, Piece.asToken?, isKind]
    · rcases other with isKind | isKind <;> simp [noComment, Piece.asComment?, isKind]

/-- A comment adds itself, without its blanks if it is the last thing that is printed. -/
theorem exists_adds_of_comment {text : String} (alone : (Mark.comment text).Alone)
    (closed : isLineComment text = true → ∀ next ∈ marks.head?, next = .lineFeed) :
    ∃ ps, Adds (.comment text) marks ps := by
  obtain ⟨piece, whole, chars, isComment⟩ := alone
  have isText : piece.text = text := by rw [Piece.text, chars, String.ofList_toList]
  rcases isComment with isLine | isBlock
  · have isLineText : isLineComment text = true := by
      obtain ⟨kind, first, following⟩ := piece
      obtain rfl : kind = .lineComment := isLine
      obtain ⟨rfl, s, rfl, -⟩ := Cut.exists_of_line whole.measured
      rw [isLineComment, ← chars]
      rfl
    rcases finish_cons (.comment text) marks with ⟨blank, isEnd, same⟩ | same
    · obtain ⟨short, shortWhole, isShort, shortChars⟩ := whole.exists_trimmed isLine
      refine ⟨[short], ?_, by simp [Piece.asToken?, isShort, Mark.asToken?], .inr ⟨blank, ?_⟩⟩
      · rw [same, isEnd, Mark.text, ← chars, ← shortChars, shortWhole.pieces_append]
        · rfl
        · exact fun _ c found => (Option.some.inj found).symm
        · intro kind isToken
          cases isShort.symm.trans isToken
      · have shortText : short.text = trimmed text := by rw [Piece.text, shortChars, chars, trimmed]
        simp [Piece.asComment?, isShort, shortText, Mark.asComment?]
    · refine ⟨[piece], ?_, by simp [Piece.asToken?, isLine, Mark.asToken?], .inl ?_⟩
      · rw [same, Mark.text, ← chars, whole.pieces_append]
        · rfl
        · intro _ c found
          have feed : (finish marks).toList.head? = some '\n' := by
            cases marks with
            | nil => exact head?_finish_nil
            | cons next marks =>
              obtain rfl := closed isLineText next rfl
              exact head?_finish_lineFeed marks
          exact Option.some.inj (found.symm.trans feed)
        · intro kind isToken
          cases isLine.symm.trans isToken
      · simp [Piece.asComment?, isLine, isText, Mark.asComment?]
  · have sharp : ∀ c ∈ (Mark.comment text).text.toList.getLast?, Text.isBlank c = false :=
      chars ▸ whole.sharp (.inr isBlock)
    refine ⟨[piece], ?_, by simp [Piece.asToken?, isBlock, Mark.asToken?], .inl ?_⟩
    · rw [finish_of_sharp sharp, Mark.text, ← chars, whole.pieces_append]
      · rfl
      · intro isLine
        cases isBlock.symm.trans isLine
      · intro kind isToken
        cases isBlock.symm.trans isToken
    · simp [Piece.asComment?, isBlock, isText, Mark.asComment?]

/-- The last character of a token is no blank. -/
theorem sharp_of_token {text : String} {kind : TokenKind} (isToken : tokenKind? text = some kind) :
    ∀ c ∈ text.toList.getLast?, Text.isBlank c = false := by
  obtain ⟨piece, whole, isKind, chars⟩ := exists_piece isToken
  exact chars ▸ whole.sharp (.inl ⟨kind, isKind⟩)

/-- A token stands in front of what is printed behind it. -/
theorem finish_token {text : String} {kind : TokenKind} (isToken : tokenKind? text = some kind)
    (marks : List Mark) : finish (.token text :: marks) = text ++ finish marks := by
  rw [← String.toList_inj, String.toList_append]
  exact finish_of_sharp (sharp_of_token isToken)

/-- A token adds itself, if it is cut off from what is printed behind it. -/
theorem exists_adds_of_token {text : String} (alone : (Mark.token text).Alone)
    (apart : ReadApart text (finish marks)) : ∃ ps, Adds (.token text) marks ps := by
  obtain ⟨kind, isToken⟩ := Option.isSome_iff_exists.mp alone
  obtain ⟨piece, whole, isKind, chars⟩ := exists_piece isToken
  have isText : piece.text = text := by rw [Piece.text, chars, String.ofList_toList]
  refine ⟨[piece], ?_, ?_, .inl ?_⟩
  · rw [finish_token isToken, apart, ← chars, whole.pieces_chars]
  · simp [Piece.asToken?, isKind, isText, Mark.asToken?, isToken]
  · simp [Piece.asComment?, isKind, Mark.asComment?]

/-- A mark adds one piece, or none, if it is a blank at the end. -/
theorem exists_adds (alone : mark.Alone)
    (closed : ∀ text, mark = .comment text → isLineComment text = true →
      ∀ next ∈ marks.head?, next = .lineFeed)
    (apart : ∀ text, mark = .token text → ReadApart text (finish marks)) :
    ∃ ps, Adds mark marks ps := by
  cases mark with
  | token text => exact exists_adds_of_token alone (apart text rfl)
  | comment text => exact exists_adds_of_comment alone (closed text rfl)
  | space =>
    have whole : Piece.Whole ⟨.blank, ' ', []⟩ := ⟨by decide, by decide, by decide⟩
    exact exists_adds_of_blank whole rfl (.inl rfl) (by decide) ⟨rfl, rfl⟩ marks
  | tab =>
    have whole : Piece.Whole ⟨.blank, '\t', []⟩ := ⟨by decide, by decide, by decide⟩
    exact exists_adds_of_blank whole rfl (.inl rfl) (by decide) ⟨rfl, rfl⟩ marks
  | lineFeed =>
    have whole : Piece.Whole ⟨.lineFeed, '\n', []⟩ := ⟨by decide, by decide, by decide⟩
    exact exists_adds_of_blank whole rfl (.inr rfl) (by decide) ⟨rfl, rfl⟩ marks

/-- Where blanks alone are printed, there is no comment. -/
theorem comments_eq_nil (alone : ∀ mark ∈ marks, mark.Alone)
    (blank : Text.trimEnd (render marks).toList = []) : marks.filterMap Mark.asComment? = [] := by
  refine List.filterMap_eq_nil_iff.mpr fun mark mem => ?_
  cases mark with
  | token | space | tab | lineFeed => rfl
  | comment text =>
    obtain ⟨piece, whole, chars, isComment⟩ := alone _ mem
    have isSlash : piece.first = '/' := by
      rcases isComment with isLine | isBlock
      · exact (Cut.exists_of_line (isLine ▸ whole.measured)).1
      · exact (Cut.exists_of_block (isBlock ▸ whole.measured)).1
    have inside : '/' ∈ (render marks).toList := by
      rw [render, String.toList_join, List.flatMap_map]
      refine List.mem_flatMap.mpr ⟨_, mem, ?_⟩
      rw [Mark.text, ← chars, Piece.chars, isSlash]
      exact List.mem_cons_self
    cases Text.trimEnd_eq_nil_iff.mp blank '/' inside

/-- **Reading again.** A printed text begins with the pieces of the marks at its beginning, if their
tokens are cut off from what is printed behind them. -/
theorem exists_pieces_finish {meets : String → String → Prop} {front : List Mark}
    (back : List Mark) (alone : ∀ mark ∈ front, mark.Alone)
    (beside : (front ++ back).IsChain (Beside meets))
    (apart : ∀ before text behind, front = before ++ .token text :: behind →
      ReadApart text (finish (behind ++ back))) :
    ∃ ps, pieces (finish (front ++ back)).toList = ps ++ pieces (finish back).toList ∧
      ps.filterMap Piece.asToken? = front.filterMap Mark.asToken? ∧
      (back = [] → trimLast (ps.filterMap Piece.asComment?) =
        trimLast (front.filterMap Mark.asComment?)) := by
  induction front with
  | nil => exact ⟨[], rfl, rfl, fun _ => rfl⟩
  | cons mark front ih =>
    obtain ⟨here, others⟩ := List.forall_mem_cons.mp alone
    rw [List.cons_append] at beside
    obtain ⟨ps, behind, tokens, comments⟩ := ih others beside.tail fun before text behind split =>
      apart (mark :: before) text behind (by rw [split]; rfl)
    obtain ⟨own, adds⟩ : ∃ own, Adds mark (front ++ back) own := exists_adds here
      (fun text isComment isLine next isNext => by
        have close := (List.isChain_cons.mp beside).1 next isNext
        rw [isComment] at close
        exact close isLine)
      fun text isToken => apart [] text front (by rw [isToken]; rfl)
    refine ⟨own ++ ps, ?_, ?_, fun isEnd => ?_⟩
    · rw [List.cons_append, adds.pieces, behind, List.append_assoc]
    · rw [List.filterMap_append, adds.tokens, tokens, List.filterMap_cons]
      cases mark.asToken? <;> rfl
    · subst isEnd
      have same := comments rfl
      rw [List.append_nil] at adds
      rw [List.filterMap_append, List.filterMap_cons]
      rcases adds.comments with isOwn | ⟨blank, isOwn⟩
      · rw [isOwn]
        cases mark.asComment? with
        | none => exact same
        | some text => exact trimLast_cons_congr same text
      · have none := comments_eq_nil others blank
        rw [none] at same ⊢
        rw [isOwn, trimLast_eq_nil_iff.mp same]
        cases mark.asComment? with
        | none => rfl
        | some text => exact congrArg (fun text => [text]) (trimmed_trimmed text)

/-- A blank, or the line feed at the end, begins what is printed from a blank on. -/
theorem isBlank_head_finish (blank : mark = .space ∨ mark = .lineFeed) :
    ∀ c ∈ (finish (mark :: marks)).toList.head?, Text.isBlank c = true := by
  intro c first
  rcases finish_cons mark marks with ⟨-, -, same⟩ | same <;> rw [same] at first <;>
    rcases blank with rfl | rfl <;> obtain rfl := Option.some.inj first <;> decide

/-- A token does not go on with what is printed behind it, or there stands a token that it fuses
with. -/
theorem ends_or_fuses {text : String} {back : List Mark}
    (alone : ∀ mark ∈ Mark.token text :: back, mark.Alone)
    (beside : (Mark.token text :: back).IsChain (Beside MayTouch)) :
    (∀ c ∈ (finish back).toList.head?, goesOn text c = false) ∨
      ∃ next rest, back = .token next :: rest ∧ Fuses text next := by
  obtain ⟨here, others⟩ := List.forall_mem_cons.mp alone
  have blank (isBlank : ∀ c ∈ (finish back).toList.head?, Text.isBlank c = true) :
      ∀ c ∈ (finish back).toList.head?, goesOn text c = false := by
    intro c first
    unfold goesOn
    split
    · rfl
    · exact Cut.mayGoOn_blank (isBlank c first) _ _
  cases back with
  | nil => exact .inl (blank fun c first => by obtain rfl := Option.some.inj first; decide)
  | cons mark rest =>
    have close := (List.isChain_cons_cons.mp beside).1
    cases mark with
    | comment | tab => exact close.elim
    | space => exact .inl (blank (isBlank_head_finish (.inl rfl)))
    | lineFeed => exact .inl (blank (isBlank_head_finish (.inr rfl)))
    | token next =>
      rcases close here with off | fuses
      · obtain ⟨kind', isNext⟩ := Option.isSome_iff_exists.mp (others (.token next) (by simp))
        obtain ⟨first, following, chars, -⟩ := exists_whole isNext
        refine .inl fun c found => off c ?_
        rw [finish_token isNext, String.toList_append, chars] at found
        rwa [chars]
      · exact .inr ⟨next, rest, rfl, fuses⟩

/-- Behind a token that is not cut off from what is printed behind it stands one that it fuses
with. -/
theorem readApart_or_fuses {text : String} {back : List Mark}
    (alone : ∀ mark ∈ Mark.token text :: back, mark.Alone)
    (beside : (Mark.token text :: back).IsChain (Beside MayTouch)) :
    ReadApart text (finish back) ∨ ∃ next rest, back = .token next :: rest ∧ Fuses text next := by
  obtain ⟨kind, isToken⟩ := Option.isSome_iff_exists.mp (alone _ List.mem_cons_self)
  exact (ends_or_fuses alone beside).imp_left (readApart_of_goesOn isToken)

/-- A point is not printed in front of another one. -/
theorem head?_finish_of_point {rest : List Mark}
    (alone : ∀ mark ∈ Mark.token "." :: rest, mark.Alone)
    (beside : (Mark.token "." :: rest).IsChain (Beside MayTouch)) :
    (finish rest).toList.head? ≠ some '.' := by
  intro point
  rcases ends_or_fuses alone beside with ends | ⟨next, rest, rfl, signs | ⟨isNumeral, -⟩⟩
  · have goes : goesOn "." '.' = true := by decide +kernel
    cases goes.symm.trans (ends '.' point)
  · simp at signs
  · have other : GoTrivia.isNumeral "." = false := by decide +kernel
    cases isNumeral.symm.trans other

/-- Tokens that are printed side by side are cut off from each other, or may fuse. -/
theorem touch_or_fuses {marks front back : List Mark} {text next : String}
    (alone : ∀ mark ∈ marks, mark.Alone) (beside : marks.IsChain (Beside MayTouch))
    (split : marks = front ++ .token text :: .token next :: back) :
    ReadApart text next ∨ Fuses text next := by
  subst split
  have here : (Mark.token text).Alone := alone _ (by simp)
  have close := (List.isChain_cons_cons.mp (List.isChain_append.mp beside).2.1).1
  obtain ⟨kind, isToken⟩ := Option.isSome_iff_exists.mp here
  exact (close here).imp_left (readApart_of_goesOn isToken)

/-- Tokens are cut off from all that is printed behind them, if they are from the next ones. -/
theorem cutApart_iff {marks : List Mark} (alone : ∀ mark ∈ marks, mark.Alone)
    (beside : marks.IsChain (Beside MayTouch)) : CutApart marks ↔ ReadsApart marks := by
  have local_iff {front back : List Mark} {text next : String} (fuses : Fuses text next)
      (split : marks = front ++ .token text :: .token next :: back) :
      ReadApart text (finish (.token next :: back)) ↔ ReadApart text next := by
    subst split
    obtain ⟨-, alone⟩ := List.forall_mem_append.mp alone
    obtain ⟨here, alone⟩ := List.forall_mem_cons.mp alone
    obtain ⟨kind, isToken⟩ := Option.isSome_iff_exists.mp here
    obtain ⟨kind', isNext⟩ := Option.isSome_iff_exists.mp (alone _ List.mem_cons_self)
    rw [finish_token isNext]
    refine fuses.readApart_iff isToken ?_
    rintro rfl
    exact head?_finish_of_point alone (List.isChain_append.mp beside).2.1.tail
  constructor
  · intro apart front text next back split
    rcases touch_or_fuses alone beside split with off | fuses
    · exact off
    · exact (local_iff fuses split).mp (apart front text _ split)
  · intro apart front text back split
    obtain ⟨-, alone⟩ := List.forall_mem_append.mp (split ▸ alone)
    rcases readApart_or_fuses alone (List.isChain_append.mp (split ▸ beside)).2.1 with
      done | ⟨next, rest, rfl, fuses⟩
    · exact done
    · exact (local_iff fuses split).mpr (apart front text next rest split)

end Print

end GoTrivia

import GoTrivia.Proofs.Token.Lexing

/-!
# Line feeds outside comments

How far two places of a text stand apart is told by the line feeds between them.  Those that
lie inside a comment belong to the comment and do not count.  As long as no comment lies
between two places, their lines differ by the line feeds between them.
-/

set_option autoImplicit false

namespace GoTrivia

/-- The offsets of the line feeds in a text that begins at an offset. -/
def lineFeedsFrom (offset : Nat) : List Char → List Nat
  | [] => []
  | c :: cs =>
    if c = '\n' then offset :: lineFeedsFrom (offset + c.utf8Size) cs
    else lineFeedsFrom (offset + c.utf8Size) cs

/-- Whether an offset lies outside all comments of a text. -/
def isOutside (text : String) (offset : Nat) : Bool :=
  (lex text).comments.all fun comment =>
    !(decide (comment.span.start ≤ offset) && decide (offset < comment.span.stop))

/-- The number of line feeds between two offsets that lie outside comments. -/
def feedsBetween (text : String) (start stop : Nat) : Nat :=
  (lineFeedsFrom 0 text.toList).countP fun offset =>
    isOutside text offset && (decide (start ≤ offset) && decide (offset < stop))

/-- The line of an offset: the number of line feeds in front of it. -/
def lineAt (text : String) (offset : Nat) : Nat :=
  (lineFeedsFrom 0 text.toList).countP fun feed => decide (feed < offset)

/-! ## Lines -/

theorem lineFeedsFrom_append (offset : Nat) (front back : List Char) :
    lineFeedsFrom offset (front ++ back) =
      lineFeedsFrom offset front ++ lineFeedsFrom (offset + byteLength front) back := by
  induction front generalizing offset with
  | nil => simp [lineFeedsFrom]
  | cons c front ih =>
    rw [List.cons_append, lineFeedsFrom, lineFeedsFrom, ih, byteLength_cons, Nat.add_assoc]
    split <;> rfl

theorem mem_lineFeedsFrom {offset feed : Nat} {cs : List Char}
    (mem : feed ∈ lineFeedsFrom offset cs) :
    offset ≤ feed ∧ feed < offset + byteLength cs := by
  induction cs generalizing offset with
  | nil => simp [lineFeedsFrom] at mem
  | cons c cs ih =>
    have size := c.utf8Size_pos
    rw [lineFeedsFrom] at mem
    rw [byteLength_cons]
    split at mem
    · rcases List.mem_cons.mp mem with rfl | mem
      · omega
      · have := ih mem
        omega
    · have := ih mem
      omega

theorem length_lineFeedsFrom (offset : Nat) (cs : List Char) :
    (lineFeedsFrom offset cs).length = cs.count '\n' := by
  induction cs generalizing offset with
  | nil => rfl
  | cons c cs ih =>
    rw [lineFeedsFrom, List.count_cons]
    split
    · next isFeed => simp [ih, isFeed]
    · next other => simp [ih, other]

theorem lineAt_byteLength {text : String} {front back : List Char}
    (split : text.toList = front ++ back) : lineAt text (byteLength front) = front.count '\n' := by
  have early : ∀ feed ∈ lineFeedsFrom 0 front, decide (feed < byteLength front) = true := by
    intro feed mem
    have := mem_lineFeedsFrom mem
    simp only [decide_eq_true_eq]
    omega
  have late : ∀ feed ∈ lineFeedsFrom (0 + byteLength front) back,
      ¬decide (feed < byteLength front) = true := by
    intro feed mem
    have := mem_lineFeedsFrom mem
    simp only [decide_eq_true_eq]
    omega
  rw [lineAt, split, lineFeedsFrom_append, List.countP_append, List.countP_eq_length.mpr early,
    List.countP_eq_zero.mpr late, length_lineFeedsFrom, Nat.add_zero]

/-- What lies on a line lies between two characters. -/
theorem exists_of_getElem?_placesFrom {s : List Char} {place found : LineColumn} {offset : Nat}
    (lies : (placesFrom place s)[offset]? = some (some found)) :
    ∃ front back, s = front ++ back ∧ offset = byteLength front := by
  induction s generalizing place offset with
  | nil =>
    cases offset with
    | zero => exact ⟨[], [], rfl, rfl⟩
    | succ offset => simp [placesFrom] at lies
  | cons c s ih =>
    cases offset with
    | zero => exact ⟨[], c :: s, rfl, rfl⟩
    | succ offset =>
      rw [placesFrom, List.getElem?_cons_succ] at lies
      by_cases inside : offset < c.utf8Size - 1
      · rw [List.getElem?_append_left (by simpa using inside)] at lies
        simp [inside] at lies
      · rw [List.getElem?_append_right (by simpa using inside), List.length_replicate] at lies
        obtain ⟨front, back, rfl, same⟩ := ih lies
        have size := c.utf8Size_pos
        refine ⟨c :: front, back, rfl, ?_⟩
        rw [byteLength_cons]
        omega

/-- The line of an offset that lies on one. -/
theorem lineAt_of_lineOf? {text : String} (offset row : Nat)
    (lies : (LineResolver.ofText text).lineOf? offset = some row) : lineAt text offset = row := by
  obtain ⟨found, place, -⟩ := Option.map_eq_some_iff.mp lies
  have place : (placesFrom ⟨0, 0⟩ text.toList)[offset]? = some (some found) := by
    refine Option.join_eq_some_iff.mp ?_
    simpa [LineIndex.lineColumn?, LineIndex.ofText] using place
  obtain ⟨front, back, split, rfl⟩ := exists_of_getElem?_placesFrom place
  rw [lineOf?_byteLength split] at lies
  rw [lineAt_byteLength split]
  exact Option.some.inj lies

/-- Items begin and end on the lines of their ends. -/
theorem lineOf?_eq_lineAt {text : String} {resolver : LineResolver}
    (indexes : resolver.Indexes text) {item : Item} (mem : item ∈ items text) :
    resolver.lineOf? item.span.start = some (lineAt text item.span.start) ∧
      resolver.lineOf? item.span.stop = some (lineAt text item.span.stop) := by
  obtain ⟨front, inside, back, split, spans⟩ := Lex.covers_of_mem mem
  rw [flatMap_chars_pieces] at split
  have split' : text.toList = (front ++ inside) ++ back := by rw [split, List.append_assoc]
  rw [spans, Nat.zero_add, Nat.zero_add, lineAt_byteLength split, lineAt_byteLength split']
  exact ⟨indexes.counts split, indexes.counts split'⟩

/-! ## Counting -/

/-- Counting between two offsets goes on at any offset between them. -/
theorem feedsBetween_add (text : String) {start middle stop : Nat} (first : start ≤ middle)
    (second : middle ≤ stop) :
    feedsBetween text start stop = feedsBetween text start middle + feedsBetween text middle stop := by
  unfold feedsBetween
  generalize lineFeedsFrom 0 text.toList = feeds
  induction feeds with
  | nil => rfl
  | cons feed feeds ih =>
    simp only [List.countP_cons, ih]
    cases isOutside text feed with
    | false => simp
    | true =>
      simp only [Bool.true_and, Bool.and_eq_true, decide_eq_true_eq]
      split <;> split <;> split <;> omega

/-- A comment has no line feeds outside comments. -/
theorem feedsBetween_comment {text : String} {comment : Lexeme}
    (mem : comment ∈ (lex text).comments) :
    feedsBetween text comment.span.start comment.span.stop = 0 := by
  refine List.countP_eq_zero.mpr fun feed _ => ?_
  simp only [Bool.and_eq_true, decide_eq_true_eq, not_and]
  intro outside begins ends
  have := List.all_eq_true.mp outside comment mem
  simp [begins, ends] at this

/-- Where no comment lies between two offsets, their lines tell the line feeds between them. -/
theorem feedsBetween_eq_sub {text : String} {start stop : Nat} (le : start ≤ stop)
    (clear : ∀ comment ∈ (lex text).comments,
      comment.span.stop ≤ start ∨ stop ≤ comment.span.start) :
    feedsBetween text start stop = lineAt text stop - lineAt text start := by
  have outside : ∀ feed, start ≤ feed → feed < stop → isOutside text feed = true := by
    intro feed begins ends
    refine List.all_eq_true.mpr fun comment mem => ?_
    rcases clear comment mem with before | behind
    · simp only [Bool.not_eq_true', Bool.and_eq_false_iff, decide_eq_false_iff_not]
      omega
    · simp only [Bool.not_eq_true', Bool.and_eq_false_iff, decide_eq_false_iff_not]
      omega
  have counted : lineAt text stop = lineAt text start + feedsBetween text start stop := by
    unfold feedsBetween lineAt
    generalize lineFeedsFrom 0 text.toList = feeds
    induction feeds with
    | nil => rfl
    | cons feed feeds ih =>
      simp only [List.countP_cons, ih]
      by_cases between : start ≤ feed ∧ feed < stop
      · have early : ¬feed < start := by omega
        simp only [outside feed between.1 between.2, between, early, decide_true, decide_false,
          Bool.and_self, if_true, Bool.false_eq_true, if_false]
        omega
      · have none : (isOutside text feed && (decide (start ≤ feed) && decide (feed < stop))) = false := by
          simp only [Bool.and_eq_false_iff, decide_eq_false_iff_not]
          omega
        simp only [none, decide_eq_true_eq, Bool.false_eq_true, if_false]
        split <;> split <;> omega
  omega

end GoTrivia

import GoTrivia.Proofs.Token.Items
import GoTrivia.Proofs.Token.LineFeeds
import Mathlib.Data.List.Pairwise
import Mathlib.Data.List.TakeWhile

/-!
# Outlines

What is left of a text once blanks are forgotten: its tokens and comments in their order, with
the line feeds between neighbours, of which no more than two count.  Inserted semicolons are
not part of it.

**Where semicolons go.** The outline tells all the same where semicolons are inserted, and so
the whole sequence of items with the lines between them.  An inserted semicolon stands right
behind the item in front of it, or at the line feed that comes next, so all line feeds lie
behind it.
-/

set_option autoImplicit false

namespace GoTrivia

/-- What a token or a comment says. -/
inductive Sign
  | token (kind : TokenKind) (text : String)
  | comment (text : String)
deriving DecidableEq, Repr

namespace Sign

/-- The semicolon that a text does not hold. -/
def inserted : Sign := token .semicolon ""

/-- Whether an item says that the text ends. -/
def isEnd : Sign → Bool
  | .token kind _ => kind == .eof
  | .comment _ => false

/-- The text of what is said. -/
def text : Sign → String
  | .token _ text => text
  | .comment text => text

end Sign

/-- What an item says. -/
def Item.sign : Item → Sign
  | .token found => .token found.kind found.text
  | .comment lexeme _ => .comment lexeme.text

theorem Item.text_sign (item : Item) : item.sign.text = item.lexeme.text := by
  cases item <;> rfl

/-- Whether a text holds an item.  The end of the text counts. -/
def Item.isWritten (item : Item) : Bool := item.sign != .inserted

/-- Items with the line feeds in front of each, counted from an offset on. -/
def spacedFrom (text : String) (place : Nat) : List Item → List (Sign × Nat)
  | [] => []
  | item :: rest =>
    (item.sign, lineAt text item.span.start - lineAt text place) ::
      spacedFrom text item.span.stop rest

/-- No more than two line feeds count. -/
def cappedFeeds (spaced : List (Sign × Nat)) : List (Sign × Nat) :=
  spaced.map fun (sign, feeds) => (sign, min feeds 2)

/-- Items with the line feeds between them, of which no more than two count. -/
def outlineOf (text : String) : List Item → List (Sign × Nat)
  | [] => []
  | first :: rest => (first.sign, 0) :: cappedFeeds (spacedFrom text first.span.stop rest)

/-- The tokens and comments of a text with the line feeds between neighbours, and between the
last of them and the end of the text. -/
def outline (text : String) : List (Sign × Nat) :=
  outlineOf text ((items text).filter Item.isWritten)

/-! ## Lines -/

theorem lineAt_mono (text : String) {start stop : Nat} (le : start ≤ stop) :
    lineAt text start ≤ lineAt text stop := by
  refine List.countP_mono_left fun feed _ early => ?_
  simp only [decide_eq_true_eq] at early ⊢
  omega

theorem spacedFrom_congr {text : String} {place place' : Nat}
    (same : lineAt text place = lineAt text place') (list : List Item) :
    spacedFrom text place list = spacedFrom text place' list := by
  cases list with
  | nil => rfl
  | cons item rest => rw [spacedFrom, spacedFrom, same]

/-! ## Where semicolons go -/

/-- Puts the inserted semicolons back in their places.  `pending` says that the last token ends
a statement which no semicolon has closed yet. -/
def insertSemicolons : (pending : Bool) → List (Sign × Nat) → List (Sign × Nat)
  | _, [] => []
  | pending, (sign, feeds) :: rest =>
    let here := pending && (decide (0 < feeds) || sign.isEnd)
    let behind := match sign with
      | .token kind _ => insertSemicolons kind.endsStatement rest
      | .comment text =>
        if pending && !here && text.toList.contains '\n' then
          (.inserted, 0) :: insertSemicolons false rest
        else insertSemicolons (pending && !here) rest
    if here then (.inserted, 0) :: (sign, feeds) :: behind else (sign, feeds) :: behind

/-- A pending semicolon goes in front of what stands on a later line. -/
theorem insertSemicolons_true {sign : Sign} {feeds : Nat} {rest : List (Sign × Nat)}
    (later : 0 < feeds) : insertSemicolons true ((sign, feeds) :: rest) =
      (.inserted, 0) :: insertSemicolons false ((sign, feeds) :: rest) := by
  simp [insertSemicolons, later]

/-- No semicolon goes in front of a token on the same line. -/
theorem insertSemicolons_token {pending : Bool} {kind : TokenKind} {text : String} {feeds : Nat}
    {rest : List (Sign × Nat)} (quiet : pending = true → feeds = 0) (goesOn : kind ≠ .eof) :
    insertSemicolons pending ((.token kind text, feeds) :: rest) =
      (.token kind text, feeds) :: insertSemicolons kind.endsStatement rest := by
  cases pending with
  | false => rfl
  | true => simp [insertSemicolons, quiet rfl, Sign.isEnd, goesOn]

/-- Nor in front of a comment, but perhaps behind it. -/
theorem insertSemicolons_comment {pending : Bool} {text : String} {feeds : Nat}
    {rest : List (Sign × Nat)} (quiet : pending = true → feeds = 0) :
    insertSemicolons pending ((.comment text, feeds) :: rest) = (.comment text, feeds) ::
      if pending && text.toList.contains '\n' then (.inserted, 0) :: insertSemicolons false rest
      else insertSemicolons pending rest := by
  cases pending with
  | false => rfl
  | true => simp [insertSemicolons, quiet rfl, Sign.isEnd]

theorem cappedFeeds_cons (sign : Sign) (feeds : Nat) (rest : List (Sign × Nat)) :
    cappedFeeds ((sign, feeds) :: rest) = (sign, min feeds 2) :: cappedFeeds rest := rfl

/-- Whether there are line feeds shows as long as any count. -/
theorem cappedFeeds_insertSemicolons (pending : Bool) (spaced : List (Sign × Nat)) :
    cappedFeeds (insertSemicolons pending spaced) =
      insertSemicolons pending (cappedFeeds spaced) := by
  induction spaced generalizing pending with
  | nil => rfl
  | cons entry spaced ih =>
    obtain ⟨sign, feeds⟩ := entry
    have later : decide (0 < min feeds 2) = decide (0 < feeds) := by
      rw [decide_eq_decide]
      omega
    simp only [cappedFeeds_cons, insertSemicolons, later]
    cases sign with
    | token kind text =>
      simp only []
      split <;> simp [cappedFeeds_cons, ih]
    | comment text =>
      simp only []
      split <;> split <;> simp [cappedFeeds_cons, ih]

/-- The first line feeds do not matter to semicolons if none is pending. -/
theorem insertSemicolons_false (sign : Sign) (feeds feeds' : Nat) (rest : List (Sign × Nat)) :
    ∃ more, insertSemicolons false ((sign, feeds) :: rest) = (sign, feeds) :: more ∧
      insertSemicolons false ((sign, feeds') :: rest) = (sign, feeds') :: more := by
  cases sign <;> exact ⟨_, rfl, rfl⟩

theorem Cut.measure_lineFeed {first : Char} {rest : List Char} {n : Nat}
    (measured : measure first rest = (.lineFeed, n)) : first = '\n' ∧ n = 0 := by
  cases measured_of_measure measured with
  | lineFeed isFeed => exact ⟨isFeed, rfl⟩

/-- A line comment ends in front of a line feed. -/
theorem Cut.not_mem_lineComment {first : Char} {rest : List Char} {n : Nat}
    (measured : measure first rest = (.lineComment, n)) : '\n' ∉ first :: rest.take n := by
  cases measured_of_measure measured with
  | @lineComment inside isSlash begins =>
    subst isSlash begins
    have taken : inside.take (inside.takeWhile (· ≠ '\n')).length = inside.takeWhile (· ≠ '\n') :=
      (List.prefix_iff_eq_take.mp (List.takeWhile_prefix _)).symm
    rw [List.take_succ_cons, taken]
    intro mem
    simp only [List.mem_cons, Char.reduceEq, false_or] at mem
    simpa using List.mem_takeWhile_imp mem

namespace Lex

variable {pending : Bool} {offset : Nat}

@[simp]
theorem isWritten_implicitSemicolon (offset : Nat) :
    (implicitSemicolon offset).isWritten = false := by simp [Item.isWritten, implicitSemicolon, Item.sign, Sign.inserted]

@[simp]
theorem isWritten_endOfText (offset : Nat) : (endOfText offset).isWritten = true := by
  simp [Item.isWritten, endOfText, Item.sign, Sign.inserted]

@[simp]
theorem isWritten_comment (lexeme : Lexeme) (closed : Bool) :
    (Item.comment lexeme closed).isWritten = true := by
  simp [Item.isWritten, Item.sign, Sign.inserted]

theorem isWritten_token {token : Token} (visible : token.text ≠ "") :
    (Item.token token).isWritten = true := by
  simp [Item.isWritten, Item.sign, Sign.inserted, visible]

@[simp]
theorem sign_endOfText (offset : Nat) : (endOfText offset).sign = .token .eof "" := rfl

@[simp]
theorem span_endOfText (offset : Nat) : (endOfText offset).span = .point offset := rfl

@[simp]
theorem spacedFrom_implicitSemicolon (text : String) (place offset : Nat) (rest : List Item) :
    spacedFrom text place (implicitSemicolon offset :: rest) =
      (.inserted, lineAt text offset - lineAt text place) :: spacedFrom text offset rest := rfl

theorem spacedFrom_comment (text : String) (place : Nat) (lexeme : Lexeme) (closed : Bool)
    (rest : List Item) : spacedFrom text place (.comment lexeme closed :: rest) =
      (.comment lexeme.text, lineAt text lexeme.span.start - lineAt text place) ::
        spacedFrom text lexeme.span.stop rest := rfl

/-- The end of the text is always written. -/
theorem exists_written (ps : List Piece) : ∃ item rest,
    (arrange pending offset ps).filter Item.isWritten = item :: rest := by
  have mem : ∀ pending offset, ∃ stop, endOfText stop ∈ arrange pending offset ps := by
    induction ps with
    | nil =>
      intro pending offset
      refine ⟨offset, ?_⟩
      unfold arrange
      split <;> simp
    | cons piece ps ih =>
      intro pending offset
      obtain ⟨stop, later⟩ := ih (pendingBehind pending piece) (offset + byteLength piece.chars)
      refine ⟨stop, ?_⟩
      rw [arrange_cons]
      exact List.mem_append_right _ later
  obtain ⟨stop, isEnd⟩ := mem pending offset
  exact List.exists_cons_of_ne_nil (List.ne_nil_of_mem (List.mem_filter.mpr ⟨isEnd, isWritten_endOfText stop⟩))

theorem spacedFrom_arrange {text : String} {place : Nat} {done s : List Char}
    (whole : text.toList = done ++ s)
    (quiet : pending = true → lineAt text place = lineAt text (byteLength done)) :
    spacedFrom text place (arrange pending (byteLength done) (pieces s)) =
      insertSemicolons pending (spacedFrom text place
        ((arrange pending (byteLength done) (pieces s)).filter Item.isWritten)) := by
  induction s using pieces.induct generalizing pending place done with
  | case1 =>
    rw [pieces]
    cases pending with
    | false => simp [arrange, spacedFrom, insertSemicolons]
    | true => simp [arrange, spacedFrom, insertSemicolons, quiet rfl, Sign.isEnd]
  | case2 first rest kind n measured ih =>
    have further : text.toList = (done ++ first :: rest.take n) ++ rest.drop n := by simp [whole]
    have stop : byteLength done + byteLength (Piece.chars ⟨kind, first, rest.take n⟩) =
        byteLength (done ++ first :: rest.take n) := (byteLength_append _ _).symm
    have quiet' : pending = true → lineAt text (byteLength done) - lineAt text place = 0 :=
      fun isPending => by rw [quiet isPending, Nat.sub_self]
    rw [pieces, measured, arrange_cons, stop]
    cases kind with
    | blank =>
      obtain ⟨other, rfl⟩ := Cut.measure_blank measured
      have same : lineAt text (byteLength (done ++ first :: rest.take 0)) =
          lineAt text (byteLength done) := by
        rw [lineAt_byteLength further, lineAt_byteLength whole, List.count_append]
        simp [other]
      exact ih further fun isPending => (quiet isPending).trans same.symm
    | lineFeed =>
      cases pending with
      | false => exact ih further (by simp [pendingBehind])
      | true =>
        have same := quiet rfl
        obtain ⟨isFeed, rfl⟩ := Cut.measure_lineFeed measured
        obtain ⟨item, more, written⟩ := @exists_written false
          (byteLength (done ++ first :: rest.take 0)) (pieces (rest.drop 0))
        have later : 0 < lineAt text item.span.start - lineAt text (byteLength done) := by
          have mem : item ∈ arrange false (byteLength (done ++ first :: rest.take 0))
              (pieces (rest.drop 0)) := List.mem_of_mem_filter (written ▸ List.mem_cons_self)
          have behind := lineAt_mono text (covers_of_mem mem).le
          rw [lineAt_byteLength further, List.count_append, isFeed] at behind
          rw [lineAt_byteLength whole]
          simp at behind
          omega
        have rest := @ih false (byteLength done) _ further (by simp)
        simp only [emitted, pendingBehind, if_true, List.singleton_append, List.filter_cons,
          spacedFrom_implicitSemicolon, isWritten_implicitSemicolon, Bool.false_eq_true, if_false,
          rest, spacedFrom_congr same, Nat.sub_self]
        rw [written, spacedFrom, insertSemicolons_true later]
    | lineComment =>
      have behind := @ih pending
        (byteLength done + byteLength (Piece.chars ⟨.lineComment, first, rest.take n⟩)) _
        further fun _ => congrArg (lineAt text) stop
      have oneLine : (Piece.text ⟨.lineComment, first, rest.take n⟩).toList.contains '\n' = false := by
        simpa [Piece.text, Piece.chars] using Cut.not_mem_lineComment measured
      simp only [emitted, pendingBehind, List.singleton_append, List.filter_cons_of_pos,
        isWritten_comment, spacedFrom_comment, behind]
      rw [insertSemicolons_comment quiet', oneLine, Bool.and_false]
      rfl
    | blockComment closed =>
      have behind := fun pending => @ih pending
        (byteLength done + byteLength (Piece.chars ⟨.blockComment closed, first, rest.take n⟩)) _
        further fun _ => congrArg (lineAt text) stop
      have chars : (Piece.text ⟨.blockComment closed, first, rest.take n⟩).toList =
          Piece.chars ⟨.blockComment closed, first, rest.take n⟩ := String.toList_ofList
      cases feeds : (Piece.chars ⟨.blockComment closed, first, rest.take n⟩).contains '\n' <;>
        cases pending <;>
        simp only [emitted, pendingBehind, feeds, Bool.and_true, Bool.and_false, Bool.not_true,
          Bool.not_false, Bool.false_eq_true, if_true, if_false, List.cons_append, List.nil_append,
          List.filter_cons, isWritten_comment, isWritten_implicitSemicolon, spacedFrom_comment,
          spacedFrom_implicitSemicolon, behind, Nat.sub_self] <;>
        rw [insertSemicolons_comment quiet', chars, feeds] <;> rfl
    | token kind =>
      have goesOn : kind ≠ .eof := by
        have other : (Cut.token first rest).1 ≠ .eof := Cut.ne_eof_token
        rwa [Cut.token_of_measure measured] at other
      have visible := ofList_chars_ne_empty ⟨.token kind, first, rest.take n⟩
      have behind := @ih kind.endsStatement
        (byteLength done + byteLength (Piece.chars ⟨.token kind, first, rest.take n⟩)) _ further
        fun _ => congrArg (lineAt text) stop
      simp only [emitted, pendingBehind, List.singleton_append]
      rw [List.filter_cons_of_pos (isWritten_token visible)]
      simp only [spacedFrom, Item.span]
      rw [behind]
      exact (insertSemicolons_token quiet' goesOn).symm

end Lex

/-- The outline of a text tells its items and the lines between them. -/
theorem outlineOf_items (text : String) :
    outlineOf text (items text) = insertSemicolons false (outline text) := by
  have whole : text.toList = [] ++ text.toList := rfl
  have inserted := @Lex.spacedFrom_arrange false text 0 [] text.toList whole (by simp)
  obtain ⟨first, rest, written⟩ := @Lex.exists_written false 0 (pieces text.toList)
  have listed : (items text).filter Item.isWritten = first :: rest := written
  rw [byteLength_nil, written, spacedFrom] at inserted
  obtain ⟨more, same, zero⟩ := insertSemicolons_false first.sign
    (lineAt text first.span.start - lineAt text 0) 0 (spacedFrom text first.span.stop rest)
  rw [outline, listed, outlineOf]
  have capped : (first.sign, 0) :: cappedFeeds (spacedFrom text first.span.stop rest) =
      cappedFeeds ((first.sign, 0) :: spacedFrom text first.span.stop rest) := rfl
  rw [capped, ← cappedFeeds_insertSemicolons, zero]
  rw [same] at inserted
  unfold items
  generalize Lex.arrange false 0 (pieces text.toList) = all at inserted
  cases all with
  | nil => cases inserted
  | cons item others =>
    rw [spacedFrom, List.cons.injEq, Prod.mk.injEq] at inserted
    obtain ⟨⟨sign, -⟩, others⟩ := inserted
    rw [outlineOf, sign, others]
    rfl

/-- Texts with the same outline have items that say the same, with the same line feeds between
them as long as these count. -/
theorem outlineOf_items_congr {text text' : String} (same : outline text = outline text') :
    outlineOf text (items text) = outlineOf text' (items text') := by
  rw [outlineOf_items, outlineOf_items, same]

/-! ## Items side by side -/

/-- Where items that stand side by side begin and end. -/
def seams (pairs : List (Item × Item)) : List (Nat × Nat) :=
  pairs.flatMap fun (item, item') =>
    [(item.span.start, item'.span.start), (item.span.stop, item'.span.stop)]

/-- Two places of two texts, the first of either in front of the second, with as many lines in
between in the one text as in the other, as long as these count. -/
structure Paced (text text' : String) (place next : Nat × Nat) : Prop where
  left : place.1 ≤ next.1
  right : place.2 ≤ next.2
  feeds : min (lineAt text next.1 - lineAt text place.1) 2 =
    min (lineAt text' next.2 - lineAt text' place.2) 2

variable {text text' : String}

theorem Paced.trans {first second third : Nat × Nat} (start : Paced text text' first second)
    (stop : Paced text text' second third) : Paced text text' first third := by
  have left := lineAt_mono text start.left
  have left' := lineAt_mono text stop.left
  have right := lineAt_mono text' start.right
  have right' := lineAt_mono text' stop.right
  have feeds := start.feeds
  have feeds' := stop.feeds
  exact ⟨Nat.le_trans start.left stop.left, Nat.le_trans start.right stop.right, by omega⟩

theorem Paced.refl (place : Nat × Nat) : Paced text text' place place :=
  ⟨Nat.le_refl _, Nat.le_refl _, by simp⟩

/-- The lines an item takes up are those of its text. -/
theorem lineAt_stop {item : Item} (mem : item ∈ items text) : lineAt text item.span.stop =
    lineAt text item.span.start + item.sign.text.toList.count '\n' := by
  have cites := Lex.cites_of_mem mem
  rw [flatMap_chars_pieces] at cites
  obtain ⟨front, back, split, spans⟩ := cites
  have split' : text.toList = (front ++ item.lexeme.text.toList) ++ back := by
    rw [split, List.append_assoc]
  have spans : item.span = ⟨byteLength front, byteLength (front ++ item.lexeme.text.toList)⟩ := by
    cases item <;> simpa [Item.span, Item.lexeme] using spans
  rw [spans, lineAt_byteLength split, lineAt_byteLength split', List.count_append, item.text_sign]

theorem outlineOf_cons_cons (text : String) (item next : Item) (rest : List Item) :
    outlineOf text (item :: next :: rest) = (item.sign, 0) ::
      (next.sign, min (lineAt text next.span.start - lineAt text item.span.stop) 2) ::
        (outlineOf text (next :: rest)).tail := rfl

theorem length_outlineOf (text : String) (list : List Item) :
    (outlineOf text list).length = list.length := by
  have spaced (place : Nat) (rest : List Item) :
      (spacedFrom text place rest).length = rest.length := by
    induction rest generalizing place with
    | nil => rfl
    | cons item rest ih => simp [spacedFrom, ih]
  cases list with
  | nil => rfl
  | cons first rest => simp [outlineOf, cappedFeeds, spaced]

/-- Items with the same outline stand side by side, seam by seam. -/
theorem paced_of_outlineOf {list list' : List Item} (mem : ∀ item ∈ list, item ∈ items text)
    (mem' : ∀ item ∈ list', item ∈ items text')
    (apart : list.Pairwise fun item next => item.span.stop ≤ next.span.start)
    (apart' : list'.Pairwise fun item next => item.span.stop ≤ next.span.start)
    (same : outlineOf text list = outlineOf text' list') :
    List.Forall₂ (fun item item' => item.sign = item'.sign) list list' ∧
      (seams (list.zip list')).IsChain (Paced text text') := by
  have lengths := congrArg List.length same
  rw [length_outlineOf, length_outlineOf] at lengths
  induction list generalizing list' with
  | nil =>
    cases list' with
    | nil => exact ⟨.nil, .nil⟩
    | cons item' rest' => cases lengths
  | cons item rest ih =>
    cases list' with
    | nil => cases lengths
    | cons item' rest' =>
      obtain ⟨here, mem⟩ := List.forall_mem_cons.mp mem
      obtain ⟨here', mem'⟩ := List.forall_mem_cons.mp mem'
      obtain ⟨behind, apart⟩ := List.pairwise_cons.mp apart
      obtain ⟨behind', apart'⟩ := List.pairwise_cons.mp apart'
      have sign : item.sign = item'.sign := by simpa [outlineOf] using (List.cons.inj same).1
      have inside : Paced text text' (item.span.start, item'.span.start)
          (item.span.stop, item'.span.stop) := by
        refine ⟨ordered_of_mem_items here, ordered_of_mem_items here', ?_⟩
        simp only [lineAt_stop here, lineAt_stop here', sign, Nat.add_sub_cancel_left]
      cases rest with
      | nil =>
        obtain rfl : rest' = [] := List.eq_nil_of_length_eq_zero (by simpa using lengths.symm)
        exact ⟨.cons sign .nil, .cons_cons inside (.singleton _)⟩
      | cons next more =>
        cases rest' with
        | nil => simp at lengths
        | cons next' more' =>
          simp only [outlineOf_cons_cons, List.cons.injEq, Prod.mk.injEq] at same
          obtain ⟨-, ⟨nextSign, feeds⟩, others⟩ := same
          have tails : outlineOf text (next :: more) = outlineOf text' (next' :: more') :=
            List.cons_eq_cons.mpr ⟨congrArg (·, 0) nextSign, others⟩
          obtain ⟨signs, chain⟩ := ih mem mem' apart apart' tails (by simpa using lengths)
          have between : Paced text text' (item.span.stop, item'.span.stop)
              (next.span.start, next'.span.start) :=
            ⟨behind next List.mem_cons_self, behind' next' List.mem_cons_self, feeds⟩
          exact ⟨.cons sign signs, .cons_cons inside (.cons_cons between chain)⟩

instance : Trans (Paced text text') (Paced text text') (Paced text text') := ⟨Paced.trans⟩

/-- Where the items of two texts begin and end, item by item. -/
def places (text text' : String) : List (Nat × Nat) := seams ((items text).zip (items text'))

/-- The items of texts with the same outline say the same, and their places are in order. -/
theorem pairwise_places (same : outline text = outline text') :
    List.Forall₂ (fun item item' => item.sign = item'.sign) (items text) (items text') ∧
      (places text text').Pairwise (Paced text text') := by
  obtain ⟨signs, chain⟩ := paced_of_outlineOf (fun _ mem => mem) (fun _ mem => mem)
    (pairwise_items text) (pairwise_items text') (outlineOf_items_congr same)
  exact ⟨signs, List.isChain_iff_pairwise.mp chain⟩

theorem mem_places {item item' : Item} (mem : (item, item') ∈ (items text).zip (items text')) :
    (item.span.start, item'.span.start) ∈ places text text' ∧
      (item.span.stop, item'.span.stop) ∈ places text text' :=
  ⟨List.mem_flatMap.mpr ⟨_, mem, List.mem_cons_self⟩,
    List.mem_flatMap.mpr ⟨_, mem, List.mem_cons_of_mem _ List.mem_cons_self⟩⟩

/-- Of two members of an ordered list one comes first, or they are the same. -/
theorem eq_or_of_pairwise {α : Type} {relation : α → α → Prop} {list : List α} {a b : α}
    (pairwise : list.Pairwise relation) (mem : a ∈ list) (mem' : b ∈ list) :
    a = b ∨ relation a b ∨ relation b a := by
  have symm : Std.Symm fun a b => relation a b ∨ relation b a := ⟨fun _ _ => Or.symm⟩
  have either : list.Pairwise fun a b => relation a b ∨ relation b a := pairwise.imp Or.inl
  by_cases same : a = b
  · exact .inl same
  · exact .inr (either.forall mem mem' same)

/-- Any two places stand the same way round in both texts. -/
theorem paced_or_paced (same : outline text = outline text') {place next : Nat × Nat}
    (mem : place ∈ places text text') (mem' : next ∈ places text text') :
    Paced text text' place next ∨ Paced text text' next place := by
  rcases eq_or_of_pairwise (pairwise_places same).2 mem mem' with rfl | either
  · exact .inl (.refl _)
  · exact either

/-- As many line feeds stand between two places in either text, as long as these count. -/
theorem feeds_eq (same : outline text = outline text') {place next : Nat × Nat}
    (mem : place ∈ places text text') (mem' : next ∈ places text text') :
    min (lineAt text next.1 - lineAt text place.1) 2 =
      min (lineAt text' next.2 - lineAt text' place.2) 2 := by
  rcases paced_or_paced same mem mem' with before | behind
  · exact before.feeds
  · rw [Nat.sub_eq_zero_of_le (lineAt_mono text behind.left),
      Nat.sub_eq_zero_of_le (lineAt_mono text' behind.right)]

/-- What begins in front of a place in one text does so in the other, and so does what ends
there, if it is not empty. -/
theorem inFront_iff (same : outline text = outline text') {item item' : Item} {place : Nat × Nat}
    (mem : (item, item') ∈ (items text).zip (items text'))
    (visible : item.span.start < item.span.stop) (visible' : item'.span.start < item'.span.stop)
    (isPlace : place ∈ places text text') :
    (item.span.start < place.1 ↔ item'.span.start < place.2) ∧
      (item.span.stop ≤ place.1 ↔ item'.span.stop ≤ place.2) := by
  obtain ⟨⟨next, next'⟩, memNext, isSeam⟩ := List.mem_flatMap.mp isPlace
  have ordered := ordered_of_mem_items (List.of_mem_zip memNext).1
  have ordered' := ordered_of_mem_items (List.of_mem_zip memNext).2
  have rows := (List.pairwise_flatMap.mp (pairwise_places same).2).2
  have apart : (item, item') = (next, next') ∨
      (item.span.stop ≤ next.span.start ∧ item'.span.stop ≤ next'.span.start) ∨
      (next.span.stop ≤ item.span.start ∧ next'.span.stop ≤ item'.span.start) := by
    refine (eq_or_of_pairwise rows mem memNext).imp_right (Or.imp (fun first => ?_) fun second => ?_)
    · have paced := first _ (List.mem_cons_of_mem _ List.mem_cons_self) _ List.mem_cons_self
      exact ⟨paced.left, paced.right⟩
    · have paced := second _ (List.mem_cons_of_mem _ List.mem_cons_self) _ List.mem_cons_self
      exact ⟨paced.left, paced.right⟩
  simp only [List.mem_cons, List.not_mem_nil, or_false] at isSeam
  rcases apart with whole | first | second
  · obtain ⟨rfl, rfl⟩ := Prod.mk.inj whole
    rcases isSeam with rfl | rfl <;> constructor <;> dsimp only <;> omega
  · rcases isSeam with rfl | rfl <;> constructor <;> dsimp only <;> omega
  · rcases isSeam with rfl | rfl <;> constructor <;> dsimp only <;> omega

end GoTrivia

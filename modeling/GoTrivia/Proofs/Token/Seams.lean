import GoTrivia.Proofs.Token.Outline

/-!
# Where tokens begin and end

The tokens and comments that a text holds stand one behind the other.  Between two neighbours
there are only blanks, so a token that begins or ends there is empty: it is a semicolon that was
inserted, and it stands on the line where the first of the two ends.

So whatever begins or ends with a token stands on the line where the last of them in front of
it ends, or where the next one begins.
-/

set_option autoImplicit false

namespace GoTrivia

/-! ## Shown items -/

/-- Whether a text holds characters of an item. -/
def Item.isShown (item : Item) : Bool := item.lexeme.text != ""

/-- The tokens and comments that a text holds, in order.  Inserted semicolons and the end of the
text are left out. -/
def shownItems (text : String) : List Item := (items text).filter Item.isShown

variable {text : String}

theorem mem_shownItems {item : Item} :
    item ∈ shownItems text ↔ item ∈ items text ∧ item.isShown = true := List.mem_filter

theorem isShown_iff {item : Item} (mem : item ∈ items text) :
    item.isShown = true ↔ item.span.start < item.span.stop := by
  have empty := (Lex.cites_of_mem mem).empty_iff
  rw [Lex.span_lexeme] at empty
  have ordered := ordered_of_mem_items mem
  rw [Item.isShown, bne_iff_ne, ne_eq, ← empty]
  omega

theorem lt_of_mem_shownItems {item : Item} (mem : item ∈ shownItems text) :
    item.span.start < item.span.stop :=
  (isShown_iff (mem_shownItems.mp mem).1).mp (mem_shownItems.mp mem).2

theorem pairwise_shownItems (text : String) :
    (shownItems text).Pairwise fun item next => item.span.stop ≤ next.span.start :=
  (pairwise_items text).filter _

/-! ## Inserted semicolons -/

/-- An offset on the line where something in front of it ends. -/
def RestsOn (text : String) (all : List Item) (offset : Nat) : Prop :=
  ∃ item ∈ all, item.span.start < item.span.stop ∧ item.span.stop ≤ offset ∧
    lineAt text item.span.stop = lineAt text offset

namespace Lex

variable {pending : Bool} {all : List Item}

/-- Whatever yields an item ends with it. -/
theorem restsOn_emitted {offset : Nat} {piece : Piece}
    (solid : ¬(piece.kind = .blank ∨ piece.kind = .lineFeed))
    (inside : ∀ item ∈ emitted pending offset piece, item ∈ all) :
    RestsOn text all (offset + byteLength piece.chars) := by
  obtain ⟨item, mem, spans⟩ := @exists_emitted pending offset piece solid
  have size := byteLength_pos piece
  refine ⟨item, inside item mem, ?_, ?_, ?_⟩
  · rw [spans]
    exact Nat.lt_add_of_pos_right size
  · rw [spans]
  · rw [spans]

/-- An inserted semicolon stands on the line where something in front of it ends. -/
theorem restsOn_implicitSemicolon {done s : List Char} {place : Nat}
    (whole : text.toList = done ++ s)
    (inside : ∀ item ∈ arrange pending (byteLength done) (pieces s), item ∈ all)
    (opened : pending = true → RestsOn text all (byteLength done))
    (mem : implicitSemicolon place ∈ arrange pending (byteLength done) (pieces s)) :
    RestsOn text all place := by
  induction s using pieces.induct generalizing pending done with
  | case1 =>
    rw [pieces, arrange] at mem
    split at mem
    · next isPending =>
      rcases List.mem_cons.mp mem with same | mem
      · obtain rfl : place = byteLength done := by simpa [implicitSemicolon, Span.point] using same
        exact opened isPending
      · simp [implicitSemicolon, endOfText] at mem
    · simp [implicitSemicolon, endOfText] at mem
  | case2 first rest kind n measured ih =>
    have further : text.toList = (done ++ first :: rest.take n) ++ rest.drop n := by simp [whole]
    have stop : byteLength done + byteLength (Piece.chars ⟨kind, first, rest.take n⟩) =
        byteLength (done ++ first :: rest.take n) := (byteLength_append _ _).symm
    rw [pieces, measured, arrange_cons] at mem inside
    obtain ⟨here, later⟩ := List.forall_mem_append.mp inside
    rw [stop] at mem later
    have solid (other : ¬(kind = .blank ∨ kind = .lineFeed)) :
        RestsOn text all (byteLength (done ++ first :: rest.take n)) := stop ▸ restsOn_emitted other here
    rcases List.mem_append.mp mem with mem | mem
    · unfold emitted at mem
      split at mem
      · cases mem
      · split at mem
        · next isPending =>
          obtain rfl : place = byteLength done := by
            simpa [implicitSemicolon, Span.point] using List.mem_singleton.mp mem
          exact opened isPending
        · cases mem
      · simp [implicitSemicolon] at mem
      · next closed isBlock =>
        obtain rfl : kind = .blockComment closed := isBlock
        split at mem
        · obtain rfl : place = _ := by simpa [implicitSemicolon, Span.point] using mem
          rw [stop]
          exact solid (by simp)
        · simp [implicitSemicolon] at mem
      · have filled := ofList_chars_ne_empty ⟨kind, first, rest.take n⟩
        simp [implicitSemicolon, filled.symm] at mem
    · refine ih further later (fun isPending => ?_) mem
      cases kind with
      | blank =>
        obtain ⟨other, rfl⟩ := Cut.measure_blank measured
        obtain ⟨item, mem, filled, before, same⟩ := opened isPending
        refine ⟨item, mem, filled, Nat.le_trans before ?_, same.trans ?_⟩
        · rw [byteLength_append]
          exact Nat.le_add_right _ _
        · rw [lineAt_byteLength further, lineAt_byteLength whole, List.count_append]
          simp [other]
      | lineFeed => cases isPending
      | lineComment => exact solid (by simp)
      | blockComment closed => exact solid (by simp)
      | token kind => exact solid (by simp)

end Lex

/-! ## Seams -/

/-- Whether a token of a text begins or ends at an offset. -/
def IsSeam (text : String) (offset : Nat) : Prop :=
  ∃ token ∈ (lex text).tokens, offset = token.span.start ∨ offset = token.span.stop

/-- A token without text was inserted or closes the text. -/
theorem token_cases_of_mem {token : Token} (mem : token ∈ (lex text).tokens) :
    .token token ∈ shownItems text ∨
      (∃ place, token.span = .point place ∧ RestsOn text (items text) place) ∨
        token.span = .point (byteLength text.toList) := by
  have isItem := mem_items_of_token mem
  rcases Lex.token_of_mem isItem with ⟨place, same⟩ | ⟨place, same⟩ | ⟨piece, -, -, start, same⟩
  · rw [same] at isItem
    obtain rfl : token = _ := Item.token.inj same
    have whole : text.toList = [] ++ text.toList := rfl
    exact .inr (.inl ⟨place, rfl,
      Lex.restsOn_implicitSemicolon whole (fun _ mem => mem) (by simp) isItem⟩)
  · obtain ⟨front, ended, others⟩ := ended_lex text
    obtain rfl : token = _ := Item.token.inj same
    rw [ended] at mem
    rcases List.mem_append.mp mem with mem | mem
    · exact absurd rfl (others _ mem)
    · exact .inr (.inr (congrArg (·.span) (List.mem_singleton.mp mem)))
  · refine .inl (mem_shownItems.mpr ⟨isItem, ?_⟩)
    rw [Item.isShown, Item.lexeme, same]
    exact bne_iff_ne.mpr (ofList_chars_ne_empty piece)

/-- No item lies between two neighbours. -/
theorem apart_of_neighbours {front back : List Item} {item next : Item}
    (split : shownItems text = front ++ item :: next :: back) {other : Item}
    (mem : other ∈ shownItems text) :
    other.span.stop ≤ item.span.stop ∨ next.span.start ≤ other.span.start := by
  have pairwise := pairwise_shownItems text
  have filled := fun item => @lt_of_mem_shownItems text item
  rw [split] at pairwise mem filled
  have first := filled item (by simp)
  have second := filled next (by simp)
  obtain ⟨-, following, across⟩ := List.pairwise_append.mp pairwise
  rcases List.mem_append.mp mem with mem | mem
  · have := across other mem item List.mem_cons_self
    exact .inl (by omega)
  · rcases List.mem_cons.mp mem with rfl | mem
    · exact .inl (Nat.le_refl _)
    · rcases List.mem_cons.mp mem with rfl | mem
      · exact .inr (Nat.le_refl _)
      · have := (List.pairwise_cons.mp (List.pairwise_cons.mp following).2).1 other mem
        exact .inr (by omega)

/-- Between neighbours, a token begins or ends on the line where the first of the two ends or on
the line where the second one begins. -/
theorem lineAt_seam {front back : List Item} {item next : Item}
    (split : shownItems text = front ++ item :: next :: back) {offset : Nat}
    (seam : IsSeam text offset) (behind : item.span.stop ≤ offset) (before : offset ≤ next.span.start) :
    lineAt text offset = lineAt text item.span.stop ∨
      lineAt text offset = lineAt text next.span.start := by
  obtain ⟨token, mem, seam⟩ := seam
  rcases token_cases_of_mem mem with shown | ⟨place, spans, other, found, lt, stop, same⟩ | spans
  · have lt : token.span.start < token.span.stop := lt_of_mem_shownItems shown
    rcases apart_of_neighbours split shown with early | late
    · have early : token.span.stop ≤ item.span.stop := early
      exact .inl (congrArg _ (by omega))
    · have late : next.span.start ≤ token.span.start := late
      exact .inr (congrArg _ (by omega))
  · obtain rfl : offset = place := by simpa [spans] using seam
    have shown : other ∈ shownItems text := mem_shownItems.mpr ⟨found, (isShown_iff found).mpr lt⟩
    rcases apart_of_neighbours split shown with early | late
    · have := lineAt_mono text early
      have := lineAt_mono text behind
      exact .inl (by omega)
    · omega
  · obtain rfl : offset = byteLength text.toList := by simpa [spans] using seam
    have mem : next ∈ shownItems text := by simp [split]
    have := lt_of_mem_shownItems mem
    have := stop_le_of_mem_items (mem_shownItems.mp mem).1
    omega

end GoTrivia

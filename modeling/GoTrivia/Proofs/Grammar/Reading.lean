import GoTrivia.Proofs.Grammar.Derivation

/-!
# Reading a node slot by slot

A rule takes tokens and fills the slots of a node from left to right.  `Reading` is the
state of this: what was read so far, and that whatever tokens the remaining slots spell, all
slots together spell the tokens taken and those.  There is one step for each way to fill a
slot, and a node that has no slots left is closed.

**Trailing commas.** A list may end with a comma only in front of a closing bracket.  After
such a list the next token has to be one (`Trailing`).
-/

set_option autoImplicit false

namespace GoTrivia

namespace Grammar

/-! ## Nodes under construction -/

@[simp]
theorem Elements.isPresent_empty : Elements.empty.slot.isPresent = false := rfl

/-- A list that ends with a separator. -/
def Elements.Trailing (list : Elements) : Prop :=
  list.nodes.length = list.separators.length ∧ list.nodes ≠ []

/-- The elements of a list spell tokens with commas between them. -/
def Elements.Separated (list : Elements) (tokens : List Token) : Prop :=
  SpellsSeparated list.nodes list.separators tokens

/-- The elements of a list spell tokens with semicolons between them. -/
def Elements.Terminated (list : Elements) (tokens : List Token) : Prop :=
  list.separators = [] ∧ SpellsTerminated list.nodes tokens

/-- The end of the last token is where the tokens stop. -/
theorem stopsAt_lastStop {tokens : List Token} {stop : Nat}
    (visible : ∃ token ∈ tokens, token.isImplicit = false) :
    StopsAt tokens (lastStop stop tokens) := by
  induction tokens generalizing stop with
  | nil => simp at visible
  | cons token tokens ih =>
    by_cases later : ∃ token ∈ tokens, token.isImplicit = false
    · show StopsAt ([token] ++ tokens) _
      exact (ih later).append
    · have hidden : ∀ token ∈ tokens, token.isImplicit = true := by simpa using later
      obtain ⟨other, mem, shown⟩ := visible
      obtain rfl | mem := List.mem_cons.mp mem
      · refine ⟨[], other, tokens, rfl, shown, hidden, ?_⟩
        have same : lastStop other.span.stop tokens = _ := lastStop_of_implicit hidden
        simpa [lastStop, shown] using same.symm
      · exact absurd ⟨other, mem, shown⟩ later

/-- The slots filled between two states, of a node that has the shapes `todo` left of its
`whole` shapes.  After a list with a `trail` a closing bracket has to follow. -/
structure Reading (kind : NodeKind) (origin : ParseState) (whole todo : List AnchorShape)
    (slots : List PositionalSlot) (tokens : List Token) (now : ParseState) (trail : Prop) :
    Prop where
  took : Took origin tokens now
  extend : ∀ {rest : List PositionalSlot} {tail : List Token}, SpellsSlots kind todo rest tail →
    (trail → Closing tail) → SpellsSlots kind whole (slots ++ rest) (tokens ++ tail)

namespace Reading

variable {kind : NodeKind} {origin now after : ParseState} {whole shapes : List AnchorShape}
  {shape : AnchorShape} {slots : List PositionalSlot} {tokens more : List Token} {trail : Prop}

theorem start (kind : NodeKind) (whole : List AnchorShape) (lawful : Lawful origin.tokens) :
    Reading kind origin whole whole [] [] origin False :=
  ⟨.refl lawful, fun rest _ => rest⟩

theorem lawful (reading : Reading kind origin whole shapes slots tokens now trail) :
    Lawful now.tokens := reading.took.lawful_after

theorem of_slots {slots' : List PositionalSlot}
    (reading : Reading kind origin whole shapes slots tokens now trail) (same : slots = slots') :
    Reading kind origin whole shapes slots' tokens now trail := same ▸ reading

/-- A token in a slot, behind a list or not. -/
theorem closer {expected : TokenKind} {text : TokenText}
    (reading : Reading kind origin whole (shape :: shapes) slots tokens now trail)
    (isToken : shape.slot = .token text) (current : now.current.kind = expected)
    (fits : TokenFits text expected) (joins : Joins kind shape.anchor [now.current])
    (closes : trail → expected.isClosing = true) :
    Reading kind origin whole shapes (slots ++ [.token (some now.current.toLexeme)])
      (tokens ++ [now.current]) now.advance False := by
  subst current
  refine ⟨reading.took.take fits.ne_eof, fun {rest tail} spells _ => ?_⟩
  rw [List.append_assoc, List.append_assoc]
  exact reading.extend (.token isToken fits joins spells)
    fun behind => ⟨now.current, tail, rfl, closes behind⟩

/-- A token in a slot. -/
theorem token {expected : TokenKind} {text : TokenText}
    (reading : Reading kind origin whole (shape :: shapes) slots tokens now False)
    (isToken : shape.slot = .token text) (current : now.current.kind = expected)
    (fits : TokenFits text expected) (joins : Joins kind shape.anchor [now.current]) :
    Reading kind origin whole shapes (slots ++ [.token (some now.current.toLexeme)])
      (tokens ++ [now.current]) now.advance False :=
  reading.closer isToken current fits joins False.elim

/-- An empty slot. -/
theorem vacant (reading : Reading kind origin whole (shape :: shapes) slots tokens now trail)
    (slot : PositionalSlot) (empty : slot = .vacant shape.slot) :
    Reading kind origin whole shapes (slots ++ [slot]) tokens now trail := by
  refine ⟨reading.took, fun spells closes => ?_⟩
  rw [List.append_assoc]
  exact reading.extend (.vacant empty spells) closes

/-- A child in a slot. -/
theorem child {tree : Positional}
    (reading : Reading kind origin whole (shape :: shapes) slots tokens now False)
    (isChild : shape.slot = .child) (took : Took now more after) (content : Spells tree more)
    (joins : Joins kind shape.anchor more) :
    Reading kind origin whole shapes (slots ++ [.child (some tree)]) (tokens ++ more) after
      False := by
  refine ⟨reading.took.trans took, fun spells _ => ?_⟩
  rw [List.append_assoc, List.append_assoc]
  exact reading.extend (.child isChild content joins spells) False.elim

/-- A list with separators in a slot. -/
theorem separated {layout : ListLayout} {list : Elements}
    (reading : Reading kind origin whole (shape :: shapes) slots tokens now False)
    (isList : shape.slot = .list layout) (separator : layout.separator = some ",")
    (took : Took now more after) (content : list.Separated more) :
    Reading kind origin whole shapes (slots ++ [list.slot]) (tokens ++ more) after
      list.Trailing := by
  refine ⟨reading.took.trans took, fun spells closes => ?_⟩
  rw [List.append_assoc, List.append_assoc]
  exact reading.extend
    (.separated isList separator content (fun same filled => closes ⟨same, filled⟩) spells)
    False.elim

/-- A list without separators in a slot. -/
theorem terminated {layout : ListLayout} {list : Elements}
    (reading : Reading kind origin whole (shape :: shapes) slots tokens now False)
    (isList : shape.slot = .list layout) (separator : layout.separator = none)
    (took : Took now more after) (content : list.Terminated more) :
    Reading kind origin whole shapes (slots ++ [list.slot]) (tokens ++ more) after False := by
  refine ⟨reading.took.trans took, fun spells _ => ?_⟩
  rw [List.append_assoc, List.append_assoc, Elements.slot, content.1]
  exact reading.extend (.terminated isList separator content.2 spells) False.elim

/-- A list that has no separator behind its last element. -/
theorem settle (reading : Reading kind origin whole shapes slots tokens now trail)
    (settled : ¬trail) : Reading kind origin whole shapes slots tokens now False :=
  ⟨reading.took, fun spells _ => reading.extend spells fun behind => absurd behind settled⟩

/-- A node with all its slots, one of them visible. -/
theorem closeVisible (reading : Reading kind origin (standardShape kind).anchors [] slots tokens now
      False) (below : kind ≠ .file) (filled : mayFill kind (slots.map Slot.isPresent) = true)
    (visible : ∃ token ∈ tokens, token.isImplicit = false) :
    Spells (.node kind (.closing origin.current.span.start now.lastEnd) slots) tokens := by
  have spells := reading.extend .nil False.elim
  rw [List.append_nil, List.append_nil] at spells
  have stops : StopsAt tokens now.lastEnd := by
    rw [reading.took.stop]
    exact stopsAt_lastStop visible
  have begins := reading.took.head stops.ne_nil
  have ordered : origin.current.span.start ≤ now.lastEnd := by
    have lawful := reading.took.lawful
    rw [reading.took.split] at lawful
    exact stops.le lawful begins
  refine .node spells filled begins rfl ?_ below
  rwa [Span.closing, Nat.max_eq_left ordered]

/-- A node with all its slots. -/
theorem close (reading : Reading kind origin (standardShape kind).anchors [] slots tokens now
      False) (below : kind ≠ .file) (filled : mayFill kind (slots.map Slot.isPresent) = true)
    (solid : Solid tokens) :
    Spells (.node kind (.closing origin.current.span.start now.lastEnd) slots) tokens := by
  obtain ⟨last, ends, other⟩ := solid
  exact reading.closeVisible below filled
    ⟨last, List.mem_of_getLast? ends, isImplicit_of_kind other⟩

/-- A node with all its slots that begins and ends like an operand. -/
theorem operand {first : TokenKind}
    (reading : Reading kind origin (standardShape kind).anchors [] slots tokens now False)
    (below : kind ≠ .file) (filled : mayFill kind (slots.map Slot.isPresent) = true)
    (current : origin.current.kind = first) (begins : first.beginsOperand = true)
    (ends : Ends tokens) :
    Operand (.node kind (.closing origin.current.span.start now.lastEnd) slots) tokens :=
  ⟨reading.close below filled ends.solid,
    ⟨_, reading.took.head ends.solid.ne_nil, by rw [current, begins]⟩, ends⟩

end Reading

/-- The tokens of an operand begin where the operand does. -/
theorem Took.start {origin now : ParseState} {tokens : List Token} {tree : Positional}
    (took : Took origin tokens now) (spells : Spells tree tokens) :
    tree.info.start = origin.current.span.start :=
  spells.start (took.head spells.ne_nil)

/-! ## Leaves -/

/-- A leaf made of the token in line. -/
theorem spells_leaf (kind : NodeKind) (below : kind ≠ .file) {anchor : Anchor} {origin : ParseState}
    (shape : (standardShape kind).anchors = [StandardShape.free anchor])
    (joins : ∀ tokens, Joins kind anchor tokens) (filled : mayFill kind [true] = true)
    (lawful : Lawful origin.tokens) (fits : TokenFits .free origin.current.kind) :
    Took origin [origin.current] origin.advance ∧
      Spells (.node kind (.closing origin.current.span.start origin.advance.lastEnd)
        [tokenSlot origin.current.toLexeme]) [origin.current] := by
  have reading := Reading.start kind (standardShape kind).anchors lawful
  rw [shape] at reading
  have reading := reading.token rfl rfl fits (joins _)
  rw [← shape] at reading
  exact ⟨reading.took, reading.close below filled ⟨_, rfl, fits.1⟩⟩

end Grammar

end GoTrivia

import GoTrivia.Proofs.Grammar.Running
import GoTrivia.Tree.Fit

/-!
# Trees that spell their tokens

`Spells` relates a tree to the tokens it was read from.  It follows the shape of each node
anchor by anchor: a token slot spells its token, a child slot what the child spells, a list
its elements with the commas or semicolons between them.  Semicolons that end statements and
declarations stand between the elements of a list and leave no trace in the tree.

**Spans.** A node begins with its first token and ends with its last one that was written.  No
node is a file inside another one.

**Joints.** Where the printed form of a node puts two tokens side by side, which tokens can
meet there depends on more than the shape; `Joins` records what the grammar knows at these
places.

**Empty brackets.** The grammar accepts a few brackets with nothing in between although the
shape wants the list inside to be filled.  A node is filled as its shape prescribes or has
such brackets (`mayFill`).
-/

set_option autoImplicit false

namespace GoTrivia

/-! ## Filled slots -/

@[simp]
theorem Slot.isPresent_token {ν τ σ : Type} (content : Option τ) :
    (Slot.token content : Slot ν τ σ).isPresent = content.isSome := rfl

@[simp]
theorem Slot.isPresent_child {ν τ σ : Type} (content : Option (SlotTree ν τ σ)) :
    (Slot.child content).isPresent = content.isSome := rfl

@[simp]
theorem Slot.isPresent_list {ν τ σ : Type} (elements : List (SlotTree ν τ σ)) (separators : σ) :
    (Slot.list elements separators).isPresent = !elements.isEmpty := rfl

/-- Whether an anchor is filled in a node with the given slots filled. -/
def presentAt (kind : NodeKind) (present : List Bool) (anchor : Anchor) : Bool :=
  match (standardShape kind).indexOf? anchor with
  | some index => (present[index]?).any id
  | none => false

/-- Whether the slots of a node are filled as its shape prescribes. -/
def wellFilled (kind : NodeKind) (present : List Bool) : Bool :=
  ((standardShape kind).anchors.zip present).all fun (shape, filled) =>
    (SlotTree.presenceFault? shape.presence filled (presentAt kind present)).isNone

/-- Opening brackets and the lists behind them that have to be filled, although the grammar
does not insist. -/
def bracketedLists : List (NodeKind × Anchor × Anchor) :=
  [(.indexListExpr, .lbrack, .indices), (.funcDecl, .recvOpen, .recv),
   (.funcDecl, .typeParamsOpen, .typeParams)]

/-- Whether a node has brackets with nothing between them that want a list there. -/
def hasEmptyBrackets (kind : NodeKind) (present : List Bool) : Bool :=
  bracketedLists.any fun (owner, opening, inside) =>
    owner == kind && presentAt kind present opening && !presentAt kind present inside

/-- The slots of a node that the grammar may fill. -/
def mayFill (kind : NodeKind) (present : List Bool) : Bool :=
  wellFilled kind present || hasEmptyBrackets kind present

/-! ## Conditions on tokens -/

/-- Whether tokens of a kind close a bracket. -/
def TokenKind.isClosing : TokenKind → Bool
  | .rightParen | .rightBracket | .rightBrace => true
  | _ => false

/-- Whether a type, an expression or a literal without its type may begin with a token of
this kind. -/
def TokenKind.beginsOperand (kind : TokenKind) : Bool :=
  kind.isLiteral || kind.isUnaryOperator ||
    [TokenKind.name, .leftParen, .leftBracket, .leftBrace, .funcKw, .mapKw, .structKw,
     .interfaceKw].contains kind

/-- Whether a token slot takes tokens of a kind. -/
def TokenFits : TokenText → TokenKind → Prop
  | .fixed text, kind => kind.spelling? = some text
  | .free, kind => kind ≠ .semicolon ∧ kind ≠ .eof ∧ kind ≠ .unknown ∧ kind ≠ .comma

/-- Tokens that begin like an operand. -/
def Starts (tokens : List Token) : Prop :=
  ∃ first, tokens.head? = some first ∧ first.kind.beginsOperand = true

/-- Tokens after which a line break ends the statement. -/
def Ends (tokens : List Token) : Prop :=
  ∃ last, tokens.getLast? = some last ∧ last.kind.endsStatement = true

/-- Tokens that do not end with a semicolon. -/
def Solid (tokens : List Token) : Prop :=
  ∃ last, tokens.getLast? = some last ∧ last.kind ≠ .semicolon

/-- Tokens that go on with a closing bracket. -/
def Closing (tokens : List Token) : Prop :=
  ∃ first rest, tokens = first :: rest ∧ first.kind.isClosing = true

/-- Tokens the last of which ends at an offset, inserted semicolons left out. -/
def StopsAt (tokens : List Token) (stop : Nat) : Prop :=
  ∃ front last back, tokens = front ++ last :: back ∧ last.isImplicit = false ∧
    (∀ token ∈ back, token.isImplicit = true) ∧ last.span.stop = stop

/-- What the tokens of an anchor are like where a shape puts them side by side with those of
a neighbour. -/
def Joins : NodeKind → Anchor → List Token → Prop
  | .unaryExpr, .op, tokens => ∀ token ∈ tokens, token.kind.isUnaryOperator = true
  | .unaryExpr, .x, tokens => Starts tokens
  | .starExpr, .x, tokens => Starts tokens
  | .sliceExpr, .high, tokens => Starts tokens
  | .selectorExpr, .x, tokens => Ends tokens
  | .selectorExpr, .sel, tokens => ∀ token ∈ tokens, token.kind = .name
  | .typeAssertExpr, .x, tokens => Ends tokens
  | .incDecStmt, .x, tokens => Ends tokens
  | .incDecStmt, .tok, tokens =>
    ∀ token ∈ tokens, token.kind = .plusPlus ∨ token.kind = .minusMinus
  | _, _, _ => True

/-! ## The relation -/

mutual
/-- A tree spells a list of tokens. -/
inductive Spells : Positional → List Token → Prop
  | node {kind : NodeKind} {span : Span} {slots : List PositionalSlot} {first : Token}
      {tokens : List Token}
      (content : SpellsSlots kind (standardShape kind).anchors slots tokens)
      (filled : mayFill kind (slots.map Slot.isPresent) = true)
      (begins : tokens.head? = some first) (start : span.start = first.span.start)
      (stop : StopsAt tokens span.stop) (below : kind ≠ .file) :
      Spells (.node kind span slots) tokens

/-- Slots with the shapes of their anchors spell a list of tokens. -/
inductive SpellsSlots :
    NodeKind → List AnchorShape → List PositionalSlot → List Token → Prop
  | nil {kind : NodeKind} : SpellsSlots kind [] [] []
  | vacant {kind : NodeKind} {shape : AnchorShape} {shapes : List AnchorShape}
      {slot : PositionalSlot} {slots : List PositionalSlot} {tokens : List Token}
      (empty : slot = .vacant shape.slot) (rest : SpellsSlots kind shapes slots tokens) :
      SpellsSlots kind (shape :: shapes) (slot :: slots) tokens
  | token {kind : NodeKind} {shape : AnchorShape} {shapes : List AnchorShape}
      {text : TokenText} {token : Token} {slots : List PositionalSlot} {tokens : List Token}
      (isToken : shape.slot = .token text) (fits : TokenFits text token.kind)
      (joins : Joins kind shape.anchor [token]) (rest : SpellsSlots kind shapes slots tokens) :
      SpellsSlots kind (shape :: shapes) (.token (some token.toLexeme) :: slots) (token :: tokens)
  | child {kind : NodeKind} {shape : AnchorShape} {shapes : List AnchorShape}
      {child : Positional} {slots : List PositionalSlot} {front tokens : List Token}
      (isChild : shape.slot = .child) (content : Spells child front)
      (joins : Joins kind shape.anchor front) (rest : SpellsSlots kind shapes slots tokens) :
      SpellsSlots kind (shape :: shapes) (.child (some child) :: slots) (front ++ tokens)
  | separated {kind : NodeKind} {shape : AnchorShape} {shapes : List AnchorShape}
      {layout : ListLayout} {nodes : List Positional} {separators : List Span}
      {slots : List PositionalSlot} {front tokens : List Token}
      (isList : shape.slot = .list layout) (separator : layout.separator = some ",")
      (content : SpellsSeparated nodes separators front)
      (closed : nodes.length = separators.length → nodes ≠ [] → Closing tokens)
      (rest : SpellsSlots kind shapes slots tokens) :
      SpellsSlots kind (shape :: shapes) (.list nodes separators :: slots) (front ++ tokens)
  | terminated {kind : NodeKind} {shape : AnchorShape} {shapes : List AnchorShape}
      {layout : ListLayout} {nodes : List Positional} {slots : List PositionalSlot}
      {front tokens : List Token}
      (isList : shape.slot = .list layout) (separator : layout.separator = none)
      (content : SpellsTerminated nodes front) (rest : SpellsSlots kind shapes slots tokens) :
      SpellsSlots kind (shape :: shapes) (.list nodes [] :: slots) (front ++ tokens)

/-- Nodes spell tokens with a comma behind each node, perhaps but the last. -/
inductive SpellsSeparated : List Positional → List Span → List Token → Prop
  | nil : SpellsSeparated [] [] []
  | last {node : Positional} {tokens : List Token} (content : Spells node tokens)
      (ends : Ends tokens) : SpellsSeparated [node] [] tokens
  | cons {node : Positional} {nodes : List Positional} {comma : Token} {separators : List Span}
      {front tokens : List Token} (content : Spells node front) (ends : Ends front)
      (isComma : comma.kind = .comma) (rest : SpellsSeparated nodes separators tokens) :
      SpellsSeparated (node :: nodes) (comma.span :: separators) (front ++ comma :: tokens)

/-- Nodes spell tokens with any number of semicolons around them. -/
inductive SpellsTerminated : List Positional → List Token → Prop
  | nil : SpellsTerminated [] []
  | skip {nodes : List Positional} {semicolon : Token} {tokens : List Token}
      (isSemicolon : semicolon.kind = .semicolon) (rest : SpellsTerminated nodes tokens) :
      SpellsTerminated nodes (semicolon :: tokens)
  | cons {node : Positional} {nodes : List Positional} {front tokens : List Token}
      (content : Spells node front) (rest : SpellsTerminated nodes tokens) :
      SpellsTerminated (node :: nodes) (front ++ tokens)
end

/-- A tree that spells an operand: something that begins and ends like one. -/
structure Operand (tree : Positional) (tokens : List Token) : Prop where
  spells : Spells tree tokens
  starts : Starts tokens
  ends : Ends tokens

/-- A tree that spells tokens after which a line break ends the statement. -/
def Ending (tree : Positional) (tokens : List Token) : Prop := Spells tree tokens ∧ Ends tokens

theorem Operand.ending {tree : Positional} {tokens : List Token} (operand : Operand tree tokens) :
    Ending tree tokens := ⟨operand.spells, operand.ends⟩

/-! ## Beginnings and ends -/

section Tokens

variable {front tokens : List Token} {token : Token}

theorem Starts.append (starts : Starts front) : Starts (front ++ tokens) := by
  obtain ⟨first, head, begins⟩ := starts
  exact ⟨first, by simp [head], begins⟩

theorem Ends.append (ends : Ends tokens) : Ends (front ++ tokens) := by
  obtain ⟨last, tail, closes⟩ := ends
  exact ⟨last, by simp [tail], closes⟩

theorem Ends.cons (ends : Ends tokens) : Ends (token :: tokens) := by
  rw [← List.singleton_append]
  exact ends.append

theorem Ends.single {kind : TokenKind} (current : token.kind = kind)
    (closes : kind.endsStatement = true) : Ends (front ++ [token]) :=
  ⟨token, by simp, current ▸ closes⟩

theorem Ends.solid (ends : Ends tokens) : Solid tokens := by
  obtain ⟨last, tail, closes⟩ := ends
  exact ⟨last, tail, fun semicolon => by simp [semicolon, TokenKind.endsStatement] at closes⟩

theorem Solid.append (solid : Solid tokens) : Solid (front ++ tokens) := by
  obtain ⟨last, tail, closes⟩ := solid
  exact ⟨last, by simp [tail], closes⟩

theorem Solid.single {kind : TokenKind} (current : token.kind = kind)
    (other : kind ≠ .semicolon) : Solid (front ++ [token]) :=
  ⟨token, by simp, current ▸ other⟩

theorem Solid.ne_nil (solid : Solid tokens) : tokens ≠ [] := by
  rintro rfl
  obtain ⟨last, tail, -⟩ := solid
  simp at tail

theorem TokenFits.ne_eof {text : TokenText} {kind : TokenKind} (fits : TokenFits text kind) :
    kind ≠ .eof := by
  rintro rfl
  cases text with
  | fixed text => exact absurd fits (by simp [TokenFits, show TokenKind.eof.spelling? = none from rfl])
  | free => exact fits.2.1 rfl

end Tokens

namespace StopsAt

variable {front tokens : List Token} {stop : Nat}

theorem ne_nil (stops : StopsAt tokens stop) : tokens ≠ [] := by
  obtain ⟨front, last, back, rfl, -⟩ := stops
  simp

/-- There is a token to stop at. -/
theorem visible (stops : StopsAt tokens stop) : ∃ token ∈ tokens, token.isImplicit = false := by
  obtain ⟨front, last, back, rfl, shown, -⟩ := stops
  exact ⟨last, by simp, shown⟩

theorem append (stops : StopsAt tokens stop) : StopsAt (front ++ tokens) stop := by
  obtain ⟨before, last, back, rfl, rest⟩ := stops
  exact ⟨front ++ before, last, back, by simp, rest⟩

/-- Tokens in order end behind their beginning. -/
theorem le {first : Token} {rest : List Token} (stops : StopsAt tokens stop)
    (lawful : Lawful (tokens ++ rest)) (begins : tokens.head? = some first) :
    first.span.start ≤ stop := by
  obtain ⟨front, last, back, rfl, -, -, rfl⟩ := stops
  rw [List.append_cons, List.append_assoc] at lawful
  refine lawful.le_of_append ?_ List.getLast?_concat
  cases front with
  | nil => simpa using begins
  | cons token front => simpa using begins

end StopsAt

namespace Spells

variable {tree : Positional} {tokens : List Token}

theorem stopsAt (spells : Spells tree tokens) : StopsAt tokens tree.info.stop := by
  cases spells with
  | node content filled begins start stop => exact stop

theorem ne_nil (spells : Spells tree tokens) : tokens ≠ [] := spells.stopsAt.ne_nil

/-- A tree begins where its first token does. -/
theorem start {first : Token} (spells : Spells tree tokens) (begins : tokens.head? = some first) :
    tree.info.start = first.span.start := by
  cases spells with
  | node content filled begins' start stop =>
    obtain rfl := Option.some.inj (begins'.symm.trans begins)
    exact start

end Spells

/-! ## Lists under construction -/

namespace SpellsSeparated

/-- A list has as many separators as elements, or one less. -/
theorem lengths : ∀ {nodes : List Positional} {separators : List Span} {tokens : List Token},
    SpellsSeparated nodes separators tokens →
      nodes.length = separators.length ∨ nodes.length = separators.length + 1
  | _, _, _, .nil => .inl rfl
  | _, _, _, .last _ _ => .inr rfl
  | _, _, _, .cons _ _ _ rest => by
      rcases rest.lengths with same | more
      · exact .inl (by simp [same])
      · exact .inr (by simp [more])

theorem push {node : Positional} {more : List Token} (content : Spells node more)
    (ends : Ends more) :
    ∀ {nodes : List Positional} {separators : List Span} {tokens : List Token},
      SpellsSeparated nodes separators tokens → nodes.length = separators.length →
        SpellsSeparated (nodes ++ [node]) separators (tokens ++ more)
  | _, _, _, .nil, _ => .last content ends
  | _, _, _, .last _ _, same => by simp at same
  | _, _, _, .cons first ends' isComma rest, same => by
      rw [List.append_assoc]
      exact .cons first ends' isComma (rest.push content ends (by simpa using same))

theorem separate {comma : Token} (isComma : comma.kind = .comma) :
    ∀ {nodes : List Positional} {separators : List Span} {tokens : List Token},
      SpellsSeparated nodes separators tokens → nodes.length = separators.length + 1 →
        SpellsSeparated nodes (separators ++ [comma.span]) (tokens ++ [comma])
  | _, _, _, .nil, more => by simp at more
  | _, _, _, .last content ends, _ => .cons content ends isComma .nil
  | _, _, _, .cons content ends isComma' rest, more => by
      rw [List.append_assoc]
      exact .cons content ends isComma' (rest.separate isComma (by simpa using more))

/-- One list behind another that ends with a separator. -/
theorem append {more : List Token} {nodes' : List Positional} {separators' : List Span} :
    ∀ {nodes : List Positional} {separators : List Span} {tokens : List Token},
      SpellsSeparated nodes separators tokens → nodes.length = separators.length →
        SpellsSeparated nodes' separators' more →
        SpellsSeparated (nodes ++ nodes') (separators ++ separators') (tokens ++ more)
  | _, _, _, .nil, _, further => further
  | _, _, _, .last _ _, same, _ => by simp at same
  | _, _, _, .cons content ends isComma rest, same, further => by
      rw [List.append_assoc]
      exact .cons content ends isComma (rest.append (by simpa using same) further)

/-- A list that does not end with a separator ends like its last element. -/
theorem ends : ∀ {nodes : List Positional} {separators : List Span} {tokens : List Token},
    SpellsSeparated nodes separators tokens → nodes.length = separators.length + 1 → Ends tokens
  | _, _, _, .nil, more => by simp at more
  | _, _, _, .last _ ends, _ => ends
  | _, _, _, .cons _ _ _ rest, more => (rest.ends (by simpa using more)).cons.append

end SpellsSeparated

namespace SpellsTerminated

theorem append {more : List Token} {nodes' : List Positional} :
    ∀ {nodes : List Positional} {tokens : List Token}, SpellsTerminated nodes tokens →
      SpellsTerminated nodes' more → SpellsTerminated (nodes ++ nodes') (tokens ++ more)
  | _, _, .nil, further => further
  | _, _, .skip isSemicolon rest, further => .skip isSemicolon (rest.append further)
  | _, _, .cons content rest, further => by
      rw [List.append_assoc]
      exact .cons content (rest.append further)

/-- A list with one more node. -/
theorem push {nodes : List Positional} {node : Positional} {tokens more : List Token}
    (list : SpellsTerminated nodes tokens) (content : Spells node more) :
    SpellsTerminated (nodes ++ [node]) (tokens ++ more) := by
  have single : SpellsTerminated [node] (more ++ []) := .cons content .nil
  rw [List.append_nil] at single
  exact list.append single

/-- A list with one more semicolon behind it. -/
theorem terminate {nodes : List Positional} {semicolon : Token} {tokens : List Token}
    (list : SpellsTerminated nodes tokens) (isSemicolon : semicolon.kind = .semicolon) :
    SpellsTerminated nodes (tokens ++ [semicolon]) := by
  have skipped : SpellsTerminated [] [semicolon] := .skip isSemicolon .nil
  simpa using list.append skipped

end SpellsTerminated

end GoTrivia

import GoTrivia.Proofs.Grammar.Params
import Mathlib.Data.List.Forall2

/-!
# The shape of what grows from a token list

Whether a text has errors or not, its tree only has nodes where the grammar puts them.  Two
things decide about an expression: how tightly an operator on top of it has to bind, and the
place it stands at, which says whether a brace behind a bare type name opens a literal.  Both
are handed down from a node to its children (`leastAt`, `placeAt`), so a tree is either allowed
at a place or not (`Grown`).

**Braces.** Where such literals are allowed and an expression was read as a whole, no brace
stands behind a bare type name: it would have been read as well.  Types are read without
literals wherever they stand, and brackets in a type are about types again.

**Lists.** A list whose shape has no separator has none.  In a list whose shape has one, each
separator is the comma behind the last token of its element, and at most the last element has
none behind it.

**Parameters.** A parameter list spells entries that are grouped into fields in order, unless
something was reported.  A tree that has grown carries how many diagnostics there are for
that.
-/

set_option autoImplicit false

namespace GoTrivia

/-- The trees a slot holds. -/
def Slot.trees {ν τ σ : Type} : Slot ν τ σ → List (SlotTree ν τ σ)
  | .token _ => []
  | .child tree => tree.toList
  | .list elements _ => elements

namespace AnchorShape

/-- Whether the lists at an anchor have separators, if it is one of a list. -/
def isSeparated? (shape : AnchorShape) : Option Bool :=
  match shape.slot with
  | .list layout => some layout.separator.isSome
  | _ => none

theorem isSome_separator {shape : AnchorShape} {layout : ListLayout} {separated : Bool}
    (isLayout : shape.slot = .list layout) (asked : shape.isSeparated? = some separated) :
    layout.separator.isSome = separated := by
  unfold isSeparated? at asked
  rw [isLayout] at asked
  exact Option.some.inj asked

end AnchorShape

namespace Grammar

/-! ## Places -/

/-- How tightly a binary operator binds, from one for the loosest to five. -/
def operatorPrecedence? : String → Option Nat
  | "||" => some 1
  | "&&" => some 2
  | "==" | "!=" | "<" | "<=" | ">" | ">=" => some 3
  | "+" | "-" | "|" | "^" => some 4
  | "*" | "/" | "%" | "<<" | ">>" | "&" | "&^" => some 5
  | _ => none

/-- Tighter than any binary operator binds. -/
def tightest : Nat := 6

/-- Places of operands: what an operator in front or a selector, an index, an assertion or a
call behind is about. -/
def isOperand : NodeKind → Anchor → Bool
  | .unaryExpr, .x | .starExpr, .x | .selectorExpr, .x | .indexExpr, .x | .indexListExpr, .x
  | .sliceExpr, .x | .typeAssertExpr, .x | .callExpr, .callee => true
  | _, _ => false

/-- How tightly an operator on top of a child has to bind. -/
def leastAt (kind : NodeKind) (anchor : Anchor) : Nat :=
  if isOperand kind anchor then tightest else 0

/-- Places between brackets. -/
def isBracketed : NodeKind → Anchor → Bool
  | .parenExpr, .x | .callExpr, .args | .indexExpr, .index | .sliceExpr, .low
  | .sliceExpr, .high | .indexListExpr, .indices | .compositeLit, .elts | .arrayType, .len
  | .funcLit, .body => true
  | _, _ => false

/-- Places in the header of a control clause. -/
def isHeader : NodeKind → Anchor → Bool
  | .ifStmt, .init | .ifStmt, .cond | .forStmt, .init | .forStmt, .cond | .forStmt, .post
  | .rangeStmt, .key | .rangeStmt, .value | .rangeStmt, .x | .switchStmt, .init
  | .switchStmt, .tag => true
  | _, _ => false

/-- How much stands at a place in code: an operand that more may follow, an expression or a
statement as a whole, or a line of a block. -/
inductive Extent
  | operand | whole | line
deriving DecidableEq

/-- A place in a tree: of a type or a name, or in code, where a brace behind a bare type name
opens a literal or does not. -/
inductive Place
  | type
  | code (extent : Extent) (literals : Bool)
deriving DecidableEq

namespace Place

/-- Where more may follow an operand. -/
abbrev operand (literals : Bool) : Place := code .operand literals

/-- Where an expression or a statement stands as a whole. -/
abbrev whole (literals : Bool) : Place := code .whole literals

/-- Where a statement or a clause stands in a block. -/
abbrev line (literals : Bool) : Place := code .line literals

/-- The same for more or less of the code. -/
def upTo (extent : Extent) : Place → Place
  | type => type
  | code _ literals => code extent literals

/-- A place between brackets that are about types in types and about expressions in code. -/
def bracketed : Place → Place
  | type => type
  | code _ _ => whole true

/-- Places where no brace behind a bare type name opens a literal. -/
def isShut : Place → Bool
  | type => true
  | code _ literals => !literals

/-- Places where all that follows an operand was read, literals included. -/
def isOpen : Place → Bool
  | code .whole true => true
  | _ => false

def isLine : Place → Bool
  | code .line _ => true
  | _ => false

end Place

/-- The place of a child, of which there may be several in a list. -/
def placeAt (place : Place) (kind : NodeKind) (anchor : Anchor) (index : Nat) : Place :=
  if isHeader kind anchor then .whole false
  else
    match kind, anchor, index with
    | .callExpr, .args, _ | .sliceExpr, .low, _ | .sliceExpr, .high, _ | .compositeLit, .elts, _
    | .arrayType, .len, _ | .funcLit, .body, _ => .whole true
    -- Behind the first of several type arguments it is clear that the others are types.
    | .parenExpr, .x, _ | .indexExpr, .index, _ | .indexListExpr, .indices, 0 => place.bracketed
    | .selectorExpr, .x, _ | .indexExpr, .x, _ | .indexListExpr, .x, _ | .sliceExpr, .x, _
    | .typeAssertExpr, .x, _ | .callExpr, .callee, _ | .compositeLit, .type, _ => place.upTo .operand
    | .file, .decls, _ | .genDecl, .specs, _ | .valueSpec, .values, _ | .funcDecl, .body, _
    | .unaryExpr, .x, _ | .starExpr, .x, _ | .binaryExpr, .x, _ | .binaryExpr, .y, _
    | .keyValueExpr, .key, _ | .keyValueExpr, .value, _ | .exprStmt, .x, _ | .assignStmt, .lhs, _
    | .assignStmt, .rhs, _ | .incDecStmt, .x, _ | .returnStmt, .results, _ | .declStmt, .decl, _
    | .goStmt, .call, _ | .deferStmt, .call, _ | .ifStmt, .body, _ | .ifStmt, .alternative, _
    | .forStmt, .body, _ | .rangeStmt, .body, _ | .switchStmt, .body, _ | .caseClause, .list, _
    | .caseClause, .body, _ => place.upTo .whole
    | .blockStmt, .list, _ => place.upTo .line
    | _, _, _ => .type

theorem placeAt_of_isHeader {place : Place} {kind : NodeKind} {anchor : Anchor} {index : Nat}
    (inHeader : isHeader kind anchor = true) : placeAt place kind anchor index = .whole false :=
  if_pos inHeader

/-- The kinds of bare type names. -/
def isTypeName : NodeKind → Bool
  | .ident | .selectorExpr | .indexExpr | .indexListExpr => true
  | _ => false

/-- Whether a node is a literal behind a bare type name. -/
def isNamedLiteral : NodeKind → List PositionalSlot → Bool
  | .compositeLit, .child (some type) :: _ => isTypeName type.kind
  | _, _ => false

/-- Nodes of these kinds may stand at a place whatever is in them and behind them. -/
def Place.isPlain (place : Place) : NodeKind → Bool
  | .binaryExpr | .compositeLit => false
  | .ident | .selectorExpr | .indexExpr | .indexListExpr => !place.isOpen
  | .caseClause => place.isLine
  | _ => true

/-- No brace stands behind a node: the first token that begins where it ends, or further
behind, is another one. -/
def Unbraced (whole : List Token) (span : Span) : Prop :=
  ∀ token, whole.find? (fun token => span.stop ≤ token.span.start) = some token →
    token.kind ≠ .leftBrace

/-- Lists of parameters. -/
def isParamList : NodeKind → Anchor → Bool
  | .funcDecl, .recv | .funcDecl, .typeParams | .funcDecl, .params | .funcDecl, .results
  | .funcType, .params | .funcType, .results | .typeSpec, .typeParams => true
  | _, _ => false

/-! ## Lists -/

/-- A comma stands right behind the last token of a node. -/
def Behind (whole : List Token) (node : Positional) (separator : Span) : Prop :=
  node.span.start ≤ node.span.stop ∧ ∃ front last comma back,
    whole = front ++ last :: comma :: back ∧ comma.kind = .comma ∧ comma.span = separator ∧
      last.isImplicit = false ∧ last.span.stop = node.span.stop

/-- Each separator is the comma behind its node, and at most the last node has none. -/
def CommaSeparated (whole : List Token) (nodes : List Positional) (separators : List Span) :
    Prop :=
  ∃ front rest, nodes = front ++ rest ∧ rest.length ≤ 1 ∧
    List.Forall₂ (Behind whole) front separators

/-- Separators as the layout of a list asks for them. -/
def SeparatedAs (whole : List Token) (layout : ListLayout) (nodes : List Positional)
    (separators : List Span) : Prop :=
  if layout.separator.isSome then CommaSeparated whole nodes separators else separators = []

/-! ## Parameters -/

/-- A field without a tag. -/
structure IsField (field : Positional) (names : List Positional) (separators : List Span)
    (type : Positional) : Prop where
  kind : field.kind = .field
  slots : field.slots = [.list names separators, childSlot type, .child none]

/-- A field of an entry that is a type alone. -/
def IsUnnamed (entry : Param) (field : Positional) : Prop :=
  entry.type = none ∧ IsField field [] [] entry.first

/-- Fields are made of entries in order.  Each field has the names of a run of entries, of which
the last one has the type and the others have commas behind them. -/
inductive NamedFields : List Param → List Positional → Prop
  | nil : NamedFields [] []
  | cons {shared entries : List Param} {last : Param} {type field : Positional}
      {separators : List Span} {fields : List Positional}
      (untyped : ∀ entry ∈ shared, entry.type = none) (typed : last.type = some type)
      (names : ∀ entry ∈ shared ++ [last], entry.first.kind = .ident)
      (commas : shared.map Param.separator = separators.map some)
      (isField : IsField field ((shared ++ [last]).map Param.first) separators type)
      (rest : NamedFields entries fields) :
      NamedFields (shared ++ last :: entries) (field :: fields)

/-- Fields are made of entries in order, which are types alone or names with types. -/
def Grouped (entries : List Param) (fields : List Positional) : Prop :=
  List.Forall₂ IsUnnamed entries fields ∨ NamedFields entries fields

/-- Fields are made of the entries that a part of the tokens spells. -/
def Fields (whole : List Token) (fields : List Positional) : Prop :=
  ∃ entries front inside back, whole = front ++ inside ++ back ∧
    SpellsEntries entries inside ∧ Grouped entries fields

/-! ## Trees -/

/-- The list of an anchor has the separators its shape asks for, and if it is a list of
parameters, its fields were grouped from entries, unless there are diagnostics. -/
def Laid (whole : List Token) (count : Nat) (kind : NodeKind) (shape : AnchorShape)
    (slot : PositionalSlot) : Prop :=
  ∀ nodes separators, slot = .list nodes separators →
    (∀ layout, shape.slot = .list layout → SeparatedAs whole layout nodes separators) ∧
      (isParamList kind shape.anchor = true → 0 < count ∨ Fields whole nodes)

/-- A tree that the grammar may put at a place where an operator on top has to bind at least so
tightly. -/
inductive Grown (whole : List Token) (count : Nat) : Place → Nat → Positional → Prop
  | operator {place : Place} {least precedence : Nat} {span : Span} {op : Lexeme}
      {x y : Positional} (binds : operatorPrecedence? op.text = some precedence)
      (atLeast : least ≤ precedence) (left : Grown whole count (place.upTo .whole) precedence x)
      (right : Grown whole count (place.upTo .whole) (precedence + 1) y) :
      Grown whole count place least
        (.node .binaryExpr span [childSlot x, tokenSlot op, childSlot y])
  | node {place : Place} {least : Nat} {kind : NodeKind} {span : Span}
      {slots : List PositionalSlot} (other : kind ≠ .binaryExpr)
      (unnamed : place.isShut = true → isNamedLiteral kind slots = false)
      (unbraced : place.isOpen = true → isTypeName kind = true → Unbraced whole span)
      (lined : kind = .caseClause → place.isLine = true)
      (counted : (standardShape kind).anchors.length = slots.length)
      (laid : ∀ pair ∈ (standardShape kind).anchors.zip slots, Laid whole count kind pair.1 pair.2)
      (below : ∀ pair ∈ (standardShape kind).anchors.zip slots, ∀ index tree,
        pair.2.trees[index]? = some tree → Grown whole count (placeAt place kind pair.1.anchor index)
          (leastAt kind pair.1.anchor) tree) :
      Grown whole count place least (.node kind span slots)

variable {whole : List Token} {count count' : Nat} {place : Place} {literals : Bool}
  {least least' : Nat} {tree : Positional}

theorem Laid.mono {kind : NodeKind} {shape : AnchorShape} {slot : PositionalSlot}
    (laid : Laid whole count kind shape slot) (le : count ≤ count') :
    Laid whole count' kind shape slot := by
  intro nodes separators isList
  obtain ⟨separated, grouped⟩ := laid nodes separators isList
  exact ⟨separated, fun isParams => (grouped isParams).imp_left fun pos => by omega⟩

/-- A tree may also stand where less is asked for, and more diagnostics do no harm. -/
theorem Grown.weaken (grown : Grown whole count place least tree) (le : count ≤ count')
    (bound : least' ≤ least) : Grown whole count' place least' tree := by
  induction grown generalizing least' with
  | operator binds atLeast _ _ leftIh rightIh =>
    exact .operator binds (Nat.le_trans bound atLeast) (leftIh (Nat.le_refl _))
      (rightIh (Nat.le_refl _))
  | node other unnamed unbraced lined counted laid below ih =>
    exact .node other unnamed unbraced lined counted (fun pair mem => (laid pair mem).mono le)
      fun pair mem index tree found => ih pair mem index tree found (Nat.le_refl _)

theorem Grown.mono (grown : Grown whole count place least tree) (le : count ≤ count') :
    Grown whole count' place least tree := grown.weaken le (Nat.le_refl _)

/-- An operand behind which no brace stands is a whole expression. -/
theorem Grown.finish (grown : Grown whole count (.operand literals) least tree)
    (unbraced : literals = true → isTypeName tree.kind = true → Unbraced whole tree.span) :
    Grown whole count (.whole literals) least tree := by
  cases grown with
  | operator binds atLeast left right => exact .operator binds atLeast left right
  | node other unnamed _ lined counted laid below =>
    refine .node other unnamed (fun isOpen => unbraced ?_) (fun isClause => ?_) counted laid below
    · cases literals with
      | false => cases isOpen
      | true => rfl
    · cases lined isClause

/-- What is whole may be a line. -/
theorem Grown.line (grown : Grown whole count (.whole literals) least tree) :
    Grown whole count (.line literals) least tree := by
  cases grown with
  | operator binds atLeast left right => exact .operator binds atLeast left right
  | node other unnamed _ _ counted laid below =>
    exact .node other unnamed nofun (fun _ => rfl) counted laid below

/-! ## Slots -/

/-- A slot that a node may have for an anchor. -/
structure Fill (whole : List Token) (count : Nat) (place : Place) (kind : NodeKind)
    (shape : AnchorShape) (slot : PositionalSlot) : Prop where
  laid : Laid whole count kind shape slot
  below : ∀ index tree, slot.trees[index]? = some tree →
    Grown whole count (placeAt place kind shape.anchor index) (leastAt kind shape.anchor) tree

/-- Slots that a node may have. -/
abbrev Fills (whole : List Token) (count : Nat) (place : Place) (kind : NodeKind)
    (shapes : List AnchorShape) (slots : List PositionalSlot) : Prop :=
  List.Forall₂ (Fill whole count place kind) shapes slots

namespace Fill

variable {kind : NodeKind} {shape : AnchorShape}

theorem token {lexeme : Option Lexeme} : Fill whole count place kind shape (.token lexeme) :=
  ⟨nofun, fun _ _ found => nomatch found⟩

theorem childless : Fill whole count place kind shape (.child none) :=
  ⟨nofun, fun _ _ found => nomatch found⟩

theorem child (grown : Grown whole count' (placeAt place kind shape.anchor 0) least tree)
    (le : count' ≤ count) (bound : leastAt kind shape.anchor ≤ least) :
    Fill whole count place kind shape (childSlot tree) := by
  refine ⟨nofun, fun index other found => ?_⟩
  obtain ⟨rfl, rfl⟩ : index = 0 ∧ tree = other := by
    simpa [childSlot, Slot.trees, List.getElem?_singleton] using found
  exact grown.weaken le bound

theorem optional {found : Option Positional} (grown : ∀ tree, found = some tree →
      Grown whole count' (placeAt place kind shape.anchor 0) least tree)
    (le : count' ≤ count) (bound : leastAt kind shape.anchor ≤ least) :
    Fill whole count place kind shape (.child found) := by
  cases found with
  | none => exact childless
  | some tree => exact child (grown tree rfl) le bound

theorem mono {slot : PositionalSlot} (fill : Fill whole count place kind shape slot)
    (le : count ≤ count') : Fill whole count' place kind shape slot :=
  ⟨fill.laid.mono le, fun index tree found => (fill.below index tree found).mono le⟩

theorem list {list : Elements} (laid : Laid whole count kind shape list.slot)
    (grown : ∀ index node, list.nodes[index]? = some node →
      Grown whole count' (placeAt place kind shape.anchor index) least node)
    (le : count' ≤ count) (bound : leastAt kind shape.anchor = 0) :
    Fill whole count place kind shape list.slot := by
  refine ⟨laid, fun index node (found : list.nodes[index]? = some node) =>
    (grown index node found).weaken le ?_⟩
  rw [bound]
  exact Nat.zero_le _

end Fill

theorem Fills.mono {kind : NodeKind} {shapes : List AnchorShape} {slots : List PositionalSlot}
    (fills : Fills whole count place kind shapes slots) (le : count ≤ count') :
    Fills whole count' place kind shapes slots := fills.imp fun _ _ fill => fill.mono le

/-- A node all of whose slots are filled. -/
theorem Fills.node {kind : NodeKind} {span : Span} {slots : List PositionalSlot}
    (fills : Fills whole count place kind (standardShape kind).anchors slots)
    (other : kind ≠ .binaryExpr) (unnamed : place.isShut = true → isNamedLiteral kind slots = false)
    (unbraced : place.isOpen = true → isTypeName kind = true → Unbraced whole span)
    (lined : kind = .caseClause → place.isLine = true) :
    Grown whole count place least (.node kind span slots) := by
  obtain ⟨counted, each⟩ := List.forall₂_iff_zip.mp fills
  exact .node other unnamed unbraced lined counted (fun pair mem => (each mem).laid) fun pair mem =>
    (each mem).below

theorem Fills.grown {kind : NodeKind} {span : Span} {slots : List PositionalSlot}
    (fills : Fills whole count place kind (standardShape kind).anchors slots)
    (plain : place.isPlain kind = true) :
    Grown whole count place least (.node kind span slots) := by
  refine fills.node ?_ (fun _ => ?_) (fun isOpen isName => ?_) ?_
  · rintro rfl
    cases plain
  · cases kind <;> first | rfl | cases plain
  · have same : place.isPlain kind = !place.isOpen := by
      cases kind <;> first | rfl | cases isName
    simp [same, isOpen] at plain
  · rintro rfl
    exact plain

/-! ## Lists under construction -/

namespace Elements

/-- A list that ends with a separator, or is empty. -/
def Closed (whole : List Token) (list : Elements) : Prop :=
  List.Forall₂ (Behind whole) list.nodes list.separators

/-- A list that ends with an element. -/
def Hangs (whole : List Token) (list : Elements) (last : Positional) : Prop :=
  ∃ front, list.nodes = front ++ [last] ∧ List.Forall₂ (Behind whole) front list.separators

/-- A list of trees that the grammar may put at a place. -/
def Grows (whole : List Token) (count : Nat) (place : Place) (least : Nat) (list : Elements) :
    Prop :=
  ∀ node ∈ list.nodes, Grown whole count place least node

variable {list more : Elements} {node last : Positional} {separator : Span}

theorem closed_empty : empty.Closed whole := .nil

theorem Closed.commas (closed : list.Closed whole) :
    CommaSeparated whole list.nodes list.separators :=
  ⟨list.nodes, [], (List.append_nil _).symm, Nat.zero_le _, closed⟩

theorem Hangs.commas (hangs : list.Hangs whole last) :
    CommaSeparated whole list.nodes list.separators := by
  obtain ⟨front, split, behind⟩ := hangs
  exact ⟨front, [last], split, Nat.le_refl _, behind⟩

theorem hangs_single (node : Positional) : (single node).Hangs whole node :=
  ⟨[], rfl, .nil⟩

theorem Closed.push (closed : list.Closed whole) (node : Positional) :
    (list.push node).Hangs whole node := ⟨list.nodes, rfl, closed⟩

theorem Hangs.separate (hangs : list.Hangs whole last) (behind : Behind whole last separator) :
    (list.separate separator).Closed whole := by
  obtain ⟨front, split, others⟩ := hangs
  show List.Forall₂ _ list.nodes (list.separators ++ [separator])
  rw [split]
  exact List.rel_append others (.cons behind .nil)

theorem Closed.append (closed : list.Closed whole)
    (separated : CommaSeparated whole more.nodes more.separators) :
    CommaSeparated whole (list.append more).nodes (list.append more).separators := by
  obtain ⟨front, rest, split, short, others⟩ := separated
  refine ⟨list.nodes ++ front, rest, ?_, short, List.rel_append closed others⟩
  show list.nodes ++ more.nodes = _
  rw [split, List.append_assoc]

theorem grows_empty : empty.Grows whole count place least := fun _ mem => nomatch mem

theorem grows_single (grown : Grown whole count place least node) :
    (single node).Grows whole count place least := by
  intro other mem
  rwa [List.mem_singleton.mp mem]

theorem Grows.mono (grows : list.Grows whole count place least) (le : count ≤ count') :
    list.Grows whole count' place least := fun node mem => (grows node mem).mono le

theorem Grows.weaken (grows : list.Grows whole count place least) :
    list.Grows whole count place 0 :=
  fun node mem => (grows node mem).weaken (Nat.le_refl _) (Nat.zero_le _)

/-- What is whole may be lines. -/
theorem Grows.lines (grows : list.Grows whole count (.whole literals) least) :
    list.Grows whole count (.line literals) least :=
  fun node mem => (grows node mem).line

theorem Grows.push (grows : list.Grows whole count place least)
    (grown : Grown whole count place least node) :
    (list.push node).Grows whole count place least := by
  intro other mem
  rcases List.mem_append.mp mem with mem | mem
  · exact grows other mem
  · rwa [List.mem_singleton.mp mem]

end Elements

/-- There may be no parameters. -/
theorem fields_nil : Fields whole [] :=
  ⟨[], whole, [], [], by simp, .nil, .inl .nil⟩

namespace Fill

variable {kind : NodeKind} {shape : AnchorShape} {list : Elements}

/-- A list of a shape without separators. -/
theorem lines (grows : ∀ index,
      list.Grows whole count' (placeAt place kind shape.anchor index) least)
    (le : count' ≤ count) (bare : list.separators = [])
    (other : isParamList kind shape.anchor = false)
    (bound : leastAt kind shape.anchor = 0)
    (unseparated : shape.isSeparated? = some false) :
    Fill whole count place kind shape list.slot := by
  refine .list ?_ (fun index node found => grows index node (List.mem_of_getElem? found)) le bound
  rintro nodes separators ⟨⟩
  refine ⟨fun layout isLayout => ?_, fun isParams => by simp [other] at isParams⟩
  rw [SeparatedAs, shape.isSome_separator isLayout unseparated]
  exact bare

/-- A list of a shape with commas, each element at a place of its own. -/
theorem commasAt (grown : ∀ index node, list.nodes[index]? = some node →
      Grown whole count' (placeAt place kind shape.anchor index) least node)
    (le : count' ≤ count) (separated : CommaSeparated whole list.nodes list.separators)
    (commas : shape.isSeparated? = some true)
    (other : isParamList kind shape.anchor = false)
    (bound : leastAt kind shape.anchor = 0) :
    Fill whole count place kind shape list.slot := by
  refine .list ?_ grown le bound
  rintro nodes separators ⟨⟩
  refine ⟨fun layout isLayout => ?_, fun isParams => by simp [other] at isParams⟩
  rw [SeparatedAs, if_pos (shape.isSome_separator isLayout commas)]
  exact separated

/-- A list of a shape with commas. -/
theorem commas (grows : ∀ index,
      list.Grows whole count' (placeAt place kind shape.anchor index) least)
    (le : count' ≤ count) (separated : CommaSeparated whole list.nodes list.separators)
    (commas : shape.isSeparated? = some true)
    (other : isParamList kind shape.anchor = false)
    (bound : leastAt kind shape.anchor = 0) :
    Fill whole count place kind shape list.slot :=
  .commasAt (fun index node found => grows index node (List.mem_of_getElem? found)) le separated
    commas other bound

/-- A list of parameters. -/
theorem params (grows : ∀ index,
      list.Grows whole count' (placeAt place kind shape.anchor index) least)
    (le : count' ≤ count) (separated : CommaSeparated whole list.nodes list.separators)
    (grouped : 0 < count' ∨ Fields whole list.nodes)
    (bound : leastAt kind shape.anchor = 0)
    (commas : shape.isSeparated? = some true) :
    Fill whole count place kind shape list.slot := by
  refine .list ?_ (fun index node found => grows index node (List.mem_of_getElem? found)) le bound
  rintro nodes separators ⟨⟩
  refine ⟨fun layout isLayout => ?_, fun _ => grouped.imp_left fun pos => by omega⟩
  rw [SeparatedAs, if_pos (shape.isSome_separator isLayout commas)]
  exact separated

/-- A list without elements. -/
theorem empty (bound : leastAt kind shape.anchor = 0) :
    Fill whole count place kind shape Elements.empty.slot := by
  have none : ∀ index node, Elements.empty.nodes[index]? = some node →
      Grown whole count (placeAt place kind shape.anchor index) 0 node := nofun
  refine .list ?_ none (Nat.le_refl _) bound
  rintro nodes separators ⟨⟩
  refine ⟨fun layout isLayout => ?_, fun _ => .inr fields_nil⟩
  unfold SeparatedAs
  split
  · exact Elements.closed_empty.commas
  · rfl

end Fill

end Grammar

end GoTrivia

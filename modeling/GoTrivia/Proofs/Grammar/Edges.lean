import GoTrivia.Proofs.Grammar.Openings
import GoTrivia.Proofs.Printing.Touching
import GoTrivia.Proofs.Token.Fusing

/-!
# The edges of parsed trees

The tokens of a parsed tree are those it was read from, without semicolons and the separators of its
lists.  So what the grammar knows of the tokens where a node begins and ends is known of the first
and the last text in a slot (`Edge`), and where a shape puts two anchors side by side without a blank,
the texts at their edges may touch.
-/

set_option autoImplicit false

namespace GoTrivia

open SlotTree

/-! ## Tokens at the edges -/

section Edges

variable {first last : Token}

mutual
/-- The tokens of a tree are among those it was read from. -/
theorem Spells.sublist : ∀ {tree : Positional} {tokens : List Token}, Spells tree tokens →
    tree.tokens.Sublist (tokens.map Token.toLexeme)
  | _, _, .node content _ _ _ _ _ => by
      rw [SlotTree.tokens]
      exact content.sublist

theorem SpellsSlots.sublist : ∀ {kind : NodeKind} {shapes : List AnchorShape}
    {slots : List PositionalSlot} {tokens : List Token}, SpellsSlots kind shapes slots tokens →
    (tokensSlots slots).Sublist (tokens.map Token.toLexeme)
  | _, _, _, _, .nil => by
      rw [tokensSlots]
      exact List.nil_sublist _
  | _, shape :: _, _, _, .vacant empty rest => by
      rw [tokensSlots, empty, show tokensSlot (.vacant shape.slot) = [] by cases shape.slot <;> rfl]
      exact rest.sublist
  | _, _, _, _, .token _ _ _ rest => by
      rw [tokensSlots, tokensSlot]
      exact rest.sublist.cons_cons _
  | _, _, _, _, .child _ content _ rest => by
      rw [tokensSlots, tokensSlot, List.map_append]
      exact content.sublist.append rest.sublist
  | _, _, _, _, .terminated _ _ content rest => by
      rw [tokensSlots, tokensSlot, List.map_append]
      exact content.sublist.append rest.sublist
  | _, _, _, _, .separated _ _ content _ rest => by
      rw [tokensSlots, tokensSlot, List.map_append]
      exact content.sublist.append rest.sublist

theorem SpellsSeparated.sublist : ∀ {nodes : List Positional} {separators : List Span}
    {tokens : List Token}, SpellsSeparated nodes separators tokens →
    (tokensElements nodes).Sublist (tokens.map Token.toLexeme)
  | _, _, _, .nil => by
      rw [tokensElements]
      exact List.nil_sublist _
  | _, _, _, .last content _ => by
      rw [tokensElements, tokensElements, List.append_nil]
      exact content.sublist
  | _, _, _, .cons content _ _ rest => by
      rw [tokensElements, List.map_append, List.map_cons]
      exact content.sublist.append (rest.sublist.cons _)

theorem SpellsTerminated.sublist : ∀ {nodes : List Positional} {tokens : List Token},
    SpellsTerminated nodes tokens → (tokensElements nodes).Sublist (tokens.map Token.toLexeme)
  | _, _, .nil => by
      rw [tokensElements]
      exact List.nil_sublist _
  | _, _, .skip _ rest => by
      rw [List.map_cons]
      exact rest.sublist.cons _
  | _, _, .cons content rest => by
      rw [tokensElements, List.map_append]
      exact content.sublist.append rest.sublist
end

theorem SpellsSlots.tokens_eq_nil {kind : NodeKind} {shapes : List AnchorShape}
    {slots : List PositionalSlot} (content : SpellsSlots kind shapes slots []) :
    tokensSlots slots = [] := List.sublist_nil.mp content.sublist

theorem SpellsSeparated.tokens_eq_nil {nodes : List Positional} {separators : List Span}
    (content : SpellsSeparated nodes separators []) : tokensElements nodes = [] :=
  List.sublist_nil.mp content.sublist

theorem SpellsTerminated.tokens_eq_nil {nodes : List Positional}
    (content : SpellsTerminated nodes []) : tokensElements nodes = [] :=
  List.sublist_nil.mp content.sublist

/-- What comes first in front of other things comes first, unless there is nothing. -/
theorem head?_append_of {α β : Type} {f : α → β} {front back : List α} {own others : List β}
    {first : α} (head : (front ++ back).head? = some first) (empty : front = [] → own = [])
    (here : front.head? = some first → own.head? = some (f first))
    (there : back.head? = some first → others.head? = some (f first)) :
    (own ++ others).head? = some (f first) := by
  cases front with
  | nil => rw [empty rfl, List.nil_append, there head]
  | cons next front => rw [List.head?_append, here head, Option.some_or]

theorem getLast?_append_of {α β : Type} {f : α → β} {front back : List α} {own others : List β}
    {last : α} (tail : (front ++ back).getLast? = some last) (empty : back = [] → others = [])
    (here : front.getLast? = some last → own.getLast? = some (f last))
    (there : back.getLast? = some last → others.getLast? = some (f last)) :
    (own ++ others).getLast? = some (f last) := by
  cases back with
  | nil =>
    rw [List.append_nil] at tail
    rw [empty rfl, List.append_nil, here tail]
  | cons next back =>
    rw [List.getLast?_append_of_ne_nil _ (List.cons_ne_nil _ _)] at tail
    rw [List.getLast?_append, there tail, Option.some_or]

mutual
/-- A tree begins with the first of its tokens, unless that is a semicolon. -/
theorem Spells.head? (other : first.kind ≠ .semicolon) :
    ∀ {tree : Positional} {tokens : List Token}, Spells tree tokens →
      tokens.head? = some first → tree.tokens.head? = some first.toLexeme
  | _, _, .node content _ _ _ _ _, head => by
      rw [SlotTree.tokens]
      exact content.head? other head

theorem SpellsSlots.head? (other : first.kind ≠ .semicolon) :
    ∀ {kind : NodeKind} {shapes : List AnchorShape} {slots : List PositionalSlot}
      {tokens : List Token}, SpellsSlots kind shapes slots tokens →
      tokens.head? = some first → (tokensSlots slots).head? = some first.toLexeme
  | _, _, _, _, .nil, head => by cases head
  | _, shape :: _, _, _, .vacant empty rest, head => by
      rw [tokensSlots, empty, show tokensSlot (.vacant shape.slot) = [] by cases shape.slot <;> rfl]
      exact rest.head? other head
  | _, _, _, _, .token _ _ _ rest, head => by
      obtain rfl := Option.some.inj head
      rw [tokensSlots, tokensSlot]
      rfl
  | _, _, _, _, .child _ content _ rest, head => by
      rw [tokensSlots, tokensSlot]
      exact head?_append_of head (fun none => (content.ne_nil none).elim) (content.head? other)
        (rest.head? other)
  | _, _, _, _, .separated _ _ content _ rest, head => by
      rw [tokensSlots, tokensSlot]
      exact head?_append_of head (fun none => (none ▸ content).tokens_eq_nil) (content.head? other)
        (rest.head? other)
  | _, _, _, _, .terminated _ _ content rest, head => by
      rw [tokensSlots, tokensSlot]
      exact head?_append_of head (fun none => (none ▸ content).tokens_eq_nil) (content.head? other)
        (rest.head? other)

theorem SpellsSeparated.head? (other : first.kind ≠ .semicolon) :
    ∀ {nodes : List Positional} {separators : List Span} {tokens : List Token},
      SpellsSeparated nodes separators tokens → tokens.head? = some first →
      (tokensElements nodes).head? = some first.toLexeme
  | _, _, _, .nil, head => by cases head
  | _, _, _, .last content _, head => by
      rw [tokensElements, tokensElements, List.append_nil]
      exact content.head? other head
  | _, _, _, .cons content _ _ rest, head => by
      have some := content.ne_nil
      rw [tokensElements]
      rw [List.head?_append_of_ne_nil _ some] at head
      rw [List.head?_append, content.head? other head, Option.some_or]

theorem SpellsTerminated.head? (other : first.kind ≠ .semicolon) :
    ∀ {nodes : List Positional} {tokens : List Token}, SpellsTerminated nodes tokens →
      tokens.head? = some first → (tokensElements nodes).head? = some first.toLexeme
  | _, _, .nil, head => by cases head
  | _, _, .skip isSemicolon _, head => by
      obtain rfl := Option.some.inj head
      exact (other isSemicolon).elim
  | _, _, .cons content rest, head => by
      rw [tokensElements]
      exact head?_append_of head (fun none => (content.ne_nil none).elim) (content.head? other)
        (rest.head? other)
end

mutual
/-- A tree ends with the last of its tokens, if a line break behind that ends a statement. -/
theorem Spells.getLast? (ends : last.kind.endsStatement = true) :
    ∀ {tree : Positional} {tokens : List Token}, Spells tree tokens →
      tokens.getLast? = some last → tree.tokens.getLast? = some last.toLexeme
  | _, _, .node content _ _ _ _ _, tail => by
      rw [SlotTree.tokens]
      exact content.getLast? ends tail

theorem SpellsSlots.getLast? (ends : last.kind.endsStatement = true) :
    ∀ {kind : NodeKind} {shapes : List AnchorShape} {slots : List PositionalSlot}
      {tokens : List Token}, SpellsSlots kind shapes slots tokens →
      tokens.getLast? = some last → (tokensSlots slots).getLast? = some last.toLexeme
  | _, _, _, _, .nil, tail => by cases tail
  | _, shape :: _, _, _, .vacant empty rest, tail => by
      rw [tokensSlots, empty, show tokensSlot (.vacant shape.slot) = [] by cases shape.slot <;> rfl]
      exact rest.getLast? ends tail
  | _, _, _, token :: _, .token _ _ _ rest, tail => by
      have alone : [token].getLast? = some last → [token.toLexeme].getLast? = some last.toLexeme :=
        congrArg (Option.map Token.toLexeme)
      rw [tokensSlots, tokensSlot]
      exact getLast?_append_of tail (fun none => (none ▸ rest).tokens_eq_nil) alone
        (rest.getLast? ends)
  | _, _, _, _, .child _ content _ rest, tail => by
      rw [tokensSlots, tokensSlot]
      exact getLast?_append_of tail (fun none => (none ▸ rest).tokens_eq_nil)
        (content.getLast? ends) (rest.getLast? ends)
  | _, _, _, _, .separated _ _ content _ rest, tail => by
      rw [tokensSlots, tokensSlot]
      exact getLast?_append_of tail (fun none => (none ▸ rest).tokens_eq_nil)
        (content.getLast? ends) (rest.getLast? ends)
  | _, _, _, _, .terminated _ _ content rest, tail => by
      rw [tokensSlots, tokensSlot]
      exact getLast?_append_of tail (fun none => (none ▸ rest).tokens_eq_nil)
        (content.getLast? ends) (rest.getLast? ends)

theorem SpellsSeparated.getLast? (ends : last.kind.endsStatement = true) :
    ∀ {nodes : List Positional} {separators : List Span} {tokens : List Token},
      SpellsSeparated nodes separators tokens → tokens.getLast? = some last →
      (tokensElements nodes).getLast? = some last.toLexeme
  | _, _, _, .nil, tail => by cases tail
  | _, _, _, .last content _, tail => by
      rw [tokensElements, tokensElements, List.append_nil]
      exact content.getLast? ends tail
  | _, _, _, @SpellsSeparated.cons _ _ comma _ front tokens content _ isComma rest, tail => by
      rw [tokensElements]
      rw [List.append_cons] at tail
      refine getLast?_append_of tail (fun none => (none ▸ rest).tokens_eq_nil) (fun own => ?_)
        (rest.getLast? ends)
      obtain rfl : comma = last := by simpa using own
      rw [isComma] at ends
      cases ends

theorem SpellsTerminated.getLast? (ends : last.kind.endsStatement = true) :
    ∀ {nodes : List Positional} {tokens : List Token}, SpellsTerminated nodes tokens →
      tokens.getLast? = some last → (tokensElements nodes).getLast? = some last.toLexeme
  | _, _, .nil, tail => by cases tail
  | _, _, @SpellsTerminated.skip _ semicolon tokens isSemicolon rest, tail => by
      cases tokens with
      | nil =>
        obtain rfl : semicolon = last := by simpa using tail
        rw [isSemicolon] at ends
        cases ends
      | cons next tokens => exact rest.getLast? ends (by simpa using tail)
  | _, _, .cons content rest, tail => by
      rw [tokensElements]
      exact getLast?_append_of tail (fun none => (none ▸ rest).tokens_eq_nil)
        (content.getLast? ends) (rest.getLast? ends)
end

/-- The last element of a list ends with a token after which a line break ends the statement. -/
theorem SpellsSeparated.exists_ends : ∀ {nodes : List Positional} {separators : List Span}
    {tokens : List Token}, SpellsSeparated nodes separators tokens →
    ∀ lexeme ∈ (tokensElements nodes).getLast?, ∃ token ∈ tokens,
      token.kind.endsStatement = true ∧ lexeme = token.toLexeme
  | _, _, _, .nil => fun _ found => by cases found
  | _, _, _, .last content ends => by
      obtain ⟨last, tail, closes⟩ := ends
      intro lexeme found
      rw [tokensElements, tokensElements, List.append_nil, content.getLast? closes tail] at found
      exact ⟨last, List.mem_of_getLast? tail, closes, (Option.some.inj found).symm⟩
  | _, _, _, .cons content ends isComma rest => by
      obtain ⟨last, tail, closes⟩ := ends
      intro lexeme found
      rw [tokensElements, List.getLast?_append] at found
      rcases Option.or_eq_some_iff.mp found with behind | ⟨-, own⟩
      · obtain ⟨token, mem, closes, same⟩ := rest.exists_ends lexeme behind
        exact ⟨token, by simp [mem], closes, same⟩
      · rw [content.getLast? closes tail] at own
        exact ⟨last, by simp [List.mem_of_getLast? tail], closes, (Option.some.inj own).symm⟩

end Edges

/-! ## What is known at the edges -/

/-- What is known of a text at the edge of an anchor: the text itself, or what kind of token it is. -/
inductive Edge
  | fixed (text : String)
  | ending
  | starting
  | sign
  | name
  | step
  | other
deriving DecidableEq

namespace Edge

/-- Whether a text is of the kind. -/
def Holds : Edge → String → Prop
  | fixed expected, text => text = expected
  | ending, text => ∃ kind, tokenKind? text = some kind ∧ kind.endsStatement = true
  | starting, text => ∃ kind, tokenKind? text = some kind ∧ kind.beginsOperand = true
  | sign, text => ∃ kind, tokenKind? text = some kind ∧ kind.isUnaryOperator = true
  | name, text => tokenKind? text = some .name
  | step, text => text = "++" ∨ text = "--"
  | other, _ => True

/-- Whether texts at two edges may touch. -/
def joins (last first : Edge) : Bool :=
  calmTexts.any (fixed · == last) || closers.any (fixed · == first) ||
    [(sign, starting), (fixed "*", starting), (fixed ":", starting), (ending, fixed "."),
      (ending, fixed "..."), (ending, step), (fixed ".", name)].contains (last, first)

end Edge

/-- What some sign goes on with. -/
def signs : List Char := ['=', '+', '-', '&', '^']

/-- A sign goes on with what begins an operand only if that is a sign as well. -/
theorem mayTouch_sign {text next : String} {kind operand : TokenKind}
    (mem : (text.toList, kind) ∈ Cut.operators)
    (isSign : kind.isUnaryOperator = true ∨ kind = .colon) (isToken : tokenKind? next = some operand)
    (begins : operand.beginsOperand = true) : MayTouch text next := by
  have follows : ∀ entry ∈ Cut.operators, entry.2.isUnaryOperator = true ∨ entry.2 = .colon →
      entry.1 ≠ ['.'] ∧ entry.1 ≠ ['/'] ∧ Cut.operatorFollows entry.1 ⊆ signs := by decide
  have fuse : ∀ entry ∈ Cut.operators, entry.2.isUnaryOperator = true ∨ entry.2 = .colon →
      ∀ other ∈ Cut.operators, other.2.beginsOperand = true →
        other.1.head?.any (Cut.operatorFollows entry.1).contains = true →
        (String.ofList entry.1, String.ofList other.1) ∈
          [("+", "+"), ("-", "-"), ("&", "&"), ("&", "^")] := by decide
  have plain : ∀ c ∈ signs, c ∉ ['\x22', '\x27', '\x60'] ∧ c.isDigit = false ∧ c ≠ '.' ∧
      Cut.beginsName c = false := List.all_iff_forall_prop.mp (by decide +kernel)
  intro _
  by_cases off : CutOff text next
  · exact .inl off
  obtain ⟨first, following, chars, ruled, -⟩ := exists_ruled isToken
  simp only [CutOff, chars, List.head?_cons, Option.mem_def, Option.some.injEq, forall_eq',
    Bool.not_eq_false, goesOn_operator mem] at off
  obtain ⟨point, slash, inside⟩ := follows _ mem isSign
  have goes : first ∈ Cut.operatorFollows text.toList := by
    rcases Cut.mem_operatorFollows off with goes | ⟨same, -⟩ | ⟨same, -⟩
    · exact goes
    · exact (point same).elim
    · exact (slash same).elim
  obtain ⟨noQuote, noDigit, noPoint, noName⟩ := plain first (inside goes)
  cases ruled with
  | literal quote isKind closed => exact (noQuote quote).elim
  | number opens numeral goesOn =>
    rcases opens with digit | isPoint
    · cases digit.symm.trans noDigit
    · exact (noPoint isPoint).elim
  | word opens digit isKind goesOn => cases opens.symm.trans noName
  | operator other goesOn =>
    have found := fuse _ mem isSign _ other begins (List.contains_iff_mem.mpr goes)
    rw [← chars, String.ofList_toList, String.ofList_toList] at found
    exact .inr (.inl found)

/-- Texts at edges that are joined may touch. -/
theorem Edge.mayTouch {last first : Edge} (joined : last.joins first = true) {text next : String}
    (ends : last.Holds text) (begins : first.Holds next) : MayTouch text next := by
  simp only [joins, Bool.or_eq_true, List.any_eq_true, beq_iff_eq, List.contains_iff_mem,
    List.mem_cons, List.not_mem_nil, or_false, Prod.mk.injEq] at joined
  rcases joined with (⟨calm, mem, rfl⟩ | ⟨closer, mem, rfl⟩) | ⟨rfl, rfl⟩ | ⟨rfl, rfl⟩ | ⟨rfl, rfl⟩ |
    ⟨rfl, rfl⟩ | ⟨rfl, rfl⟩ | ⟨rfl, rfl⟩ | ⟨rfl, rfl⟩
  · exact fun _ => .inl (cutOff_of_calm (ends ▸ mem) next)
  · intro isToken
    obtain ⟨kind, isToken⟩ := Option.isSome_iff_exists.mp isToken
    exact .inl (cutOff_closers isToken (begins ▸ mem))
  · obtain ⟨kind, isToken, isSign⟩ := ends
    obtain ⟨operand, isOperand, opens⟩ := begins
    obtain ⟨head, following, chars, ruled, -⟩ := exists_ruled isToken
    have words : ∀ kind : TokenKind, kind.isUnaryOperator = true → kind.isWord = false := by
      intro kind
      cases kind <;> decide
    cases ruled with
    | literal quote isKind closed => rcases isKind with rfl | rfl <;> cases isSign
    | number opens numeral goesOn => rcases numeral with rfl | rfl | rfl <;> cases isSign
    | word opens digit isKind goesOn => cases isKind.symm.trans (words kind isSign)
    | operator mem goesOn => exact mayTouch_sign (chars ▸ mem) (.inl isSign) isOperand opens
  · obtain ⟨operand, isOperand, opens⟩ := begins
    obtain rfl : text = "*" := ends
    have isStar : ("*".toList, TokenKind.star) ∈ Cut.operators := by decide
    exact mayTouch_sign isStar (.inl rfl) isOperand opens
  · obtain ⟨operand, isOperand, opens⟩ := begins
    obtain rfl : text = ":" := ends
    have isColon : (":".toList, TokenKind.colon) ∈ Cut.operators := by decide
    exact mayTouch_sign isColon (.inr rfl) isOperand opens
  · obtain ⟨kind, isToken, closes⟩ := ends
    obtain rfl : next = "." := begins
    exact mayTouch_of_endsStatement isToken closes (by decide)
  · obtain ⟨kind, isToken, closes⟩ := ends
    obtain rfl : next = "..." := begins
    exact mayTouch_of_endsStatement isToken closes (by decide)
  · obtain ⟨kind, isToken, closes⟩ := ends
    exact mayTouch_of_endsStatement isToken closes (by rcases begins with rfl | rfl <;> decide)
  · obtain rfl : text = "." := ends
    exact fun _ => .inl (cutOff_point begins)

/-- What is known of the last text at an anchor. -/
def AnchorShape.lastEdge (kind : NodeKind) (shape : AnchorShape) : Edge :=
  match shape.slot with
  | .token (.fixed text) => .fixed text
  | .list layout => if layout.separator.isSome then .ending else .other
  | _ =>
    match kind, shape.anchor with
    | .unaryExpr, .op => .sign
    | .selectorExpr, .x | .typeAssertExpr, .x | .incDecStmt, .x => .ending
    | _, _ => .other

/-- What is known of the first text at an anchor. -/
def AnchorShape.firstEdge (kind : NodeKind) (shape : AnchorShape) : Edge :=
  match shape.slot with
  | .token (.fixed text) => .fixed text
  | .list _ => .other
  | _ =>
    match kind, shape.anchor with
    | .unaryExpr, .x | .starExpr, .x | .sliceExpr, .high => .starting
    | .selectorExpr, .sel => .name
    | .incDecStmt, .tok => .step
    | _, _ => .other

/-- At every seam of a shape that is not set off the edges may touch. -/
theorem joinsAll_edges (kind : NodeKind) :
    joinsAll (fun previous shape => (previous.lastEdge kind).joins (shape.firstEdge kind)) []
      (standardShape kind).anchors = true := by
  cases kind <;> decide

/-! ## The edges of slots -/

/-- A token whose kind can be told from its text. -/
structure Token.Known (token : Token) : Prop where
  regular : token.Regular
  kind : token.kind ≠ .unknown → token.kind ≠ .semicolon → token.kind ≠ .eof →
    tokenKind? token.text = some token.kind

theorem known_of_mem_lex {text : String} {token : Token} (mem : token ∈ (lex text).tokens) :
    token.Known := by
  refine ⟨regular_of_mem_lex mem, fun known notSemicolon notEof => ?_⟩
  obtain ⟨item, mem, found⟩ := List.mem_filterMap.mp mem
  obtain rfl : item = .token token := by
    cases item <;> cases found
    rfl
  rcases Lex.token_of_mem mem with ⟨place, same⟩ | ⟨place, same⟩ | ⟨piece, cut, isToken, start, same⟩
  · obtain rfl : token = _ := Item.token.inj same
    exact (notSemicolon rfl).elim
  · obtain rfl : token = _ := Item.token.inj same
    exact (notEof rfl).elim
  · have whole := whole_of_mem_pieces cut (by simpa [isToken] using known) (by simp [isToken])
    rw [show token.text = piece.text from congrArg Lexeme.text same]
    exact whole.tokenKind?_text isToken

theorem Token.Known.tokenKind?_of_beginsOperand {token : Token} (known : token.Known)
    (begins : token.kind.beginsOperand = true) : tokenKind? token.text = some token.kind := by
  refine known.kind ?_ ?_ ?_ <;> (intro same; rw [same] at begins; revert begins; decide)

theorem Token.Known.tokenKind?_of_endsStatement {token : Token} (known : token.Known)
    (ends : token.kind.endsStatement = true) : tokenKind? token.text = some token.kind := by
  refine known.kind ?_ ?_ ?_ <;> (intro same; rw [same] at ends; revert ends; decide)

/-- What was read from tokens begins with the first of them and ends with the last, unless these are
no tokens of trees. -/
structure Outermost (content : List Lexeme) (tokens : List Token) : Prop where
  sublist : content.Sublist (tokens.map Token.toLexeme)
  head? : ∀ first, first.kind ≠ .semicolon → tokens.head? = some first →
    content.head? = some first.toLexeme
  getLast? : ∀ last, last.kind.endsStatement = true → tokens.getLast? = some last →
    content.getLast? = some last.toLexeme

theorem outermost_token (token : Token) : Outermost [token.toLexeme] [token] where
  sublist := List.Sublist.refl _
  head? first _ found := by
    obtain rfl := Option.some.inj found
    rfl
  getLast? last _ found := by
    obtain rfl := Option.some.inj found
    rfl

theorem Spells.outermost {tree : Positional} {tokens : List Token} (spells : Spells tree tokens) :
    Outermost tree.tokens tokens where
  sublist := spells.sublist
  head? _ other := spells.head? other
  getLast? _ ends := spells.getLast? ends

/-- What is known of the first and the last of these texts holds, unless the anchor says what its
text is. -/
def EdgesHold (kind : NodeKind) (shape : AnchorShape) (texts : List String) : Prop :=
  shape.fixedText? = none →
    (∀ text ∈ texts.head?, (shape.firstEdge kind).Holds text) ∧
      ∀ text ∈ texts.getLast?, (shape.lastEdge kind).Holds text

namespace Outermost

variable {content : List Lexeme} {tokens : List Token} {kind : NodeKind} {shape : AnchorShape}

theorem exists_of_mem (outermost : Outermost content tokens) {lexeme : Lexeme}
    (mem : lexeme ∈ content) : ∃ token ∈ tokens, token.toLexeme = lexeme :=
  List.mem_map.mp (outermost.sublist.subset mem)

/-- What begins like an operand has such a text at its beginning. -/
theorem starting (outermost : Outermost content tokens) (known : ∀ token ∈ tokens, token.Known)
    (starts : Starts tokens) {lexeme : Lexeme} (first : content.head? = some lexeme) :
    Edge.starting.Holds lexeme.text := by
  obtain ⟨token, head, begins⟩ := starts
  have other : token.kind ≠ .semicolon := by
    intro same
    rw [same] at begins
    revert begins
    decide
  obtain rfl := Option.some.inj (first.symm.trans (outermost.head? token other head))
  exact ⟨_, (known token (List.mem_of_head? head)).tokenKind?_of_beginsOperand begins, begins⟩

/-- What a line break ends has such a text at its end. -/
theorem ending (outermost : Outermost content tokens) (known : ∀ token ∈ tokens, token.Known)
    (ends : Ends tokens) {lexeme : Lexeme} (last : content.getLast? = some lexeme) :
    Edge.ending.Holds lexeme.text := by
  obtain ⟨token, tail, closes⟩ := ends
  obtain rfl := Option.some.inj (last.symm.trans (outermost.getLast? token closes tail))
  exact ⟨_, (known token (List.mem_of_getLast? tail)).tokenKind?_of_endsStatement closes, closes⟩

theorem firstEdge (outermost : Outermost content tokens) (known : ∀ token ∈ tokens, token.Known)
    (joins : Joins kind shape.anchor tokens) (open' : shape.fixedText? = none) {lexeme : Lexeme}
    (first : content.head? = some lexeme) : (shape.firstEdge kind).Holds lexeme.text := by
  obtain ⟨token, mem, rfl⟩ := outermost.exists_of_mem (List.mem_of_head? first)
  unfold AnchorShape.firstEdge
  split
  · next isFixed => simp [AnchorShape.fixedText?, isFixed] at open'
  · trivial
  · split
    · next isAnchor =>
      rw [isAnchor] at joins
      exact outermost.starting known joins first
    · next isAnchor =>
      rw [isAnchor] at joins
      exact outermost.starting known joins first
    · next isAnchor =>
      rw [isAnchor] at joins
      exact outermost.starting known joins first
    · next isAnchor =>
      rw [isAnchor] at joins
      have isName := joins token mem
      have spelled := (known token mem).kind
      rw [isName] at spelled
      exact spelled (by decide) (by decide) (by decide)
    · next isAnchor =>
      rw [isAnchor] at joins
      have spelled := (known token mem).regular.spelled
      rcases joins token mem with isStep | isStep
      · rw [isStep] at spelled
        exact .inl (spelled (by decide) "++" (by decide))
      · rw [isStep] at spelled
        exact .inr (spelled (by decide) "--" (by decide))
    · trivial

theorem lastEdge (outermost : Outermost content tokens) (known : ∀ token ∈ tokens, token.Known)
    (joins : Joins kind shape.anchor tokens) (open' : shape.fixedText? = none)
    (single : ∀ layout, shape.slot ≠ .list layout) {lexeme : Lexeme}
    (last : content.getLast? = some lexeme) : (shape.lastEdge kind).Holds lexeme.text := by
  obtain ⟨token, mem, rfl⟩ := outermost.exists_of_mem (List.mem_of_getLast? last)
  unfold AnchorShape.lastEdge
  split
  · next isFixed => simp [AnchorShape.fixedText?, isFixed] at open'
  · next layout isList => exact (single layout isList).elim
  · split
    · next isAnchor =>
      rw [isAnchor] at joins
      have isSign := joins token mem
      have spelled : tokenKind? token.text = some token.kind := by
        refine (known token mem).kind ?_ ?_ ?_ <;>
          (intro same; rw [same] at isSign; revert isSign; decide)
      exact ⟨_, spelled, isSign⟩
    · next isAnchor =>
      rw [isAnchor] at joins
      exact outermost.ending known joins last
    · next isAnchor =>
      rw [isAnchor] at joins
      exact outermost.ending known joins last
    · next isAnchor =>
      rw [isAnchor] at joins
      exact outermost.ending known joins last
    · trivial

/-- The texts of a token or a child begin and end as the grammar knows. -/
theorem edgesHold (outermost : Outermost content tokens) (known : ∀ token ∈ tokens, token.Known)
    (joins : Joins kind shape.anchor tokens) (single : ∀ layout, shape.slot ≠ .list layout) :
    EdgesHold kind shape (content.map Lexeme.text) := by
  intro open'
  constructor
  · intro text first
    rw [List.head?_map] at first
    obtain ⟨lexeme, head, rfl⟩ := Option.map_eq_some_iff.mp first
    exact outermost.firstEdge known joins open' head
  · intro text last
    rw [List.getLast?_map] at last
    obtain ⟨lexeme, tail, rfl⟩ := Option.map_eq_some_iff.mp last
    exact outermost.lastEdge known joins open' single tail

end Outermost

/-- The texts of a separated list end as its last element does. -/
theorem SpellsSeparated.edgesHold {kind : NodeKind} {shape : AnchorShape} {layout : ListLayout}
    {nodes : List Positional} {separators : List Span} {tokens : List Token}
    (content : SpellsSeparated nodes separators tokens) (known : ∀ token ∈ tokens, token.Known)
    (isList : shape.slot = .list layout) (separator : layout.separator = some ",") :
    EdgesHold kind shape ((tokensElements nodes).map Lexeme.text) := by
  intro _
  constructor
  · intro text _
    simp only [AnchorShape.firstEdge, isList]
    trivial
  · intro text last
    rw [List.getLast?_map] at last
    obtain ⟨lexeme, tail, rfl⟩ := Option.map_eq_some_iff.mp last
    obtain ⟨token, mem, ends, rfl⟩ := content.exists_ends lexeme tail
    simp only [AnchorShape.lastEdge, isList, separator, Option.isSome_some, if_true]
    exact ⟨_, (known token mem).tokenKind?_of_endsStatement ends, ends⟩

theorem edgesHold_of_terminated {kind : NodeKind} {shape : AnchorShape} {layout : ListLayout}
    (isList : shape.slot = .list layout) (separator : layout.separator = none)
    (texts : List String) : EdgesHold kind shape texts := by
  intro _
  simp only [AnchorShape.firstEdge, AnchorShape.lastEdge, isList, separator, Option.isSome_none,
    Bool.false_eq_true, if_false]
  exact ⟨fun _ _ => trivial, fun _ _ => trivial⟩

/-- The texts in the slots of a parsed node begin and end as the grammar knows. -/
theorem SpellsSlots.edgesHold : ∀ {kind : NodeKind} {shapes : List AnchorShape}
    {slots : List PositionalSlot} {tokens : List Token}, SpellsSlots kind shapes slots tokens →
    (∀ token ∈ tokens, token.Known) →
    List.Forall₂ (fun shape slot => EdgesHold kind shape ((tokensSlot slot).map Lexeme.text)) shapes
      slots
  | _, _, _, _, .nil, _ => .nil
  | _, shape :: _, _, _, .vacant empty rest, known => by
      refine .cons ?_ (rest.edgesHold known)
      rw [empty, show tokensSlot (.vacant shape.slot : PositionalSlot) = [] by
        cases shape.slot <;> rfl]
      exact fun _ => ⟨by simp, by simp⟩
  | _, _, _, _ :: _, .token isToken _ joins rest, known => by
      obtain ⟨here, behind⟩ := List.forall_mem_cons.mp known
      exact .cons ((outermost_token _).edgesHold (List.forall_mem_singleton.mpr here) joins
        (by simp [isToken])) (rest.edgesHold behind)
  | _, _, _, _, .child isChild content joins rest, known => by
      obtain ⟨here, behind⟩ := List.forall_mem_append.mp known
      exact .cons (content.outermost.edgesHold here joins (by simp [isChild]))
        (rest.edgesHold behind)
  | _, _, _, _, .separated isList separator content _ rest, known => by
      obtain ⟨here, behind⟩ := List.forall_mem_append.mp known
      exact .cons (content.edgesHold here isList separator) (rest.edgesHold behind)
  | _, _, _, _, .terminated isList separator _ rest, known => by
      obtain ⟨-, behind⟩ := List.forall_mem_append.mp known
      exact .cons (edgesHold_of_terminated isList separator _) (rest.edgesHold behind)

/-! ## Printed trees -/

mutual
/-- If no node is without tokens, a tree begins with the first of its own. -/
theorem firstToken?_eq_head? : ∀ tree : Positional, (∀ node ∈ tree.preorder, node.tokens ≠ []) →
    Print.firstToken? tree = tree.tokens.head?
  | .node kind span slots, filled => by
      rw [preorder] at filled
      rw [Print.firstToken?, SlotTree.tokens]
      exact firstTokenSlots?_eq_head? slots (List.forall_mem_cons.mp filled).2

theorem firstTokenSlots?_eq_head? : ∀ slots : List PositionalSlot,
    (∀ node ∈ preorderSlots slots, node.tokens ≠ []) →
    Print.firstTokenSlots? slots = (tokensSlots slots).head?
  | [], _ => rfl
  | slot :: slots, filled => by
      rw [preorderSlots_cons] at filled
      obtain ⟨here, others⟩ := List.forall_mem_append.mp filled
      rw [Print.firstTokenSlots?, tokensSlots, List.head?_append, slotToken?_eq_head? slot here,
        firstTokenSlots?_eq_head? slots others]

theorem slotToken?_eq_head? : ∀ slot : PositionalSlot,
    (∀ node ∈ preorderSlots [slot], node.tokens ≠ []) →
    Print.slotToken? slot = (tokensSlot slot).head?
  | .token token, _ => by cases token <;> rfl
  | .child none, _ => rfl
  | .child (some child), filled => by
      rw [Print.slotToken?, tokensSlot]
      exact firstToken?_eq_head? child (by simpa [preorderSlots] using filled)
  | .list [] _, _ => rfl
  | .list (element :: elements) _, filled => by
      rw [preorderSlots, preorderSlots, List.append_nil, preorderElements] at filled
      obtain ⟨here, -⟩ := List.forall_mem_append.mp filled
      rw [Print.slotToken?, tokensSlot, tokensElements, List.head?_append_of_ne_nil _
        (here element (by cases element; rw [preorder]; exact List.mem_cons_self))]
      exact firstToken?_eq_head? element here
end

theorem AnchorShape.edges_of_fixedText? {shape : AnchorShape} {text : String}
    (isFixed : shape.fixedText? = some text) (kind : NodeKind) :
    shape.firstEdge kind = .fixed text ∧ shape.lastEdge kind = .fixed text := by
  unfold fixedText? at isFixed
  split at isFixed
  · next isToken =>
    cases isFixed
    simp [firstEdge, lastEdge, isToken]
  · cases isFixed

/-- A slot that fits its anchor has what is known at its edges. -/
theorem Fitted.edged_of_edgesHold {free : Anchor → String → Prop} {filled : Anchor → Bool}
    {kind : NodeKind} {shape : AnchorShape} {slot : PositionalSlot}
    (fitted : Fitted free filled shape slot)
    (holds : EdgesHold kind shape ((tokensSlot slot).map Lexeme.text))
    (first : Print.slotToken? slot = (tokensSlot slot).head?) :
    Edged (fun shape text => (shape.firstEdge kind).Holds text)
      (fun shape text => (shape.lastEdge kind).Holds text) free filled shape slot := by
  cases isFixed : shape.fixedText? with
  | none =>
    obtain ⟨begins, ends⟩ := holds isFixed
    refine ⟨fitted, fun lexeme starts => begins lexeme.text ?_, fun text last => ends text ?_⟩
    · rw [List.head?_map, ← first, starts, Option.map_some]
      rfl
    · rw [List.getLast?_map]
      exact last
  | some text =>
    obtain ⟨isFirst, isLast⟩ := AnchorShape.edges_of_fixedText? isFixed kind
    cases slot with
    | child | list => cases isFixed.symm.trans (fitted.fixedText?_eq_none nofun)
    | token token =>
      cases token with
      | none => exact ⟨fitted, fun _ starts => (by cases starts), fun _ last => by cases last⟩
      | some lexeme =>
        have same := fitted.text_of_fixedText? isFixed
        refine ⟨fitted, fun _ starts => ?_, fun _ last => ?_⟩
        · obtain rfl := Option.some.inj starts
          rw [isFirst]
          exact same
        · obtain rfl := Option.some.inj last
          rw [isLast]
          exact same

/-- Behind what a canonical layout writes without a blank most texts may stand. -/
theorem lenient_mayTouch : Print.Lenient MayTouch where
  empty _ isToken := by simp [tokenKind?, pieces] at isToken
  opening _ next _ last opens isToken := by
    obtain ⟨kind, isToken⟩ := Option.isSome_iff_exists.mp isToken
    exact .inl (cutOff_of_calm (mem_calmTexts_of_openings isToken last opens) next)
  comma next _ := .inl (cutOff_of_calm (by decide) next)
  follower _ _ mem isToken := by
    obtain ⟨kind, isToken⟩ := Option.isSome_iff_exists.mp isToken
    exact .inl (cutOff_closers isToken ((by decide : Print.followers ⊆ closers) mem))

/-- What is known of the nodes of a parsed tree: none is without tokens, and the texts in their
slots begin and end as the grammar knows. -/
theorem edgesHold_of_mem {text : String} (clean : (parse text).diagnostics = []) :
    ∀ node ∈ (parse text).tree.root.preorder, node.tokens ≠ [] ∧
      List.Forall₂ (fun shape slot => EdgesHold node.kind shape ((tokensSlot slot).map Lexeme.text))
        (standardShape node.kind).anchors node.slots := by
  have spells := spellsFile_parse (lawful_lex text) clean
  generalize (parse text).tree.root = root at spells ⊢
  intro node mem
  obtain ⟨tokens, inside, some, content, filled⟩ := spells.readIn node mem
  refine ⟨?_, content.edgesHold fun token mem => known_of_mem_lex (inside.subset mem)⟩
  obtain ⟨first, rest, rfl⟩ := List.exists_cons_of_ne_nil some
  have opens := content.opensSolid (opensSolid_of_mayFill (by simpa using content.fits.1) filled)
  have head := content.head? (opens first rfl) rfl
  obtain ⟨kind, span, slots⟩ := node
  rw [SlotTree.tokens]
  intro none
  have head : (tokensSlots slots).head? = _ := head
  rw [none] at head
  cases head

/-- Nodes of trees that look the same look the same. -/
theorem exists_of_erase {root source : Positional} (same : root.erase = source.erase) :
    ∀ node ∈ root.preorder, ∃ original ∈ source.preorder,
      Positional.erase original = Positional.erase node := by
  intro node mem
  have nodes := congrArg preorder same
  rw [Positional.erase, Positional.erase, preorder_map, preorder_map] at nodes
  exact List.mem_map.mp (nodes ▸ List.mem_map_of_mem mem)

/-- A tree that looks like that of a text has tokens in all its nodes. -/
theorem tokens_ne_nil_of_erase {text : String} (clean : (parse text).diagnostics = [])
    {root : Positional} (same : root.erase = (parse text).tree.root.erase) :
    ∀ node ∈ root.preorder, node.tokens ≠ [] := by
  intro node mem none
  obtain ⟨original, isNode, alike⟩ := exists_of_erase same node mem
  have texts := congrArg SlotTree.tokens alike
  rw [Positional.erase, Positional.erase, tokens_map, tokens_map, none, List.map_nil,
    List.map_eq_nil_iff] at texts
  exact (edgesHold_of_mem clean original isNode).1 texts

/-- In the tree of a text, printed from whatever positions, tokens may touch at every seam. -/
theorem allSeamed_of_erase {text : String} (clean : (parse text).diagnostics = [])
    {root : Positional} (same : root.erase = (parse text).tree.root.erase) {free : FreeTexts}
    (fits : AllFit free root.preorder) : AllSeamed MayTouch root.preorder := by
  have holds := edgesHold_of_mem clean
  have twin := exists_of_erase same
  have filled := tokens_ne_nil_of_erase clean same
  intro node mem
  obtain ⟨original, isNode, alike⟩ := twin node mem
  obtain ⟨-, edges⟩ := holds original isNode
  obtain ⟨among, fitted⟩ := fits node mem
  obtain ⟨kind, span, slots⟩ := node
  obtain ⟨kind', span', slots'⟩ := original
  rw [Positional.erase, Positional.erase, SlotTree.map, SlotTree.map, mapSlots_eq_map,
    mapSlots_eq_map] at alike
  obtain ⟨rfl, -, alike⟩ := SlotTree.node.inj alike
  have edges' : List.Forall₂ (fun shape slot => EdgesHold kind' shape (tokensSlot slot))
      (standardShape kind').anchors
      (slots'.map (mapSlot (fun _ => ()) Lexeme.text (fun _ => ()))) :=
    List.forall₂_map_right_iff.mpr
      (edges.imp fun shape slot holds => (tokensSlot_map _ _ _ slot).symm ▸ holds)
  rw [alike, List.forall₂_map_right_iff] at edges'
  have edged : List.Forall₂ (Edged (fun shape text => (shape.firstEdge kind').Holds text)
      (fun shape text => (shape.lastEdge kind').Holds text) (free kind') among)
      (standardShape kind').anchors slots := by
    refine List.forall₂_iff_zip.mpr ⟨fitted.length_eq, fun {shape slot} inside => ?_⟩
    have edge := (List.forall₂_iff_zip.mp edges').2 inside
    rw [tokensSlot_map] at edge
    refine ((List.forall₂_iff_zip.mp fitted).2 inside).edged_of_edgesHold edge ?_
    refine slotToken?_eq_head? slot fun below isBelow => filled below ?_
    refine preorder_subset_of_mem_preorder root mem ?_
    rw [preorder]
    exact List.mem_cons_of_mem _ (preorderSlots_subset_of_mem (List.of_mem_zip inside).2 isBelow)
  refine seamed_of_joinsAll (fun _ _ _ _ joined ends begins => ?_) edged (joinsAll_edges kind')
    (by simp)
  exact Edge.mayTouch joined ends begins

end GoTrivia

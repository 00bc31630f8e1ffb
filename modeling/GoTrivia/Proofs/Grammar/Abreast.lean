import GoTrivia.Proofs.Grammar.Running
import Mathlib.Data.List.Forall2
import Mathlib.Data.Option.Basic

/-!
# Two runs abreast

The grammar looks at the kinds of tokens and at whether some were taken, never at where they
stand, and it takes no token behind the end of its list.  So if two token lists agree but for
their offsets, runs over them go abreast: they take the same tokens, build the same trees
but for offsets, and report the same.

**Fundamental lemma.** Each rule gets one lemma, which follows the rule as it is written.  It
counts the tokens left in front of the end.  A rule is given rules that go abreast as long as
fewer tokens are left than the rule began with, so every reference through `Rules` has to
stand behind a token taken.  What the runs are compared by is left open, as is what lies
behind the ends of the two lists.
-/

set_option autoImplicit false

namespace GoTrivia

namespace Grammar

/-! ## What is compared -/

/-- What two runs are compared by: which offsets stand for each other, and the tokens that
lie behind the ends of the two lists. -/
structure Pairing where
  offset : Nat → Nat → Prop
  max : ∀ {a b c d}, offset a b → offset c d → offset (Nat.max a c) (Nat.max b d)
  beyond : List Token
  beyond' : List Token

/-- The content of a slot without the text of its token and the layout of its list. -/
inductive SlotSort
  | token
  | child
  | list
deriving DecidableEq, Repr

/-- What a slot is for. -/
def sortOf : SlotShape → SlotSort
  | .token _ => .token
  | .child => .child
  | .list _ => .list

/-- What the slots of a node are for. -/
def slotSorts (kind : NodeKind) : List SlotSort :=
  (standardShape kind).anchors.map fun shape => sortOf shape.slot

namespace Pairing

variable (pairing : Pairing)

/-- Spans that stand for each other. -/
def Spans (span span' : Span) : Prop :=
  pairing.offset span.start span'.start ∧ pairing.offset span.stop span'.stop

/-- Lexemes that agree but for where they stand. -/
structure Lexemes (lexeme lexeme' : Lexeme) : Prop where
  text : lexeme.text = lexeme'.text
  spans : pairing.Spans lexeme.span lexeme'.span

/-- Tokens that agree but for where they stand. -/
structure Tokens (token token' : Token) : Prop where
  lexemes : pairing.Lexemes token.toLexeme token'.toLexeme
  kind : token.kind = token'.kind
  implicit : token.isImplicit = token'.isImplicit

/-- Diagnostics that agree but for where they stand. -/
structure Reports (diagnostic diagnostic' : Diagnostic) : Prop where
  message : diagnostic.message = diagnostic'.message
  spans : pairing.Spans diagnostic.span diagnostic'.span

mutual
/-- Trees that agree but for where they stand, with slots as the shapes of their nodes ask. -/
inductive Trees : Positional → Positional → Prop
  | node {kind : NodeKind} {info info' : Span} {slots slots' : List PositionalSlot} :
      pairing.Spans info info' → SlotLists (slotSorts kind) slots slots' →
      Trees (.node kind info slots) (.node kind info' slots')

/-- Slots of given sorts that agree but for where their contents stand. -/
inductive SlotLists : List SlotSort → List PositionalSlot → List PositionalSlot → Prop
  | nil : SlotLists [] [] []
  | cons {sort : SlotSort} {sorts : List SlotSort} {slot slot' : PositionalSlot}
      {slots slots' : List PositionalSlot} :
      Slots sort slot slot' → SlotLists sorts slots slots' →
      SlotLists (sort :: sorts) (slot :: slots) (slot' :: slots')

/-- Slots of a sort that agree but for where their contents stand. -/
inductive Slots : SlotSort → PositionalSlot → PositionalSlot → Prop
  | vacant : Slots .token (.token none) (.token none)
  | token {lexeme lexeme' : Lexeme} : pairing.Lexemes lexeme lexeme' →
      Slots .token (.token (some lexeme)) (.token (some lexeme'))
  | childless : Slots .child (.child none) (.child none)
  | child {tree tree' : Positional} : Trees tree tree' →
      Slots .child (.child (some tree)) (.child (some tree'))
  | list {trees trees' : List Positional} {separators separators' : List Span} :
      TreeLists trees trees' → List.Forall₂ pairing.Spans separators separators' →
      Slots .list (.list trees separators) (.list trees' separators')

/-- Lists of trees that agree but for where they stand. -/
inductive TreeLists : List Positional → List Positional → Prop
  | nil : TreeLists [] []
  | cons {tree tree' : Positional} {trees trees' : List Positional} :
      Trees tree tree' → TreeLists trees trees' → TreeLists (tree :: trees) (tree' :: trees')
end

/-- Token lists that agree up to their ends, with `n` tokens in front of `eof`. -/
inductive Ahead : Nat → List Token → List Token → Prop
  | ended {token token' : Token} : pairing.Tokens token token' → token.kind = .eof →
      Ahead 0 (token :: pairing.beyond) (token' :: pairing.beyond')
  | token {n : Nat} {token token' : Token} {tokens tokens' : List Token} :
      pairing.Tokens token token' → token.kind ≠ .eof → Ahead n tokens tokens' →
      Ahead (n + 1) (token :: tokens) (token' :: tokens')

/-- States that go abreast, with `n` tokens in front of `eof`.  As long as no token was taken
that ends anywhere, the ends of the last ones are at the start of the texts. -/
structure Abreast (n : Nat) (state state' : ParseState) : Prop where
  ahead : pairing.Ahead n state.tokens state'.tokens
  lastEnd : state.lastEnd = 0 ∧ state'.lastEnd = 0 ∨ pairing.offset state.lastEnd state'.lastEnd
  reports : List.Forall₂ pairing.Reports state.diagnostics state'.diagnostics

/-- Two rules end abreast with at most `n` tokens left, and their values are as `post` says
of the number of tokens left. -/
def Goes {α β : Type} (n : Nat) (post : Nat → α → β → Prop) (rule : Parse α) (state : ParseState)
    (rule' : Parse β) (state' : ParseState) : Prop :=
  ∃ left ≤ n, pairing.Abreast left (rule.run state).2 (rule'.run state').2 ∧
    post left (rule.run state).1 (rule'.run state').1

/-- Two rules go abreast for trees. -/
abbrev GoesTree (n : Nat) (rule : Parse Positional) (state : ParseState)
    (rule' : Parse Positional) (state' : ParseState) : Prop :=
  pairing.Goes n (fun _ => pairing.Trees) rule state rule' state'

/-- Lists under construction that agree but for where their contents stand. -/
structure Gathers (list list' : Elements) : Prop where
  nodes : pairing.TreeLists list.nodes list'.nodes
  separators : List.Forall₂ pairing.Spans list.separators list'.separators

end Pairing

variable {pairing : Pairing} {α β α' β' : Type} {n m : Nat} {state state' : ParseState}

open Pairing

/-! ## Trees -/

namespace Pairing

theorem Trees.kind {tree tree' : Positional} (trees : pairing.Trees tree tree') :
    tree.kind = tree'.kind := by
  cases trees
  rfl

theorem Trees.spans {tree tree' : Positional} (trees : pairing.Trees tree tree') :
    pairing.Spans tree.span tree'.span := by
  cases trees with
  | node spans _ => exact spans

theorem SlotLists.append {sorts sorts' : List SlotSort}
    {slots slots' more more' : List PositionalSlot} (first : pairing.SlotLists sorts slots slots')
    (second : pairing.SlotLists sorts' more more') :
    pairing.SlotLists (sorts ++ sorts') (slots ++ more) (slots' ++ more') := by
  induction slots generalizing sorts slots' with
  | nil =>
    cases first
    exact second
  | cons slot slots ih =>
    cases first with
    | cons slot rest => exact .cons slot (ih rest)

theorem TreeLists.append {trees trees' more more' : List Positional}
    (first : pairing.TreeLists trees trees') (second : pairing.TreeLists more more') :
    pairing.TreeLists (trees ++ more) (trees' ++ more') := by
  induction trees generalizing trees' with
  | nil =>
    cases first
    exact second
  | cons tree trees ih =>
    cases first with
    | cons tree rest => exact .cons tree (ih rest)

theorem TreeLists.length {trees trees' : List Positional}
    (lists : pairing.TreeLists trees trees') : trees.length = trees'.length := by
  induction trees generalizing trees' with
  | nil =>
    cases lists
    rfl
  | cons tree trees ih =>
    cases lists with
    | cons _ rest => simp [ih rest]

theorem TreeLists.head? {trees trees' : List Positional}
    (lists : pairing.TreeLists trees trees') :
    Option.Rel pairing.Trees trees.head? trees'.head? := by
  cases lists with
  | nil => exact .none
  | cons tree _ => exact .some tree

/-- A token slot that may be empty. -/
theorem Slots.ofToken {found found' : Option Lexeme}
    (tokens : Option.Rel pairing.Lexemes found found') :
    pairing.Slots .token (.token found) (.token found') := by
  cases tokens with
  | some lexemes => exact .token lexemes
  | none => exact .vacant

/-- A child slot that may be empty. -/
theorem Slots.ofChild {found found' : Option Positional}
    (children : Option.Rel pairing.Trees found found') :
    pairing.Slots .child (.child found) (.child found') := by
  cases children with
  | some trees => exact .child trees
  | none => exact .childless

namespace Gathers

variable {list list' more more' : Elements} {tree tree' : Positional}

theorem empty : pairing.Gathers .empty .empty := ⟨.nil, .nil⟩

theorem single (trees : pairing.Trees tree tree') :
    pairing.Gathers (.single tree) (.single tree') := ⟨.cons trees .nil, .nil⟩

theorem push (lists : pairing.Gathers list list') (trees : pairing.Trees tree tree') :
    pairing.Gathers (list.push tree) (list'.push tree') :=
  ⟨lists.nodes.append (.cons trees .nil), lists.separators⟩

theorem separate {span span' : Span} (lists : pairing.Gathers list list')
    (spans : pairing.Spans span span') :
    pairing.Gathers (list.separate span) (list'.separate span') :=
  ⟨lists.nodes, List.rel_append lists.separators (.cons spans .nil)⟩

theorem separateBy {found found' : Option Span} (lists : pairing.Gathers list list')
    (spans : Option.Rel pairing.Spans found found') :
    pairing.Gathers (list.separateBy found) (list'.separateBy found') := by
  cases spans with
  | some spans => exact lists.separate spans
  | none => exact lists

theorem append (lists : pairing.Gathers list list') (others : pairing.Gathers more more') :
    pairing.Gathers (list.append more) (list'.append more') :=
  ⟨lists.nodes.append others.nodes, List.rel_append lists.separators others.separators⟩

theorem slot (lists : pairing.Gathers list list') :
    pairing.Slots .list list.slot list'.slot := .list lists.nodes lists.separators

end Gathers

/-! ## States -/

theorem Ahead.head {token token' : Token} {tokens tokens' : List Token}
    (ahead : pairing.Ahead n (token :: tokens) (token' :: tokens')) :
    pairing.Tokens token token' ∧ (0 < n ↔ token.kind ≠ .eof) := by
  cases ahead with
  | ended same isEnd => exact ⟨same, by simp [isEnd]⟩
  | token same other _ => exact ⟨same, by simp [other]⟩

theorem Ahead.length {tokens tokens' : List Token} (ahead : pairing.Ahead n tokens tokens') :
    tokens.length = n + 1 + pairing.beyond.length ∧
      tokens'.length = n + 1 + pairing.beyond'.length := by
  induction ahead with
  | ended => simp [Nat.add_comm]
  | token _ _ _ ih =>
    simp only [List.length_cons, ih]
    omega

namespace Abreast

/-- The tokens in line agree. -/
theorem current (abreast : pairing.Abreast n state state') :
    pairing.Tokens state.current state'.current := abreast.ahead.head.1

theorem kind (abreast : pairing.Abreast n state state') :
    state'.current.kind = state.current.kind := abreast.current.kind.symm

/-- There are tokens left exactly if `eof` is not in line. -/
theorem pos_iff (abreast : pairing.Abreast n state state') :
    0 < n ↔ state.current.kind ≠ .eof := abreast.ahead.head.2

theorem pos (abreast : pairing.Abreast n state state') (more : state.current.kind ≠ .eof) :
    0 < n := abreast.pos_iff.mpr more

theorem length (abreast : pairing.Abreast n state state') :
    state.upcoming.length = n + pairing.beyond.length ∧
      state'.upcoming.length = n + pairing.beyond'.length := by
  have lengths := abreast.ahead.length
  simp only [ParseState.tokens, List.length_cons] at lengths
  omega

/-- At the end, what lies behind it is left. -/
theorem upcoming_eq (abreast : pairing.Abreast 0 state state') :
    state.upcoming = pairing.beyond ∧ state'.upcoming = pairing.beyond' := by
  obtain ⟨ahead, -, -⟩ := abreast
  rw [ParseState.tokens, ParseState.tokens] at ahead
  generalize state.upcoming = upcoming, state'.upcoming = upcoming' at ahead ⊢
  generalize rest : state.current :: upcoming = tokens at ahead
  generalize rest' : state'.current :: upcoming' = tokens' at ahead
  cases ahead with
  | ended _ _ => exact ⟨(List.cons.inj rest).2, (List.cons.inj rest').2⟩

/-- Taking a token that is not the last goes on abreast. -/
theorem advance (abreast : pairing.Abreast (n + 1) state state') :
    pairing.Abreast n state.advance state'.advance := by
  obtain ⟨ahead, lastEnd, reports⟩ := abreast
  obtain ⟨current, upcoming, stop, diagnostics⟩ := state
  obtain ⟨current', upcoming', stop', diagnostics'⟩ := state'
  simp only [ParseState.tokens] at ahead
  cases ahead with
  | token tokens other rest =>
    obtain ⟨next, upcoming, rfl⟩ : ∃ next more, upcoming = next :: more := by
      cases rest <;> exact ⟨_, _, rfl⟩
    obtain ⟨next', upcoming', rfl⟩ : ∃ next more, upcoming' = next :: more := by
      cases rest <;> exact ⟨_, _, rfl⟩
    refine ⟨rest, ?_, reports⟩
    simp only [ParseState.advance, tokens.implicit]
    split
    · exact lastEnd
    · exact .inr tokens.lexemes.spans.2

/-- Nodes that are closed now stand for each other. -/
theorem closing {start start' : Nat} (abreast : pairing.Abreast n state state')
    (starts : pairing.offset start start') :
    pairing.Spans (.closing start state.lastEnd) (.closing start' state'.lastEnd) := by
  refine ⟨starts, ?_⟩
  rcases abreast.lastEnd with ⟨none, none'⟩ | lastEnd
  · simpa [none, none', Span.closing] using starts
  · exact pairing.max lastEnd starts

/-- The kind of the token behind the one in line. -/
theorem ahead_one (abreast : pairing.Abreast n state state') (more : state.current.kind ≠ .eof) :
    (state'.upcoming[0]?.map Token.kind).getD .eof =
      (state.upcoming[0]?.map Token.kind).getD .eof ∧
    ((state.upcoming[0]?.map Token.kind).getD .eof = state.advance.current.kind) := by
  obtain ⟨left, rfl⟩ := Nat.exists_eq_succ_of_ne_zero (Nat.ne_of_gt (abreast.pos more))
  have next := abreast.advance
  have kinds := next.kind
  have lengths := abreast.length
  obtain ⟨current, upcoming, stop, diagnostics⟩ := state
  obtain ⟨current', upcoming', stop', diagnostics'⟩ := state'
  cases upcoming with
  | nil =>
    have : 0 = left + 1 + _ := lengths.1
    omega
  | cons first upcoming =>
    cases upcoming' with
    | nil =>
      have : 0 = left + 1 + _ := lengths.2
      omega
    | cons first' upcoming' => exact ⟨kinds, rfl⟩

end Abreast

end Pairing

/-! ## Rules one after the other -/

namespace Pairing.Goes

variable {post : Nat → α → α' → Prop} {result : Nat → β → β' → Prop}

theorem weaken {rule : Parse α} {rule' : Parse α'} {weaker : Nat → α → α' → Prop}
    (goes : pairing.Goes n post rule state rule' state') (le : n ≤ m)
    (implies : ∀ {left value value'}, left ≤ n → post left value value' →
      weaker left value value') : pairing.Goes m weaker rule state rule' state' := by
  obtain ⟨left, bound, abreast, values⟩ := goes
  exact ⟨left, Nat.le_trans bound le, abreast, implies bound values⟩

/-- Behind a token taken, fewer tokens are left. -/
theorem strict {rule : Parse α} {rule' : Parse α'} (lt : n < m)
    (goes : pairing.Goes n post rule state rule' state') :
    pairing.Goes n (fun left value value' => left < m ∧ post left value value')
      rule state rule' state' :=
  goes.weaken (Nat.le_refl n) fun bound values => ⟨Nat.lt_of_le_of_lt bound lt, values⟩

theorem relax {rule : Parse α} {rule' : Parse α'}
    (goes : pairing.Goes n (fun left value value' => left < m ∧ post left value value')
      rule state rule' state') : pairing.Goes n post rule state rule' state' :=
  goes.weaken (Nat.le_refl n) fun _ values => values.2

protected theorem pure {value : α} {value' : α'} (abreast : pairing.Abreast n state state')
    (values : post n value value') :
    pairing.Goes n post (pure value) state (pure value') state' :=
  ⟨n, Nat.le_refl n, abreast, values⟩

protected theorem bind {rule : Parse α} {rule' : Parse α'} {next : α → Parse β}
    {next' : α' → Parse β'} (first : pairing.Goes n post rule state rule' state')
    (second : ∀ {left value value' middle middle'}, left ≤ n →
      pairing.Abreast left middle middle' → post left value value' →
      pairing.Goes left result (next value) middle (next' value') middle') :
    pairing.Goes n result (rule >>= next) state (rule' >>= next') state' := by
  obtain ⟨left, le, abreast, values⟩ := first
  exact (second le abreast values).weaken le fun _ => id

theorem ite {condition : Prop} [Decidable condition] {yes no : Parse α} {yes' no' : Parse α'}
    (holds : condition → pairing.Goes n post yes state yes' state')
    (fails : ¬condition → pairing.Goes n post no state no' state') :
    pairing.Goes n post (if condition then yes else no) state
      (if condition then yes' else no') state' := by
  split
  · next true => exact holds true
  · next false => exact fails false

/-! ## Single steps -/

theorem peek {next : TokenKind → Parse β} {next' : TokenKind → Parse β'}
    (abreast : pairing.Abreast n state state')
    (goes : pairing.Goes n result (next state.current.kind) state
      (next' state.current.kind) state') :
    pairing.Goes n result (Grammar.peek >>= next) state (Grammar.peek >>= next') state' := by
  have same : pairing.Goes n result (next state.current.kind) state
      (next' state'.current.kind) state' := by
    rw [abreast.kind]
    exact goes
  exact same

theorem here {next : Nat → Parse β} {next' : Nat → Parse β'}
    (abreast : pairing.Abreast n state state')
    (goes : pairing.offset state.current.span.start state'.current.span.start →
      pairing.Goes n result (next state.current.span.start) state
        (next' state'.current.span.start) state') :
    pairing.Goes n result (Grammar.here >>= next) state (Grammar.here >>= next') state' :=
  goes abreast.current.lexemes.spans.1

theorem take {next : Lexeme → Parse β} {next' : Lexeme → Parse β'}
    (abreast : pairing.Abreast n state state') (more : state.current.kind ≠ .eof)
    (goes : ∀ {left}, n = left + 1 → pairing.Abreast left state.advance state'.advance →
      pairing.Lexemes state.current.toLexeme state'.current.toLexeme →
      pairing.Goes left result (next state.current.toLexeme) state.advance
        (next' state'.current.toLexeme) state'.advance) :
    pairing.Goes n result (Grammar.take >>= next) state (Grammar.take >>= next') state' := by
  obtain ⟨left, rfl⟩ := Nat.exists_eq_succ_of_ne_zero (Nat.ne_of_gt (abreast.pos more))
  exact (goes rfl abreast.advance abreast.current.lexemes).weaken (Nat.le_succ left) fun _ => id

/-- Reporting takes nothing. -/
theorem reportAt {span span' : Span} (message : String)
    (abreast : pairing.Abreast n state state') (spans : pairing.Spans span span') :
    pairing.Goes n (fun left _ _ => left = n) (Grammar.reportAt message span) state
      (Grammar.reportAt message span') state' :=
  ⟨n, Nat.le_refl n, ⟨abreast.ahead, abreast.lastEnd,
    List.rel_append abreast.reports (.cons ⟨rfl, spans⟩ .nil)⟩, rfl⟩

theorem report {message : String} (abreast : pairing.Abreast n state state') :
    pairing.Goes n (fun left _ _ => left = n) (Grammar.report message) state
      (Grammar.report message) state' :=
  reportAt message abreast abreast.current.lexemes.spans

theorem close {kind : NodeKind} {start start' : Nat} {slots slots' : List PositionalSlot}
    (abreast : pairing.Abreast n state state') (starts : pairing.offset start start')
    (lists : pairing.SlotLists (slotSorts kind) slots slots') :
    pairing.GoesTree n (Grammar.close kind start slots) state
      (Grammar.close kind start' slots') state' :=
  ⟨n, Nat.le_refl n, abreast, .node (abreast.closing starts) lists⟩

end Pairing.Goes

end Grammar

end GoTrivia

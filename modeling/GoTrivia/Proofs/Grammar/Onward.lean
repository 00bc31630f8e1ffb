import GoTrivia.Proofs.Grammar.AbreastSteps
import GoTrivia.Proofs.Grammar.Growing

/-!
# Going onward

What a rule does to the tokens of any text: it takes some of those ahead, and diagnostics are
only added.  `Leads` says so of one rule in one state, and what holds of its value and the
state behind it.  There is one lemma for each way of putting rules together, and a rule is
then followed as it is written.

**Where nodes end.** A node ends with the last token taken, inserted semicolons left out.  So
if a comma is in line behind a node, and the token in front of the comma was not inserted, the
comma stands right behind the node (`Rests`).  Tokens are in order, so a node does not begin
behind a token that was taken after it was begun (`Past`).
-/

set_option autoImplicit false

namespace GoTrivia

namespace Grammar

variable {α β : Type} {origin state after : ParseState}

/-! ## Places of a run -/

/-- A run from `origin` on has come to a state. -/
def Stands (origin state : ParseState) : Prop := ∃ tokens, Took origin tokens state

/-- A run from `origin` on has come to a state by taking a token. -/
def LastTaken (origin state : ParseState) (last : Token) : Prop :=
  ∃ front, Took origin (front ++ [last]) state

/-- Since an offset was in line or had been passed, a token was taken. -/
def Past (origin : ParseState) (offset : Nat) (state : ParseState) : Prop :=
  ∃ earlier, Stands origin earlier ∧ offset ≤ earlier.current.span.start ∧
    state.upcoming.length < earlier.upcoming.length

/-- A comma in line stands right behind a token that was not inserted. -/
def Firm (origin state : ParseState) : Prop :=
  state.current.kind = .comma → ∃ last, LastTaken origin state last ∧ last.isImplicit = false

theorem Stands.refl (lawful : Lawful state.tokens) : Stands state state := ⟨[], .refl lawful⟩

theorem LastTaken.stands {last : Token} (taken : LastTaken origin state last) :
    Stands origin state := ⟨_, taken.choose_spec⟩

theorem Stands.lawful (stands : Stands origin state) : Lawful state.tokens :=
  stands.choose_spec.lawful_after

theorem LastTaken.lastEnd {last : Token} (taken : LastTaken origin state last)
    (shown : last.isImplicit = false) : state.lastEnd = last.span.stop := by
  obtain ⟨front, took⟩ := taken
  simp [took.stop, lastStop, List.foldl_append, shown]

theorem Stands.take (stands : Stands origin state) (more : state.current.kind ≠ .eof) :
    LastTaken origin state.advance state.current := by
  obtain ⟨tokens, took⟩ := stands
  exact ⟨tokens, took.take more⟩

/-- One state behind another has the last tokens of the other ahead. -/
theorem Stands.exists_append (stands : Stands origin state) (further : Stands origin after)
    (fewer : after.upcoming.length ≤ state.upcoming.length) :
    ∃ between, state.tokens = between ++ after.tokens := by
  obtain ⟨front, took⟩ := stands
  obtain ⟨back, took'⟩ := further
  rcases List.append_eq_append_iff.mp (took.split.symm.trans took'.split) with
    ⟨between, -, split⟩ | ⟨between, -, split⟩
  · exact ⟨between, split⟩
  · have lengths := congrArg List.length split
    simp only [ParseState.tokens, List.length_append, List.length_cons] at lengths
    obtain rfl : between = [] := List.length_eq_zero_iff.mp (by omega)
    exact ⟨[], split.symm⟩

/-- Tokens are in order. -/
theorem Stands.le_start (stands : Stands origin state) (further : Stands origin after)
    (fewer : after.upcoming.length ≤ state.upcoming.length) :
    state.current.span.start ≤ after.current.span.start := by
  obtain ⟨between, split⟩ := stands.exists_append further fewer
  have lawful := stands.lawful
  cases between with
  | nil => exact Nat.le_of_eq (congrArg (·.span.start) (List.cons.inj split).1)
  | cons token between =>
    obtain ⟨rfl, behind⟩ := List.cons.inj split
    have ordered := (lawful.regular state.current List.mem_cons_self).ordered
    have mem : after.current ∈ state.upcoming := by simp [behind, ParseState.tokens]
    have apart := List.rel_of_pairwise_cons lawful.ordered mem
    omega

/-- A token that was taken ends behind whatever was passed before it. -/
theorem Past.le_last {offset : Nat} {last : Token} (past : Past origin offset state)
    (taken : LastTaken origin state last) : offset ≤ last.span.stop := by
  obtain ⟨earlier, stands, le, fewer⟩ := past
  obtain ⟨between, split⟩ := stands.exists_append taken.stands (Nat.le_of_lt fewer)
  obtain ⟨front, took⟩ := taken
  obtain ⟨passed, took'⟩ := stands
  have lawful := took'.lawful_after
  have same : passed ++ between = front ++ [last] := by
    have whole := took'.split.symm.trans took.split
    rw [split, ← List.append_assoc] at whole
    exact List.append_cancel_right whole
  have lengths := congrArg List.length split
  simp only [ParseState.tokens, List.length_append, List.length_cons] at lengths
  obtain ⟨inner, rfl⟩ : ∃ inner, between = inner ++ [last] := by
    rcases List.eq_nil_or_concat between with rfl | ⟨inner, token, rfl⟩
    · simp at lengths
      omega
    · rw [List.concat_eq_append, ← List.append_assoc] at same
      obtain rfl : token = last := by simpa using (List.append_inj' same rfl).2
      exact ⟨inner, List.concat_eq_append⟩
  have begins : (inner ++ [last]).head? = some earlier.current := by
    have first := congrArg List.head? split
    cases inner <;> simpa [ParseState.tokens] using first.symm
  rw [split] at lawful
  exact Nat.le_trans le (lawful.le_of_append begins List.getLast?_concat)

theorem Past.of_start {earlier : ParseState} {offset : Nat} (stands : Stands origin earlier)
    (since : offset ≤ earlier.current.span.start)
    (fewer : state.upcoming.length < earlier.upcoming.length) : Past origin offset state :=
  ⟨earlier, stands, since, fewer⟩

theorem Past.later {offset : Nat} (past : Past origin offset state)
    (fewer : after.upcoming.length ≤ state.upcoming.length) : Past origin offset after := by
  obtain ⟨earlier, stands, since, lt⟩ := past
  exact ⟨earlier, stands, since, Nat.lt_of_le_of_lt fewer lt⟩

theorem Past.since {offset : Nat} (past : Past origin offset state) (stands : Stands origin state) :
    offset ≤ state.current.span.start := by
  obtain ⟨earlier, before, since, fewer⟩ := past
  exact Nat.le_trans since (before.le_start stands (Nat.le_of_lt fewer))

/-- Behind a token that is no semicolon a comma stands firm. -/
theorem LastTaken.firm {last : Token} (taken : LastTaken origin state last)
    (solid : last.kind ≠ .semicolon) : Firm origin state :=
  fun _ => ⟨last, taken, isImplicit_of_kind solid⟩

theorem Firm.of_ne (other : state.current.kind ≠ .comma) : Firm origin state :=
  fun isComma => absurd isComma other

/-! ## Where tokens end -/

theorem lastStop_le {stop bound : Nat} {tokens : List Token} (le : stop ≤ bound)
    (inside : ∀ token ∈ tokens, token.span.stop ≤ bound) : lastStop stop tokens ≤ bound := by
  induction tokens generalizing stop with
  | nil => exact le
  | cons token tokens ih =>
    have others := fun other mem => inside other (List.mem_cons_of_mem _ mem)
    rw [lastStop, List.foldl_cons]
    split
    · exact ih le others
    · exact ih (inside token List.mem_cons_self) others

theorem le_lastStop {stop bound : Nat} {tokens : List Token} (le : bound ≤ stop)
    (behind : ∀ token ∈ tokens, bound ≤ token.span.stop) : bound ≤ lastStop stop tokens := by
  induction tokens generalizing stop with
  | nil => exact le
  | cons token tokens ih =>
    have others := fun other mem => behind other (List.mem_cons_of_mem _ mem)
    rw [lastStop, List.foldl_cons]
    split
    · exact ih le others
    · exact ih (behind token List.mem_cons_self) others

/-- Tokens that were not inserted end no further behind than the last of them. -/
theorem Stands.le_lastEnd {tokens : List Token} {token : Token} (took : Took origin tokens state)
    (mem : token ∈ tokens) (shown : token.isImplicit = false) :
    token.span.stop ≤ state.lastEnd := by
  obtain ⟨front, back, rfl⟩ := List.append_of_mem mem
  have lawful := took.lawful
  rw [took.split] at lawful
  have behind : ∀ other ∈ back, token.span.stop ≤ other.span.stop := by
    intro other mem
    have apart : token.span.stop ≤ other.span.start := by
      have ordered := (List.pairwise_append.mp lawful.ordered).1
      exact List.rel_of_pairwise_cons (List.pairwise_append.mp ordered).2.1 mem
    have ordered := (lawful.regular other (by simp [mem])).ordered
    omega
  rw [took.stop, lastStop, List.foldl_append, List.foldl_cons, shown]
  exact le_lastStop (Nat.le_refl _) behind

/-- A run that begins behind what was taken before. -/
def Fresh (origin : ParseState) : Prop := origin.lastEnd ≤ origin.current.span.start

/-- What was taken ends in front of the token in line. -/
theorem Stands.lastEnd_le (stands : Stands origin state) (fresh : Fresh origin) :
    state.lastEnd ≤ state.current.span.start := by
  obtain ⟨tokens, took⟩ := stands
  have lengths := congrArg List.length took.split
  simp only [ParseState.tokens, List.length_append, List.length_cons] at lengths
  have later := (Stands.refl took.lawful).le_start ⟨tokens, took⟩ (by omega)
  rw [took.stop]
  refine lastStop_le (Nat.le_trans fresh later) fun token mem => ?_
  have ordered := took.split ▸ took.lawful.ordered
  exact (List.pairwise_append.mp ordered).2.2 token mem state.current List.mem_cons_self

/-- A tree lies behind what was taken and in front of what is in line, and a comma in line
stands right behind it. -/
structure Rests (origin : ParseState) (tree : Positional) (state : ParseState) : Prop where
  ordered : tree.span.start ≤ tree.span.stop
  since : tree.span.start ≤ state.current.span.start
  covers : state.lastEnd ≤ tree.span.stop
  before : Fresh origin → tree.span.stop ≤ state.current.span.start
  ends : state.current.kind = .comma → ∃ last, LastTaken origin state last ∧
    last.isImplicit = false ∧ last.span.stop = tree.span.stop

theorem Rests.firm {tree : Positional} (rests : Rests origin tree state) : Firm origin state := by
  intro isComma
  obtain ⟨last, taken, shown, -⟩ := rests.ends isComma
  exact ⟨last, taken, shown⟩

/-- The comma in line is the separator behind a tree. -/
theorem Rests.behind {tree : Positional} (rests : Rests origin tree state)
    (isComma : state.current.kind = .comma) : Behind origin.tokens tree state.current.span := by
  obtain ⟨last, ⟨front, took⟩, shown, stop⟩ := rests.ends isComma
  refine ⟨rests.ordered, front, last, state.current, state.upcoming, ?_, isComma, rfl, shown, stop⟩
  rw [took.split, List.append_assoc]
  rfl

/-- If the token in line is no brace, none stands behind the tree. -/
theorem Rests.unbraced {tree : Positional} (rests : Rests origin tree state)
    (stands : Stands origin state) (fresh : Fresh origin)
    (other : state.current.kind ≠ .leftBrace) : Unbraced origin.tokens tree.span := by
  intro token found isBrace
  obtain ⟨front, took⟩ := stands
  rw [took.split, List.find?_append] at found
  rcases Option.or_eq_some_iff.mp found with early | ⟨-, late⟩
  · -- A token taken before that begins so late was inserted.
    have mem := List.mem_of_find?_eq_some early
    have regular := took.lawful.regular token (by simp [took.split, mem])
    have shown : token.isImplicit = false := isImplicit_of_kind (by simp [isBrace])
    have stop := Stands.le_lastEnd took mem shown
    have width := (regular.visible (by simp [isBrace]) (by simp [isBrace])).2
    have start : tree.span.stop ≤ token.span.start := by simpa using List.find?_some early
    have covers := rests.covers
    omega
  · have here : decide (tree.span.stop ≤ state.current.span.start) = true :=
      decide_eq_true (rests.before fresh)
    rw [ParseState.tokens, List.find?_cons, here] at late
    exact other (Option.some.inj late ▸ isBrace)

/-- Behind a tree its start has been passed. -/
theorem Rests.past {tree : Positional} (rests : Rests origin tree state)
    (stands : Stands origin state) (fewer : after.upcoming.length < state.upcoming.length) :
    Past origin tree.span.start after := .of_start stands rests.since fewer

/-- A node that is closed here ends with the last token taken. -/
theorem rests_closing {kind : NodeKind} {start : Nat} {slots : List PositionalSlot}
    (stands : Stands origin state) (past : Past origin start state) (firm : Firm origin state) :
    Rests origin (.node kind (.closing start state.lastEnd) slots) state where
  ordered := Span.start_le_stop_closing _ _
  since := past.since stands
  covers := Nat.le_max_left _ _
  before fresh := Nat.max_le.mpr ⟨stands.lastEnd_le fresh, past.since stands⟩
  ends isComma := by
    obtain ⟨last, taken, shown⟩ := firm isComma
    refine ⟨last, taken, shown, ?_⟩
    have le := past.le_last taken
    have lastEnd := taken.lastEnd shown
    show last.span.stop = max state.lastEnd start
    omega

/-! ## Rules -/

/-- A value that was reached onward from a state, and is as asked for. -/
structure Reached (origin : ParseState) (post : α → ParseState → Prop) (state : ParseState)
    (reached : α × ParseState) : Prop where
  stands : Stands origin reached.2
  fewer : reached.2.upcoming.length ≤ state.upcoming.length
  reports : state.diagnostics.length ≤ reached.2.diagnostics.length
  result : post reached.1 reached.2

/-- A rule leads from one state onward to another, and what it gives is as asked for. -/
def Leads (origin : ParseState) (post : α → ParseState → Prop) (rule : Parse α)
    (state : ParseState) : Prop :=
  Reached origin post state (rule.run state)

/-- A tree that the grammar may put at a place. -/
def Growing (origin : ParseState) (place : Place) (least : Nat) (tree : Positional)
    (after : ParseState) : Prop :=
  Grown origin.tokens after.diagnostics.length place least tree

/-- A tree that the grammar may put at a place, and that may be followed by a comma. -/
structure Resting (origin : ParseState) (place : Place) (least : Nat) (tree : Positional)
    (after : ParseState) : Prop where
  grown : Grown origin.tokens after.diagnostics.length place least tree
  rests : Rests origin tree after

theorem Resting.weaken {place : Place} {least least' : Nat} {tree : Positional}
    (resting : Resting origin place least tree after) (bound : least' ≤ least) :
    Resting origin place least' tree after :=
  ⟨resting.grown.weaken (Nat.le_refl _) bound, resting.rests⟩

/-- An operand that accepts no brace in line is a whole expression. -/
theorem Resting.finish {literals : Bool} {least : Nat} {tree : Positional}
    (resting : Resting origin (.operand literals) least tree after)
    (stands : Stands origin after) (fresh : Fresh origin)
    (other : literals = true → isTypeName tree.kind = true → after.current.kind ≠ .leftBrace) :
    Resting origin (.whole literals) least tree after :=
  ⟨resting.grown.finish fun isTrue isName =>
    resting.rests.unbraced stands fresh (other isTrue isName), resting.rests⟩

/-- A list of trees that the grammar may put at a place, with commas. -/
structure Listing (origin : ParseState) (place : Place) (least : Nat) (list : Elements)
    (after : ParseState) : Prop where
  grows : list.Grows origin.tokens after.diagnostics.length place least
  commas : CommaSeparated origin.tokens list.nodes list.separators

/-- A state that differs in its diagnostics only. -/
def Same (state after : ParseState) : Prop :=
  after = { state with diagnostics := after.diagnostics }

/-- A token that was expected and then taken, or is missing. -/
inductive Sought (state : ParseState) (kind : TokenKind) : Option Lexeme → ParseState → Prop
  | found (isKind : state.current.kind = kind) :
      Sought state kind (some state.current.toLexeme) state.advance
  | missing {after : ParseState} (other : state.current.kind ≠ kind) (same : Same state after) :
      Sought state kind none after

theorem Same.stands (same : Same state after) (stands : Stands origin state) :
    Stands origin after := by
  obtain ⟨tokens, took⟩ := stands
  rw [same]
  exact ⟨tokens, took.lawful, took.split, took.stop⟩

theorem Same.firm (same : Same state after) (firm : Firm origin state) : Firm origin after := by
  intro isComma
  rw [same] at isComma ⊢
  obtain ⟨last, ⟨front, took⟩, shown⟩ := firm isComma
  exact ⟨last, ⟨front, took.lawful, took.split, took.stop⟩, shown⟩

theorem Sought.firm {kind : TokenKind} {found : Option Lexeme}
    (sought : Sought state kind found after) (stands : Stands origin state)
    (firm : Firm origin state) (solid : kind ≠ .eof ∧ kind ≠ .semicolon) : Firm origin after := by
  cases sought with
  | found isKind => exact (stands.take (isKind ▸ solid.1)).firm (isKind ▸ solid.2)
  | missing _ same => exact same.firm firm

/-- Taking a token that is not the last. -/
theorem Stands.length_advance (stands : Stands origin state) (more : state.current.kind ≠ .eof) :
    state.advance.upcoming.length + 1 = state.upcoming.length := by
  obtain ⟨front, last, split, isEnd, -⟩ := stands.lawful.ended
  unfold ParseState.advance
  cases upcoming : state.upcoming with
  | nil =>
    rw [ParseState.tokens, upcoming] at split
    cases front with
    | nil => exact absurd ((List.cons.inj split).1 ▸ isEnd) more
    | cons first front => simp at split
  | cons next rest => rfl

/-- There is a token behind one that is not the last. -/
theorem Stands.pos (stands : Stands origin state) (more : state.current.kind ≠ .eof) :
    0 < state.upcoming.length := by
  have length := stands.length_advance more
  omega

/-- The last token of all has none behind it. -/
theorem Stands.length_eof (stands : Stands origin state) (isEnd : state.current.kind = .eof) :
    state.upcoming.length = 0 :=
  List.length_eq_zero_iff.mpr (stands.lawful.eq_nil_of_eof isEnd)

namespace Leads

variable {post : α → ParseState → Prop} {result : β → ParseState → Prop}

theorem imp {weaker : α → ParseState → Prop} {rule : Parse α} (leads : Leads origin post rule state)
    (implies : ∀ {value after}, Stands origin after →
      after.upcoming.length ≤ state.upcoming.length →
      state.diagnostics.length ≤ after.diagnostics.length → post value after →
      weaker value after) : Leads origin weaker rule state :=
  ⟨leads.stands, leads.fewer, leads.reports,
    implies leads.stands leads.fewer leads.reports leads.result⟩

protected theorem pure {value : α} (stands : Stands origin state) (holds : post value state) :
    Leads origin post (pure value) state :=
  ⟨stands, Nat.le_refl _, Nat.le_refl _, holds⟩

protected theorem bind {rule : Parse α} {next : α → Parse β} (first : Leads origin post rule state)
    (second : ∀ {value middle}, Stands origin middle →
      middle.upcoming.length ≤ state.upcoming.length →
      state.diagnostics.length ≤ middle.diagnostics.length → post value middle →
      Leads origin result (next value) middle) : Leads origin result (rule >>= next) state := by
  have further := second first.stands first.fewer first.reports first.result
  exact ⟨further.stands, Nat.le_trans further.fewer first.fewer,
    Nat.le_trans first.reports further.reports, further.result⟩

theorem ite {condition : Prop} [Decidable condition] {yes no : Parse α}
    (holds : condition → Leads origin post yes state)
    (fails : ¬condition → Leads origin post no state) :
    Leads origin post (if condition then yes else no) state := by
  split
  · next true => exact holds true
  · next false => exact fails false

/-- Unless something is reported, a rule gives what it reads from the tokens it takes. -/
theorem read {rule : Parse α} {result : α → List Token → Prop}
    (leads : Leads origin post rule state) (stands : Stands origin state)
    (reads : Reads rule Anywhere result) :
    Leads origin (fun value after => post value after ∧ (0 < after.diagnostics.length ∨
      ∃ front inside back, origin.tokens = front ++ inside ++ back ∧ result value inside))
      rule state := by
  refine ⟨leads.stands, leads.fewer, leads.reports, leads.result, ?_⟩
  rcases Nat.eq_zero_or_pos (rule.run state).2.diagnostics.length with none | some
  · obtain ⟨front, took⟩ := stands
    have clean : Clean rule state (rule.run state).1 (rule.run state).2 :=
      ⟨rfl, List.length_eq_zero_iff.mp none⟩
    obtain ⟨inside, further, holds⟩ := reads clean took.lawful_after trivial
    exact .inr ⟨front, inside, (rule.run state).2.tokens, (took.trans further).split, holds⟩
  · exact .inl some

/-! ## Single steps -/

theorem peek {next : TokenKind → Parse β}
    (leads : Leads origin result (next state.current.kind) state) :
    Leads origin result (Grammar.peek >>= next) state := leads

theorem here {next : Nat → Parse β}
    (leads : Leads origin result (next state.current.span.start) state) :
    Leads origin result (Grammar.here >>= next) state := leads

theorem remaining {next : Nat → Parse β}
    (leads : Leads origin result (next (state.upcoming.length + 1)) state) :
    Leads origin result (Grammar.remaining >>= next) state := leads

theorem ahead {n : Nat} {next : TokenKind → Parse β}
    (leads : Leads origin result (next ((state.upcoming[n]?.map Token.kind).getD .eof)) state) :
    Leads origin result (Grammar.ahead (n + 1) >>= next) state := leads

theorem closed {kind : NodeKind} {start : Nat} {slots : List PositionalSlot}
    {next : Positional → Parse β}
    (leads : Leads origin result (next (.node kind (.closing start state.lastEnd) slots)) state) :
    Leads origin result (Grammar.close kind start slots >>= next) state := leads

theorem take {next : Lexeme → Parse β} (stands : Stands origin state)
    (more : state.current.kind ≠ .eof)
    (leads : LastTaken origin state.advance state.current →
      state.advance.upcoming.length + 1 = state.upcoming.length →
      state.advance.diagnostics.length = state.diagnostics.length →
      Leads origin result (next state.current.toLexeme) state.advance) :
    Leads origin result (Grammar.take >>= next) state := by
  have length := stands.length_advance more
  have kept := congrArg List.length (ParseState.diagnostics_advance state)
  have further := leads (stands.take more) length kept
  exact ⟨further.stands, Nat.le_trans further.fewer (by omega),
    Nat.le_trans (Nat.le_of_eq kept.symm) further.reports, further.result⟩

/-- Behind a token taken, fewer are left. -/
theorem takeStrict {next : Lexeme → Parse β} (stands : Stands origin state)
    (more : state.current.kind ≠ .eof)
    (leads : LastTaken origin state.advance state.current →
      state.advance.upcoming.length + 1 = state.upcoming.length →
      state.advance.diagnostics.length = state.diagnostics.length →
      Leads origin result (next state.current.toLexeme) state.advance) :
    Leads origin (fun value after => result value after ∧
      after.upcoming.length < state.upcoming.length) (Grammar.take >>= next) state :=
  take stands more fun taken length same =>
    (leads taken length same).imp fun _ fewer _ holds => ⟨holds, by omega⟩

theorem reportAt {message : String} {span : Span} (stands : Stands origin state) :
    Leads origin (fun _ after => Same state after ∧ 0 < after.diagnostics.length)
      (Grammar.reportAt message span) state where
  stands := by
    obtain ⟨tokens, took⟩ := stands
    exact ⟨tokens, took.lawful, took.split, took.stop⟩
  fewer := Nat.le_refl _
  reports := by
    show _ ≤ (state.diagnostics ++ [_]).length
    simp
  result := ⟨rfl, by
    show 0 < (state.diagnostics ++ [_]).length
    simp⟩

theorem report {message : String} (stands : Stands origin state) :
    Leads origin (fun _ after => Same state after ∧ 0 < after.diagnostics.length)
      (Grammar.report message) state := reportAt stands

theorem expect {kind : TokenKind} {message : String} (stands : Stands origin state)
    (more : kind ≠ .eof) :
    Leads origin (fun found after => Sought state kind found after)
      (Grammar.expect kind message) state := by
  unfold Grammar.expect
  refine .peek (.ite (fun isKind => ?_) fun other => ?_)
  · exact .take stands (isKind ▸ more) fun taken _ _ => .pure taken.stands (.found isKind)
  · exact .bind (report stands) fun stands _ _ same => .pure stands (.missing other same.1)

theorem close {post : Positional → ParseState → Prop} {kind : NodeKind} {start : Nat}
    {slots : List PositionalSlot} (stands : Stands origin state)
    (holds : post (.node kind (.closing start state.lastEnd) slots) state) :
    Leads origin post (Grammar.close kind start slots) state :=
  ⟨stands, Nat.le_refl _, Nat.le_refl _, holds⟩

/-- A node all of whose slots are filled. -/
theorem closeGrown {kind : NodeKind} {start least : Nat} {place : Place}
    {slots : List PositionalSlot} (stands : Stands origin state)
    (fills : Fills origin.tokens state.diagnostics.length place kind
      (standardShape kind).anchors slots)
    (plain : place.isPlain kind = true) :
    Leads origin (Growing origin place least) (Grammar.close kind start slots) state :=
  close stands (fills.grown plain)

/-- A node all of whose slots are filled, and that may be followed by a comma. -/
theorem closeResting {kind : NodeKind} {start least : Nat} {place : Place}
    {slots : List PositionalSlot} (stands : Stands origin state) (past : Past origin start state)
    (firm : Firm origin state)
    (fills : Fills origin.tokens state.diagnostics.length place kind
      (standardShape kind).anchors slots)
    (plain : place.isPlain kind = true) :
    Leads origin (Resting origin place least) (Grammar.close kind start slots) state :=
  close stands ⟨fills.grown plain, rests_closing stands past firm⟩

end Leads

/-! ## Repetition -/

/-- A repetition goes on behind a token taken, or is done. -/
inductive Proceeds (bound : Nat) (invariant goal : α → ParseState → Prop) :
    Flow α → ParseState → Prop
  | again {value : α} {after : ParseState} (lt : after.upcoming.length < bound)
      (holds : invariant value after) : Proceeds bound invariant goal (.again value) after
  | done {value : α} {after : ParseState} (holds : goal value after) :
      Proceeds bound invariant goal (.done value) after

/-- A step that keeps an invariant, and takes a token when it goes on. -/
def Strides (origin state : ParseState) (invariant goal : α → ParseState → Prop)
    (step : α → Parse (Flow α)) : Prop :=
  ∀ value now, Stands origin now → now.upcoming.length ≤ state.upcoming.length →
    state.diagnostics.length ≤ now.diagnostics.length → invariant value now →
    Leads origin (Proceeds now.upcoming.length invariant goal) (step value) now

theorem leads_iterateUpTo {invariant goal : α → ParseState → Prop} {step : α → Parse (Flow α)}
    (steps : Strides origin state invariant goal step) {fuel : Nat} {value : α} {now : ParseState}
    (stands : Stands origin now) (fewer : now.upcoming.length ≤ state.upcoming.length)
    (reports : state.diagnostics.length ≤ now.diagnostics.length)
    (enough : now.upcoming.length < fuel) (holds : invariant value now) :
    Leads origin goal (iterateUpTo step fuel value) now := by
  induction fuel generalizing value now with
  | zero => omega
  | succ fuel ih =>
    unfold iterateUpTo
    refine .bind (steps _ _ stands fewer reports holds) fun stands le ge flows => ?_
    cases flows with
    | again lt holds => exact ih stands (by omega) (by omega) (by omega) holds
    | done holds => exact .pure stands holds

/-- A repetition ends with a step that is done. -/
theorem leads_iterate (invariant : α → ParseState → Prop) {goal : α → ParseState → Prop}
    {step : α → Parse (Flow α)} (steps : Strides origin state invariant goal step) {value : α}
    (stands : Stands origin state) (holds : invariant value state) : Leads origin goal (iterate step value) state :=
  .remaining (leads_iterateUpTo steps stands (Nat.le_refl _) (Nat.le_refl _) (Nat.lt_succ_self _)
    holds)

/-! ## Recovery -/

/-- What stands in for a missing node may stand anywhere. -/
theorem leads_bad {kind : NodeKind} {message : String} {place : Place} {least : Nat}
    (stands : Stands origin state) (noSlots : (standardShape kind).anchors = [])
    (plain : place.isPlain kind = true) :
    Leads origin (Resting origin place least) (bad kind message) state := by
  have grown : ∀ {count span}, Grown origin.tokens count place least
      (.node kind span []) := fun {count span} =>
    Fills.grown (noSlots ▸ .nil) plain
  unfold bad
  refine .bind (.report stands) fun {_ now} stands _ _ _ => .here (.peek (.ite (fun skipped => ?_)
    fun kept => ?_))
  · have ne : ∀ kind, recovery.contains kind = true → now.current.kind ≠ kind := by
      rintro kind mem rfl
      simp [mem] at skipped
    refine .take stands (ne .eof rfl) fun taken _ _ => .close taken.stands ⟨grown, ?_⟩
    exact rests_closing taken.stands (.of_start stands (Nat.le_refl _) (by omega))
      (taken.firm (ne .semicolon rfl))
  · have isKept : recovery.contains now.current.kind = true := by simpa using kept
    refine .close stands ⟨grown, ?_, Nat.le_refl _, ?_, fun fresh => ?_, fun isComma => ?_⟩
    · exact Span.start_le_stop_closing _ _
    · exact Nat.le_max_left _ _
    · exact Nat.max_le.mpr ⟨stands.lastEnd_le fresh, Nat.le_refl _⟩
    · rw [isComma] at isKept
      cases isKept

theorem leads_takeIf {kind : TokenKind} (stands : Stands origin state)
    (more : kind ≠ .eof) :
    Leads origin (fun found after => if found then after.upcoming.length < state.upcoming.length
      else after = state) (takeIf kind) state := by
  unfold takeIf
  refine .peek (.ite (fun isKind => ?_) fun _ => .pure stands rfl)
  refine .take stands (isKind ▸ more) fun taken _ _ => .pure taken.stands ?_
  rw [if_pos rfl]
  omega

theorem leads_terminator (stands : Stands origin state) :
    Leads origin (fun _ _ => True) terminator state := by
  have skip : ∀ {state : ParseState}, Strides origin state (fun _ _ => True) (fun _ _ => True)
      skipStep := by
    intro state value now stands _ _ _
    unfold skipStep
    refine .peek (.ite (fun _ => .pure stands (.done trivial)) fun goesOn => ?_)
    have more : now.current.kind ≠ .eof := fun isEnd => goesOn (.inr (by rw [isEnd]; rfl))
    exact .take stands more fun taken _ _ => .pure taken.stands (.again (by omega) trivial)
  unfold terminator
  refine .bind (leads_takeIf stands (by decide)) fun stands _ _ _ => ?_
  refine .ite (fun _ => .pure stands trivial) fun _ => ?_
  refine .peek (.ite (fun _ => .pure stands trivial) fun _ => ?_)
  refine .bind (.report stands) fun stands _ _ _ => ?_
  refine .bind (leads_iterate (fun _ _ => True) skip stands trivial) fun stands _ _ _ => ?_
  exact .bind (leads_takeIf stands (by decide)) fun stands _ _ _ => .pure stands trivial

/-- If nothing was taken since more tokens than the last were left, one is taken now. -/
theorem leads_ensureProgress {earlier : ParseState} (stands : Stands origin state)
    (fewer : state.upcoming.length ≤ earlier.upcoming.length) (pos : 0 < earlier.upcoming.length) :
    Leads origin (fun _ after => after.upcoming.length < earlier.upcoming.length)
      (ensureProgress (earlier.upcoming.length + 1)) state := by
  unfold ensureProgress
  refine .remaining (.peek (.ite (fun idle => ?_) fun moved => ?_))
  · refine .bind (.report stands) fun {_ now} stands _ _ same => ?_
    have kept : now.current = state.current := by rw [same.1]
    exact .take stands (kept ▸ idle.2) fun taken _ _ => .pure taken.stands (by omega)
  · refine .pure stands ?_
    by_cases isEnd : state.current.kind = .eof
    · rw [stands.length_eof isEnd]
      exact pos
    · have apart : state.upcoming.length ≠ earlier.upcoming.length :=
        fun same => moved ⟨by rw [same], isEnd⟩
      omega

end Grammar

end GoTrivia

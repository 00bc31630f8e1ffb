import GoTrivia.Proofs.Grammar.Diagnostics
import GoTrivia.Proofs.Token.Lawful

/-!
# Runs without diagnostics

A run that reports nothing is read backwards: `Clean` says that a rule goes from one state
to another without a diagnostic, and the equivalences below take such a run apart into the
runs of its parts, following the rule as it is written.  A branch that reports something is
ruled out on the way.

**Tokens taken.** `Took` says which tokens lie between two states, and that the end of the
last token was kept up to date.  A rule is specified by what its value has to do with the
tokens it took (`Reads`); repetitions are specified by an invariant.
-/

set_option autoImplicit false

namespace GoTrivia

namespace Grammar

variable {α β : Type} {state after : ParseState}

/-! ## Taking runs apart -/

/-- A run of a rule that ends without diagnostics. -/
def Clean (rule : Parse α) (state : ParseState) (value : α) (after : ParseState) : Prop :=
  rule.run state = (value, after) ∧ after.diagnostics = []

namespace Clean

variable {rule : Parse α} {next : α → Parse β} {value : α} {result : β}

@[simp low]
theorem bind_iff [∀ value, Keeps (next value)] :
    Clean (rule >>= next) state result after ↔
      ∃ value middle, Clean rule state value middle ∧ Clean (next value) middle result after := by
  constructor
  · rintro ⟨run, clean⟩
    refine ⟨(rule.run state).1, (rule.run state).2, ⟨rfl, ?_⟩, run, clean⟩
    have further : (next (rule.run state).1).run (rule.run state).2 = (result, after) := run
    exact clean_of_run further clean
  · rintro ⟨value, middle, ⟨first, -⟩, second, clean⟩
    refine ⟨?_, clean⟩
    rw [StateT.run_bind, first]
    exact second

/-- The inversion of a sequence whose second part branches by pattern matching. -/
theorem of_bind (run : Clean (rule >>= next) state result after)
    (keeps : ∀ value, Keeps (next value)) :
    ∃ value middle, Clean rule state value middle ∧ Clean (next value) middle result after :=
  bind_iff.mp run

@[simp]
theorem pure_iff {given : α} :
    Clean (pure given) state value after ↔
      value = given ∧ after = state ∧ state.diagnostics = [] := by
  unfold Clean
  rw [StateT.run_pure]
  constructor
  · rintro ⟨run, clean⟩
    cases run
    exact ⟨rfl, rfl, clean⟩
  · rintro ⟨rfl, rfl, clean⟩
    exact ⟨rfl, clean⟩

@[simp]
theorem map_iff {change : α → β} :
    Clean (change <$> rule) state result after ↔
      ∃ value, Clean rule state value after ∧ result = change value := by
  unfold Clean
  rw [StateT.run_map]
  constructor
  · rintro ⟨run, clean⟩
    cases run
    exact ⟨_, ⟨rfl, clean⟩, rfl⟩
  · rintro ⟨value, ⟨run, clean⟩, rfl⟩
    exact ⟨by rw [run]; rfl, clean⟩

@[simp]
theorem ite_iff {condition : Prop} [Decidable condition] {yes no : Parse α} :
    Clean (if condition then yes else no) state value after ↔
      condition ∧ Clean yes state value after ∨ ¬condition ∧ Clean no state value after := by
  by_cases holds : condition <;> simp [holds]

@[simp]
theorem peek_bind_iff {next : TokenKind → Parse β} :
    Clean (peek >>= next) state result after ↔
      Clean (next state.current.kind) state result after := Iff.rfl

@[simp]
theorem here_bind_iff {next : Nat → Parse β} :
    Clean (here >>= next) state result after ↔
      Clean (next state.current.span.start) state result after := Iff.rfl

@[simp]
theorem remaining_bind_iff {next : Nat → Parse β} :
    Clean (remaining >>= next) state result after ↔
      Clean (next (state.upcoming.length + 1)) state result after := Iff.rfl

@[simp]
theorem ahead_bind_iff {n : Nat} {next : TokenKind → Parse β} :
    Clean (ahead (n + 1) >>= next) state result after ↔
      Clean (next ((state.upcoming[n]?.map Token.kind).getD .eof)) state result after := Iff.rfl

@[simp]
theorem take_bind_iff {next : Lexeme → Parse β} :
    Clean (take >>= next) state result after ↔
      Clean (next state.current.toLexeme) state.advance result after := Iff.rfl

@[simp]
theorem take_iff {lexeme : Lexeme} :
    Clean take state lexeme after ↔
      lexeme = state.current.toLexeme ∧ after = state.advance ∧
        state.advance.diagnostics = [] := by
  show Clean (pure state.current.toLexeme) state.advance lexeme after ↔ _
  exact pure_iff

@[simp]
theorem takeIf_bind_iff {kind : TokenKind} {next : Bool → Parse β} :
    Clean (takeIf kind >>= next) state result after ↔
      state.current.kind = kind ∧ Clean (next true) state.advance result after ∨
        state.current.kind ≠ kind ∧ Clean (next false) state result after := by
  unfold takeIf
  rw [bind_assoc, peek_bind_iff]
  by_cases same : state.current.kind = kind
  · simp [same, -bind_pure_comp]
  · simp [same]

@[simp]
theorem close_bind_iff {kind : NodeKind} {start : Nat} {slots : List PositionalSlot}
    {next : Positional → Parse β} :
    Clean (close kind start slots >>= next) state result after ↔
      Clean (next (.node kind (.closing start state.lastEnd) slots)) state result after := Iff.rfl

@[simp]
theorem close_iff {kind : NodeKind} {start : Nat} {slots : List PositionalSlot}
    {node : Positional} :
    Clean (close kind start slots) state node after ↔
      node = .node kind (.closing start state.lastEnd) slots ∧ after = state ∧
        state.diagnostics = [] := pure_iff

@[simp]
theorem reportAt_iff {message : String} {span : Span} {done : Unit} :
    ¬Clean (reportAt message span) state done after := by
  rintro ⟨run, clean⟩
  cases run
  simp at clean

@[simp]
theorem report_iff {message : String} {done : Unit} :
    ¬Clean (report message) state done after := reportAt_iff

@[simp]
theorem expect_bind_iff {kind : TokenKind} {message : String} {next : Option Lexeme → Parse β}
    [Keeps (next none)] :
    Clean (expect kind message >>= next) state result after ↔
      state.current.kind = kind ∧
        Clean (next (some state.current.toLexeme)) state.advance result after := by
  unfold expect
  rw [bind_assoc, peek_bind_iff]
  by_cases same : state.current.kind = kind
  · simp [same]
  · have keeps : ∀ _ : Unit, Keeps (next none) := fun _ => inferInstance
    rw [if_neg same, bind_assoc]
    simp only [pure_bind, bind_iff, report_iff, same, false_and, exists_false]

theorem of_expect {kind : TokenKind} {message : String} {next : Option Lexeme → Parse β}
    (run : Clean (expect kind message >>= next) state result after) (keeps : Keeps (next none)) :
    state.current.kind = kind ∧
      Clean (next (some state.current.toLexeme)) state.advance result after :=
  expect_bind_iff.mp run

@[simp]
theorem expect_iff {kind : TokenKind} {message : String} {found : Option Lexeme} :
    Clean (expect kind message) state found after ↔
      state.current.kind = kind ∧ found = some state.current.toLexeme ∧ after = state.advance ∧
        state.advance.diagnostics = [] := by
  rw [← bind_pure (expect kind message), expect_bind_iff, pure_iff]

end Clean

/-! ## Tokens taken -/

/-- The tokens ahead. -/
def ParseState.tokens (state : ParseState) : List Token := state.current :: state.upcoming

/-- Where the last of a list of tokens ends, inserted semicolons left out. -/
def lastStop (stop : Nat) (tokens : List Token) : Nat :=
  tokens.foldl (fun stop token => if token.isImplicit then stop else token.span.stop) stop

theorem lastStop_of_implicit {stop : Nat} {tokens : List Token}
    (hidden : ∀ token ∈ tokens, token.isImplicit = true) : lastStop stop tokens = stop := by
  induction tokens with
  | nil => rfl
  | cons token tokens ih =>
    have first := hidden token (by simp)
    have others := ih fun token mem => hidden token (by simp [mem])
    simpa [lastStop, first] using others

/-- The token behind the one in line is the next one in line. -/
theorem ParseState.kind_advance {state : ParseState} {kind : TokenKind}
    (ahead : (state.upcoming[0]?.map Token.kind).getD .eof = kind) (alive : kind ≠ .eof) :
    state.advance.current.kind = kind := by
  cases upcoming : state.upcoming with
  | nil => simp [upcoming, alive.symm] at ahead
  | cons next rest => simpa [ParseState.advance, upcoming] using ahead

/-- The tokens taken between two states. -/
structure Took (state : ParseState) (tokens : List Token) (after : ParseState) : Prop where
  lawful : Lawful state.tokens
  split : state.tokens = tokens ++ after.tokens
  stop : after.lastEnd = lastStop state.lastEnd tokens

namespace Took

variable {now : ParseState} {tokens more : List Token}

theorem refl (lawful : Lawful state.tokens) : Took state [] state := ⟨lawful, rfl, rfl⟩

theorem lawful_after (took : Took state tokens after) : Lawful after.tokens := by
  have lawful := took.lawful
  rw [took.split] at lawful
  exact lawful.of_append (by simp [ParseState.tokens])

theorem trans (took : Took state tokens now) (further : Took now more after) :
    Took state (tokens ++ more) after :=
  ⟨took.lawful, by rw [took.split, further.split, List.append_assoc],
    by rw [further.stop, took.stop, lastStop, lastStop, lastStop, List.foldl_append]⟩

/-- Taking the token in line. -/
theorem take (took : Took state tokens now) (alive : now.current.kind ≠ .eof) :
    Took state (tokens ++ [now.current]) now.advance := by
  refine took.trans ⟨took.lawful_after, ?_, ?_⟩
  all_goals
    obtain ⟨next, rest, upcoming⟩ : ∃ next rest, now.upcoming = next :: rest := by
      refine List.exists_cons_of_ne_nil fun none => ?_
      obtain ⟨front, last, split, isEnd, -⟩ := took.lawful_after.ended
      rw [ParseState.tokens, none] at split
      cases front with
      | nil => exact alive (by simpa [← (List.cons.inj split).1] using isEnd)
      | cons first front => simp at split
    simp [ParseState.advance, ParseState.tokens, upcoming, lastStop]

theorem head (took : Took state tokens after) (some : tokens ≠ []) :
    tokens.head? = .some state.current := by
  obtain ⟨first, rest, rfl⟩ := List.exists_cons_of_ne_nil some
  have split := took.split
  simp only [ParseState.tokens, List.cons_append, List.cons.injEq] at split
  simp [split.1]

/-- A node that ends with a token other than a semicolon ends where this token ends. -/
theorem lastEnd {last : Token} (took : Took state tokens after)
    (ends : tokens.getLast? = some last) (solid : last.kind ≠ .semicolon) :
    after.lastEnd = last.span.stop := by
  obtain ⟨front, rfl⟩ := List.getLast?_eq_some_iff.mp ends
  simp [took.stop, lastStop, List.foldl_append, isImplicit_of_kind solid]

theorem shorter (took : Took state tokens now) (further : Took state more after)
    (longer : tokens.length < more.length) : after.upcoming.length < now.upcoming.length := by
  have lengths := congrArg List.length (took.split.symm.trans further.split)
  simp only [ParseState.tokens, List.length_append, List.length_cons] at lengths
  omega

end Took

/-! ## What rules read -/

/-- A rule that is run in front of certain tokens has a value that fits the tokens it
takes. -/
def Reads (rule : Parse α) (starts : TokenKind → Prop) (result : α → List Token → Prop) : Prop :=
  ∀ ⦃state value after⦄, Clean rule state value after → Lawful state.tokens →
    starts state.current.kind → ∃ tokens, Took state tokens after ∧ result value tokens

/-- No condition on where a rule is run. -/
def Anywhere (_ : TokenKind) : Prop := True

theorem Took.read {rule : Parse α} {starts : TokenKind → Prop} {result : α → List Token → Prop}
    {tokens : List Token} {now : ParseState} {value : α} (took : Took state tokens now)
    (reads : Reads rule starts result) (run : Clean rule now value after)
    (fits : starts now.current.kind) :
    ∃ more, Took state (tokens ++ more) after ∧ result value more := by
  obtain ⟨more, further, holds⟩ := reads run took.lawful_after fits
  exact ⟨more, took.trans further, holds⟩

/-! ## Repetition -/

section Repetition

variable {step : α → Parse (Flow α)} (invariant goal : α → ParseState → Prop)

theorem Clean.iterateUpTo {n : Nat} {gathered value : α}
    (run : Clean (iterateUpTo step n gathered) state value after)
    (keeps : ∀ value, Keeps (step value)) (enough : state.upcoming.length < n)
    (start : invariant gathered state)
    (again : ∀ {gathered now next later}, invariant gathered now →
      Clean (step gathered) now (.again next) later →
      invariant next later ∧ later.upcoming.length < now.upcoming.length)
    (done : ∀ {gathered now next later}, invariant gathered now →
      Clean (step gathered) now (.done next) later → goal next later) : goal value after := by
  have keepsRest := keeps_iterateUpTo step
  induction n generalizing state gathered with
  | zero => omega
  | succ n ih =>
    unfold Grammar.iterateUpTo at run
    obtain ⟨flow, middle, first, second⟩ := run.of_bind fun flow => by
      cases flow with
      | again gathered => exact keepsRest n gathered
      | done gathered => infer_instance
    cases flow with
    | again next =>
      obtain ⟨kept, shorter⟩ := again start first
      exact ih second (by omega) kept
    | done next =>
      obtain ⟨rfl, rfl, -⟩ := Clean.pure_iff.mp second
      exact done start first

/-- A repetition whose every step takes a token runs until its step is done. -/
theorem Clean.iterate {gathered value : α} (run : Clean (iterate step gathered) state value after)
    (keeps : ∀ value, Keeps (step value)) (start : invariant gathered state)
    (again : ∀ {gathered now next later}, invariant gathered now →
      Clean (step gathered) now (.again next) later →
      invariant next later ∧ later.upcoming.length < now.upcoming.length)
    (done : ∀ {gathered now next later}, invariant gathered now →
      Clean (step gathered) now (.done next) later → goal next later) : goal value after :=
  have counted : Clean (Grammar.iterateUpTo step (state.upcoming.length + 1) gathered) state value
      after := run
  counted.iterateUpTo invariant goal keeps (Nat.lt_succ_self _) start again done

/-- What a repetition gathers fits the tokens taken before it and by it, if each step takes
tokens and keeps this up.  What it ends with may depend on what follows. -/
theorem Took.iterateTo (gathers : α → List Token → Prop)
    (result : α → List Token → ParseState → Prop) {origin : ParseState}
    {tokens : List Token} {gathered value : α} (took : Took origin tokens state)
    (run : Clean (iterate step gathered) state value after)
    (keeps : ∀ value, Keeps (step value)) (start : gathers gathered tokens)
    (again : ∀ {gathered now tokens next later}, Took origin tokens now →
      gathers gathered tokens → Clean (step gathered) now (.again next) later →
      ∃ longer, tokens.length < longer.length ∧ Took origin longer later ∧ gathers next longer)
    (done : ∀ {gathered now tokens next later}, Took origin tokens now →
      gathers gathered tokens → Clean (step gathered) now (.done next) later →
      ∃ tokens, Took origin tokens later ∧ result next tokens later) :
    ∃ tokens, Took origin tokens after ∧ result value tokens after := by
  refine run.iterate (fun gathered now => ∃ tokens, Took origin tokens now ∧ gathers gathered tokens)
    (fun value after => ∃ tokens, Took origin tokens after ∧ result value tokens after) keeps
    ⟨tokens, took, start⟩ ?_ ?_
  · rintro gathered now next later ⟨tokens, took, holds⟩ step
    obtain ⟨longer, more, further, holds⟩ := again took holds step
    exact ⟨⟨longer, further, holds⟩, took.shorter further more⟩
  · rintro gathered now next later ⟨tokens, took, holds⟩ step
    exact done took holds step

/-- The same if nothing depends on what follows. -/
theorem Took.iterate (gathers result : α → List Token → Prop) {origin : ParseState}
    {tokens : List Token} {gathered value : α} (took : Took origin tokens state)
    (run : Clean (iterate step gathered) state value after)
    (keeps : ∀ value, Keeps (step value)) (start : gathers gathered tokens)
    (again : ∀ {gathered now tokens next later}, Took origin tokens now →
      gathers gathered tokens → Clean (step gathered) now (.again next) later →
      ∃ longer, tokens.length < longer.length ∧ Took origin longer later ∧ gathers next longer)
    (done : ∀ {gathered now tokens next later}, Took origin tokens now →
      gathers gathered tokens → Clean (step gathered) now (.done next) later →
      ∃ tokens, Took origin tokens later ∧ result next tokens) :
    ∃ tokens, Took origin tokens after ∧ result value tokens :=
  took.iterateTo gathers (fun value tokens _ => result value tokens) run keeps start again done

/-- A rule followed by a repetition that goes on from what the rule reads. -/
theorem Reads.iterate {rule : Parse α} {starts : TokenKind → Prop}
    {gathers result : α → List Token → Prop} (reads : Reads rule starts gathers)
    (keeps : ∀ value, Keeps (step value))
    (again : ∀ {origin gathered now tokens next later}, Took origin tokens now →
      gathers gathered tokens → Clean (step gathered) now (.again next) later →
      ∃ longer, tokens.length < longer.length ∧ Took origin longer later ∧ gathers next longer)
    (done : ∀ {origin gathered now tokens next later}, Took origin tokens now →
      gathers gathered tokens → Clean (step gathered) now (.done next) later →
      ∃ tokens, Took origin tokens later ∧ result next tokens) :
    Reads (rule >>= fun value => Grammar.iterate step value) starts result := by
  intro state value after run lawful fits
  obtain ⟨first, middle, firstRun, run⟩ := run.of_bind fun value => inferInstance
  obtain ⟨tokens, took, start⟩ := reads firstRun lawful fits
  exact took.iterate gathers result run keeps start again done

end Repetition

end Grammar

end GoTrivia

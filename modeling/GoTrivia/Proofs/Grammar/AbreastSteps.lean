import GoTrivia.Proofs.Grammar.Abreast

/-!
# Repetition and recovery abreast

The steps that every rule is made of.  A repetition goes on only behind a token taken, so it
ends before its bound is reached, whatever that is; the steps of the repetitions that several
rules share get names here.
-/

set_option autoImplicit false

namespace GoTrivia

namespace Grammar

open Pairing

variable {pairing : Pairing} {α β α' β' : Type} {n m : Nat} {state state' : ParseState}

/-- A rule that keeps going abreast with another one and gathers trees. -/
abbrev Pairing.GoesList (pairing : Pairing) (n : Nat) (rule : Parse Elements) (state : ParseState)
    (rule' : Parse Elements) (state' : ParseState) : Prop :=
  pairing.Goes n (fun _ => pairing.Gathers) rule state rule' state'

/-- A token that was expected: found on both sides, and then taken, or on neither. -/
inductive Pairing.Expected (pairing : Pairing) (n left : Nat) :
    Option Lexeme → Option Lexeme → Prop
  | found {lexeme lexeme' : Lexeme} : left < n → pairing.Lexemes lexeme lexeme' →
      Expected pairing n left (some lexeme) (some lexeme')
  | missing : Expected pairing n left none none

theorem Pairing.Expected.rel {left : Nat} {found found' : Option Lexeme}
    (expected : pairing.Expected n left found found') :
    Option.Rel pairing.Lexemes found found' := by
  cases expected with
  | found _ lexemes => exact .some lexemes
  | missing => exact .none

namespace Pairing.Goes

variable {post : Nat → α → α' → Prop} {result : Nat → β → β' → Prop}

/-! ## Looking further -/

theorem ite_congr {condition condition' : Prop} [Decidable condition] [Decidable condition']
    {yes no : Parse α} {yes' no' : Parse α'} (same : condition' ↔ condition)
    (holds : condition → pairing.Goes n post yes state yes' state')
    (fails : ¬condition → pairing.Goes n post no state no' state') :
    pairing.Goes n post (if condition then yes else no) state
      (if condition' then yes' else no') state' := by
  by_cases true : condition
  · rw [if_pos true, if_pos (same.mpr true)]
    exact holds true
  · rw [if_neg true, if_neg fun holds => true (same.mp holds)]
    exact fails true

/-- Looking behind a token that is not the last. -/
theorem aheadOne {next : TokenKind → Parse β} {next' : TokenKind → Parse β'}
    (abreast : pairing.Abreast n state state')
    (goes : ∀ {kind kind'}, (state.current.kind ≠ .eof →
        kind' = kind ∧ kind = state.advance.current.kind) →
      pairing.Goes n result (next kind) state (next' kind') state') :
    pairing.Goes n result (Grammar.ahead 1 >>= next) state
      (Grammar.ahead 1 >>= next') state' :=
  goes fun more => abreast.ahead_one more

/-- Looking behind two tokens that are not the last. -/
theorem aheadTwo {next : TokenKind → Parse β} {next' : TokenKind → Parse β'}
    (abreast : pairing.Abreast n state state')
    (goes : ∀ {kind kind'}, (state.current.kind ≠ .eof → state.advance.current.kind ≠ .eof →
        kind' = kind) →
      pairing.Goes n result (next kind) state (next' kind') state') :
    pairing.Goes n result (Grammar.ahead 2 >>= next) state
      (Grammar.ahead 2 >>= next') state' := by
  refine goes fun more further => ?_
  obtain ⟨left, rfl⟩ := Nat.exists_eq_succ_of_ne_zero (Nat.ne_of_gt (abreast.pos more))
  have next := (abreast.advance.ahead_one further).1
  have lengths := abreast.length
  obtain ⟨current, upcoming, stop, diagnostics⟩ := state
  obtain ⟨current', upcoming', stop', diagnostics'⟩ := state'
  cases upcoming with
  | nil =>
    have : 0 = left + 1 + _ := lengths.1
    omega
  | cons first upcoming =>
    cases upcoming' with
    | nil =>
      have : 0 = left + 1 + _ := lengths.2
      omega
    | cons first' upcoming' => exact next

theorem remaining {next : Nat → Parse β} {next' : Nat → Parse β'}
    (abreast : pairing.Abreast n state state')
    (goes : pairing.Goes n result (next (n + 1 + pairing.beyond.length)) state
      (next' (n + 1 + pairing.beyond'.length)) state') :
    pairing.Goes n result (Grammar.remaining >>= next) state
      (Grammar.remaining >>= next') state' := by
  obtain ⟨length, length'⟩ := abreast.length
  show pairing.Goes n result (next (state.upcoming.length + 1)) state
    (next' (state'.upcoming.length + 1)) state'
  rwa [length, length', Nat.add_right_comm n _ 1, Nat.add_right_comm n _ 1]

/-! ## Taking what is expected -/

theorem takeIf {kind : TokenKind} (abreast : pairing.Abreast n state state')
    (other : kind ≠ .eof) :
    pairing.Goes n (fun left found found' => found = found' ∧ if found then left < n else left = n)
      (Grammar.takeIf kind) state (Grammar.takeIf kind) state' := by
  unfold Grammar.takeIf
  refine .peek abreast (.ite (fun isKind => ?_) fun _ => ?_)
  · refine .take abreast (isKind ▸ other) fun lt abreast _ => .pure abreast ⟨rfl, ?_⟩
    exact lt ▸ Nat.lt_succ_self _
  · exact .pure abreast ⟨rfl, rfl⟩

theorem expect {kind : TokenKind} {message : String} (abreast : pairing.Abreast n state state')
    (other : kind ≠ .eof) :
    pairing.Goes n (pairing.Expected n) (Grammar.expect kind message) state
      (Grammar.expect kind message) state' := by
  unfold Grammar.expect
  refine .peek abreast (.ite (fun isKind => ?_) fun _ => ?_)
  · exact .take abreast (isKind ▸ other) fun lt abreast lexemes =>
      .pure abreast (.found (by omega) lexemes)
  · exact .bind (report abreast) fun _ abreast _ => .pure abreast .missing

end Pairing.Goes

/-! ## Repetition -/

/-- A repetition goes on behind a token taken, with what both sides have gathered as
`invariant` says, or is done. -/
inductive Pairing.Flows (n : Nat) (invariant : α → α' → Prop) (post : Nat → α → α' → Prop)
    (left : Nat) : Flow α → Flow α' → Prop
  | again {value : α} {value' : α'} : left < n → invariant value value' →
      Flows n invariant post left (.again value) (.again value')
  | done {value : α} {value' : α'} : post left value value' →
      Flows n invariant post left (.done value) (.done value')

/-- Steps that go abreast and take a token when they go on. -/
def Pairing.Steps (pairing : Pairing) (n : Nat) (invariant : α → α' → Prop)
    (post : Nat → α → α' → Prop) (step : α → Parse (Flow α)) (step' : α' → Parse (Flow α')) : Prop :=
  ∀ left value value' state state', left ≤ n → invariant value value' →
    pairing.Abreast left state state' →
    pairing.Goes left (Flows left invariant post) (step value) state (step' value') state'

namespace Pairing.Goes

variable {invariant : α → α' → Prop} {post : Nat → α → α' → Prop}
  {step : α → Parse (Flow α)} {step' : α' → Parse (Flow α')} {value : α} {value' : α'}

/-- Repetitions go abreast under any two bounds that leave room for all tokens. -/
theorem iterateUpTo (steps : pairing.Steps n invariant post step step') {fuel fuel' : Nat}
    (bound : m ≤ n) (enough : m < fuel) (enough' : m < fuel') (holds : invariant value value')
    (abreast : pairing.Abreast m state state') :
    pairing.Goes m post (Grammar.iterateUpTo step fuel value) state
      (Grammar.iterateUpTo step' fuel' value') state' := by
  induction fuel generalizing fuel' m value value' state state' with
  | zero => omega
  | succ fuel ih =>
    obtain ⟨fuel', rfl⟩ := Nat.exists_eq_succ_of_ne_zero (Nat.ne_of_gt (Nat.zero_lt_of_lt enough'))
    unfold Grammar.iterateUpTo
    refine .bind (steps _ _ _ _ _ bound holds abreast) fun le abreast flows => ?_
    cases flows with
    | again lt holds => exact ih (by omega) (by omega) (by omega) holds abreast
    | done result => exact .pure abreast result

theorem iterate (steps : pairing.Steps n invariant post step step') (bound : m ≤ n)
    (holds : invariant value value') (abreast : pairing.Abreast m state state') :
    pairing.Goes m post (Grammar.iterate step value) state
      (Grammar.iterate step' value') state' := by
  unfold Grammar.iterate
  exact .remaining abreast
    (.iterateUpTo steps bound (by omega) (by omega) holds abreast)

end Pairing.Goes

/-! ## Recovery -/

theorem goes_bad {kind : NodeKind} {message : String} (noSlots : slotSorts kind = [])
    (abreast : pairing.Abreast n state state') :
    pairing.GoesTree n (bad kind message) state (bad kind message) state' := by
  unfold bad
  refine .bind (.report abreast) fun le abreast _ => ?_
  refine .here abreast fun start => .peek abreast (.ite (fun skipped => ?_) fun _ => ?_)
  · have more : ∀ kind, (!recovery.contains kind) = true → kind ≠ .eof := by
      rintro kind skipped rfl
      cases skipped
    exact .take abreast (more _ skipped) fun _ abreast _ =>
      .close abreast start (noSlots ▸ .nil)
  · exact .close abreast start (noSlots ▸ .nil)

/-- What is skipped up to the next terminator. -/
def skipStep (_ : Unit) : Parse (Flow Unit) := do
  let kind ← peek
  if kind = .semicolon ∨ closers.contains kind then return .done ()
  let _ ← take
  return .again ()

theorem steps_skip : pairing.Steps n (fun _ _ => True) (fun _ _ _ => True) skipStep skipStep := by
  intro left _ _ state state' _ _ abreast
  unfold skipStep
  refine .peek abreast (.ite (fun _ => .pure abreast (.done trivial)) fun goesOn => ?_)
  have more : state.current.kind ≠ .eof := by
    rintro isEnd
    exact goesOn (.inr (by rw [isEnd]; rfl))
  exact .take abreast more fun lt abreast _ => .pure abreast (.again (by omega) trivial)

theorem goes_terminator (abreast : pairing.Abreast n state state') :
    pairing.Goes n (fun _ _ _ => True) terminator state terminator state' := by
  unfold terminator
  refine .bind (.takeIf abreast (by decide)) fun le abreast same => ?_
  obtain ⟨rfl, -⟩ := same
  refine .ite (fun _ => .pure abreast trivial) fun _ => .peek abreast ?_
  refine .ite (fun _ => .pure abreast trivial) fun _ => ?_
  refine .bind (.report abreast) fun le abreast _ => ?_
  refine .bind (.iterate steps_skip (Nat.le_refl _) trivial abreast) fun le abreast _ => ?_
  exact .bind (.takeIf abreast (by decide)) fun le abreast _ => .pure abreast trivial

/-- If nothing was taken since more tokens than `eof` were left, one is taken now. -/
theorem goes_ensureProgress (abreast : pairing.Abreast n state state') (le : n ≤ m) (pos : 0 < m) :
    pairing.Goes n (fun left _ _ => left < m) (ensureProgress (m + 1 + pairing.beyond.length)) state
      (ensureProgress (m + 1 + pairing.beyond'.length)) state' := by
  unfold ensureProgress
  refine .remaining abreast (.peek abreast (.ite_congr (and_congr_left fun _ => by omega)
    (fun idle => ?_) fun moved => ?_))
  · refine .bind (.report abreast) fun _ abreast same => ?_
    exact .take abreast (abreast.pos_iff.mp (by omega)) fun lt abreast _ =>
      .pure abreast (by omega)
  · refine .pure abreast ?_
    by_contra all
    refine moved ⟨by omega, ?_⟩
    rw [← abreast.pos_iff]
    omega

/-! ## Lists -/

/-- An element with what terminates it. -/
def terminatedStep (closer : TokenKind) (element : Parse Positional) (list : Elements) :
    Parse (Flow Elements) := do
  let kind ← peek
  if kind = closer ∨ kind = .eof then return .done list
  let before ← remaining
  let node ← element
  terminator
  ensureProgress before
  return .again (list.push node)

theorem terminated_eq (closer : TokenKind) (element : Parse Positional) :
    terminated closer element = iterate (terminatedStep closer element) .empty := rfl

/-- An element with the comma behind it. -/
def delimitedStep (closer : TokenKind) (element : Parse Positional) (list : Elements) :
    Parse (Flow Elements) := do
  let kind ← peek
  if kind = closer ∨ kind = .eof then return .done list
  let list := list.push (← element)
  if (← peek) = .comma then return .again (list.separate (← take).span)
  return .done list

theorem delimited_eq (closer : TokenKind) (element : Parse Positional) :
    delimited closer element = iterate (delimitedStep closer element) .empty := rfl

/-- A comma with the element behind it. -/
def separatedStep (element : Parse Positional) (list : Elements) : Parse (Flow Elements) := do
  if (← peek) = .comma then
    let list := list.separate (← take).span
    return .again (list.push (← element))
  return .done list

theorem separated_eq (element : Parse Positional) :
    separated element =
      element >>= fun first => iterate (separatedStep element) (.single first) := rfl

/-- Rules that go abreast for trees as long as at most `n` tokens are left. -/
def Pairing.Within (pairing : Pairing) (n : Nat) (element element' : Parse Positional) : Prop :=
  ∀ {left state state'}, left ≤ n → pairing.Abreast left state state' →
    pairing.GoesTree left element state element' state'

section Lists

variable {closer : TokenKind} {element element' : Parse Positional}

/-- Up to the end of the list nothing but the end stops a repetition. -/
theorem steps_terminated (elements : pairing.Within n element element') :
    pairing.Steps n pairing.Gathers
      (fun left list list' => (closer = .eof → left = 0) ∧ pairing.Gathers list list')
      (terminatedStep closer element) (terminatedStep closer element') := by
  intro left list list' state state' bound lists abreast
  unfold terminatedStep
  refine .peek abreast (.ite (fun stops => .pure abreast (.done ⟨?_, lists⟩)) fun goesOn => ?_)
  · rintro rfl
    exact Nat.eq_zero_of_not_pos fun pos => abreast.pos_iff.mp pos (stops.elim id id)
  have more : state.current.kind ≠ .eof := fun isEnd => goesOn (.inr isEnd)
  have pos := abreast.pos more
  refine .remaining abreast (.bind (elements bound abreast) fun le abreast node => ?_)
  refine .bind (goes_terminator abreast) fun le abreast _ => ?_
  refine .bind (goes_ensureProgress abreast (by omega) pos) fun le abreast lt => ?_
  exact .pure abreast (.again lt (lists.push node))

theorem steps_delimited (elements : pairing.Within n element element') :
    pairing.Steps n pairing.Gathers (fun _ => pairing.Gathers) (delimitedStep closer element)
      (delimitedStep closer element') := by
  intro left list list' state state' bound lists abreast
  unfold delimitedStep
  refine .peek abreast (.ite (fun _ => .pure abreast (.done lists)) fun _ => ?_)
  refine .bind (elements bound abreast) fun le abreast node => ?_
  refine .peek abreast (.ite (fun isComma => ?_) fun _ => ?_)
  · exact .take abreast (by simp [isComma]) fun lt abreast comma =>
      .pure abreast (.again (by omega) ((lists.push node).separate comma.spans))
  · exact .pure abreast (.done (lists.push node))

theorem steps_separated (elements : pairing.Within n element element') :
    pairing.Steps n pairing.Gathers (fun _ => pairing.Gathers) (separatedStep element)
      (separatedStep element') := by
  intro left list list' state state' bound lists abreast
  unfold separatedStep
  refine .peek abreast (.ite (fun isComma => ?_) fun _ => .pure abreast (.done lists))
  refine .take abreast (by simp [isComma]) fun lt abreast comma => ?_
  exact .bind (elements (by omega) abreast) fun le abreast node =>
    .pure abreast (.again (by omega) ((lists.separate comma.spans).push node))

theorem goes_terminated (elements : pairing.Within n element element')
    (abreast : pairing.Abreast n state state') :
    pairing.GoesList n (terminated closer element) state (terminated closer element') state' :=
  (Goes.iterate (steps_terminated elements) (Nat.le_refl n) .empty abreast).weaken (Nat.le_refl n)
    fun _ lists => lists.2

theorem goes_terminated_eof (elements : pairing.Within n element element')
    (abreast : pairing.Abreast n state state') :
    pairing.Goes n (fun left list list' => left = 0 ∧ pairing.Gathers list list')
      (terminated .eof element) state (terminated .eof element') state' :=
  (Goes.iterate (steps_terminated elements) (Nat.le_refl n) .empty abreast).weaken (Nat.le_refl n)
    fun _ lists => ⟨lists.1 rfl, lists.2⟩

theorem goes_delimited (elements : pairing.Within n element element')
    (abreast : pairing.Abreast n state state') :
    pairing.GoesList n (delimited closer element) state (delimited closer element') state' :=
  .iterate (steps_delimited elements) (Nat.le_refl n) .empty abreast

theorem goes_separated (elements : pairing.Within n element element')
    (abreast : pairing.Abreast n state state') :
    pairing.GoesList n (separated element) state (separated element') state' := by
  rw [separated_eq, separated_eq]
  exact .bind (elements (Nat.le_refl n) abreast) fun le abreast node =>
    .iterate (steps_separated elements) le (.single node) abreast

end Lists

/-! ## Leaves -/

theorem goes_takeIdent (abreast : pairing.Abreast n state state')
    (more : state.current.kind ≠ .eof) :
    pairing.GoesTree n takeIdent state takeIdent state' := by
  unfold takeIdent
  exact .here abreast fun start => .take abreast more fun _ abreast name =>
    .close abreast start (.cons (.token name) .nil)

theorem goes_ident (abreast : pairing.Abreast n state state') :
    pairing.GoesTree n ident state ident state' := by
  unfold ident
  exact .peek abreast (.ite (fun isName => goes_takeIdent abreast (by simp [isName]))
    fun _ => goes_bad rfl abreast)

theorem goes_basicLit (abreast : pairing.Abreast n state state')
    (more : state.current.kind ≠ .eof) :
    pairing.GoesTree n basicLit state basicLit state' := by
  unfold basicLit
  exact .here abreast fun start => .take abreast more fun _ abreast value =>
    .close abreast start (.cons (.token value) .nil)

/-! ## Rules that contain themselves -/

/-- Rules that go abreast as long as fewer than `n` tokens are left.  A literal without its
type and a conditional are only read in front of a token that is not the last. -/
structure Pairing.RulesGo (pairing : Pairing) (n : Nat) (rules rules' : Rules) : Prop where
  type : ∀ {left state state'}, left < n → pairing.Abreast left state state' →
    pairing.GoesTree left rules.type state rules'.type state'
  binary : ∀ {left state state' literals least}, left < n → pairing.Abreast left state state' →
    pairing.GoesTree left (rules.binary literals least) state (rules'.binary literals least) state'
  unary : ∀ {left state state' literals}, left < n → pairing.Abreast left state state' →
    pairing.GoesTree left (rules.unary literals) state (rules'.unary literals) state'
  elided : ∀ {left state state'}, left < n → pairing.Abreast left state state' →
    state.current.kind ≠ .eof → pairing.GoesTree left rules.elided state rules'.elided state'
  block : ∀ {left state state'}, left < n → pairing.Abreast left state state' →
    pairing.GoesTree left rules.block state rules'.block state'
  statements : ∀ {left state state'}, left < n → pairing.Abreast left state state' →
    pairing.GoesList left rules.statements state rules'.statements state'
  conditional : ∀ {left state state'}, left < n → pairing.Abreast left state state' →
    state.current.kind ≠ .eof →
    pairing.GoesTree left rules.conditional state rules'.conditional state'

end Grammar

end GoTrivia

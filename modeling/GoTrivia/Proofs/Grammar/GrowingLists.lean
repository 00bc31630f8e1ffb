import GoTrivia.Proofs.Grammar.Onward
import GoTrivia.Proofs.Grammar.Types

/-!
# How lists grow

Lists of one kind grow element by element, each with what has to stand behind it, and the
leaves grow from single tokens.

**Rules that contain themselves.** A rule is followed against rules that lead onward as long as
fewer tokens are left than it began with.
-/

set_option autoImplicit false

namespace GoTrivia

namespace Grammar

variable {origin state : ParseState} {place : Place} {least : Nat}

/-! ## Lists -/

section Lists

variable {closer : TokenKind} {element : Parse Positional}

/-- Elements with commas behind them, up to a closing token. -/
theorem leads_delimited (elements : ∀ now, now.upcoming.length ≤ state.upcoming.length →
      Stands origin now → Leads origin (Resting origin place least) element now)
    (stands : Stands origin state) (firm : Firm origin state) :
    Leads origin (fun list after => Listing origin place least list after ∧ Firm origin after)
      (delimited closer element) state := by
  rw [delimited_eq]
  refine leads_iterate (fun list now => list.Closed origin.tokens ∧
    list.Grows origin.tokens now.diagnostics.length place least ∧ Firm origin now) ?_ stands
    ⟨Elements.closed_empty, Elements.grows_empty, firm⟩
  rintro list now stands fewer - ⟨closed, grows, firm⟩
  unfold delimitedStep
  refine .peek (.ite (fun _ => .pure stands (.done ⟨⟨grows, closed.commas⟩, firm⟩)) fun _ => ?_)
  refine .bind (elements now fewer stands) fun {node later} stands _ _ resting => ?_
  have pushed := (grows.mono (by omega)).push resting.grown
  have hangs := closed.push node
  refine .peek (.ite (fun isComma => ?_) fun _ => ?_)
  · have separated := hangs.separate (resting.rests.behind isComma)
    refine .take stands (by simp [isComma]) fun taken _ same => ?_
    exact .pure taken.stands (.again (by omega) ⟨separated, pushed.mono (by omega),
      taken.firm (by simp [isComma])⟩)
  · exact .pure stands (.done ⟨⟨pushed, hangs.commas⟩, resting.rests.firm⟩)

/-- Elements with commas between them. -/
theorem leads_separated (elements : ∀ now, now.upcoming.length ≤ state.upcoming.length →
      Stands origin now → Leads origin (Resting origin place least) element now)
    (stands : Stands origin state) :
    Leads origin (Listing origin place least) (separated element) state := by
  rw [separated_eq]
  refine .bind (elements state (Nat.le_refl _) stands) fun {first middle} stands _ _ resting => ?_
  refine leads_iterate (fun list now =>
    list.Grows origin.tokens now.diagnostics.length place least ∧
      ∃ last, list.Hangs origin.tokens last ∧ Rests origin last now) ?_ stands
    ⟨Elements.grows_single resting.grown, first, Elements.hangs_single first, resting.rests⟩
  rintro list now stands fewer - ⟨grows, last, hangs, rests⟩
  unfold separatedStep
  refine .peek (.ite (fun isComma => ?_) fun _ => .pure stands (.done ⟨grows, hangs.commas⟩))
  have separated := hangs.separate (rests.behind isComma)
  refine .take stands (by simp [isComma]) fun taken _ _ => ?_
  refine .bind (elements _ (by omega) taken.stands) fun {node later} stands _ _ resting => ?_
  have kept : (list.separate now.current.span).Grows origin.tokens later.diagnostics.length
      place least := grows.mono (by omega)
  exact .pure stands (.again (by omega) ⟨kept.push resting.grown, node, separated.push node,
    resting.rests⟩)

/-- Elements with terminators behind them, up to a closing token. -/
theorem leads_terminated (elements : ∀ now, now.upcoming.length ≤ state.upcoming.length →
      Stands origin now → Leads origin (Growing origin place least) element now)
    (stands : Stands origin state) :
    Leads origin (fun list after =>
        list.Grows origin.tokens after.diagnostics.length place least ∧
          list.separators = [] ∧ (after.current.kind = closer ∨ after.current.kind = .eof))
      (terminated closer element) state := by
  rw [terminated_eq]
  refine leads_iterate (fun list now =>
    list.Grows origin.tokens now.diagnostics.length place least ∧ list.separators = []) ?_
    stands ⟨Elements.grows_empty, rfl⟩
  rintro list now stands fewer - ⟨grows, bare⟩
  unfold terminatedStep
  refine .peek (.ite (fun stops => .pure stands (.done ⟨grows, bare, stops⟩)) fun goesOn => ?_)
  have pos := stands.pos fun isEnd => goesOn (.inr isEnd)
  refine .remaining (.bind (elements now fewer stands) fun {node _} stands _ _ grown => ?_)
  refine .bind (leads_terminator stands) fun stands _ _ _ => ?_
  refine .bind (leads_ensureProgress stands (by omega) pos) fun {_ last} stands _ _ lt => ?_
  have kept : Grown origin.tokens last.diagnostics.length place least node :=
    Grown.mono grown (by omega)
  exact .pure stands (.again lt ⟨(grows.mono (by omega)).push kept, bare⟩)

end Lists

/-! ## Leaves -/

/-- A name that is not all of an expression. -/
theorem leads_takeIdent (place : Place) (calm : place.isOpen = false) (stands : Stands origin state)
    (more : state.current.kind ≠ .eof) (solid : state.current.kind ≠ .semicolon) :
    Leads origin (fun tree after => Resting origin place tightest tree after ∧
      Past origin tree.span.start after) takeIdent state := by
  unfold takeIdent
  refine .here (.take stands more fun taken _ _ => ?_)
  have past : Past origin state.current.span.start state.advance :=
    .of_start stands (Nat.le_refl _) (by omega)
  have plain : place.isPlain .ident = true := by
    rw [Place.isPlain, calm]
    rfl
  refine .close taken.stands ⟨⟨Fills.grown (.cons .token .nil) plain, ?_⟩, past⟩
  exact rests_closing taken.stands past (taken.firm solid)

theorem leads_name (place : Place) (calm : place.isOpen = false) (stands : Stands origin state)
    (isName : state.current.kind = .name) :
    Leads origin (fun tree after => Resting origin place tightest tree after ∧
      Past origin tree.span.start after) ident state := by
  unfold ident
  refine .peek ?_
  rw [if_pos isName]
  exact leads_takeIdent place calm stands (by simp [isName]) (by simp [isName])

theorem leads_identAt (place : Place) (calm : place.isOpen = false) (stands : Stands origin state) :
    Leads origin (Resting origin place tightest) ident state := by
  by_cases isName : state.current.kind = .name
  · exact (leads_name place calm stands isName).imp fun _ _ _ name => name.1
  · unfold ident
    refine .peek ?_
    rw [if_neg isName]
    exact leads_bad stands rfl rfl

theorem leads_ident (stands : Stands origin state) :
    Leads origin (Resting origin .type tightest) ident state := leads_identAt .type rfl stands

theorem leads_basicLit (place : Place) (stands : Stands origin state)
    (isLiteral : state.current.kind.isLiteral = true) :
    Leads origin (Resting origin place tightest) basicLit state := by
  have ne : ∀ kind : TokenKind, kind.isLiteral = false → state.current.kind ≠ kind := by
    rintro kind other rfl
    simp [other] at isLiteral
  unfold basicLit
  refine .here (.take stands (ne .eof rfl) fun taken _ _ => ?_)
  exact .closeResting taken.stands (.of_start stands (Nat.le_refl _) (by omega))
    (taken.firm (ne .semicolon rfl)) (.cons .token .nil) rfl

/-! ## Rules that contain themselves -/

/-- No binary operator in line binds so tightly. -/
def Stops (least : Nat) (state : ParseState) : Prop :=
  ∀ precedence, state.current.kind.precedence? = some precedence → precedence < least

/-- Rules that lead onward as long as fewer than `n` tokens are left behind the one in line. -/
structure RulesLead (origin : ParseState) (n : Nat) (rules : Rules) : Prop where
  sound : rules.Sound
  keeps : KeepsRules rules
  fresh : Fresh origin
  type : ∀ {state}, state.upcoming.length < n → Stands origin state →
    Leads origin (Resting origin .type tightest) rules.type state
  binary : ∀ {state literals least}, state.upcoming.length < n → least ≤ tightest →
    Stands origin state → Leads origin (fun tree after =>
        Resting origin (.whole literals) least tree after ∧ Stops least after)
      (rules.binary literals least) state
  unary : ∀ {state literals}, state.upcoming.length < n → Stands origin state →
    Leads origin (Resting origin (.whole literals) tightest) (rules.unary literals) state
  elided : ∀ {state}, state.upcoming.length < n → Stands origin state →
    state.current.kind = .leftBrace →
    Leads origin (Resting origin (.whole true) tightest) rules.elided state
  block : ∀ {state}, state.upcoming.length < n → Stands origin state →
    Leads origin (fun tree after => Growing origin (.whole true) 0 tree after ∧
      (Firm origin state → Firm origin after)) rules.block state
  statements : ∀ {state}, state.upcoming.length < n → Stands origin state →
    Leads origin (fun list after =>
      list.Grows origin.tokens after.diagnostics.length (.whole true) 0 ∧
        list.separators = [] ∧ Firm origin after) rules.statements state
  conditional : ∀ {state}, state.upcoming.length < n → Stands origin state →
    state.current.kind = .ifKw →
    Leads origin (Growing origin (.whole true) 0) rules.conditional state

end Grammar

end GoTrivia

import GoTrivia.Proofs.Grammar.Reading

/-!
# Leaves and lists

What the rules for names, literals and repeated nodes read.  A list with separators is
gathered node by node and comma by comma, so its invariant says which of the two comes
next; a terminated list only skips semicolons.
-/

set_option autoImplicit false

namespace GoTrivia

namespace Grammar

/-- A node that stands in for a missing one is reported. -/
@[simp]
theorem not_clean_bad {kind : NodeKind} {message : String} {state after : ParseState}
    {tree : Positional} : ¬Clean (bad kind message) state tree after := by
  simp [bad]

/-! ## Leaves -/

/-- A tree that spells the one token it is made of. -/
def Leaf (tree : Positional) (tokens : List Token) : Prop :=
  Spells tree tokens ∧ ∃ token, tokens = [token]

theorem reads_takeIdent : Reads takeIdent (TokenFits .free) Leaf := by
  intro state tree after run lawful fits
  simp only [takeIdent, Clean.here_bind_iff, Clean.take_bind_iff, Clean.close_iff] at run
  obtain ⟨rfl, rfl, -⟩ := run
  obtain ⟨took, spells⟩ := spells_leaf .ident (by decide) rfl (fun _ => trivial) rfl lawful fits
  exact ⟨_, took, spells, _, rfl⟩

/-- A tree that spells a single name. -/
def Name (tree : Positional) (tokens : List Token) : Prop :=
  Operand tree tokens ∧ ∀ token ∈ tokens, token.kind = .name

theorem reads_ident : Reads ident Anywhere Name := by
  intro state tree after run lawful _
  simp only [ident, Clean.peek_bind_iff, Clean.ite_iff] at run
  rcases run with ⟨isName, run⟩ | ⟨-, run⟩
  · obtain ⟨tokens, took, spells, token, rfl⟩ :=
      reads_takeIdent run lawful (by simp [isName, TokenFits])
    obtain rfl : token = state.current := by simpa using took.head (by simp)
    refine ⟨_, took, ⟨spells, ⟨state.current, rfl, ?_⟩, ⟨state.current, rfl, ?_⟩⟩,
      by simpa using isName⟩
    · rw [isName]
      rfl
    · rw [isName]
      rfl
  · simp at run

theorem reads_basicLit : Reads basicLit (·.isLiteral = true) Operand := by
  intro state tree after run lawful literal
  simp only [basicLit, Clean.here_bind_iff, Clean.take_bind_iff, Clean.close_iff] at run
  obtain ⟨rfl, rfl, -⟩ := run
  have fits : TokenFits .free state.current.kind := by
    refine ⟨?_, ?_, ?_, ?_⟩ <;> intro same <;> simp [same, TokenKind.isLiteral] at literal
  obtain ⟨took, spells⟩ := spells_leaf .basicLit (by decide) rfl (fun _ => trivial) rfl lawful fits
  refine ⟨_, took, spells, ⟨state.current, rfl, ?_⟩, ⟨state.current, rfl, ?_⟩⟩
  · simp [TokenKind.beginsOperand, literal]
  · exact TokenKind.endsStatement_of_isLiteral literal

/-! ## Separated lists -/

/-- A list without a separator behind its last element, which it has. -/
def Elements.Joined (list : Elements) (tokens : List Token) : Prop :=
  list.Separated tokens ∧ list.nodes.length = list.separators.length + 1

/-- A list with a separator behind each element. -/
def Elements.Open (list : Elements) (tokens : List Token) : Prop :=
  list.Separated tokens ∧ list.nodes.length = list.separators.length

namespace Elements

variable {list : Elements} {tokens more : List Token} {tree : Positional}

theorem open_empty : Elements.empty.Open [] := ⟨.nil, rfl⟩

theorem joined_single (ending : Ending tree tokens) : (Elements.single tree).Joined tokens :=
  ⟨.last ending.1 ending.2, rfl⟩

theorem Open.push (isOpen : list.Open tokens) (ending : Ending tree more) :
    (list.push tree).Joined (tokens ++ more) :=
  ⟨.push ending.1 ending.2 isOpen.1 isOpen.2, by simp [Elements.push, isOpen.2]⟩

theorem Joined.separate {comma : Token} (joined : list.Joined tokens)
    (isComma : comma.kind = .comma) : (list.separate comma.span).Open (tokens ++ [comma]) :=
  ⟨.separate isComma joined.1 joined.2, by simp [Elements.separate, joined.2]⟩

theorem Joined.not_trailing (joined : list.Joined tokens) : ¬list.Trailing := by
  rintro ⟨same, -⟩
  have more := joined.2
  omega

theorem Joined.isPresent (joined : list.Joined tokens) : list.slot.isPresent = true := by
  have some : list.nodes ≠ [] := by
    intro none
    have lengths := joined.2
    simp [none] at lengths
  simp [Elements.slot, Slot.isPresent, some]

end Elements

variable {element : Parse Positional} [Keeps element]

theorem reads_separated (reads : Reads element Anywhere Ending) :
    Reads (separated element) Anywhere Elements.Joined := by
  intro state list after run lawful _
  simp only [separated, Clean.bind_iff] at run
  obtain ⟨first, middle, firstRun, run⟩ := run
  obtain ⟨firstTokens, firstTook, firstEnding⟩ := reads firstRun lawful trivial
  refine firstTook.iterate Elements.Joined Elements.Joined run (fun _ => inferInstance)
    (Elements.joined_single firstEnding) ?_ ?_
  · intro list now tokens next later took joined step
    simp at step
    obtain ⟨isComma, node, nodeRun, rfl, -⟩ := step
    have commaTook := took.take (by simp [isComma])
    obtain ⟨more, nodeTook, ending⟩ := commaTook.read reads nodeRun trivial
    exact ⟨_, by simp, nodeTook, (joined.separate isComma).push ending⟩
  · intro list now tokens next later took joined step
    simp at step
    obtain ⟨-, rfl, rfl, -⟩ := step
    exact ⟨tokens, took, joined⟩

theorem reads_identEnding : Reads ident Anywhere Ending := by
  intro state tree after run lawful fits
  obtain ⟨tokens, took, isName⟩ := reads_ident run lawful fits
  exact ⟨tokens, took, isName.1.ending⟩

/-- A list up to a closing token takes tokens exactly if it has elements. -/
def Elements.Delimited (list : Elements) (tokens : List Token) : Prop :=
  list.Separated tokens ∧ (list.nodes = [] → tokens = [])

theorem Elements.Joined.delimited {list : Elements} {tokens : List Token}
    (joined : list.Joined tokens) : list.Delimited tokens :=
  ⟨joined.1, fun none => by simpa [none] using joined.2⟩

theorem Elements.Open.delimited {list : Elements} {tokens : List Token}
    (isOpen : list.Open tokens) : list.Delimited tokens := by
  refine ⟨isOpen.1, fun none => ?_⟩
  obtain ⟨spells, same⟩ := isOpen
  have bare : list.separators = [] := List.length_eq_zero_iff.mp (by rw [← same, none]; rfl)
  rw [Elements.Separated, none, bare] at spells
  cases spells
  rfl

theorem Elements.Open.append {list rest : Elements} {tokens more : List Token}
    (isOpen : list.Open tokens) (delimited : rest.Delimited more) :
    (list.append rest).Separated (tokens ++ more) :=
  SpellsSeparated.append isOpen.1 isOpen.2 delimited.1

theorem reads_delimited (closer : TokenKind) (reads : Reads element Anywhere Ending) :
    Reads (delimited closer element) Anywhere Elements.Delimited := by
  intro state list after run lawful _
  refine (Took.refl lawful).iterate Elements.Open Elements.Delimited run
    (fun _ => inferInstance) Elements.open_empty ?_ ?_
  · intro list now tokens next later took isOpen step
    simp at step
    obtain ⟨-, node, middle, nodeRun, isComma, ⟨rfl, -⟩, rfl⟩ := step
    obtain ⟨more, nodeTook, ending⟩ := took.read reads nodeRun trivial
    have commaTook := nodeTook.take (by simp [isComma])
    exact ⟨_, by simp, commaTook, (isOpen.push ending).separate isComma⟩
  · intro list now tokens next later took isOpen step
    simp at step
    rcases step with ⟨-, rfl, rfl, -⟩ | ⟨-, node, nodeRun, -, rfl, -⟩
    · exact ⟨tokens, took, isOpen.delimited⟩
    · obtain ⟨more, nodeTook, ending⟩ := took.read reads nodeRun trivial
      exact ⟨_, nodeTook, (isOpen.push ending).delimited⟩

/-! ## Terminated lists -/

/-- Nothing or a semicolon. -/
def Terminator (_ : Unit) (tokens : List Token) : Prop := SpellsTerminated [] tokens

set_option synthInstance.maxSize 400 in
theorem reads_terminator : Reads terminator Anywhere Terminator := by
  intro state _ after run lawful _
  simp [terminator] at run
  rcases run with ⟨isSemicolon, rfl, -⟩ | ⟨-, -, rfl, -⟩
  · exact ⟨_, (Took.refl lawful).take (by simp [isSemicolon]), .skip isSemicolon .nil⟩
  · exact ⟨[], .refl lawful, .nil⟩

@[simp]
theorem clean_ensureProgress {before : Nat} {state after : ParseState} {done : Unit} :
    Clean (ensureProgress before) state done after ↔
      ¬(state.upcoming.length + 1 = before ∧ state.current.kind ≠ .eof) ∧ after = state ∧
        state.diagnostics = [] := by
  simp [ensureProgress]

/-- A node and the semicolon behind it. -/
theorem Elements.Terminated.push {list : Elements} {tree : Positional}
    {tokens front more : List Token} (terminated : list.Terminated tokens)
    (content : Spells tree front) (terminator : Terminator () more) :
    (list.push tree).Terminated (tokens ++ front ++ more) := by
  refine ⟨terminated.1, ?_⟩
  have pushed := (terminated.2.push content).append terminator
  simpa [Elements.push] using pushed

theorem clean_terminated {closer : TokenKind} {state after : ParseState} {list : Elements}
    (reads : Reads element Anywhere Spells) (lawful : Lawful state.tokens)
    (run : Clean (terminated closer element) state list after) :
    ∃ tokens, Took state tokens after ∧ list.Terminated tokens ∧
      (after.current.kind = closer ∨ after.current.kind = .eof) := by
  refine (Took.refl lawful).iterateTo Elements.Terminated (fun list tokens after =>
      list.Terminated tokens ∧ (after.current.kind = closer ∨ after.current.kind = .eof)) run
    (fun _ => inferInstance) ⟨rfl, .nil⟩ ?_ ?_
  · intro list now tokens next later took terminated step
    simp at step
    obtain ⟨-, node, middle, nodeRun, ⟨_, endRun⟩, -, rfl, -⟩ := step
    obtain ⟨front, nodeTook, content⟩ := took.read reads nodeRun trivial
    obtain ⟨more, endTook, terminator⟩ := nodeTook.read reads_terminator endRun trivial
    have positive := List.length_pos_iff.mpr content.ne_nil
    exact ⟨_, by simp; omega, endTook, terminated.push content terminator⟩
  · intro list now tokens next later took terminated step
    simp at step
    obtain ⟨closes, rfl, rfl, -⟩ := step
    exact ⟨tokens, took, terminated, closes⟩

theorem reads_terminated (closer : TokenKind) (reads : Reads element Anywhere Spells) :
    Reads (terminated closer element) Anywhere Elements.Terminated := by
  intro state list after run lawful _
  obtain ⟨tokens, took, terminated, -⟩ := clean_terminated reads lawful run
  exact ⟨tokens, took, terminated⟩

end Grammar

end GoTrivia

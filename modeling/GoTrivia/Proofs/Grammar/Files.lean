import GoTrivia.Proofs.Grammar.Statements

/-!
# Files spell their tokens

The rules that refer to each other read what they should at every level, since those below
the last level never end without a diagnostic.  So a text without diagnostics is spelled by
its tree up to the end of the text.
-/

set_option autoImplicit false

namespace GoTrivia

namespace Grammar

/-! ## Levels of rules -/

@[simp]
theorem not_clean_tooDeep {state after : ParseState} {tree : Positional} :
    ¬Clean tooDeep state tree after := by
  simp [tooDeep]

theorem Rules.sound_exhausted : Rules.exhausted.Sound where
  type _ _ _ run := absurd run not_clean_tooDeep
  binary _ _ _ _ _ run := absurd run not_clean_tooDeep
  unary _ _ _ _ run := absurd run not_clean_tooDeep
  elided _ _ _ run := absurd run not_clean_tooDeep
  block _ _ _ run := absurd run not_clean_tooDeep
  statements _ _ _ run := by simp [Rules.exhausted] at run
  conditional _ _ _ run := absurd run not_clean_tooDeep

theorem Rules.Sound.next {rules : Rules} [KeepsRules rules] (sound : rules.Sound) :
    rules.next.Sound where
  type := reads_type sound
  binary := reads_binary sound
  unary := reads_unary sound
  elided := reads_elided sound
  block := reads_block sound
  statements := reads_statements sound
  conditional := reads_conditional sound

theorem Rules.sound_level (n : Nat) : (Rules.level n).Sound := by
  induction n with
  | zero => exact sound_exhausted
  | succ n ih => exact ih.next

/-! ## Files -/

/-- A tree of a file of a given length spells all tokens up to the end of the text. -/
inductive SpellsFile (length : Nat) : Positional → List Token → Prop
  | file {slots : List PositionalSlot} {front : List Token} {first last : Token}
      (content : SpellsSlots .file (standardShape .file).anchors slots front)
      (filled : mayFill .file (slots.map Slot.isPresent) = true)
      (begins : front.head? = some first) (isEnd : last.kind = .eof) :
      SpellsFile length (.node .file (.closing first.span.start length) slots) (front ++ [last])

theorem reads_file {rules : Rules} [KeepsRules rules] (sound : rules.Sound) (length : Nat)
    {state after : ParseState} {tree : Positional} (lawful : Lawful state.tokens)
    (run : Clean (file rules length) state tree after) : SpellsFile length tree state.tokens := by
  simp [file] at run
  obtain ⟨isPackage, name, middle, nameRun, _, next, endRun, decls, declsRun, rfl⟩ := run
  have reading := Reading.start .file (standardShape .file).anchors lawful
  have reading := reading.token rfl isPackage rfl trivial
  obtain ⟨front, nameTook, isName⟩ := reads_ident nameRun reading.lawful trivial
  have reading := reading.child rfl nameTook isName.1.spells trivial
  obtain ⟨semicolons, endTook, terminator⟩ := reads_terminator endRun reading.lawful trivial
  obtain ⟨more, declsTook, terminated, ended⟩ :=
    clean_terminated (reads_decl sound) endTook.lawful_after declsRun
  have list : decls.Terminated (semicolons ++ more) :=
    ⟨terminated.1, terminator.append terminated.2⟩
  have reading := reading.terminated rfl rfl (endTook.trans declsTook) list
  have rest : after.upcoming = [] :=
    reading.lawful.eq_nil_of_eof (by simpa using ended)
  have content := reading.extend .nil False.elim
  rw [reading.took.split, ParseState.tokens, rest]
  have full : ∀ filled : Bool, mayFill .file [true, true, filled] = true := by decide
  exact .file (by simpa [childSlot] using content) (full _) rfl (by simpa using ended)

end Grammar

/-- The tree of a text without diagnostics spells the tokens of the text. -/
theorem spellsFile_parse {text : String} (lawful : Lawful (lex text).tokens)
    (clean : (parse text).diagnostics = []) :
    Grammar.SpellsFile (byteLength text.toList) (parse text).tree.root (lex text).tokens := by
  obtain ⟨token, rest, tokens⟩ : ∃ token rest, (lex text).tokens = token :: rest := by
    obtain ⟨front, last, split, -⟩ := lawful.ended
    exact List.exists_cons_of_ne_nil (by simp [split])
  have start : (Grammar.ParseState.start (lex text).tokens
      ((lex text).unterminated.map unterminatedComment)).tokens = (lex text).tokens := by
    rw [tokens]
    rfl
  obtain ⟨state, run, diagnostics, -⟩ := run_parse text
  have spells := Grammar.reads_file (Grammar.Rules.sound_level ((lex text).tokens.length + 1))
    (byteLength text.toList) (start ▸ lawful) ⟨run, diagnostics ▸ clean⟩
  rwa [start] at spells

end GoTrivia

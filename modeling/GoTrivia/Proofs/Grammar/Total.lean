import GoTrivia.Proofs.Grammar.AbreastStatements
import GoTrivia.Proofs.Grammar.AbreastTrees
import GoTrivia.Proofs.Token.Lexing

/-!
# Every text is read to its end

Recovery leaves closing tokens and semicolons alone, so that a rule need not take anything.
Reading goes forward all the same: each repetition takes a token before it goes on, and each
rule that leads back to itself takes one on the way.  So the bounds that make the rules
functions, the number of rounds of a repetition and the number of levels of rules, are never
reached, and reading stops in front of the end of the token list.

All of this is what the runs of a rule beside itself show.
-/

set_option autoImplicit false

namespace GoTrivia

namespace Grammar

open Pairing

/-! ## Runs of the same rule -/

/-- Every offset stands for itself.  Nothing lies behind the end of the one list, and given
tokens lie behind that of the other. -/
def Pairing.same (beyond' : List Token) : Pairing where
  offset a b := a = b
  max := by
    rintro _ _ _ _ rfl rfl
    rfl
  beyond := []
  beyond' := beyond'

theorem Pairing.rigid_same (behind : List Token) : (same behind).Rigid := id

/-- A state whose tokens end with their only `eof`. -/
def ParseState.Ended (state : ParseState) : Prop :=
  ∃ front last, state.tokens = front ++ [last] ∧ last.kind = .eof ∧
    ∀ token ∈ front, token.kind ≠ .eof

variable {n : Nat} {state : ParseState} {pairing : Pairing}

theorem Pairing.tokens_same (behind : List Token) (token : Token) :
    (same behind).Tokens token token := ⟨⟨rfl, rfl, rfl⟩, rfl, rfl⟩

/-- Such a state goes abreast with itself. -/
theorem ParseState.Ended.abreast (ended : state.Ended) :
    (same []).Abreast state.upcoming.length state state := by
  obtain ⟨front, last, split, isEnd, others⟩ := ended
  have ahead : (same []).Ahead front.length (front ++ [last] ++ []) (front ++ [last] ++ []) :=
    ahead_of_forall₂ (List.forall₂_same.mpr fun token _ => tokens_same [] token) others isEnd
  rw [List.append_nil] at ahead
  have lengths := congrArg List.length split
  rw [ParseState.tokens, List.length_cons, List.length_append, List.length_singleton] at lengths
  have count : state.upcoming.length = front.length := by omega
  rw [← split, ← count] at ahead
  exact ⟨ahead, .inr rfl, List.forall₂_same.mpr fun _ _ => ⟨rfl, rfl, rfl⟩⟩

theorem Pairing.Ahead.exists_append {tokens tokens' : List Token}
    (ahead : pairing.Ahead n tokens tokens') : ∃ front last, tokens = front ++ last :: pairing.beyond ∧
      last.kind = .eof ∧ ∀ token ∈ front, token.kind ≠ .eof := by
  induction ahead with
  | ended _ isEnd => exact ⟨[], _, rfl, isEnd, List.forall_mem_nil _⟩
  | @token n token token' tokens tokens' _ other _ ih =>
    obtain ⟨front, last, rfl, isEnd, others⟩ := ih
    exact ⟨token :: front, last, rfl, isEnd, List.forall_mem_cons.mpr ⟨other, others⟩⟩

theorem Pairing.Abreast.ended {state' : ParseState}
    (abreast : (same []).Abreast n state state') : state.Ended := abreast.ahead.exists_append

/-! ## Rules on any level -/

theorem goes_tooDeep {state' : ParseState} (abreast : pairing.Abreast n state state') :
    pairing.GoesTree n tooDeep state tooDeep state' := by
  unfold tooDeep
  exact .bind (.report abreast) fun _ abreast _ => .here abreast fun start => .close abreast start .nil

theorem rulesGo_exhausted (pairing : Pairing) (n : Nat) :
    pairing.RulesGo n .exhausted .exhausted where
  type _ abreast := goes_tooDeep abreast
  binary _ abreast := goes_tooDeep abreast
  unary _ abreast := goes_tooDeep abreast
  elided _ abreast _ := goes_tooDeep abreast
  block _ abreast := goes_tooDeep abreast
  statements _ abreast := .bind (.report abreast) fun _ abreast _ => .pure abreast .empty
  conditional _ abreast _ := goes_tooDeep abreast

/-- Rules of any number of levels go abreast with themselves however many tokens are left. -/
theorem rulesGo_level (pairing : Pairing) (level : Nat) :
    ∀ n, pairing.RulesGo n (.level level) (.level level) := by
  induction level with
  | zero => exact rulesGo_exhausted pairing
  | succ level ih =>
    intro n
    cases n with
    | zero => exact rulesGo_stack pairing _ _ 0
    | succ n => exact (ih n).next

/-! ## Repetitions -/

/-- A list of trees with slots of the right kinds. -/
def Elements.Fit (list : Elements) : Prop :=
  Decorate.Kinded .standard (SlotTree.preorderElements list.nodes)

/-- A tree with slots of the right kinds. -/
def TreeFit (tree : Positional) : Prop := Decorate.Kinded .standard tree.preorder

/-- Entries of trees with slots of the right kinds. -/
def ParamsFit (entries : List Param) : Prop :=
  ∀ entry ∈ entries, TreeFit entry.first ∧ ∀ type ∈ entry.type, TreeFit type

/-- The repetitions of the grammar, by their steps, with what they gather. -/
inductive IsLoop (rules : Rules) : {α : Type} → (α → Prop) → (α → Parse (Flow α)) → Prop
  | skip : IsLoop rules (fun _ => True) skipStep
  | names : IsLoop rules Elements.Fit (separatedStep ident)
  | exprs (literals : Bool) : IsLoop rules Elements.Fit (separatedStep (expr rules literals))
  | typeArgs : IsLoop rules Elements.Fit (delimitedStep .rightBracket rules.type)
  | elements : IsLoop rules Elements.Fit (delimitedStep .rightBrace (element rules))
  | fields : IsLoop rules Elements.Fit (terminatedStep .rightBrace (structField rules))
  | methods : IsLoop rules Elements.Fit (terminatedStep .rightBrace (interfaceMember rules))
  | imports : IsLoop rules Elements.Fit (terminatedStep .rightParen importSpec)
  | types : IsLoop rules Elements.Fit (terminatedStep .rightParen (typeSpec rules))
  | values : IsLoop rules Elements.Fit (terminatedStep .rightParen (valueSpec rules))
  | decls : IsLoop rules Elements.Fit (terminatedStep .eof (decl rules))
  | params : IsLoop rules ParamsFit (paramStep .rightParen (paramType rules))
  | receiver : IsLoop rules ParamsFit (paramStep .rightParen (type rules))
  | typeParams : IsLoop rules ParamsFit (paramStep .rightBracket (constraint rules))
  | constraint : IsLoop rules TreeFit (constraintStep rules)
  | arguments : IsLoop rules (fun (args, _) => args.Fit) (argumentStep rules)
  | primary (literals : Bool) : IsLoop rules TreeFit (primaryStep rules literals)
  | binary (literals : Bool) (least : Nat) : IsLoop rules TreeFit (binaryStep rules literals least)
  | clauses : IsLoop rules Elements.Fit (clauseStep rules)
  | statements : IsLoop rules Elements.Fit (statementStep rules)

/-- A step that goes on has taken a token, and has gathered what the next one asks for. -/
def Advances {α : Type} (gathered : α → Prop) (step : α → Parse (Flow α)) : Prop :=
  ∀ value state, gathered value → state.Ended →
    ∀ value', ((step value).run state).1 = .again value' → gathered value' ∧
      ((step value).run state).2.Ended ∧
      ((step value).run state).2.upcoming.length < state.upcoming.length

theorem advances_of_steps {α : Type} {gathered : α → Prop} {invariant : α → α → Prop}
    {post : Nat → α → α → Prop} {step : α → Parse (Flow α)}
    (iff : ∀ {value}, gathered value ↔ invariant value value)
    (steps : ∀ n, (same []).Steps n invariant post step step) : Advances gathered step := by
  intro value state holds ended value' again
  obtain ⟨left, le, abreast, flows⟩ :=
    steps _ _ value value state state (Nat.le_refl _) (iff.mp holds) ended.abreast
  rw [again] at flows
  cases flows with
  | again lt invariant =>
    refine ⟨iff.mpr invariant, abreast.ended, ?_⟩
    rwa [abreast.length.1]

/-- A repetition whose steps advance is done before its bound is reached. -/
theorem Advances.iterateUpTo_eq {α : Type} {gathered : α → Prop} {step : α → Parse (Flow α)}
    (advances : Advances gathered step) {fuel fuel' : Nat} {value : α} (holds : gathered value)
    (ended : state.Ended) (enough : state.upcoming.length < fuel)
    (enough' : state.upcoming.length < fuel') :
    (iterateUpTo step fuel value).run state = (iterateUpTo step fuel' value).run state := by
  induction fuel generalizing fuel' value state with
  | zero => omega
  | succ fuel ih =>
    obtain ⟨fuel', rfl⟩ := Nat.exists_eq_succ_of_ne_zero (Nat.ne_of_gt (Nat.zero_lt_of_lt enough'))
    have goesOn := advances value state holds ended
    simp only [iterateUpTo, StateT.run_bind] at goesOn ⊢
    generalize (step value).run state = result at goesOn ⊢
    obtain ⟨flow, after⟩ := result
    cases flow with
    | done gathered => rfl
    | again gathered =>
      obtain ⟨holds, ended, lt⟩ := goesOn gathered rfl
      exact ih holds ended (by omega) (by omega)

theorem Elements.fit_iff {list : Elements} : list.Fit ↔ (same []).Gathers list list := by
  refine ⟨fun fit => ⟨TreeLists.refl (fun _ => rfl) list.nodes fit, ?_⟩, fun lists => lists.nodes.kinded⟩
  exact List.forall₂_same.mpr fun _ _ => ⟨rfl, rfl⟩

theorem treeFit_iff {tree : Positional} : TreeFit tree ↔ (same []).Trees tree tree :=
  ⟨Trees.refl (fun _ => rfl) tree, Trees.kinded⟩

theorem params_iff {entry : Param} : (same []).Params entry entry ↔
    TreeFit entry.first ∧ ∀ type ∈ entry.type, TreeFit type := by
  have types : ∀ found : Option Positional,
      Option.Rel (same []).Trees found found ↔ ∀ type ∈ found, TreeFit type := by
    intro found
    cases found with
    | none => exact ⟨fun _ => by simp, fun _ => .none⟩
    | some type =>
      refine ⟨fun related => ?_, fun fit => .some (treeFit_iff.mp (fit type rfl))⟩
      cases related with
      | some trees => simpa using treeFit_iff.mpr trees
  have separators : ∀ found : Option Span, Option.Rel (same []).Spans found found := by
    intro found
    cases found with
    | none => exact .none
    | some span => exact .some ⟨rfl, rfl⟩
  rw [← types, treeFit_iff]
  exact ⟨fun params => ⟨params.first, params.type⟩, fun fit => ⟨fit.1, fit.2, separators _⟩⟩

theorem paramsFit_iff {entries : List Param} :
    ParamsFit entries ↔ List.Forall₂ (same []).Params entries entries := by
  rw [List.forall₂_same]
  exact forall₂_congr fun _ _ => params_iff.symm

theorem arguments_iff {arguments : Elements × Option Lexeme} :
    arguments.1.Fit ↔ (same []).Arguments arguments arguments := by
  obtain ⟨args, dots⟩ := arguments
  refine ⟨fun fit => ⟨Elements.fit_iff.mp fit, ?_⟩, fun args => Elements.fit_iff.mpr args.1⟩
  cases dots with
  | none => exact .none
  | some lexeme => exact .some ⟨rfl, rfl, rfl⟩

section Lists

variable {element : Parse Positional} {closer : TokenKind}

theorem advances_separated (within : ∀ n, (same []).Within n element element) :
    Advances Elements.Fit (separatedStep element) :=
  advances_of_steps Elements.fit_iff fun n => steps_separated (within n)

theorem advances_delimited (within : ∀ n, (same []).Within n element element) :
    Advances Elements.Fit (delimitedStep closer element) :=
  advances_of_steps Elements.fit_iff fun n => steps_delimited (within n)

theorem advances_terminated (within : ∀ n, (same []).Within n element element) :
    Advances Elements.Fit (terminatedStep closer element) :=
  advances_of_steps Elements.fit_iff fun n => steps_terminated (within n)

theorem advances_param (within : ∀ n, (same []).Within n element element) :
    Advances ParamsFit (paramStep closer element) :=
  advances_of_steps paramsFit_iff fun n => steps_param (within n)

end Lists

/-- **Progress.** Each repetition takes a token before it goes on. -/
theorem advances_of_isLoop {level : Nat} {α : Type} {gathered : α → Prop}
    {step : α → Parse (Flow α)} (loop : IsLoop (.level level) gathered step) :
    Advances gathered step := by
  have rulesGo := rulesGo_level (same []) level
  have next := Nat.lt_succ_self
  cases loop with
  | skip =>
    have steps : ∀ n, (same []).Steps n (fun _ _ => True) (fun _ _ _ => True) skipStep skipStep :=
      fun _ => steps_skip
    exact advances_of_steps (by simp) steps
  | names => exact advances_separated fun _ _ _ _ _ => goes_ident
  | exprs literals => exact advances_separated fun n _ _ _ le => goes_expr (rulesGo n) le
  | typeArgs => exact advances_delimited fun n => within_type (rulesGo (n + 1)) (next n)
  | elements => exact advances_delimited fun _ left _ _ _ => goes_element (rulesGo (left + 1)) (next left)
  | fields => exact advances_terminated fun _ left _ _ _ => goes_structField (rulesGo (left + 1)) (next left)
  | methods =>
    exact advances_terminated fun _ left _ _ _ => goes_interfaceMember (rulesGo (left + 1)) (next left)
  | imports => exact advances_terminated fun _ _ _ _ _ => goes_importSpec
  | types => exact advances_terminated fun n _ _ _ le => goes_typeSpec (rulesGo n) le
  | values => exact advances_terminated fun n _ _ _ le => goes_valueSpec (rulesGo n) le
  | decls => exact advances_terminated fun n _ _ _ le => goes_decl (rulesGo n) le
  | params => exact advances_param fun n => within_paramType (rulesGo (n + 1)) (next n)
  | receiver => exact advances_param fun n _ _ _ le => goes_type (rulesGo n) le
  | typeParams =>
    exact advances_param fun _ left _ _ _ => goes_constraint (rulesGo (left + 1)) (next left)
  | constraint =>
    exact advances_of_steps treeFit_iff fun n => steps_constraint (rulesGo (n + 1)) (next n)
  | arguments =>
    exact advances_of_steps arguments_iff fun n => steps_argument (rulesGo (n + 1)) (next n)
  | primary literals => exact advances_of_steps treeFit_iff fun n => steps_primary (rulesGo n)
  | binary literals least => exact advances_of_steps treeFit_iff fun n => steps_binary (rulesGo n)
  | clauses => exact advances_of_steps Elements.fit_iff fun n => steps_clause (rulesGo n)
  | statements => exact advances_of_steps Elements.fit_iff fun n => steps_statement (rulesGo n)

/-! ## Whole texts -/

/-- Reads the tokens of a text on top of given rules, with more tokens behind their end. -/
def readOn (bottom : Rules) (behind : List Token) (text : String) : Positional × ParseState :=
  (file (bottom.stack ((lex text).tokens.length + 1)) (byteLength text.toList)).run
    (.start ((lex text).tokens ++ behind) ((lex text).unterminated.map unterminatedComment))

theorem parse_eq_readOn (text : String) :
    (parse text).tree.root = (readOn .exhausted [] text).1 ∧
      (parse text).diagnostics = (readOn .exhausted [] text).2.diagnostics := by
  have rules := Rules.level_eq_stack ((lex text).tokens.length + 1)
  simp only [readOn, parse, ← rules, List.append_nil]
  generalize StateT.run (file _ _) _ = result
  obtain ⟨root, state⟩ := result
  exact ⟨rfl, rfl⟩

/-- Texts whose tokens agree are read abreast, whatever lies below the rules and behind the
ends. -/
theorem goes_readOn {text text' : String} (bottom bottom' : Rules)
    (tokens : List.Forall₂ pairing.Tokens (lex text).tokens (lex text').tokens)
    (lengths : pairing.offset (byteLength text.toList) (byteLength text'.toList))
    (reports : List.Forall₂ pairing.Reports ((lex text).unterminated.map unterminatedComment)
      ((lex text').unterminated.map unterminatedComment)) :
    pairing.Abreast 0 (readOn bottom pairing.beyond text).2
        (readOn bottom' pairing.beyond' text').2 ∧
      pairing.Trees (readOn bottom pairing.beyond text).1
        (readOn bottom' pairing.beyond' text').1 := by
  obtain ⟨front, split, others⟩ := ended_lex text
  have levels := tokens.length_eq
  have enough : front.length ≤ (lex text).tokens.length + 1 := by
    rw [split, List.length_append]
    omega
  rw [split] at tokens
  have ahead := ahead_of_forall₂ tokens others rfl
  rw [← split] at ahead
  unfold readOn
  rw [← levels]
  obtain ⟨left, -, abreast, rfl, trees⟩ := goes_read bottom bottom' ahead enough lengths reports
  exact ⟨abreast, trees⟩

/-- Texts whose tokens agree have trees and diagnostics that agree. -/
theorem goes_parse {text text' : String} (ends : pairing.beyond = []) (ends' : pairing.beyond' = [])
    (tokens : List.Forall₂ pairing.Tokens (lex text).tokens (lex text').tokens)
    (lengths : pairing.offset (byteLength text.toList) (byteLength text'.toList))
    (reports : List.Forall₂ pairing.Reports ((lex text).unterminated.map unterminatedComment)
      ((lex text').unterminated.map unterminatedComment)) :
    pairing.Trees (parse text).tree.root (parse text').tree.root ∧
      List.Forall₂ pairing.Reports (parse text).diagnostics (parse text').diagnostics := by
  obtain ⟨abreast, trees⟩ := goes_readOn .exhausted .exhausted tokens lengths reports
  rw [ends, ends'] at abreast trees
  rw [(parse_eq_readOn text).1, (parse_eq_readOn text).2, (parse_eq_readOn text').1,
    (parse_eq_readOn text').2]
  exact ⟨trees, abreast.reports⟩

/-- A text is read abreast with itself. -/
theorem readOn_same (text : String) (bottom : Rules) (behind : List Token) :
    (same behind).Abreast 0 (readOn .exhausted [] text).2 (readOn bottom behind text).2 ∧
      (same behind).Trees (readOn .exhausted [] text).1 (readOn bottom behind text).1 := by
  have tokens := List.forall₂_same.mpr fun token (_ : token ∈ (lex text).tokens) =>
    tokens_same behind token
  have reports : List.Forall₂ (same behind).Reports
      ((lex text).unterminated.map unterminatedComment)
      ((lex text).unterminated.map unterminatedComment) :=
    List.forall₂_same.mpr fun _ _ => ⟨rfl, rfl, rfl⟩
  exact goes_readOn .exhausted bottom tokens (Eq.refl (byteLength text.toList)) reports

/-- **To the end.** Whatever lies below the rules and behind the end of the tokens, a text is
read the same, reading stops in front of the end, and what lies behind is left. -/
theorem readOn_eq (text : String) : ∃ last stop, last.kind = .eof ∧ ∀ bottom behind,
    readOn bottom behind text =
      ((parse text).tree.root, ⟨last, behind, stop, (parse text).diagnostics⟩) := by
  have parsed := parse_eq_readOn text
  refine ⟨(readOn .exhausted [] text).2.current, (readOn .exhausted [] text).2.lastEnd, ?_, ?_⟩
  · have abreast := (readOn_same text .exhausted []).1
    by_contra other
    exact Nat.lt_irrefl 0 (abreast.pos other)
  · intro bottom behind
    obtain ⟨abreast, trees⟩ := readOn_same text bottom behind
    have tree := trees.eq (rigid_same behind)
    have current := abreast.current.eq (rigid_same behind)
    have upcoming := abreast.upcoming_eq.2
    have reports := eq_of_forall₂ (Reports.eq (rigid_same behind)) abreast.reports
    have ends : (readOn .exhausted [] text).2.lastEnd = (readOn bottom behind text).2.lastEnd := by
      rcases abreast.lastEnd with ⟨none, none'⟩ | same
      · rw [none, none']
      · exact same
    rw [parsed.1, parsed.2, tree, current, reports, ends]
    generalize readOn bottom behind text = result at upcoming
    obtain ⟨root, current, upcoming', stop, diagnostics⟩ := result
    obtain rfl : upcoming' = behind := upcoming
    rfl

/-- The tree of any text has slots of the right kinds. -/
theorem kinded_root (text : String) : Decorate.Kinded .standard (parse text).tree.root.preorder := by
  rw [(parse_eq_readOn text).1]
  exact (readOn_same text .exhausted []).2.kinded

/-! ## Indices -/

/-- An index or a slice, where what stands between the brackets is read before it shows which
of the two it is: an index is read, so there is something to fall back on should it be
missing. -/
def indexOrSliceOr (fallback : Parse Positional) (rules : Rules) (x : Positional) :
    Parse Positional := do
  let lbrack ← take
  let low ← if (← peek) ≠ .colon then pure (some (← rules.binary true 1)) else pure none
  match ← peek, low with
  | .colon, low => sliceFrom rules x lbrack low
  | _, none => fallback
  | .comma, some first =>
    let comma ← take
    let rest ← delimited .rightBracket rules.type
    let rbrack ← expect .rightBracket "expected `]`"
    close .indexListExpr x.span.start
      [childSlot x, tokenSlot lbrack,
       (((Elements.single first).separate comma.span).append rest).slot, .token rbrack]
  | _, some first =>
    let rbrack ← expect .rightBracket "expected `]`"
    close .indexExpr x.span.start
      [childSlot x, tokenSlot lbrack, childSlot first, .token rbrack]

/-- An index without a colon is never missing. -/
theorem indexOrSliceOr_eq (fallback : Parse Positional) (rules : Rules) (x : Positional) :
    indexOrSliceOr fallback rules x = indexOrSlice rules x := by
  have looked : ∀ {next : TokenKind → Parse Positional} {state : ParseState},
      (peek >>= next) state = next state.current.kind state := rfl
  unfold indexOrSliceOr indexOrSlice
  refine congrArg (take >>= ·) (funext fun lbrack => funext fun state => ?_)
  rw [looked, looked]
  by_cases isColon : state.current.kind = .colon
  · rw [if_neg (not_not_intro isColon), if_pos isColon, pure_bind]
    beta_reduce
    rw [looked, isColon]
  · rw [if_pos isColon, if_neg isColon]
    refine congrFun (congrArg (rules.binary true 1 >>= ·) (funext fun first => ?_)) state
    rw [pure_bind]
    refine congrArg (peek >>= ·) (funext fun kind => ?_)
    cases kind <;> rfl

/-! ## Reading is total -/

/-- What reading does on every text, however malformed. -/
structure Total : Prop where
  /-- A text is read to its end and not beyond, and never as deep as its rules are stacked:
  whatever lies behind the end and below the rules makes no difference, and what lies behind
  the end is left. -/
  ends : ∀ text, ∃ last stop, last.kind = .eof ∧ ∀ bottom behind,
    readOn bottom behind text =
      ((parse text).tree.root, ⟨last, behind, stop, (parse text).diagnostics⟩)
  /-- A repetition takes a token before it goes on. -/
  loops : ∀ {level : Nat} {α : Type} {gathered : α → Prop} {step : α → Parse (Flow α)},
    IsLoop (.level level) gathered step → Advances gathered step
  /-- So it is done before it has been repeated as often as there are tokens. -/
  rounds : ∀ {level : Nat} {α : Type} {gathered : α → Prop} {step : α → Parse (Flow α)},
    IsLoop (.level level) gathered step → ∀ {value : α} {state : ParseState}, gathered value →
    state.Ended → ∀ {fuel : Nat}, state.upcoming.length < fuel →
    (iterateUpTo step fuel value).run state = (iterate step value).run state
  /-- A rule that leads back to itself takes a token on the way: whatever it reads in front of
  at most `n` tokens depends on what the rules read in front of fewer. -/
  cycles : ∀ {n : Nat} {rules rules' : Rules}, (same []).RulesGo n rules rules' →
    (same []).RulesGo (n + 1) rules.next rules'.next
  /-- An index without a colon is there. -/
  indices : ∀ fallback rules x, indexOrSliceOr fallback rules x = indexOrSlice rules x
  /-- Every node has the slots of its shape. -/
  slots : ∀ text, Decorate.Kinded .standard (parse text).tree.root.preorder

/-- **Total parsing.** -/
theorem total_parse : Total where
  ends := readOn_eq
  loops := advances_of_isLoop
  rounds loop _ _ holds ended _ enough :=
    (advances_of_isLoop loop).iterateUpTo_eq holds ended enough (Nat.lt_succ_self _)
  cycles := Pairing.RulesGo.next
  indices := indexOrSliceOr_eq
  slots := kinded_root

end Grammar

end GoTrivia

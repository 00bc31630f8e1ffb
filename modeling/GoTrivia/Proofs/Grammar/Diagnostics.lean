import Mathlib.Data.List.Basic
import Mathlib.Tactic.Common
import GoTrivia.Grammar.File

/-!
# Diagnostics are never taken back

Every rule of the grammar keeps the diagnostics that were reported before it.  A text
that ends up without diagnostics therefore had none at any point of the run, so whatever
a rule does when it reports something can be left out of account.
-/

set_option autoImplicit false

namespace GoTrivia

namespace Grammar

variable {α β : Type}

/-- A rule that keeps the diagnostics reported before it. -/
class Keeps (rule : Parse α) : Prop where
  isPrefix : ∀ state : ParseState, state.diagnostics <+: (rule.run state).2.diagnostics

/-- A run that ends without diagnostics began without any. -/
theorem clean_of_run {rule : Parse α} [keeps : Keeps rule] {state after : ParseState} {value : α}
    (run : rule.run state = (value, after)) (clean : after.diagnostics = []) :
    state.diagnostics = [] := by
  have grown := keeps.isPrefix state
  rw [run, clean] at grown
  exact List.prefix_nil.mp grown

/-! ## Combining rules -/

instance (value : α) : Keeps (pure value : Parse α) :=
  ⟨fun _ => List.prefix_rfl⟩

instance (rule : Parse α) (next : α → Parse β) [first : Keeps rule]
    [second : ∀ value, Keeps (next value)] : Keeps (rule >>= next) :=
  ⟨fun state => (first.isPrefix state).trans ((second _).isPrefix _)⟩

instance (change : α → β) (rule : Parse α) [keeps : Keeps rule] : Keeps (change <$> rule) :=
  ⟨fun state => keeps.isPrefix state⟩

instance (condition : Prop) [Decidable condition] (yes no : Parse α) [Keeps yes] [Keeps no] :
    Keeps (if condition then yes else no) := by
  split <;> infer_instance

theorem Keeps.bind {rule : Parse α} {next : α → Parse β} (first : Keeps rule)
    (second : ∀ value, Keeps (next value)) : Keeps (rule >>= next) :=
  inferInstance

/-! ## Single steps -/

instance : Keeps (get : Parse ParseState) := ⟨fun _ => List.prefix_rfl⟩

instance : Keeps peek := by unfold peek; infer_instance

instance (n : Nat) : Keeps (ahead n) := by
  unfold ahead
  split <;> infer_instance

instance : Keeps here := by unfold here; infer_instance

instance : Keeps remaining := by unfold remaining; infer_instance

theorem ParseState.diagnostics_advance (state : ParseState) :
    state.advance.diagnostics = state.diagnostics := by
  unfold ParseState.advance
  split <;> rfl

instance : Keeps take :=
  ⟨fun state => by
    have same := ParseState.diagnostics_advance state
    exact same ▸ List.prefix_rfl⟩

instance (kind : TokenKind) : Keeps (takeIf kind) := by unfold takeIf; infer_instance

instance (message : String) (span : Span) : Keeps (reportAt message span) :=
  ⟨fun state => List.prefix_append state.diagnostics _⟩

instance (message : String) : Keeps (report message) := by unfold report; infer_instance

instance (kind : TokenKind) (message : String) : Keeps (expect kind message) := by
  unfold expect; infer_instance

instance (kind : NodeKind) (start : Nat) (slots : List PositionalSlot) :
    Keeps (close kind start slots) := by
  unfold close; infer_instance

/-! ## Repetition -/

theorem keeps_iterateUpTo (step : α → Parse (Flow α)) [steps : ∀ value, Keeps (step value)]
    (n : Nat) (value : α) : Keeps (iterateUpTo step n value) := by
  induction n generalizing value with
  | zero => unfold iterateUpTo; infer_instance
  | succ n ih =>
    unfold iterateUpTo
    refine .bind (steps value) fun flow => ?_
    cases flow with
    | again gathered => exact ih gathered
    | done gathered => infer_instance

instance instKeepsIterate (step : α → Parse (Flow α)) (value : α)
    [∀ value, Keeps (step value)] : Keeps (iterate step value) := by
  have loops := keeps_iterateUpTo step
  unfold iterate
  infer_instance

instance (kind : NodeKind) (message : String) : Keeps (bad kind message) := by
  unfold bad; infer_instance

set_option synthInstance.maxSize 400 in
instance : Keeps terminator := by unfold terminator; infer_instance

instance (before : Nat) : Keeps (ensureProgress before) := by
  unfold ensureProgress; infer_instance

instance (closer : TokenKind) (element : Parse Positional) [Keeps element] :
    Keeps (terminated closer element) := by
  unfold terminated; infer_instance

instance (closer : TokenKind) (element : Parse Positional) [Keeps element] :
    Keeps (delimited closer element) := by
  unfold delimited; infer_instance

instance (element : Parse Positional) [Keeps element] : Keeps (separated element) := by
  unfold separated; infer_instance

instance : Keeps takeIdent := by unfold takeIdent; infer_instance

instance : Keeps ident := by unfold ident; infer_instance

instance : Keeps basicLit := by unfold basicLit; infer_instance

/-! ## The rules that contain themselves -/

/-- Rules that keep the diagnostics reported before them. -/
class KeepsRules (rules : Rules) : Prop where
  type : Keeps rules.type
  binary : ∀ literals least, Keeps (rules.binary literals least)
  unary : ∀ literals, Keeps (rules.unary literals)
  elided : Keeps rules.elided
  block : Keeps rules.block
  statements : Keeps rules.statements
  conditional : Keeps rules.conditional

attribute [instance] KeepsRules.type KeepsRules.binary KeepsRules.unary KeepsRules.elided
  KeepsRules.block KeepsRules.statements KeepsRules.conditional

instance : Keeps tooDeep := by unfold tooDeep; infer_instance

instance : KeepsRules .exhausted where
  type := inferInstanceAs (Keeps tooDeep)
  binary _ _ := inferInstanceAs (Keeps tooDeep)
  unary _ := inferInstanceAs (Keeps tooDeep)
  elided := inferInstanceAs (Keeps tooDeep)
  block := inferInstanceAs (Keeps tooDeep)
  statements := by unfold Rules.exhausted; infer_instance
  conditional := inferInstanceAs (Keeps tooDeep)

variable (rules : Rules) [KeepsRules rules]

/-! ## Types -/

theorem keeps_namedParams (entries : List Param) (names list : Elements) :
    Keeps (namedParams entries names list) := by
  induction entries generalizing names list with
  | nil =>
    unfold namedParams
    split <;> infer_instance
  | cons entry entries ih =>
    unfold namedParams
    cases entry.type <;> infer_instance

instance (entries : List Param) : Keeps (groupParams entries) := by
  have named := keeps_namedParams entries
  unfold groupParams
  infer_instance

instance (element : Parse Positional) [Keeps element] : Keeps (paramEntry element) := by
  unfold paramEntry
  refine .bind inferInstance fun kind => ?_
  split
  · infer_instance
  · refine .bind inferInstance fun next => ?_
    split <;> infer_instance

instance (closer : TokenKind) (element : Parse Positional) [Keeps element] :
    Keeps (paramEntries closer element) := by
  unfold paramEntries
  infer_instance

instance (closer : TokenKind) (element : Parse Positional) [Keeps element] :
    Keeps (params closer element) := by
  unfold params; infer_instance

instance : Keeps (paramType rules) := by unfold paramType; infer_instance

instance : Keeps (results rules) := by unfold results; infer_instance

instance : Keeps (signature rules) := by
  unfold signature
  refine .bind inferInstance fun lparen => ?_
  split <;> infer_instance

instance : Keeps (funcType rules) := by unfold funcType; infer_instance

instance : Keeps (constraintTerm rules) := by unfold constraintTerm; infer_instance

instance : Keeps (constraint rules) := by unfold constraint; infer_instance

instance : Keeps (typeParams rules) := by unfold typeParams; infer_instance

instance (element : Parse Positional) [Keeps element] : Keeps (members element) := by
  unfold members
  refine .bind inferInstance fun lbrace => ?_
  split <;> infer_instance

instance : Keeps (structField rules) := by
  unfold structField
  simp only [pure_bind]
  refine .bind inferInstance fun start => .bind inferInstance fun kind => ?_
  split
  · infer_instance
  · refine .bind inferInstance fun next => ?_
    split <;> infer_instance

instance : Keeps (structType rules) := by unfold structType; infer_instance

instance : Keeps (interfaceMember rules) := by unfold interfaceMember; infer_instance

instance : Keeps (interfaceType rules) := by unfold interfaceType; infer_instance

instance (base : Positional) : Keeps (typeArgs rules base) := by
  unfold typeArgs
  refine .bind inferInstance fun lbrack => .bind inferInstance fun args =>
    .bind inferInstance fun rbrack => ?_
  split <;> infer_instance

instance : Keeps (typeName rules) := by unfold typeName; infer_instance

instance : Keeps (arrayLength rules) := by
  unfold arrayLength
  refine .bind inferInstance fun kind => ?_
  split <;> infer_instance

instance : Keeps (arrayType rules) := by unfold arrayType; infer_instance

instance : Keeps (mapType rules) := by unfold mapType; infer_instance

instance : Keeps (type rules) := by
  unfold type
  refine .bind inferInstance fun kind => ?_
  split <;> infer_instance

/-! ## Expressions -/

instance (x : Positional) : Keeps (selectorOrAssertion rules x) := by
  unfold selectorOrAssertion; infer_instance

instance (x : Positional) (lbrack : Lexeme) (low : Option Positional) :
    Keeps (sliceFrom rules x lbrack low) := by
  unfold sliceFrom; infer_instance

instance (x : Positional) : Keeps (indexOrSlice rules x) := by
  unfold indexOrSlice
  refine .bind inferInstance fun lbrack => .bind inferInstance fun kind => ?_
  split
  · infer_instance
  · refine .bind inferInstance fun first => .bind inferInstance fun next => ?_
    split <;> infer_instance

instance : Keeps (arguments rules) := by
  unfold arguments
  have step : ∀ gathered : Elements × Option Lexeme, Keeps ((fun (args, _) => do
      let kind ← peek
      if kind = .rightParen ∨ kind = .eof then return .done (args, none)
      let args := args.push (← rules.binary true 1)
      match ← peek with
      | .ellipsis => return .done (args, some (← take))
      | .comma => return .again (args.separate (← take).span, none)
      | _ => return .done (args, none) :
      Elements × Option Lexeme → Parse (Flow (Elements × Option Lexeme))) gathered) := by
    intro gathered
    refine .bind inferInstance fun kind => ?_
    split
    · infer_instance
    · refine .bind inferInstance fun arg => .bind inferInstance fun next => ?_
      split <;> infer_instance
  exact @instKeepsIterate _ _ _ step

instance (callee : Positional) : Keeps (call rules callee) := by unfold call; infer_instance

instance : Keeps (elementValue rules) := by unfold elementValue; infer_instance

instance : Keeps (element rules) := by unfold element; infer_instance

instance (start : Nat) (type : Option Positional) : Keeps (compositeLit rules start type) := by
  unfold compositeLit; infer_instance

instance : Keeps (elided rules) := by unfold elided; infer_instance

instance : Keeps (funcLit rules) := by unfold funcLit; infer_instance

instance : Keeps (operand rules) := by
  unfold operand
  refine .bind inferInstance fun kind => ?_
  split
  · infer_instance
  · split <;> infer_instance

instance (literals : Bool) : Keeps (primary rules literals) := by
  unfold primary
  have step : ∀ x : Positional, Keeps (do
      match ← peek with
      | .dot => return .again (← selectorOrAssertion rules x)
      | .leftBracket => return .again (← indexOrSlice rules x)
      | .leftParen => return .again (← call rules x)
      | .leftBrace =>
        if acceptsLiteral literals x.kind then
          return .again (← compositeLit rules x.span.start (some x))
        else return .done x
      | _ => return .done x : Parse (Flow Positional)) := by
    intro x
    refine .bind inferInstance fun kind => ?_
    split <;> infer_instance
  exact .bind inferInstance fun x => @instKeepsIterate _ _ _ step

instance (literals : Bool) : Keeps (unary rules literals) := by unfold unary; infer_instance

instance (literals : Bool) (least : Nat) : Keeps (binary rules literals least) := by
  unfold binary
  have step : ∀ lhs : Positional, Keeps (do
      match (← peek).precedence? with
      | some precedence =>
        if least ≤ precedence then
          let op ← take
          let rhs ← rules.binary literals (precedence + 1)
          return .again (← close .binaryExpr lhs.span.start
            [childSlot lhs, tokenSlot op, childSlot rhs])
        else return .done lhs
      | none => return .done lhs : Parse (Flow Positional)) := by
    intro lhs
    refine .bind inferInstance fun kind => ?_
    split <;> infer_instance
  exact .bind inferInstance fun x => @instKeepsIterate _ _ _ step

instance (literals : Bool) : Keeps (expr rules literals) := by unfold expr; infer_instance

instance (literals : Bool) : Keeps (exprList rules literals) := by unfold exprList; infer_instance

/-! ## Declarations -/

instance : Keeps importSpec := by
  unfold importSpec
  simp only [pure_bind]
  infer_instance

instance : Keeps (valueSpec rules) := by
  unfold valueSpec
  simp only [pure_bind]
  infer_instance

set_option synthInstance.maxSize 400 in
instance : Keeps (typeSpec rules) := by
  unfold typeSpec
  simp only [pure_bind]
  infer_instance

instance : Keeps (genDecl rules) := by
  unfold genDecl
  refine .bind inferInstance fun start => .bind inferInstance fun kind => ?_
  dsimp only
  split <;> infer_instance

instance : Keeps (receiver rules) := by unfold receiver; infer_instance

instance : Keeps (funcDecl rules) := by
  unfold funcDecl
  simp only [pure_bind]
  infer_instance

instance : Keeps (decl rules) := by
  unfold decl
  refine .bind inferInstance fun kind => ?_
  split <;> infer_instance

/-! ## Statements -/

instance (list : Elements) : Keeps (single list) := by
  unfold single
  split <;> infer_instance

instance (literals : Bool) (lhs : Elements) : Keeps (finishSimple rules literals lhs) := by
  unfold finishSimple
  refine .bind inferInstance fun kind => ?_
  dsimp only
  split
  · split <;> infer_instance
  · infer_instance

instance (literals : Bool) : Keeps (simple rules literals) := by unfold simple; infer_instance

instance (stmt : Positional) : Keeps (exprOf stmt) := by
  unfold exprOf
  split <;> infer_instance

instance : Keeps (block rules) := by
  unfold block
  refine .bind inferInstance fun start => .bind inferInstance fun lbrace => ?_
  split <;> infer_instance

instance : Keeps (conditionalHeader rules) := by unfold conditionalHeader; infer_instance

instance : Keeps (conditional rules) := by unfold conditional; infer_instance

instance (lhs : Elements) : Keeps (rangeHeader rules lhs) := by
  unfold rangeHeader
  dsimp only
  split <;> infer_instance

instance (init : Option Positional) : Keeps (countingHeader rules init) := by
  unfold countingHeader
  simp only [pure_bind]
  infer_instance

instance : Keeps (loopHeader rules) := by
  unfold loopHeader
  refine .bind inferInstance fun kind => ?_
  split <;> infer_instance

instance : Keeps (loop rules) := by
  unfold loop
  refine .bind inferInstance fun start => .bind inferInstance fun keyword =>
    .bind inferInstance fun header => ?_
  infer_instance

instance : Keeps (caseClause rules) := by
  unfold caseClause
  simp only [pure_bind]
  infer_instance

instance : Keeps (clauses rules) := by
  unfold clauses
  have step : ∀ list : Elements, Keeps (do
      match ← peek with
      | .rightBrace | .eof => return .done list
      | .caseKw | .defaultKw => return .again (list.push (← caseClause rules))
      | _ =>
        report "expected `case` or `default`"
        let _ ← take
        return .again list : Parse (Flow Elements)) := by
    intro list
    refine .bind inferInstance fun kind => ?_
    split <;> infer_instance
  exact @instKeepsIterate _ _ _ step

instance : Keeps (switchBody rules) := by
  unfold switchBody
  refine .bind inferInstance fun start => .bind inferInstance fun lbrace => ?_
  split <;> infer_instance

set_option synthInstance.maxSize 400 in
instance : Keeps (switchHeader rules) := by unfold switchHeader; infer_instance

instance : Keeps (switchStmt rules) := by unfold switchStmt; infer_instance

instance (kind : NodeKind) : Keeps (callStmt rules kind) := by unfold callStmt; infer_instance

instance : Keeps (returnStmt rules) := by
  unfold returnStmt
  simp only [pure_bind]
  infer_instance

instance : Keeps branchStmt := by
  unfold branchStmt
  simp only [pure_bind]
  infer_instance

instance : Keeps (declStmt rules) := by unfold declStmt; infer_instance

instance : Keeps (statement rules) := by
  unfold statement
  refine .bind inferInstance fun kind => ?_
  split <;> infer_instance

instance : Keeps (statements rules) := by unfold statements; infer_instance

/-! ## Files -/

instance : KeepsRules rules.next where
  type := inferInstanceAs (Keeps (Grammar.type rules))
  binary literals least := inferInstanceAs (Keeps (Grammar.binary rules literals least))
  unary literals := inferInstanceAs (Keeps (Grammar.unary rules literals))
  elided := inferInstanceAs (Keeps (Grammar.elided rules))
  block := inferInstanceAs (Keeps (Grammar.block rules))
  statements := inferInstanceAs (Keeps (Grammar.statements rules))
  conditional := inferInstanceAs (Keeps (Grammar.conditional rules))

instance keepsRules_level : ∀ n : Nat, KeepsRules (.level n)
  | 0 => inferInstanceAs (KeepsRules .exhausted)
  | n + 1 =>
    have := keepsRules_level n
    inferInstanceAs (KeepsRules (Rules.level n).next)

instance (length : Nat) : Keeps (file rules length) := by unfold file; infer_instance

end Grammar

end GoTrivia

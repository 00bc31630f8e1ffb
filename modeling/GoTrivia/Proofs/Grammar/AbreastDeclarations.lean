import GoTrivia.Proofs.Grammar.AbreastExpressions
import GoTrivia.Proofs.Grammar.Declarations

/-!
# Declarations abreast
-/

set_option autoImplicit false

namespace GoTrivia

namespace Grammar

open Pairing

variable {pairing : Pairing} {n m : Nat} {state state' : ParseState} {rules rules' : Rules}

theorem goes_importSpec (abreast : pairing.Abreast m state state') :
    pairing.GoesTree m importSpec state importSpec state' := by
  unfold importSpec
  refine .here abreast fun start => .peek abreast ?_
  have goesOn : ∀ {k now now' name name'}, pairing.Abreast k now now' →
      Option.Rel pairing.Trees name name' → pairing.GoesTree k
        (do
          let path ←
            if (← peek) = .string then basicLit else bad .badExpr "expected import path"
          close .importSpec state.current.span.start [.child name, childSlot path]) now
        (do
          let path ←
            if (← peek) = .string then basicLit else bad .badExpr "expected import path"
          close .importSpec state'.current.span.start [.child name', childSlot path]) now' := by
    intro k now now' name name' abreast names
    refine .peek abreast (.ite (fun isString => ?_) fun _ => ?_)
    · exact .bind (goes_basicLit abreast (by simp [isString])) fun _ abreast path =>
        .close abreast start (.cons (.ofChild names) <| .cons (.child path) .nil)
    · exact .bind (goes_bad rfl abreast) fun _ abreast path =>
        .close abreast start (.cons (.ofChild names) <| .cons (.child path) .nil)
  refine .ite (fun named => ?_) fun _ => goesOn abreast .none
  have more : state.current.kind ≠ .eof := by rcases named with is | is <;> simp [is]
  exact .bind (goes_takeIdent abreast more) fun _ abreast name => goesOn abreast (.some name)

theorem goes_valueRest {start start' : Nat} {names names' : Elements}
    {declared declared' : Option Positional} (rulesGo : pairing.RulesGo n rules rules') (le : m ≤ n)
    (abreast : pairing.Abreast m state state') (starts : pairing.offset start start')
    (lists : pairing.Gathers names names') (types : Option.Rel pairing.Trees declared declared') :
    pairing.GoesTree m (valueRest rules start names declared) state
      (valueRest rules' start' names' declared') state' := by
  unfold valueRest
  refine .peek abreast (.ite (fun isAssign => ?_) fun _ => ?_)
  · refine .take abreast (by simp [isAssign]) fun _ abreast assign => ?_
    exact .bind (goes_exprList rulesGo (by omega) abreast) fun _ abreast values =>
      .close abreast starts (.cons lists.slot <| .cons (.ofChild types) <| .cons (.token assign) <|
        .cons values.slot .nil)
  · exact .close abreast starts (.cons lists.slot <| .cons (.ofChild types) <| .cons .vacant <|
      .cons Gathers.empty.slot .nil)

theorem goes_valueSpec (rulesGo : pairing.RulesGo n rules rules') (le : m ≤ n)
    (abreast : pairing.Abreast m state state') :
    pairing.GoesTree m (valueSpec rules) state (valueSpec rules') state' := by
  unfold valueSpec
  refine .here abreast fun start => ?_
  refine .bind (goes_separated (fun _ => goes_ident) abreast) fun _ abreast names => ?_
  refine .peek abreast (.ite (fun _ => ?_) fun _ => ?_)
  · exact goes_valueRest rulesGo (by omega) abreast start names .none
  · have typed := Goes.bind (goes_type rulesGo (by omega) abreast) fun _ abreast declared =>
      goes_valueRest rulesGo (by omega) abreast start names (.some declared)
    exact typed

theorem goes_typeRest {start start' : Nat} {name name' : Positional}
    {slots slots' : List PositionalSlot} (rulesGo : pairing.RulesGo n rules rules') (le : m ≤ n)
    (abreast : pairing.Abreast m state state') (starts : pairing.offset start start')
    (names : pairing.Trees name name') (params : pairing.SlotLists bracketed slots slots') :
    pairing.GoesTree m (typeRest rules start name slots) state
      (typeRest rules' start' name' slots') state' := by
  unfold typeRest
  have goesOn : ∀ {k now now' assign assign'}, k ≤ n → pairing.Abreast k now now' →
      Option.Rel pairing.Lexemes assign assign' → pairing.GoesTree k
        (do
          let value ← type rules
          close .typeSpec start ([childSlot name] ++ slots ++ [.token assign, childSlot value])) now
        (do
          let value ← type rules'
          close .typeSpec start'
            ([childSlot name'] ++ slots' ++ [.token assign', childSlot value])) now' :=
    fun le abreast assigns => .bind (goes_type rulesGo le abreast) fun _ abreast value =>
      .close abreast starts (((SlotLists.nil.cons (.child names)).append params).append <|
        .cons (.ofToken assigns) <| .cons (.child value) .nil)
  refine .peek abreast (.ite (fun isAssign => ?_) fun _ => goesOn le abreast .none)
  exact .take abreast (by simp [isAssign]) fun _ abreast assign =>
    goesOn (by omega) abreast (.some assign)

theorem goes_typeSpec (rulesGo : pairing.RulesGo n rules rules') (le : m ≤ n)
    (abreast : pairing.Abreast m state state') :
    pairing.GoesTree m (typeSpec rules) state (typeSpec rules') state' := by
  unfold typeSpec
  refine .here abreast fun start => ?_
  refine .bind (goes_ident abreast) fun _ abreast name => .peek abreast ?_
  refine .aheadOne abreast fun one => .aheadTwo abreast fun two => ?_
  refine .ite_congr ?_ (fun opened => ?_) fun _ => ?_
  · refine and_congr_right fun isBracket => ?_
    obtain ⟨rfl, next⟩ := one (by simp [isBracket])
    refine and_congr_right fun isName => ?_
    rw [two (by simp [isBracket]) (by rw [← next, isName]; decide)]
  · have generic := Goes.bind (goes_typeParams rulesGo (by omega) abreast (by simp [opened.1]))
      fun _ abreast params => goes_typeRest rulesGo (by omega) abreast start name params
    exact generic
  · exact goes_typeRest rulesGo (by omega) abreast start name slotLists_unbracketed

theorem goes_genDeclOf {spec spec' : Parse Positional} (specs : pairing.Within n spec spec')
    (abreast : pairing.Abreast n state state') (more : state.current.kind ≠ .eof) :
    pairing.GoesTree n (genDeclOf spec) state (genDeclOf spec') state' := by
  unfold genDeclOf
  refine .here abreast fun start => .take abreast more fun _ abreast tok => .peek abreast ?_
  refine .ite (fun isParen => ?_) fun _ => ?_
  · refine .take abreast (by simp [isParen]) fun _ abreast lparen => ?_
    refine .bind (goes_terminated (fun le => specs (by omega)) abreast) fun _ abreast list => ?_
    exact .bind (.expect abreast (by decide)) fun _ abreast rparen =>
      .close abreast start (.cons (.token tok) <| .cons (.token lparen) <| .cons list.slot <|
        .cons (.ofToken rparen.rel) .nil)
  · exact .bind (specs (by omega) abreast) fun _ abreast spec =>
      .close abreast start (.cons (.token tok) <| .cons .vacant <|
        .cons (Gathers.single spec).slot <| .cons .vacant .nil)

theorem genDecl_eq (rules : Rules) : genDecl rules = peek >>= fun kind =>
    genDeclOf (match kind with
      | .importKw => importSpec
      | .typeKw => typeSpec rules
      | _ => valueSpec rules) := rfl

theorem goes_genDecl (rulesGo : pairing.RulesGo n rules rules') (le : m ≤ n)
    (abreast : pairing.Abreast m state state') (more : state.current.kind ≠ .eof) :
    pairing.GoesTree m (genDecl rules) state (genDecl rules') state' := by
  rw [genDecl_eq, genDecl_eq]
  refine .peek abreast (goes_genDeclOf ?_ abreast more)
  intro left now now' le' abreast
  split
  · exact goes_importSpec abreast
  · exact goes_typeSpec rulesGo (by omega) abreast
  · exact goes_valueSpec rulesGo (by omega) abreast

theorem goes_receiver (rulesGo : pairing.RulesGo n rules rules') (le : m ≤ n)
    (abreast : pairing.Abreast m state state') :
    pairing.GoesSlots m bracketed (receiver rules) state (receiver rules') state' := by
  unfold receiver
  refine .peek abreast (.ite (fun isParen => ?_) fun _ => .pure abreast slotLists_unbracketed)
  refine .take abreast (by simp [isParen]) fun _ abreast lparen => ?_
  refine .bind (goes_params (fun le abreast => goes_type rulesGo (by omega) abreast) abreast)
    fun _ abreast list => ?_
  exact .bind (.expect abreast (by decide)) fun _ abreast rparen =>
    .pure abreast (.cons (.token lparen) <| .cons list.slot <| .cons (.ofToken rparen.rel) .nil)

theorem goes_funcRest {start start' : Nat} {sorts : List SlotSort}
    {front front' : List PositionalSlot} (rulesGo : pairing.RulesGo n rules rules') (lt : m < n)
    (abreast : pairing.Abreast m state state') (starts : pairing.offset start start')
    (fronts : pairing.SlotLists sorts front front')
    (whole : slotSorts .funcDecl = sorts ++ (bracketed ++ bracketed) ++ [.child]) :
    pairing.GoesTree m (funcRest rules start front) state (funcRest rules' start' front') state' := by
  unfold funcRest
  refine .bind (goes_signature rulesGo lt abreast) fun _ abreast slots => .peek abreast ?_
  refine .ite (fun _ => ?_) fun _ => ?_
  · exact .bind (rulesGo.block (by omega) abreast) fun _ abreast body =>
      .close abreast starts (whole ▸ (fronts.append slots).append (.cons (.child body) .nil))
  · exact .close abreast starts (whole ▸ (fronts.append slots).append (.cons .childless .nil))

theorem goes_funcDecl (rulesGo : pairing.RulesGo n rules rules') (le : m ≤ n)
    (abreast : pairing.Abreast m state state') (more : state.current.kind ≠ .eof) :
    pairing.GoesTree m (funcDecl rules) state (funcDecl rules') state' := by
  unfold funcDecl
  refine .here abreast fun start => .take abreast more fun _ abreast keyword => ?_
  refine .bind (goes_receiver rulesGo (by omega) abreast) fun _ abreast receiver => ?_
  refine .bind (goes_ident abreast) fun _ abreast name => .peek abreast ?_
  have front := ((SlotLists.nil.cons (.token keyword)).append receiver).append
    (.cons (.child name) .nil)
  refine .ite (fun isBracket => ?_) fun _ => ?_
  · have generic := Goes.bind (goes_typeParams rulesGo (by omega) abreast (by simp [isBracket]))
      fun _ abreast params =>
        goes_funcRest rulesGo (by omega) abreast start (front.append params) rfl
    exact generic
  · exact goes_funcRest rulesGo (by omega) abreast start (front.append slotLists_unbracketed) rfl

theorem goes_decl (rulesGo : pairing.RulesGo n rules rules') (le : m ≤ n)
    (abreast : pairing.Abreast m state state') :
    pairing.GoesTree m (decl rules) state (decl rules') state' := by
  unfold decl
  refine .peek abreast ?_
  split
  · next is => exact goes_genDecl rulesGo le abreast (by simp [is])
  · next is => exact goes_genDecl rulesGo le abreast (by simp [is])
  · next is => exact goes_genDecl rulesGo le abreast (by simp [is])
  · next is => exact goes_genDecl rulesGo le abreast (by simp [is])
  · next is => exact goes_funcDecl rulesGo le abreast (by simp [is])
  · exact goes_bad rfl abreast

end Grammar

end GoTrivia

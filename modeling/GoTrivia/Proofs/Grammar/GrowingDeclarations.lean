import GoTrivia.Proofs.Grammar.AbreastDeclarations
import GoTrivia.Proofs.Grammar.GrowingExpressions

/-!
# How declarations grow

Imports, constants, variables, types and functions.
-/

set_option autoImplicit false

namespace GoTrivia

namespace Grammar

variable {origin state : ParseState} {n : Nat} {rules : Rules}

theorem leads_importSpec (stands : Stands origin state) :
    Leads origin (Growing origin (.whole true) 0) importSpec state := by
  have goesOn : ∀ {start now name}, Stands origin now →
      (∀ tree, name = some tree → Grown origin.tokens now.diagnostics.length .type tightest tree) →
      Leads origin (Growing origin (.whole true) 0)
        (do
          let path ←
            if (← peek) = .string then basicLit else bad .badExpr "expected import path"
          close .importSpec start [.child name, childSlot path]) now := by
    intro start now name stands grown
    refine .peek (.ite (fun isString => ?_) fun _ => ?_)
    · refine .bind (leads_basicLit .type stands (by rw [isString]; rfl)) fun stands _ _ path => ?_
      exact .closeGrown stands (.cons (.optional grown (by omega) (Nat.zero_le _)) <|
        .cons (.child path.grown (Nat.le_refl _) (Nat.zero_le _)) .nil) rfl
    · have missing : Leads origin (Resting origin .type 0)
          (bad .badExpr "expected import path") now := leads_bad stands rfl rfl
      refine .bind missing fun stands _ _ path => ?_
      exact .closeGrown stands (.cons (.optional grown (by omega) (Nat.zero_le _)) <|
        .cons (.child path.grown (Nat.le_refl _) (Nat.zero_le _)) .nil) rfl
  unfold importSpec
  refine .here (.peek (.ite (fun named => ?_) fun _ => goesOn stands nofun))
  have ne : ∀ kind : TokenKind, kind ≠ .name → kind ≠ .dot → state.current.kind ≠ kind := by
    rintro kind notName notDot rfl
    exact named.elim notName notDot
  refine .bind (leads_takeIdent .type rfl stands (ne _ (by decide) (by decide))
    (ne _ (by decide) (by decide))) fun stands _ _ name => goesOn stands ?_
  rintro tree ⟨⟩
  exact name.1.grown

theorem leads_valueRest {start : Nat} {names : Elements} {declared : Option Positional}
    (lead : RulesLead origin n rules) (le : state.upcoming.length ≤ n)
    (stands : Stands origin state) (listing : Listing origin .type tightest names state)
    (types : ∀ tree, declared = some tree →
      Grown origin.tokens state.diagnostics.length .type tightest tree) :
    Leads origin (Growing origin (.whole true) 0) (valueRest rules start names declared) state := by
  have name : ∀ {count}, state.diagnostics.length ≤ count →
      Fill origin.tokens count (.whole true) .valueSpec
        (StandardShape.list .names StandardShape.commas) names.slot := fun le => .commas (fun _ => listing.grows) le listing.commas rfl rfl rfl
  unfold valueRest
  refine .peek (.ite (fun isAssign => ?_) fun _ => ?_)
  · refine .take stands (by simp [isAssign]) fun taken _ _ => ?_
    refine .bind (leads_exprList lead (by omega) taken.stands) fun stands _ _ values => ?_
    exact .closeGrown stands (.cons (name (by omega)) <|
      .cons (.optional types (by omega) (Nat.zero_le _)) <|
      .cons .token <|
      .cons (.commas (fun _ => values.grows) (Nat.le_refl _) values.commas rfl rfl rfl) .nil) rfl
  · exact .closeGrown stands (.cons (name (Nat.le_refl _)) <|
      .cons (.optional types (Nat.le_refl _) (Nat.zero_le _)) <| .cons .token <|
      .cons (.empty rfl) .nil) rfl

theorem leads_names (stands : Stands origin state) :
    Leads origin (Listing origin .type tightest) (separated ident) state :=
  leads_separated (fun _ _ => leads_ident) stands

theorem leads_valueSpec (lead : RulesLead origin n rules) (le : state.upcoming.length ≤ n)
    (stands : Stands origin state) :
    Leads origin (Growing origin (.whole true) 0) (valueSpec rules) state := by
  unfold valueSpec
  refine .here (.bind (leads_names stands) fun {names now} stands fewer _ listing => ?_)
  refine .peek (.ite (fun _ => ?_) fun _ => ?_)
  · exact leads_valueRest lead (by omega) stands listing nofun
  · refine .bind (leads_type lead (by omega) stands) fun stands fewer' le type => ?_
    have listing := Listing.mk (listing.grows.mono le) listing.commas
    refine leads_valueRest lead (by omega) stands listing ?_
    rintro tree ⟨⟩
    exact type.grown

theorem leads_typeRest {start : Nat} {name : Positional} {slots : List PositionalSlot}
    (lead : RulesLead origin n rules) (le : state.upcoming.length ≤ n)
    (stands : Stands origin state)
    (named : Grown origin.tokens state.diagnostics.length .type tightest name)
    (params : Fills origin.tokens state.diagnostics.length (.whole true) .typeSpec typeParamShapes
      slots) :
    Leads origin (Growing origin (.whole true) 0) (typeRest rules start name slots) state := by
  have goesOn : ∀ {now assign}, now.upcoming.length ≤ n → Stands origin now →
      state.diagnostics.length ≤ now.diagnostics.length →
      Leads origin (Growing origin (.whole true) 0)
        (do
          let value ← type rules
          close .typeSpec start ([childSlot name] ++ slots ++ [.token assign, childSlot value]))
        now := by
    intro now assign le stands more
    refine .bind (leads_type lead le stands) fun stands _ _ value => ?_
    refine .closeGrown stands (.cons (.child named (by omega) (Nat.zero_le _)) ?_) rfl
    exact List.rel_append (params.mono (by omega)) (.cons .token <|
      .cons (.child value.grown (Nat.le_refl _) (Nat.zero_le _)) .nil)
  unfold typeRest
  refine .peek (.ite (fun isAssign => ?_) fun _ => goesOn le stands (Nat.le_refl _))
  exact .take stands (by simp [isAssign]) fun taken _ _ =>
    goesOn (by omega) taken.stands (by omega)

theorem leads_typeSpec (lead : RulesLead origin n rules) (le : state.upcoming.length ≤ n)
    (stands : Stands origin state) :
    Leads origin (Growing origin (.whole true) 0) (typeSpec rules) state := by
  unfold typeSpec
  refine .here (.bind (leads_ident stands) fun {name now} stands fewer _ named => ?_)
  refine .peek (.ahead (.ahead (.ite (fun opened => ?_) fun _ => ?_)))
  · refine .bind (leads_typeParams .typeSpec rfl (fun _ => rfl) lead (by omega) stands opened.1)
      fun stands fewer' le params => ?_
    exact leads_typeRest lead (by omega) stands (named.grown.mono le) params.fills
  · exact leads_typeRest lead (by omega) stands named.grown (fills_unbracketed rfl)

theorem leads_genDeclOf {spec : Parse Positional} (specs : ∀ now,
      now.upcoming.length ≤ state.upcoming.length → Stands origin now →
      Leads origin (Growing origin (.whole true) 0) spec now)
    (stands : Stands origin state) (more : state.current.kind ≠ .eof) :
    Leads origin (Growing origin (.whole true) 0) (genDeclOf spec) state := by
  unfold genDeclOf
  refine .here (.take stands more fun taken _ _ => .peek (.ite (fun isParen => ?_) fun _ => ?_))
  · refine .take taken.stands (by simp [isParen]) fun taken _ _ => ?_
    refine .bind (leads_terminated (fun now le => specs now (by omega)) taken.stands)
      fun stands _ _ list => ?_
    refine .bind (.expect stands (by decide)) fun stands _ _ _ => ?_
    exact .closeGrown stands (.cons .token <| .cons .token <|
      .cons (.lines (fun _ => list.1) (by omega) list.2.1 rfl rfl rfl) <| .cons .token .nil) rfl
  · refine .bind (specs _ (by omega) taken.stands) fun {spec now} stands _ _ grown => ?_
    have single :
        (Elements.single spec).Grows origin.tokens now.diagnostics.length (.whole true) 0 :=
      Elements.grows_single grown
    exact .closeGrown stands (.cons .token <| .cons .token <|
      .cons (.lines (fun _ => single) (Nat.le_refl _) rfl rfl rfl rfl) <| .cons .token .nil) rfl

theorem leads_genDecl (lead : RulesLead origin n rules) (le : state.upcoming.length ≤ n)
    (stands : Stands origin state) (more : state.current.kind ≠ .eof) :
    Leads origin (Growing origin (.whole true) 0) (genDecl rules) state := by
  rw [genDecl_eq]
  refine .peek (leads_genDeclOf (fun now fewer stands => ?_) stands more)
  split
  · exact leads_importSpec stands
  · exact leads_typeSpec lead (by omega) stands
  · exact leads_valueSpec lead (by omega) stands

theorem leads_receiver (lead : RulesLead origin n rules) (le : state.upcoming.length ≤ n)
    (stands : Stands origin state) :
    Leads origin (fun slots after => Fills origin.tokens after.diagnostics.length (.whole true)
      .funcDecl receiverShapes slots) (receiver rules) state := by
  have keeps := lead.keeps
  unfold receiver
  refine .peek (.ite (fun isParen => ?_) fun _ => .pure stands (fills_unbracketed rfl))
  refine .take stands (by simp [isParen]) fun taken _ _ => ?_
  have listed := leads_params .rightParen
    (fun now le stands => (leads_type lead (by omega) stands).imp
      fun _ _ _ resting => resting.weaken (Nat.zero_le _))
    (reads_type lead.sound).ending taken.stands (taken.firm (by simp [isParen]))
  refine .bind listed fun stands _ _ parameters => ?_
  refine .bind (.expect stands (by decide)) fun after _ _ _ => .pure after ?_
  exact .cons .token <| .cons (parameters.fill (by omega) (fun _ => rfl) rfl rfl) <| .cons .token .nil

theorem leads_funcRest {start : Nat} {shapes : List AnchorShape} {front : List PositionalSlot}
    (lead : RulesLead origin n rules) (lt : state.upcoming.length < n)
    (stands : Stands origin state) (firm : Firm origin state)
    (fills : Fills origin.tokens state.diagnostics.length (.whole true) .funcDecl shapes front)
    (whole : (standardShape .funcDecl).anchors =
      shapes ++ signatureShapes ++ [(StandardShape.child .body).optional.spaced]) :
    Leads origin (Growing origin (.whole true) 0) (funcRest rules start front) state := by
  unfold funcRest
  refine .bind (leads_signature (.inl rfl) lead lt stands firm) fun {slots now} stands _ le signed =>
    .peek ?_
  have front := List.rel_append (fills.mono le) signed.fills
  refine .ite (fun _ => ?_) fun _ => ?_
  · refine .bind (lead.block (by omega) stands) fun {body later} stands _ le body => ?_
    have grown : Grown origin.tokens later.diagnostics.length (.whole true) 0 _ := body.1
    refine .closeGrown stands ?_ rfl
    rw [whole]
    exact List.rel_append (Fills.mono front le)
      (.cons (.child grown (Nat.le_refl _) (Nat.zero_le _)) .nil)
  · refine .closeGrown stands ?_ rfl
    rw [whole]
    exact List.rel_append front (.cons .childless .nil)

/-- The shapes of a function up to its name. -/
def namedShapes : List AnchorShape :=
  StandardShape.token .funcKw "func" :: (receiverShapes ++ [(StandardShape.child .name).spaced])

theorem leads_funcDecl (lead : RulesLead origin n rules) (le : state.upcoming.length ≤ n)
    (stands : Stands origin state) (isFunc : state.current.kind = .funcKw) :
    Leads origin (Growing origin (.whole true) 0) (funcDecl rules) state := by
  unfold funcDecl
  refine .here (.take stands (by simp [isFunc]) fun taken _ _ => ?_)
  refine .bind (leads_receiver lead (by omega) taken.stands) fun stands _ _ receiver => ?_
  refine .bind (leads_ident stands) fun {name now} stands _ le' named => .peek ?_
  have front : Fills origin.tokens now.diagnostics.length (.whole true) .funcDecl namedShapes
      (tokenSlot state.current.toLexeme :: (_ ++ [childSlot name])) :=
    .cons .token (List.rel_append (receiver.mono le')
      (.cons (.child named.grown (Nat.le_refl _) (Nat.zero_le _)) .nil))
  refine .ite (fun isBracket => ?_) fun _ => ?_
  · refine .bind (leads_typeParams .funcDecl rfl (fun _ => rfl) lead (by omega) stands isBracket)
      fun stands fewer le params => ?_
    exact leads_funcRest lead (by omega) stands params.firm
      (List.rel_append (front.mono le) params.fills) rfl
  · exact leads_funcRest lead (by omega) stands named.rests.firm
      (List.rel_append front (fills_unbracketed rfl)) rfl

theorem leads_decl (lead : RulesLead origin n rules) (le : state.upcoming.length ≤ n)
    (stands : Stands origin state) :
    Leads origin (Growing origin (.whole true) 0) (decl rules) state := by
  unfold decl
  refine .peek ?_
  split
  · next is => exact leads_genDecl lead le stands (by simp [is])
  · next is => exact leads_genDecl lead le stands (by simp [is])
  · next is => exact leads_genDecl lead le stands (by simp [is])
  · next is => exact leads_genDecl lead le stands (by simp [is])
  · next is => exact leads_funcDecl lead le stands is
  · have missing : Leads origin (Resting origin (.whole true) 0)
        (bad .badDecl "expected declaration") state := leads_bad stands rfl rfl
    exact missing.imp fun _ _ _ resting => resting.grown

end Grammar

end GoTrivia

import GoTrivia.Proofs.Grammar.AbreastStatements
import GoTrivia.Proofs.Grammar.Files
import GoTrivia.Proofs.Grammar.GrowingDeclarations
import GoTrivia.Proofs.Token.Lexing

/-!
# How statements and files grow

In the header of a control clause no brace behind a bare type name opens a literal; in all
other statements each does.  What every rule keeps up to is put together level by level, so the
tree of any text is one that the grammar may put at the root of a file (`grown_root`).
-/

set_option autoImplicit false

namespace GoTrivia

namespace Grammar

variable {origin state : ParseState} {n : Nat} {rules : Rules} {literals : Bool} {lhs : Elements}

/-! ## Simple statements -/

/-- Nothing is taken to find the one expression of a list. -/
theorem leads_single (stands : Stands origin state)
    (grows : lhs.Grows origin.tokens state.diagnostics.length (.whole literals) 0) :
    Leads origin (fun tree after => Growing origin (.whole literals) 0 tree after ∧ Same state after)
      (single lhs) state := by
  obtain ⟨nodes, _⟩ := lhs
  match nodes with
  | [] => exact .here (.close stands ⟨Fills.grown .nil rfl, rfl⟩)
  | [x] => exact .pure stands ⟨grows x List.mem_cons_self, rfl⟩
  | x :: extra :: _ =>
    refine .bind (.reportAt stands) fun stands _ le same => .pure stands ⟨?_, same.1⟩
    exact (grows x List.mem_cons_self).mono le

theorem leads_finishSimple (lead : RulesLead origin n rules) (le : state.upcoming.length ≤ n)
    (stands : Stands origin state) (listing : Listing origin (.whole literals) 0 lhs state) :
    Leads origin (Growing origin (.whole literals) 0) (finishSimple rules literals lhs) state := by
  unfold finishSimple
  refine .peek (.ite (fun isAssign => ?_) fun _ => ?_)
  · have more : state.current.kind ≠ .eof := fun isEnd => by
      simp [isEnd, TokenKind.isAssignOperator] at isAssign
    have goesOn : ∀ start, Leads origin (Growing origin (.whole literals) 0)
        (do
          let tok ← take
          let rhs ← exprList rules literals
          close .assignStmt start [lhs.slot, tokenSlot tok, rhs.slot]) state := by
      refine fun start => .take stands more fun taken _ _ => ?_
      refine .bind (leads_exprList lead (by omega) taken.stands) fun stands _ _ rhs => ?_
      exact .closeGrown stands (.cons
        (.commas (fun _ => listing.grows) (by omega) listing.commas rfl rfl rfl) <|
        .cons .token <|
        .cons (.commas (fun _ => rhs.grows) (Nat.le_refl _) rhs.commas rfl rfl rfl) .nil) rfl
    split
    · exact .here (goesOn _)
    · exact goesOn _
  · refine .bind (leads_single stands listing.grows) fun {x now} stands _ _ single => ?_
    obtain ⟨grown, same⟩ := single
    have x : Grown origin.tokens now.diagnostics.length (.whole literals) 0 x := grown
    refine .ite (fun isStep => ?_) fun _ => ?_
    · have kept : now.current.kind = state.current.kind := by rw [same]
      have more : now.current.kind ≠ .eof := by
        rw [kept]
        rcases isStep with is | is <;> simp [is]
      refine .take stands more fun taken _ _ => .closeGrown taken.stands ?_ rfl
      exact .cons (.child x (by omega) (Nat.zero_le _)) <| .cons .token .nil
    · exact .closeGrown stands (.cons (.child x (Nat.le_refl _) (Nat.zero_le _)) .nil) rfl

theorem leads_simple (lead : RulesLead origin n rules) (le : state.upcoming.length ≤ n)
    (stands : Stands origin state) :
    Leads origin (Growing origin (.whole literals) 0) (simple rules literals) state :=
  .bind (leads_exprList lead le stands) fun stands fewer _ lhs =>
    leads_finishSimple lead (by omega) stands lhs

/-- The expression of a statement may stand where the statement does. -/
theorem leads_exprOf {stmt : Positional} (stands : Stands origin state)
    (grown : Grown origin.tokens state.diagnostics.length (.whole literals) 0 stmt) :
    Leads origin (Growing origin (.whole literals) 0) (exprOf stmt) state := by
  unfold exprOf
  split
  · next x _ =>
    cases grown with
    | node _ _ _ _ _ _ below => exact .pure stands (below _ List.mem_cons_self 0 x rfl)
  · exact .bind (.reportAt stands) fun stands _ _ _ => .pure stands (Fills.grown .nil rfl)

/-! ## Blocks and conditionals -/

theorem leads_block (lead : RulesLead origin n rules) (le : state.upcoming.length ≤ n)
    (stands : Stands origin state) :
    Leads origin (fun tree after => Growing origin (.whole true) 0 tree after ∧
      (Firm origin state → Firm origin after)) (block rules) state := by
  unfold block
  refine .here (.bind (.expect stands (by decide)) fun {_ now} after _ _ found => ?_)
  have firm := found.firm stands
  cases found with
  | found isBrace =>
    have fewer := stands.length_advance (by simp [isBrace])
    refine .bind (lead.statements (by omega) after) fun stands _ _ list => ?_
    refine .bind (.expect stands (by decide)) fun after _ _ rbrace => .close after ⟨?_, fun _ => ?_⟩
    · exact Fills.grown (.cons .token <|
        .cons (.lines (fun _ => list.1.lines) (by omega) list.2.1 rfl rfl rfl) <|
        .cons .token .nil) rfl
    · exact rbrace.firm stands list.2.2 (by decide)
  | missing _ _ => exact .close after ⟨Fills.grown (fills_unbracketed rfl) rfl,
      fun holds => firm holds (by decide)⟩

/-- The slots of a header. -/
def Heads (origin : ParseState) (kind : NodeKind) (shapes : List AnchorShape)
    (slots : List PositionalSlot) (after : ParseState) : Prop :=
  Fills origin.tokens after.diagnostics.length (.whole true) kind shapes slots

theorem leads_conditionalHeader (lead : RulesLead origin n rules) (le : state.upcoming.length ≤ n)
    (stands : Stands origin state) :
    Leads origin (Heads origin .ifStmt conditionShapes) (conditionalHeader rules) state := by
  unfold conditionalHeader
  refine .bind (leads_simple lead le stands) fun {stmt now} stands _ _ grown => .peek ?_
  refine .ite (fun isSemicolon => ?_) fun _ => ?_
  · refine .take stands (by simp [isSemicolon]) fun taken _ _ => ?_
    refine .bind (leads_expr lead (by omega) taken.stands) fun {cond later} stands _ _ resting => ?_
    have init : Grown origin.tokens later.diagnostics.length (.whole false) 0 stmt :=
      Grown.mono grown (by omega)
    exact .pure stands (.cons (.child init (Nat.le_refl _) (Nat.zero_le _)) <| .cons .token <|
      .cons (.child resting.grown (Nat.le_refl _) (Nat.zero_le _)) .nil)
  · refine .bind (leads_exprOf stands grown) fun {cond later} stands _ _ grown => ?_
    have cond : Grown origin.tokens later.diagnostics.length (.whole false) 0 cond := grown
    exact .pure stands (.cons .childless <| .cons .token <|
      .cons (.child cond (Nat.le_refl _) (Nat.zero_le _)) .nil)

theorem leads_conditional (lead : RulesLead origin n rules) (le : state.upcoming.length ≤ n)
    (stands : Stands origin state) (isIf : state.current.kind = .ifKw) :
    Leads origin (Growing origin (.whole true) 0) (conditional rules) state := by
  unfold conditional
  refine .here (.take stands (by simp [isIf]) fun taken _ _ => ?_)
  refine .bind (leads_conditionalHeader lead (by omega) taken.stands)
    fun {header _} stands _ _ heads => ?_
  refine .bind (leads_block lead (by omega) stands) fun {body now} stands _ le' grown => .peek ?_
  have finish : ∀ {count semicolon alternative}, now.diagnostics.length ≤ count →
      (∀ tree, alternative = some tree → Grown origin.tokens count (.whole true) 0 tree) →
      Fills origin.tokens count (.whole true) .ifStmt (standardShape .ifStmt).anchors
        ([tokenSlot state.current.toLexeme] ++ header ++
          [childSlot body, .token semicolon, .child alternative]) := by
    intro count semicolon alternative le alternatives
    have body : Grown origin.tokens count (.whole true) 0 body := Grown.mono grown.1 le
    exact .cons .token (List.rel_append (Fills.mono heads (Nat.le_trans le' le)) <|
      .cons (.child body (Nat.le_refl _) (Nat.zero_le _)) <| .cons .token <|
      .cons (.optional alternatives (Nat.le_refl _) (Nat.zero_le _)) .nil)
  refine .ite (fun isElse => ?_) fun _ => .closeGrown stands (finish (Nat.le_refl _) nofun) rfl
  refine .take stands (by simp [isElse]) fun taken _ _ => .peek (.ite (fun isIf => ?_) fun _ => ?_)
  · refine .bind (lead.conditional (by omega) taken.stands isIf) fun stands _ _ alternative => ?_
    exact .closeGrown stands (finish (by omega) (by rintro tree ⟨⟩; exact alternative)) rfl
  · refine .bind (leads_block lead (by omega) taken.stands) fun stands _ _ alternative => ?_
    exact .closeGrown stands (finish (by omega) (by rintro tree ⟨⟩; exact alternative.1)) rfl

/-! ## Loops -/

theorem fills_iterated {count : Nat} {whole : List Token}
    (grows : lhs.Grows whole count (.whole false) 0) :
    Fills whole count (.whole true) .rangeStmt iteratedShapes (iteratedSlots lhs) := by
  have fill : ∀ {shape node}, node ∈ lhs.nodes → isHeader .rangeStmt shape.anchor = true →
      leastAt .rangeStmt shape.anchor = 0 →
      Fill whole count (.whole true) .rangeStmt shape (childSlot node) := fun mem inHeader bound =>
    .child (placeAt_of_isHeader inHeader ▸ grows _ mem) (Nat.le_refl _) (Nat.le_of_eq bound)
  unfold iteratedSlots
  split
  · next nodes _ =>
    exact .cons (fill (by simp [nodes]) rfl rfl) <| .cons .token <|
      .cons (fill (by simp [nodes]) rfl rfl) .nil
  · next nodes _ =>
    exact .cons (fill (by simp [nodes]) rfl rfl) <| .cons .token <| .cons .childless .nil
  · exact .cons .childless <| .cons .token <| .cons .childless .nil

/-- The header of a loop: its kind, and the slots between its keyword and its body. -/
def LoopHeads (origin : ParseState) (header : NodeKind × List PositionalSlot)
    (after : ParseState) : Prop :=
  ∃ shapes, (standardShape header.1).anchors =
      StandardShape.token .forKw "for" :: (shapes ++ [(StandardShape.child .body).spaced]) ∧
    (header.1 = .forStmt ∨ header.1 = .rangeStmt) ∧ Heads origin header.1 shapes header.2 after

/-- The shapes between the iteration variables of a loop and its body. -/
def rangeShapes : List AnchorShape :=
  [((StandardShape.free .tok).together .key).spaced,
   (StandardShape.token .rangeKw "range").spaced, (StandardShape.child .x).spaced]

theorem leads_rangeRest (lead : RulesLead origin n rules) (le : state.upcoming.length ≤ n)
    (stands : Stands origin state)
    (grows : lhs.Grows origin.tokens state.diagnostics.length (.whole false) 0)
    (more : state.current.kind ≠ .eof)
    (isRange : (state.upcoming[0]?.map Token.kind).getD .eof = .rangeKw) :
    Leads origin (LoopHeads origin) (rangeRest rules lhs) state := by
  have isRange := ParseState.kind_advance isRange (by decide)
  unfold rangeRest
  refine .take stands more fun taken _ _ => ?_
  refine .take taken.stands (by simp [isRange]) fun taken _ _ => ?_
  refine .bind (leads_expr lead (by omega) taken.stands) fun stands _ _ x => ?_
  refine .pure stands ⟨iteratedShapes ++ rangeShapes, rfl, .inr rfl, ?_⟩
  refine List.rel_append (fills_iterated (grows.mono (by omega))) ?_
  exact .cons .token <| .cons .token <| .cons (.child x.grown (Nat.le_refl _) (Nat.zero_le _)) .nil

theorem leads_rangeHeader (lead : RulesLead origin n rules) (le : state.upcoming.length ≤ n)
    (stands : Stands origin state)
    (grows : lhs.Grows origin.tokens state.diagnostics.length (.whole false) 0)
    (more : state.current.kind ≠ .eof)
    (isRange : (state.upcoming[0]?.map Token.kind).getD .eof = .rangeKw) :
    Leads origin (LoopHeads origin) (rangeHeader rules lhs) state := by
  rw [rangeHeader_eq]
  split
  · refine .bind (.reportAt stands) fun {_ now} stands fewer le' same => ?_
    obtain ⟨same, -⟩ := same
    exact leads_rangeRest lead (by omega) stands (grows.mono le') (by rw [same]; exact more)
      (by rw [same]; exact isRange)
  · exact leads_rangeRest lead le stands grows more isRange

theorem leads_countingRest {init cond : Option Positional} {semicolon : Lexeme}
    (lead : RulesLead origin n rules) (le : state.upcoming.length ≤ n)
    (stands : Stands origin state)
    (inits : ∀ tree, init = some tree →
      Grown origin.tokens state.diagnostics.length (.whole false) 0 tree)
    (conds : ∀ tree, cond = some tree →
      Grown origin.tokens state.diagnostics.length (.whole false) 0 tree) :
    Leads origin (LoopHeads origin) (countingRest rules init semicolon cond) state := by
  have goesOn : ∀ {now condSemicolon post}, Stands origin now →
      state.diagnostics.length ≤ now.diagnostics.length →
      (∀ tree, post = some tree → Grown origin.tokens now.diagnostics.length (.whole false) 0 tree) →
      LoopHeads origin (.forStmt, [.child init, tokenSlot semicolon, .child cond,
        .token condSemicolon, .child post]) now :=
    fun stands le posts => ⟨_, rfl, .inl rfl, .cons (.optional inits le (Nat.zero_le _)) <|
    .cons .token <|
      .cons (.optional conds le (Nat.zero_le _)) <| .cons .token <|
      .cons (.optional posts (Nat.le_refl _) (Nat.zero_le _)) .nil⟩
  unfold countingRest
  refine .bind (.expect stands (by decide)) fun stands _ le _ =>
    .peek (.ite (fun _ => ?_) fun _ => ?_)
  · exact .pure stands (goesOn stands le nofun)
  · refine .bind (leads_simple lead (by omega) stands) fun stands _ _ post => .pure stands ?_
    refine goesOn stands (by omega) ?_
    rintro tree ⟨⟩
    exact post

theorem leads_countingHeader {init : Option Positional} (lead : RulesLead origin n rules)
    (le : state.upcoming.length ≤ n) (stands : Stands origin state)
    (inits : ∀ tree, init = some tree →
      Grown origin.tokens state.diagnostics.length (.whole false) 0 tree)
    (isSemicolon : state.current.kind = .semicolon) :
    Leads origin (LoopHeads origin) (countingHeader rules init) state := by
  have later : ∀ {now : ParseState}, state.diagnostics.length ≤ now.diagnostics.length →
      ∀ tree, init = some tree → Grown origin.tokens now.diagnostics.length (.whole false) 0 tree :=
    fun le tree same => (inits tree same).mono le
  unfold countingHeader
  refine .take stands (by simp [isSemicolon]) fun taken _ _ => .peek (.ite (fun _ => ?_) fun _ => ?_)
  · exact leads_countingRest lead (by omega) taken.stands (later (by omega)) nofun
  · refine .bind (leads_expr lead (by omega) taken.stands) fun stands _ _ cond => ?_
    refine leads_countingRest lead (by omega) stands (later (by omega)) ?_
    rintro tree ⟨⟩
    exact cond.grown

theorem leads_loopHeader (lead : RulesLead origin n rules) (le : state.upcoming.length ≤ n)
    (stands : Stands origin state) :
    Leads origin (LoopHeads origin) (loopHeader rules) state := by
  unfold loopHeader
  refine .peek ?_
  split
  · exact .pure stands ⟨_, rfl, .inl rfl, .cons .childless <| .cons .token <| .cons .childless <|
      .cons .token <| .cons .childless .nil⟩
  · next isRange =>
    refine .take stands (by simp [isRange]) fun taken _ _ => ?_
    refine .bind (leads_expr lead (by omega) taken.stands) fun stands _ _ x => ?_
    exact .pure stands ⟨_, rfl, .inr rfl, .cons .childless <| .cons .token <| .cons .childless <|
      .cons .token <| .cons .token <| .cons (.child x.grown (Nat.le_refl _) (Nat.zero_le _)) .nil⟩
  · next is => exact leads_countingHeader lead le stands (by rintro tree ⟨⟩) is
  · refine .bind (leads_exprList lead le stands) fun stands _ _ lhs => .peek (.ahead ?_)
    refine .ite (fun isRange => ?_) fun _ => ?_
    · have more : ∀ {kind : TokenKind}, kind = .colonEq ∨ kind = .eq → kind ≠ .eof := by
        rintro _ (rfl | rfl) <;> decide
      exact leads_rangeHeader lead (by omega) stands lhs.grows (more isRange.1) isRange.2
    · refine .bind (leads_finishSimple lead (by omega) stands lhs)
        fun {stmt now} stands _ _ grown => .peek (.ite (fun isSemicolon => ?_) fun _ => ?_)
      · refine leads_countingHeader lead (by omega) stands ?_ isSemicolon
        rintro tree ⟨⟩
        exact grown
      · refine .bind (leads_exprOf stands grown) fun {cond later} stands _ _ grown => ?_
        have cond : Grown origin.tokens later.diagnostics.length (.whole false) 0 cond := grown
        exact .pure stands ⟨_, rfl, .inl rfl, .cons .childless <| .cons .token <|
          .cons (.child cond (Nat.le_refl _) (Nat.zero_le _)) <| .cons .token <|
          .cons .childless .nil⟩

theorem leads_loop (lead : RulesLead origin n rules) (le : state.upcoming.length ≤ n)
    (stands : Stands origin state) (isFor : state.current.kind = .forKw) :
    Leads origin (Growing origin (.whole true) 0) (loop rules) state := by
  unfold loop
  refine .here (.take stands (by simp [isFor]) fun taken _ _ => ?_)
  refine .bind (leads_loopHeader lead (by omega) taken.stands) fun {header now} stands _ _ heads => ?_
  refine .bind (leads_block lead (by omega) stands) fun {body later} stands _ le block => ?_
  obtain ⟨kind, slots⟩ := header
  obtain ⟨shapes, whole, isLoop, heads⟩ := heads
  have grown : Grown origin.tokens later.diagnostics.length (.whole true) 0 body := block.1
  have last : Fill origin.tokens later.diagnostics.length (.whole true) kind
      (StandardShape.child .body).spaced (childSlot body) := by
    rcases isLoop with rfl | rfl
    · exact .child grown (Nat.le_refl _) (Nat.zero_le _)
    · exact .child grown (Nat.le_refl _) (Nat.zero_le _)
  have first : Fill origin.tokens later.diagnostics.length (.whole true) kind
      (StandardShape.token .forKw "for") (tokenSlot state.current.toLexeme) := .token
  have fills := List.Forall₂.cons first (List.rel_append (Fills.mono heads le) (.cons last .nil))
  rcases isLoop with rfl | rfl
  · exact .closeGrown stands (whole ▸ fills) rfl
  · exact .closeGrown stands (whole ▸ fills) rfl

/-! ## Switches -/

theorem leads_caseClause (lead : RulesLead origin n rules) (le : state.upcoming.length ≤ n)
    (stands : Stands origin state) (more : state.current.kind ≠ .eof) :
    Leads origin (fun tree after => Growing origin (.line true) 0 tree after ∧
      after.upcoming.length < state.upcoming.length) (caseClause rules) state := by
  unfold caseClause
  refine .here (.peek (.takeStrict stands more fun taken _ _ => ?_))
  have goesOn : ∀ {start now list}, now.upcoming.length < n → Stands origin now →
      Listing origin (.whole true) 0 list now → Leads origin (Growing origin (.line true) 0)
        (do
          let colon ← expect .colon "expected `:`"
          let body ← rules.statements
          close .caseClause start [tokenSlot state.current.toLexeme, list.slot, .token colon,
            body.slot]) now := by
    intro start now list lt stands listing
    refine .bind (.expect stands (by decide)) fun stands _ _ _ => ?_
    refine .bind (lead.statements (by omega) stands) fun stands _ _ body => ?_
    exact .closeGrown stands (.cons .token <| .cons (.commas (fun _ => listing.grows) (by omega)
      listing.commas rfl rfl rfl) <| .cons .token <|
      .cons (.lines (fun _ => body.1) (Nat.le_refl _) body.2.1 rfl rfl rfl) .nil) rfl
  refine .ite (fun _ => ?_) fun _ => ?_
  · exact .bind (leads_exprList lead (by omega) taken.stands) fun stands _ _ list =>
      goesOn (by omega) stands list
  · exact goesOn (by omega) taken.stands ⟨Elements.grows_empty, Elements.closed_empty.commas⟩

/-- A list of statements or clauses. -/
def Lines (origin : ParseState) (extent : Extent) (list : Elements) (after : ParseState) : Prop :=
  list.Grows origin.tokens after.diagnostics.length (.code extent true) 0 ∧ list.separators = []

theorem leads_clauses (lead : RulesLead origin n rules) (le : state.upcoming.length ≤ n)
    (stands : Stands origin state) :
    Leads origin (Lines origin .line) (clauses rules) state := by
  rw [clauses_eq]
  refine leads_iterate (Lines origin .line) ?_ stands ⟨Elements.grows_empty, rfl⟩
  intro list now stands fewer _ lines
  have clause : now.current.kind ≠ .eof → Leads origin
      (Proceeds now.upcoming.length (Lines origin .line) (Lines origin .line))
      (do return .again (list.push (← caseClause rules))) now := fun more =>
    .bind (leads_caseClause lead (by omega) stands more) fun {tree later} after _ le clause =>
      .pure after (.again clause.2 ⟨(lines.1.mono le).push clause.1, lines.2⟩)
  unfold clauseStep
  refine .peek ?_
  split
  · exact .pure stands (.done lines)
  · exact .pure stands (.done lines)
  · next is => exact clause (by simp [is])
  · next is => exact clause (by simp [is])
  · next more _ _ =>
    refine .bind (.report stands) fun {_ later} after _ le same => ?_
    have kept : later.current = now.current := by rw [same.1]
    exact .take after (kept ▸ more) fun taken _ _ =>
      .pure taken.stands (.again (by omega) ⟨lines.1.mono (by omega), lines.2⟩)

theorem leads_switchBody (lead : RulesLead origin n rules) (le : state.upcoming.length ≤ n)
    (stands : Stands origin state) :
    Leads origin (Growing origin (.whole true) 0) (switchBody rules) state := by
  unfold switchBody
  refine .here (.bind (.expect stands (by decide)) fun {_ now} after _ _ found => ?_)
  cases found with
  | found isBrace =>
    have fewer := stands.length_advance (by simp [isBrace])
    refine .bind (leads_clauses lead (by omega) after) fun stands _ _ list => ?_
    refine .bind (.expect stands (by decide)) fun stands _ _ _ => ?_
    exact .closeGrown stands (.cons .token <|
      .cons (.lines (fun _ => list.1) (by omega) list.2 rfl rfl rfl) <| .cons .token .nil) rfl
  | missing _ _ => exact .closeGrown after (fills_unbracketed rfl) rfl

theorem leads_switchHeader (lead : RulesLead origin n rules) (le : state.upcoming.length ≤ n)
    (stands : Stands origin state) :
    Leads origin (Heads origin .switchStmt switchShapes) (switchHeader rules) state := by
  unfold switchHeader
  refine .peek (.ite (fun _ => ?_) fun _ => ?_)
  · exact .pure stands (.cons .childless <| .cons .token <| .cons .childless .nil)
  refine .bind (leads_simple lead le stands) fun {stmt now} stands _ _ stmtGrown => .peek ?_
  have init : ∀ {count}, now.diagnostics.length ≤ count →
      Grown origin.tokens count (.whole false) 0 stmt := Grown.mono stmtGrown
  refine .ite (fun isSemicolon => ?_) fun _ => ?_
  · refine .take stands (by simp [isSemicolon]) fun taken _ same => .peek ?_
    refine .ite (fun _ => .pure taken.stands ?_) fun _ => ?_
    · exact .cons (.child (init (Nat.le_of_eq same.symm)) (Nat.le_refl _) (Nat.zero_le _)) <|
        .cons .token <|
        .cons .childless .nil
    · refine .bind (leads_simple lead (by omega) taken.stands) fun stands _ _ second => ?_
      refine .bind (leads_exprOf stands second) fun {tag later} stands _ _ grown => ?_
      have tag : Grown origin.tokens later.diagnostics.length (.whole false) 0 tag := grown
      exact .pure stands (.cons (.child (init (by omega)) (Nat.le_refl _) (Nat.zero_le _)) <|
        .cons .token <|
        .cons (.child tag (Nat.le_refl _) (Nat.zero_le _)) .nil)
  · refine .bind (leads_exprOf stands stmtGrown) fun {tag later} stands _ _ grown => ?_
    have tag : Grown origin.tokens later.diagnostics.length (.whole false) 0 tag := grown
    exact .pure stands (.cons .childless <| .cons .token <|
      .cons (.child tag (Nat.le_refl _) (Nat.zero_le _)) .nil)

theorem leads_switchStmt (lead : RulesLead origin n rules) (le : state.upcoming.length ≤ n)
    (stands : Stands origin state) (isSwitch : state.current.kind = .switchKw) :
    Leads origin (Growing origin (.whole true) 0) (switchStmt rules) state := by
  unfold switchStmt
  refine .here (.take stands (by simp [isSwitch]) fun taken _ _ => ?_)
  refine .bind (leads_switchHeader lead (by omega) taken.stands) fun stands _ _ header => ?_
  refine .bind (leads_switchBody lead (by omega) stands) fun {body now} stands _ le grown => ?_
  have body : Grown origin.tokens now.diagnostics.length (.whole true) 0 body := grown
  exact .closeGrown stands (.cons .token (List.rel_append (Fills.mono header le) <|
    .cons (.child body (Nat.le_refl _) (Nat.zero_le _)) .nil)) rfl

/-! ## Statements -/

theorem leads_callStmt {kind : NodeKind} (isCall : kind = .goStmt ∨ kind = .deferStmt)
    (lead : RulesLead origin n rules) (le : state.upcoming.length ≤ n)
    (stands : Stands origin state) (more : state.current.kind ≠ .eof) :
    Leads origin (Growing origin (.whole true) 0) (callStmt rules kind) state := by
  unfold callStmt
  refine .here (.take stands more fun taken _ _ => ?_)
  refine .bind (leads_expr lead (by omega) taken.stands) fun stands _ _ call => ?_
  rcases isCall with rfl | rfl
  · exact .closeGrown stands (.cons .token <|
      .cons (.child call.grown (Nat.le_refl _) (Nat.zero_le _)) .nil) rfl
  · exact .closeGrown stands (.cons .token <|
      .cons (.child call.grown (Nat.le_refl _) (Nat.zero_le _)) .nil) rfl

theorem leads_returnStmt (lead : RulesLead origin n rules) (le : state.upcoming.length ≤ n)
    (stands : Stands origin state) (more : state.current.kind ≠ .eof) :
    Leads origin (Growing origin (.whole true) 0) (returnStmt rules) state := by
  unfold returnStmt
  refine .here (.take stands more fun taken _ _ => .peek (.ite (fun _ => ?_) fun _ => ?_))
  · exact .closeGrown taken.stands (.cons .token <| .cons (.empty rfl) .nil) rfl
  · refine .bind (leads_exprList lead (by omega) taken.stands) fun stands _ _ results => ?_
    exact .closeGrown stands (.cons .token <|
      .cons (.commas (fun _ => results.grows) (Nat.le_refl _) results.commas rfl rfl rfl) .nil) rfl

theorem leads_branchStmt (stands : Stands origin state) (more : state.current.kind ≠ .eof) :
    Leads origin (Growing origin (.whole true) 0) branchStmt state := by
  unfold branchStmt
  refine .here (.take stands more fun taken _ _ => .peek (.ite (fun _ => ?_) fun _ => ?_))
  · refine .bind (leads_ident taken.stands) fun stands _ _ label => ?_
    exact .closeGrown stands (.cons .token <|
      .cons (.child label.grown (Nat.le_refl _) (Nat.zero_le _)) .nil) rfl
  · exact .closeGrown taken.stands (.cons .token <| .cons .childless .nil) rfl

theorem leads_declStmt (lead : RulesLead origin n rules) (le : state.upcoming.length ≤ n)
    (stands : Stands origin state) (more : state.current.kind ≠ .eof) :
    Leads origin (Growing origin (.whole true) 0) (declStmt rules) state := by
  unfold declStmt
  refine .here (.bind (leads_genDecl lead le stands more) fun {decl now} stands _ _ grown => ?_)
  have decl : Grown origin.tokens now.diagnostics.length (.whole true) 0 decl := grown
  exact .closeGrown stands (.cons (.child decl (Nat.le_refl _) (Nat.zero_le _)) .nil) rfl

theorem leads_statement (lead : RulesLead origin n rules) (le : state.upcoming.length ≤ n)
    (stands : Stands origin state) :
    Leads origin (Growing origin (.whole true) 0) (statement rules) state := by
  unfold statement
  refine .peek ?_
  split
  · next is => exact leads_declStmt lead le stands (by simp [is])
  · next is => exact leads_declStmt lead le stands (by simp [is])
  · next is => exact leads_declStmt lead le stands (by simp [is])
  · next is => exact leads_returnStmt lead le stands (by simp [is])
  · next is => exact leads_branchStmt stands (by simp [is])
  · next is => exact leads_branchStmt stands (by simp [is])
  · next is => exact leads_branchStmt stands (by simp [is])
  · next is => exact leads_branchStmt stands (by simp [is])
  · next is => exact leads_callStmt (.inl rfl) lead le stands (by simp [is])
  · next is => exact leads_callStmt (.inr rfl) lead le stands (by simp [is])
  · exact (leads_block lead le stands).imp fun _ _ _ block => block.1
  · next is => exact leads_conditional lead le stands is
  · next is => exact leads_loop lead le stands is
  · next is => exact leads_switchStmt lead le stands is
  · exact leads_simple lead le stands

theorem leads_statements (lead : RulesLead origin n rules) (le : state.upcoming.length ≤ n)
    (stands : Stands origin state) :
    Leads origin (fun list after =>
      list.Grows origin.tokens after.diagnostics.length (.whole true) 0 ∧ list.separators = [] ∧
        Firm origin after) (statements rules) state := by
  rw [statements_eq]
  refine leads_iterate (Lines origin .whole) ?_ stands ⟨Elements.grows_empty, rfl⟩
  intro list now stands fewer _ lines
  unfold statementStep
  refine .peek (.ite (fun stops => .pure stands (.done ⟨lines.1, lines.2, ?_⟩)) fun goesOn => ?_)
  · exact .of_ne fun isComma => by
      rw [isComma] at stops
      cases stops
  have more : now.current.kind ≠ .eof := fun isEnd => goesOn (by rw [isEnd]; rfl)
  have pos := stands.pos more
  refine .bind (leads_takeIf stands (by decide)) fun {lone later} after _ le found => ?_
  refine .ite (fun isLone => ?_) fun notLone => .remaining ?_
  · rw [if_pos isLone] at found
    exact .pure after (.again found ⟨lines.1.mono le, lines.2⟩)
  · rw [if_neg notLone] at found
    subst found
    refine .bind (leads_statement lead (by omega) stands) fun {stmt _} stands _ _ grown => ?_
    refine .bind (leads_terminator stands) fun stands _ _ _ => ?_
    refine .bind (leads_ensureProgress stands (by omega) pos) fun {_ last} stands _ _ lt => ?_
    have kept : Grown origin.tokens last.diagnostics.length (.whole true) 0 stmt :=
      Grown.mono grown (by omega)
    exact .pure stands (.again lt ⟨(lines.1.mono (by omega)).push kept, lines.2⟩)

/-! ## Levels -/

theorem RulesLead.next (lead : RulesLead origin n rules) : RulesLead origin (n + 1) rules.next where
  sound :=
    have := lead.keeps
    lead.sound.next
  keeps :=
    have := lead.keeps
    inferInstance
  fresh := lead.fresh
  type lt stands := leads_type lead (Nat.le_of_lt_succ lt) stands
  binary lt bound stands := leads_binary bound lead (Nat.le_of_lt_succ lt) stands
  unary lt stands := leads_unary lead (Nat.le_of_lt_succ lt) stands
  elided lt stands := leads_elided lead (Nat.le_of_lt_succ lt) stands
  block lt stands := leads_block lead (Nat.le_of_lt_succ lt) stands
  statements lt stands := leads_statements lead (Nat.le_of_lt_succ lt) stands
  conditional lt stands := leads_conditional lead (Nat.le_of_lt_succ lt) stands

/-- Rules lead onward until they have taken as many tokens as they have levels. -/
theorem rulesLead_level (fresh : Fresh origin) (n : Nat) : RulesLead origin n (.level n) := by
  induction n with
  | zero =>
    refine ⟨Rules.sound_level 0, inferInstance, fresh, ?_, ?_, ?_, ?_, ?_, ?_, ?_⟩ <;>
      exact fun lt => absurd lt (Nat.not_lt_zero _)
  | succ n ih => exact ih.next

/-! ## Files -/

theorem leads_file (length : Nat) (lead : RulesLead origin n rules)
    (le : state.upcoming.length ≤ n) (stands : Stands origin state) :
    Leads origin (Growing origin (.whole true) 0) (file rules length) state := by
  unfold file
  refine .here (.bind (.expect stands (by decide)) fun stands _ _ _ => ?_)
  refine .bind (leads_ident stands) fun stands _ _ name => ?_
  refine .bind (leads_terminator stands) fun stands _ _ _ => ?_
  refine .bind (leads_terminated (fun now le stands => leads_decl lead (by omega) stands) stands)
    fun stands _ _ decls => .pure stands ?_
  exact Fills.grown (.cons .token <| .cons (.child name.grown (by omega) (Nat.zero_le _)) <|
    .cons (.lines (fun _ => decls.1) (Nat.le_refl _) decls.2.1 rfl rfl rfl) .nil) rfl

theorem tokens_start {tokens : List Token} (some : tokens ≠ []) (diagnostics : List Diagnostic) :
    (ParseState.start tokens diagnostics).tokens = tokens := by
  obtain ⟨token, rest, rfl⟩ := List.exists_cons_of_ne_nil some
  rfl

theorem fresh_start (tokens : List Token) (diagnostics : List Diagnostic) :
    Fresh (.start tokens diagnostics) := by
  cases tokens <;> exact Nat.zero_le _

end Grammar

/-- **Every tree has grown from its text.**  It only has nodes where the grammar puts them,
whether the text has errors or not. -/
theorem grown_root (text : String) :
    Grammar.Grown (lex text).tokens (parse text).diagnostics.length (.whole true) 0
      (parse text).tree.root := by
  have lawful := lawful_lex text
  have some : (lex text).tokens ≠ [] := by
    obtain ⟨front, last, split, -⟩ := lawful.ended
    simp [split]
  have start := Grammar.tokens_start some ((lex text).unterminated.map unterminatedComment)
  obtain ⟨state, run, diagnostics, -⟩ := run_parse text
  have lengths := congrArg List.length start
  rw [Grammar.ParseState.tokens, List.length_cons] at lengths
  have leads := Grammar.leads_file (byteLength text.toList)
    (Grammar.rulesLead_level (Grammar.fresh_start _ _) ((lex text).tokens.length + 1)) (by omega)
    (.refl (start ▸ lawful))
  have grown := leads.result
  rw [run, Grammar.Growing, start] at grown
  rwa [diagnostics]

end GoTrivia

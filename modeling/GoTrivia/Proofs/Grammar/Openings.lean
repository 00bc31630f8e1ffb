import GoTrivia.Proofs.Grammar.Fitting
import GoTrivia.Proofs.Decorating.Ordering

/-!
# How parsed trees begin

No node begins with a semicolon.  Semicolons fill a few slots and stand around the elements of
lists without separators, but a node with such slots or lists has a token or a child in front of
them that has to be there (`opensSolid`).
-/

set_option autoImplicit false

namespace GoTrivia

/-! ## Slots that do not begin with a semicolon -/

/-- Whether what fills a slot of this shape does not begin with a semicolon. -/
def AnchorShape.isSolid (shape : AnchorShape) : Bool :=
  match shape.slot with
  | .token text => text != .fixed ";"
  | .child => true
  | .list layout => layout.separator.isSome

/-- Whether no slot up to the first filled one may begin with a semicolon. -/
def opensSolid : List AnchorShape → List Bool → Bool
  | shape :: shapes, filled :: present => shape.isSolid && (filled || opensSolid shapes present)
  | _, _ => true

theorem opensSolid_of_forall {shapes : List AnchorShape}
    (solid : shapes.all AnchorShape.isSolid = true) (present : List Bool) :
    opensSolid shapes present = true := by
  induction shapes generalizing present with
  | nil => rfl
  | cons shape shapes ih =>
    obtain ⟨here, later⟩ := Bool.and_eq_true_iff.mp solid
    cases present with
    | nil => rfl
    | cons filled present => simp [opensSolid, here, ih later]

/-- Whether a kind begins with a slot that has to be filled and is no semicolon. -/
def beginsRequired (kind : NodeKind) : Bool :=
  (standardShape kind).anchors.head?.any fun shape => shape.isSolid && shape.presence == .required

theorem solid_or_beginsRequired (kind : NodeKind) :
    (standardShape kind).anchors.all AnchorShape.isSolid = true ∨
      (beginsRequired kind = true ∧ bracketedLists.all (fun entry => entry.1 != kind) = true) := by
  have all : (NodeKind.all.all fun kind => (standardShape kind).anchors.all AnchorShape.isSolid ||
      beginsRequired kind && bracketedLists.all fun entry => entry.1 != kind) = true := by
    decide
  simpa using List.all_eq_true.mp all kind (NodeKind.mem_all kind)

theorem wellFilled_of_mayFill {kind : NodeKind} {present : List Bool}
    (plain : bracketedLists.all (fun entry => entry.1 != kind) = true)
    (may : mayFill kind present = true) : wellFilled kind present = true := by
  have none : hasEmptyBrackets kind present = false := by
    refine List.any_eq_false.mpr fun entry mem => ?_
    have other := List.all_eq_true.mp plain entry mem
    rw [bne_iff_ne] at other
    simp [other]
  simpa [mayFill, none] using may

theorem opensSolid_of_mayFill {kind : NodeKind} {present : List Bool}
    (lengths : (standardShape kind).anchors.length = present.length)
    (may : mayFill kind present = true) : opensSolid (standardShape kind).anchors present = true := by
  rcases solid_or_beginsRequired kind with solid | ⟨begins, plain⟩
  · exact opensSolid_of_forall solid present
  · have fine := wellFilled_of_mayFill plain may
    obtain ⟨shape, found, opens⟩ := (Option.any_eq_true _ _).mp begins
    obtain ⟨shapes, split⟩ := List.head?_eq_some_iff.mp found
    obtain ⟨solid, required⟩ := Bool.and_eq_true_iff.mp opens
    cases present with
    | nil => simp [split] at lengths
    | cons filled present =>
      have here := presenceFault?_of_wellFilled fine (i := 0) (by rw [split]; rfl) rfl
      rw [eq_of_beq required] at here
      rw [split]
      cases filled with
      | true => simp [opensSolid, solid]
      | false => cases here

/-! ## Tokens that do not begin with a semicolon -/

/-- Tokens that do not begin with a semicolon. -/
def OpensSolid (tokens : List Token) : Prop :=
  ∀ first, tokens.head? = some first → first.kind ≠ .semicolon

theorem OpensSolid.append {front tokens : List Token} (opens : OpensSolid front)
    (some : front ≠ []) : OpensSolid (front ++ tokens) := by
  obtain ⟨first, rest, rfl⟩ := List.exists_cons_of_ne_nil some
  exact opens

mutual
/-- No tree begins with a semicolon. -/
theorem Spells.opensSolid : ∀ {tree : Positional} {tokens : List Token}, Spells tree tokens →
    OpensSolid tokens
  | _, _, .node content filled _ _ _ _ =>
      content.opensSolid (opensSolid_of_mayFill (by simpa using content.fits.1) filled)

theorem SpellsSlots.opensSolid : ∀ {kind : NodeKind} {shapes : List AnchorShape}
    {slots : List PositionalSlot} {tokens : List Token}, SpellsSlots kind shapes slots tokens →
    GoTrivia.opensSolid shapes (slots.map Slot.isPresent) = true → OpensSolid tokens
  | _, _, _, _, .nil, _ => fun _ found => by cases found
  | _, shape :: _, _, _, .vacant empty rest, solid => by
      have absent : (Slot.vacant shape.slot : PositionalSlot).isPresent = false := by
        cases shape.slot <;> rfl
      rw [empty, List.map_cons, absent] at solid
      exact rest.opensSolid (by simpa using (Bool.and_eq_true_iff.mp solid).2)
  | _, shape :: _, _, token :: _, .token isToken fits _ rest, solid => by
      have solid := (Bool.and_eq_true_iff.mp solid).1
      rintro _ ⟨⟩ isSemicolon
      rw [isSemicolon] at fits
      simp [AnchorShape.isSolid, isToken, fits.eq_fixed] at solid
  | _, _, _, _, .child _ content _ _, _ => content.opensSolid.append content.ne_nil
  | _, _, _, _, .separated _ _ content _ rest, solid => by
      rcases content.opensSolid with ⟨rfl, rfl⟩ | ⟨opens, some⟩
      · exact rest.opensSolid (by simpa using (Bool.and_eq_true_iff.mp solid).2)
      · exact opens.append some
  | _, shape :: _, _, _, .terminated isList separator _ _, solid => by
      have solid := (Bool.and_eq_true_iff.mp solid).1
      simp [AnchorShape.isSolid, isList, separator] at solid

theorem SpellsSeparated.opensSolid : ∀ {nodes : List Positional} {separators : List Span}
    {tokens : List Token}, SpellsSeparated nodes separators tokens →
    (nodes = [] ∧ tokens = []) ∨ (OpensSolid tokens ∧ tokens ≠ [])
  | _, _, _, .nil => .inl ⟨rfl, rfl⟩
  | _, _, _, .last content _ => .inr ⟨content.opensSolid, content.ne_nil⟩
  | _, _, _, .cons content _ _ _ =>
      .inr ⟨content.opensSolid.append content.ne_nil, by simp⟩
end

end GoTrivia

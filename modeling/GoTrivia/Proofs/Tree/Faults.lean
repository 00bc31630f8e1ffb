import Mathlib.Data.List.Basic
import GoTrivia.Tree.Fit

/-!
# What fits a shape, and what is found first

A node fits its shape if the kind is known, there is a slot for each anchor, and each slot is of
the kind its anchor asks for, with the text it asks for, and filled when it has to be (`Fits`).
What does not fit is found at one place: an unknown kind, then a wrong number of slots, then the
first slot that does not fit, where the kind of the slot counts before its text and both before
whether it is filled (`Misfits`).  Checking a node finds just that, and checking nodes one after
the other finds what is wrong with the first one that does not fit (`FirstOf`).

Decorating looks at the kinds of slots alone (`Kinded`, `Miskinded`).
-/

set_option autoImplicit false

namespace GoTrivia

namespace SlotTree

variable {ν τ σ : Type} {registry : Registry}

/-! ## Nodes -/

/-- A node of a known kind with a slot for each anchor, all of which fit. -/
def FitsBy (registry : Registry) (fits : Shape → AnchorShape → Slot ν τ σ → Prop)
    (node : SlotTree ν τ σ) : Prop :=
  ∃ shape, registry.shape? node.kind = some shape ∧ shape.anchors.length = node.slots.length ∧
    ∀ pair ∈ shape.anchors.zip node.slots, fits shape pair.1 pair.2

/-- What is wrong with a node: its kind is not known, or it has too many or too few slots, or
some slot is the first one that does not fit, for a certain reason. -/
inductive BreaksBy (registry : Registry) (fits : Shape → AnchorShape → Slot ν τ σ → Prop)
    (breaks : Shape → AnchorShape → Slot ν τ σ → Mismatch → Prop) (node : SlotTree ν τ σ) :
    TreeError → Prop
  | unknownShape (unknown : registry.shape? node.kind = none) :
      BreaksBy registry fits breaks node (.unknownShape node.kind)
  | slotCount (shape : Shape) (known : registry.shape? node.kind = some shape)
      (differ : shape.anchors.length ≠ node.slots.length) :
      BreaksBy registry fits breaks node
        (.mismatch node.kind .start (.slotCount shape.anchors.length node.slots.length))
  | slot (shape : Shape) (known : registry.shape? node.kind = some shape)
      (counted : shape.anchors.length = node.slots.length)
      (front back : List (AnchorShape × Slot ν τ σ)) (anchor : AnchorShape) (slot : Slot ν τ σ)
      (split : shape.anchors.zip node.slots = front ++ (anchor, slot) :: back)
      (earlier : ∀ pair ∈ front, fits shape pair.1 pair.2)
      (cause : Mismatch) (here : breaks shape anchor slot cause) :
      BreaksBy registry fits breaks node (.mismatch node.kind anchor.anchor cause)

/-- A check of single slots, put together to a check of nodes. -/
def faultBy? (registry : Registry) (fault? : Shape → AnchorShape → Slot ν τ σ → Option Mismatch)
    (node : SlotTree ν τ σ) : Option TreeError :=
  match registry.shape? node.kind with
  | none => some (.unknownShape node.kind)
  | some shape =>
    (node.countFault? shape).or ((shape.anchors.zip node.slots).findSome? fun (anchor, slot) =>
      (fault? shape anchor slot).map (.mismatch node.kind anchor.anchor ·))

section Checks

variable {slotFault? : Shape → AnchorShape → Slot ν τ σ → Option Mismatch}
  {fits : Shape → AnchorShape → Slot ν τ σ → Prop}
  {breaks : Shape → AnchorShape → Slot ν τ σ → Mismatch → Prop} {node : SlotTree ν τ σ}

theorem countFault?_eq_none_iff {shape : Shape} :
    node.countFault? shape = none ↔ shape.anchors.length = node.slots.length := by
  unfold countFault?
  split <;> simp [*]

/-- A node passes a check if it is known, and its slots are as many as asked for and pass. -/
theorem faultBy?_eq_none_iff
    (none_iff : ∀ shape anchor slot, slotFault? shape anchor slot = none ↔ fits shape anchor slot) :
    node.faultBy? registry slotFault? = none ↔ node.FitsBy registry fits := by
  unfold faultBy? FitsBy
  cases registry.shape? node.kind with
  | none => simp
  | some shape =>
    simp only [Option.or_eq_none_iff, countFault?_eq_none_iff, List.findSome?_eq_none_iff,
      Option.map_eq_none_iff, none_iff, Option.some.injEq, exists_eq_left']

/-- What a check of nodes finds is what is wrong with the first slot that does not pass. -/
theorem faultBy?_eq_some_iff
    (none_iff : ∀ shape anchor slot, slotFault? shape anchor slot = none ↔ fits shape anchor slot)
    (some_iff : ∀ shape anchor slot cause,
      slotFault? shape anchor slot = some cause ↔ breaks shape anchor slot cause)
    {error : TreeError} :
    node.faultBy? registry slotFault? = some error ↔ node.BreaksBy registry fits breaks error := by
  unfold faultBy?
  cases known : registry.shape? node.kind with
  | none =>
    simp only [Option.some.injEq]
    constructor
    · rintro rfl
      exact .unknownShape known
    · rintro (_ | ⟨_, found, _⟩ | ⟨_, found, _⟩)
      · rfl
      · cases known.symm.trans found
      · cases known.symm.trans found
  | some shape =>
    simp only [Option.or_eq_some_iff, countFault?_eq_none_iff, List.findSome?_eq_some_iff,
      Option.map_eq_some_iff, Option.map_eq_none_iff, none_iff, some_iff]
    constructor
    · rintro (counted | ⟨counted, front, ⟨anchor, slot⟩, back, split, ⟨cause, here, rfl⟩, earlier⟩)
      · unfold countFault? at counted
        split at counted
        · cases counted
        · next differ =>
          obtain rfl := Option.some.inj counted
          exact .slotCount shape known differ
      · exact .slot shape known counted front back anchor slot split earlier cause here
    · rintro (unknown | ⟨other, found, differ⟩ |
        ⟨other, found, counted, front, back, anchor, slot, split, earlier, cause, here⟩)
      · cases unknown.symm.trans known
      · obtain rfl := Option.some.inj (known.symm.trans found)
        exact .inl (by rw [countFault?, if_neg differ])
      · obtain rfl := Option.some.inj (known.symm.trans found)
        exact .inr ⟨counted, front, (anchor, slot), back, split, ⟨cause, here, rfl⟩, earlier⟩

end Checks

/-! ## Kinds of slots -/

/-- A node of a known kind with a slot of the right kind for each anchor. -/
def Kinded (registry : Registry) (node : SlotTree ν τ σ) : Prop :=
  node.FitsBy registry fun _ anchor slot => slot.fits anchor.slot = true

/-- What is wrong with a node whose slots only have to be of the right kinds. -/
def Miskinded (registry : Registry) (node : SlotTree ν τ σ) (error : TreeError) : Prop :=
  node.BreaksBy registry (fun _ anchor slot => slot.fits anchor.slot = true)
    (fun _ anchor slot cause => slot.fits anchor.slot = false ∧ cause = .slotKind) error

theorem kindFault?_eq_faultBy? (node : SlotTree ν τ σ) :
    node.kindFault? registry = node.faultBy? registry fun _ anchor slot =>
      if slot.fits anchor.slot then none else some .slotKind := by
  have mapped : ∀ pair : AnchorShape × Slot ν τ σ,
      (if pair.2.fits pair.1.slot then none else some (.mismatch node.kind pair.1.anchor .slotKind)) =
        (if pair.2.fits pair.1.slot then none else some Mismatch.slotKind).map
          (TreeError.mismatch node.kind pair.1.anchor ·) := by
    intro pair
    split <;> rfl
  unfold kindFault? faultBy?
  cases registry.shape? node.kind with
  | none => rfl
  | some shape =>
    exact congrArg (fun fault? => (node.countFault? shape).or
      ((shape.anchors.zip node.slots).findSome? fault?)) (funext mapped)

theorem kindFault?_eq_none_iff {node : SlotTree ν τ σ} :
    node.kindFault? registry = none ↔ node.Kinded registry := by
  rw [kindFault?_eq_faultBy?]
  exact faultBy?_eq_none_iff fun _ _ _ => by simp

theorem kindFault?_eq_some_iff {node : SlotTree ν τ σ} {error : TreeError} :
    node.kindFault? registry = some error ↔ node.Miskinded registry error := by
  rw [kindFault?_eq_faultBy?]
  refine faultBy?_eq_some_iff (fun _ _ _ => by simp) fun _ anchor slot cause => ?_
  cases slot.fits anchor.slot with
  | true => simp
  | false => simpa using eq_comm

/-! ## Contents of slots -/

/-- A slot of the right kind, with the right text if that is fixed. -/
structure HoldsRight (anchor : AnchorShape) (slot : Slot ν String σ) : Prop where
  kind : slot.fits anchor.slot = true
  text : ∀ expected found, anchor.slot = .token (.fixed expected) → slot = .token (some found) →
    found = expected

/-- What is wrong with what a slot holds. -/
inductive HoldsWrong (anchor : AnchorShape) (slot : Slot ν String σ) : Mismatch → Prop
  | slotKind (differs : slot.fits anchor.slot = false) : HoldsWrong anchor slot .slotKind
  | fixedText (expected found : String) (fixed : anchor.slot = .token (.fixed expected))
      (isToken : slot = .token (some found)) (differs : found ≠ expected) :
      HoldsWrong anchor slot (.fixedText expected found)

theorem contentFault?_eq_none_iff {anchor : AnchorShape} {slot : Slot ν String σ} :
    contentFault? anchor.slot slot = none ↔ HoldsRight anchor slot := by
  unfold contentFault?
  split
  · next expected found fixed =>
    constructor
    · intro none
      refine ⟨by rw [fixed]; rfl, fun expected' found' fixed' isToken => ?_⟩
      cases fixed.symm.trans fixed'
      cases isToken
      simpa using none
    · intro right
      exact if_pos (right.text expected found fixed rfl)
  · next other =>
    constructor
    · intro none
      exact ⟨by simpa using none, fun expected found fixed isToken =>
        (other expected found fixed isToken).elim⟩
    · intro right
      exact if_pos right.kind

theorem contentFault?_eq_some_iff {anchor : AnchorShape} {slot : Slot ν String σ}
    {cause : Mismatch} :
    contentFault? anchor.slot slot = some cause ↔ HoldsWrong anchor slot cause := by
  unfold contentFault?
  split
  · next expected found fixed =>
    constructor
    · intro some
      split at some
      · cases some
      · next differs =>
        obtain rfl := Option.some.inj some
        exact .fixedText expected found fixed rfl differs
    · rintro (differs | ⟨expected', found', fixed', isToken, differs⟩)
      · rw [fixed] at differs
        cases differs
      · cases fixed.symm.trans fixed'
        cases isToken
        exact if_neg differs
  · next other =>
    constructor
    · intro some
      split at some
      · cases some
      · next differs =>
        obtain rfl := Option.some.inj some
        exact .slotKind (by simpa using differs)
    · rintro (differs | ⟨expected, found, fixed, isToken, -⟩)
      · rw [differs]
        rfl
      · exact (other expected found fixed isToken).elim

/-! ## Whether slots are filled -/

/-- The slot that a shape has for an anchor is filled. -/
def HasAt (shape : Shape) (node : SlotTree ν τ σ) (anchor : Anchor) : Prop :=
  ∃ index slot, shape.indexOf? anchor = some index ∧ node.slots[index]? = some slot ∧
    slot.isPresent = true

/-- A slot is filled if it has to be, and exactly when the slot it goes with is. -/
structure FilledRight (shape : Shape) (node : SlotTree ν τ σ) (anchor : AnchorShape)
    (slot : Slot ν τ σ) : Prop where
  required : anchor.presence = .required → slot.isPresent = true
  together : ∀ other, anchor.presence = .together other →
    (slot.isPresent = true ↔ node.HasAt shape other)

/-- What is wrong with a slot being filled or not. -/
inductive FilledWrong (shape : Shape) (node : SlotTree ν τ σ) (anchor : AnchorShape)
    (slot : Slot ν τ σ) : Mismatch → Prop
  | missing (required : anchor.presence = .required) (absent : slot.isPresent = false) :
      FilledWrong shape node anchor slot .missing
  | presentWithout (other : Anchor) (together : anchor.presence = .together other)
      (present : slot.isPresent = true) (alone : ¬node.HasAt shape other) :
      FilledWrong shape node anchor slot (.presentWithout other)
  | missingAlthough (other : Anchor) (together : anchor.presence = .together other)
      (absent : slot.isPresent = false) (filled : node.HasAt shape other) :
      FilledWrong shape node anchor slot (.missingAlthough other)

theorem isPresentAt_iff {shape : Shape} {node : SlotTree ν τ σ} {anchor : Anchor} :
    node.isPresentAt shape anchor = true ↔ node.HasAt shape anchor := by
  unfold isPresentAt HasAt
  cases shape.indexOf? anchor with
  | none => simp
  | some index => simp [Option.any_eq_true]

section Filling

variable {shape : Shape} {node : SlotTree ν τ σ} {anchor : AnchorShape} {slot : Slot ν τ σ}

theorem presenceFault?_eq_none_iff :
    presenceFault? anchor.presence slot.isPresent (node.isPresentAt shape) = none ↔
      FilledRight shape node anchor slot := by
  cases presence : anchor.presence with
  | required =>
    have right : FilledRight shape node anchor slot ↔ slot.isPresent = true := by
      refine ⟨fun right => right.required presence, fun filled => ⟨fun _ => filled, ?_⟩⟩
      intro other together
      cases presence.symm.trans together
    rw [right]
    cases slot.isPresent <;> simp [presenceFault?]
  | optional =>
    refine iff_of_true rfl ⟨fun required => ?_, fun other together => ?_⟩
    · cases presence.symm.trans required
    · cases presence.symm.trans together
  | together other =>
    have right : FilledRight shape node anchor slot ↔
        slot.isPresent = node.isPresentAt shape other := by
      rw [Bool.eq_iff_iff, isPresentAt_iff]
      refine ⟨fun right => right.together other presence, fun same => ⟨fun required => ?_, ?_⟩⟩
      · cases presence.symm.trans required
      · intro other' together
        cases presence.symm.trans together
        exact same
    rw [right]
    simp only [presenceFault?]
    split
    · next same => exact iff_of_true rfl same
    · next differ => exact iff_of_false (by split <;> simp) differ

theorem presenceFault?_eq_some_iff {cause : Mismatch} :
    presenceFault? anchor.presence slot.isPresent (node.isPresentAt shape) = some cause ↔
      FilledWrong shape node anchor slot cause := by
  constructor
  · intro some
    cases presence : anchor.presence with
    | required =>
      cases filled : slot.isPresent with
      | true => simp [presenceFault?, presence, filled] at some
      | false =>
        simp only [presenceFault?, presence, filled] at some
        cases some
        exact .missing presence filled
    | optional => simp [presenceFault?, presence] at some
    | together other =>
      have there : node.isPresentAt shape other = true ↔ node.HasAt shape other := isPresentAt_iff
      cases filled : slot.isPresent with
      | true =>
        cases present : node.isPresentAt shape other with
        | true => simp [presenceFault?, presence, filled, present] at some
        | false =>
          simp [presenceFault?, presence, filled, present] at some
          subst some
          exact .presentWithout other presence filled (by simp [← there, present])
      | false =>
        cases present : node.isPresentAt shape other with
        | false => simp [presenceFault?, presence, filled, present] at some
        | true =>
          simp [presenceFault?, presence, filled, present] at some
          subst some
          exact .missingAlthough other presence filled (there.mp present)
  · rintro (⟨required, absent⟩ | ⟨other, together, present, alone⟩ | ⟨other, together, absent, filled⟩)
    · simp [presenceFault?, required, absent]
    · rw [← isPresentAt_iff, Bool.not_eq_true] at alone
      simp [presenceFault?, together, present, alone]
    · rw [← isPresentAt_iff] at filled
      simp [presenceFault?, together, absent, filled]

end Filling

/-! ## Nodes that fit in full -/

/-- A slot that holds what it has to hold and is filled when it has to be. -/
structure SlotFits (node : SlotTree ν String σ) (shape : Shape) (anchor : AnchorShape)
    (slot : Slot ν String σ) : Prop where
  holds : HoldsRight anchor slot
  filled : FilledRight shape node anchor slot

/-- What is wrong with a slot.  What it holds comes first. -/
inductive SlotBreaks (node : SlotTree ν String σ) (shape : Shape) (anchor : AnchorShape)
    (slot : Slot ν String σ) : Mismatch → Prop
  | holds {cause : Mismatch} (wrong : HoldsWrong anchor slot cause) :
      SlotBreaks node shape anchor slot cause
  | filled {cause : Mismatch} (right : HoldsRight anchor slot)
      (wrong : FilledWrong shape node anchor slot cause) : SlotBreaks node shape anchor slot cause

/-- A node fits its shape in full. -/
def Fits (registry : Registry) (node : SlotTree ν String σ) : Prop :=
  node.FitsBy registry (SlotFits node)

/-- What keeps a node from fitting its shape in full. -/
def Misfits (registry : Registry) (node : SlotTree ν String σ) (error : TreeError) : Prop :=
  node.BreaksBy registry (SlotFits node) (SlotBreaks node) error

theorem fault?_eq_faultBy? (node : SlotTree ν String σ) :
    node.fault? registry = node.faultBy? registry fun shape anchor slot =>
      (contentFault? anchor.slot slot).or
        (presenceFault? anchor.presence slot.isPresent (node.isPresentAt shape)) := rfl

/-- A node has no fault exactly if it fits its shape in full. -/
theorem fault?_eq_none_iff {node : SlotTree ν String σ} :
    node.fault? registry = none ↔ node.Fits registry := by
  rw [fault?_eq_faultBy?]
  refine faultBy?_eq_none_iff fun shape anchor slot => ?_
  rw [Option.or_eq_none_iff, contentFault?_eq_none_iff, presenceFault?_eq_none_iff]
  exact ⟨fun ⟨holds, filled⟩ => ⟨holds, filled⟩, fun ⟨holds, filled⟩ => ⟨holds, filled⟩⟩

theorem length_of_fault? {kind : NodeKind} {info : ν} {slots : List (Slot ν String σ)}
    (fine : fault? registry (.node kind info slots) = none) :
    (registry.anchorsOf kind).length = slots.length := by
  obtain ⟨shape, known, counted, -⟩ := fault?_eq_none_iff.mp fine
  rw [Registry.anchorsOf, show registry.shape? kind = some shape from known]
  exact counted

/-- The fault of a node is what keeps it from fitting. -/
theorem fault?_eq_some_iff {node : SlotTree ν String σ} {error : TreeError} :
    node.fault? registry = some error ↔ node.Misfits registry error := by
  rw [fault?_eq_faultBy?]
  refine faultBy?_eq_some_iff (fun shape anchor slot => ?_) fun shape anchor slot cause => ?_
  · rw [Option.or_eq_none_iff, contentFault?_eq_none_iff, presenceFault?_eq_none_iff]
    exact ⟨fun ⟨holds, filled⟩ => ⟨holds, filled⟩, fun ⟨holds, filled⟩ => ⟨holds, filled⟩⟩
  · rw [Option.or_eq_some_iff, contentFault?_eq_none_iff, contentFault?_eq_some_iff,
      presenceFault?_eq_some_iff]
    constructor
    · rintro (wrong | ⟨right, wrong⟩)
      · exact .holds wrong
      · exact .filled right wrong
    · rintro (wrong | ⟨right, wrong⟩)
      · exact .inl wrong
      · exact .inr ⟨right, wrong⟩

/-! ## The first of several nodes -/

section Several

variable {node α β : Type}

/-- Something is wrong with one of several nodes, and nothing with those in front of it. -/
def FirstOf (fits : node → Prop) (breaks : node → TreeError → Prop) (nodes : List node)
    (error : TreeError) : Prop :=
  ∃ front one back, nodes = front ++ one :: back ∧ (∀ other ∈ front, fits other) ∧ breaks one error

/-- A value, unless one of several nodes has a fault. -/
def unlessFault (fault? : node → Option TreeError) (nodes : List node) (value : α) :
    Except TreeError α :=
  match nodes.findSome? fault? with
  | some error => .error error
  | none => .ok value

variable {nodeFault? : node → Option TreeError} {nodes nodes' : List node} {value : α} {value' : β}

/-- Checks one after the other are one check. -/
theorem unlessFault_bind {next : α → Except TreeError β}
    (rest : next value = unlessFault nodeFault? nodes' value') :
    (unlessFault nodeFault? nodes value >>= next) =
      unlessFault nodeFault? (nodes ++ nodes') value' := by
  rw [unlessFault, unlessFault, List.findSome?_append]
  cases nodes.findSome? nodeFault? with
  | some error => rfl
  | none => exact rest

theorem unlessFault_map (next : α → β) :
    (unlessFault nodeFault? nodes value >>= fun value => pure (next value)) =
      unlessFault nodeFault? nodes (next value) := by
  unfold unlessFault
  cases nodes.findSome? nodeFault? <;> rfl

theorem unlessFault_cons {one : node} :
    unlessFault nodeFault? (one :: nodes) value =
      match nodeFault? one with
      | some error => .error error
      | none => unlessFault nodeFault? nodes value := by
  rw [unlessFault, List.findSome?_cons]
  cases nodeFault? one <;> rfl

section Declared

variable {fits : node → Prop} {breaks : node → TreeError → Prop}

theorem unlessFault_eq_ok_iff (none_iff : ∀ one, nodeFault? one = none ↔ fits one) {result : α} :
    unlessFault nodeFault? nodes value = .ok result ↔
      (∀ one ∈ nodes, fits one) ∧ result = value := by
  have clean := List.findSome?_eq_none_iff (p := nodeFault?) (l := nodes)
  simp only [none_iff] at clean
  rw [unlessFault, ← clean]
  cases nodes.findSome? nodeFault? with
  | some error => simp
  | none => simp [eq_comm]

theorem unlessFault_eq_error_iff (none_iff : ∀ one, nodeFault? one = none ↔ fits one)
    (some_iff : ∀ one error, nodeFault? one = some error ↔ breaks one error) {error : TreeError} :
    unlessFault nodeFault? nodes value = .error error ↔ FirstOf fits breaks nodes error := by
  have first := List.findSome?_eq_some_iff (f := nodeFault?) (l := nodes) (b := error)
  simp only [none_iff, some_iff] at first
  have same : unlessFault nodeFault? nodes value = .error error ↔
      nodes.findSome? nodeFault? = some error := by
    rw [unlessFault]
    cases nodes.findSome? nodeFault? <;> simp
  rw [same, first]
  constructor
  · rintro ⟨front, one, back, split, wrong, earlier⟩
    exact ⟨front, one, back, split, earlier, wrong⟩
  · rintro ⟨front, one, back, split, earlier, wrong⟩
    exact ⟨front, one, back, split, wrong, earlier⟩

end Declared

end Several

end SlotTree

end GoTrivia

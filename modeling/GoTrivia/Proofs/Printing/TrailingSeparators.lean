import GoTrivia.Proofs.Printing.Merging
import GoTrivia.RoundTrip
import Mathlib.Logic.Relation

/-!
# The separator behind the last element

The last element of a list that a token closes has a separator when the list is closed on a later
line.  This is decided before anything behind the element is printed, by looking ahead in the
comment table.  The look-ahead foresees every line break between two items, as long as none was
asked for before it starts.  It does not foresee one inside a comment.

**Where a list comes.** Printing a tree leads to its slots, and from there to children and list
elements (`Calls`).  Whatever was reached on the way is part of the whole: its cues are the first
ones (`suffix_of_calls`).
-/

set_option autoImplicit false

namespace GoTrivia

open Print (Mark State ListPlan nextToken? isLines lastOffset Merged spaced)

variable {registry : Registry}

/-! ## Lists that go together -/

theorem exists_of_forall₂_append {α β : Type} {related : α → β → Prop} {front back : List α}
    {whole : List β} (pairs : List.Forall₂ related (front ++ back) whole) :
    ∃ front' back', whole = front' ++ back' ∧ List.Forall₂ related front front' ∧
      List.Forall₂ related back back' := by
  have first := List.forall₂_take front.length pairs
  have last := List.forall₂_drop front.length pairs
  rw [List.take_left] at first
  rw [List.drop_left] at last
  exact ⟨_, _, (List.take_append_drop front.length whole).symm, first, last⟩

/-- Ends of lists go together if they are of one length. -/
theorem forall₂_suffix {α β : Type} {related : α → β → Prop} {whole rest : List α}
    {whole' rest' : List β} (pairs : List.Forall₂ related whole whole') (isRest : rest <:+ whole)
    (isRest' : rest' <:+ whole') (lengths : rest.length = rest'.length) :
    List.Forall₂ related rest rest' := by
  rw [List.suffix_iff_eq_drop.mp isRest, List.suffix_iff_eq_drop.mp isRest', pairs.length_eq,
    lengths]
  exact List.forall₂_drop _ pairs

theorem exists_of_mem_forall₂ {α β : Type} {related : α → β → Prop} {l : List α} {l' : List β}
    (pairs : List.Forall₂ related l l') {a : α} (mem : a ∈ l) : ∃ b ∈ l', related a b := by
  induction pairs with
  | nil => cases mem
  | cons here _ ih =>
    rcases List.mem_cons.mp mem with rfl | mem
    · exact ⟨_, List.mem_cons_self, here⟩
    · obtain ⟨b, inside, there⟩ := ih mem
      exact ⟨b, List.mem_cons_of_mem _ inside, there⟩

theorem exists_of_forall₂_mem {α β : Type} {related : α → β → Prop} {l : List α} {l' : List β}
    (pairs : List.Forall₂ related l l') {b : β} (mem : b ∈ l') : ∃ a ∈ l, related a b :=
  exists_of_mem_forall₂ pairs.flip mem

namespace Script

/-! ## Cues are never taken back -/

/-- What a script has come to from another one: no cue was taken back, and the rows that are still
to come are the last ones. -/
structure Onward (script later : Script) : Prop where
  past : script.past <:+ later.past
  table : later.table <:+ script.table

theorem Onward.refl (script : Script) : Onward script script := ⟨List.suffix_rfl, List.suffix_rfl⟩

theorem Onward.trans {script between later : Script} (first : Onward script between)
    (second : Onward between later) : Onward script later :=
  ⟨first.past.trans second.past, second.table.trans first.table⟩

theorem onward_askLine (script : Script) : Onward script script.askLine :=
  ⟨List.suffix_cons _ _, List.suffix_rfl⟩

theorem onward_askGap (script : Script) (tokens : Nat) (gap : Gap) :
    Onward script (script.askGap tokens gap) := by
  unfold askGap
  split
  · exact script.onward_askLine
  · exact .refl script

theorem onward_askElement (script : Script) (tokens : Nat) (plan : ListPlan) (first : Bool) :
    Onward script (script.askElement tokens plan first) := by
  unfold askElement
  split
  · exact script.onward_askLine
  · split
    · exact script.onward_askGap tokens plan.gap
    · exact .refl script

theorem onward_flush (script : Script) (offset : Nat) : Onward script (script.flush offset) :=
  ⟨List.suffix_append _ _, List.dropWhile_suffix _⟩

theorem onward_token (script : Script) (offset : Nat) (text : String) :
    Onward script (script.token offset text) :=
  (script.onward_flush offset).trans ⟨List.suffix_cons _ _, List.suffix_rfl⟩

theorem onward_separator (script : Script) (plan : ListPlan) (offset : Nat) (last : Bool) :
    Onward script (script.separator plan offset last) := by
  unfold separator
  split
  · split
    · exact script.onward_token offset _
    · exact .refl script
  · exact .refl script

mutual
theorem onward_tree : ∀ (tree : Positional) (script : Script),
    Onward script (Script.tree registry tree script)
  | .node kind span slots, script => by
      rw [Script.tree]
      exact onward_slots _ _ _ slots script

theorem onward_slots (node : Positional) (tokens : Nat) :
    ∀ (shapes : List AnchorShape) (slots : List PositionalSlot) (script : Script),
      Onward script (Script.slots registry node tokens shapes slots script)
  | _, [], script => by
      rw [Script.slots]
      exact .refl script
  | [], _ :: _, script => by
      rw [Script.slots]
      exact .refl script
  | shape :: shapes, slot :: slots, script => by
      rw [Script.slots]
      exact (onward_slot node tokens shape slots slot script).trans
        (onward_slots node tokens shapes slots _)

theorem onward_slot (node : Positional) (tokens : Nat) (shape : AnchorShape)
    (following : List PositionalSlot) : ∀ (slot : PositionalSlot) (script : Script),
      Onward script (Script.slot registry node tokens shape following slot script)
  | .token none, script => by
      rw [Script.slot]
      exact .refl script
  | .token (some lexeme), script => by
      rw [Script.slot]
      exact (script.onward_askGap tokens shape.gap).trans (onward_token _ _ _)
  | .child none, script => by
      rw [Script.slot]
      exact .refl script
  | .child (some child), script => by
      rw [Script.slot]
      exact (script.onward_askGap tokens shape.gap).trans (onward_tree child _)
  | .list elements separators, script => by
      rw [Script.slot]
      cases shape.slot with
      | token | child => exact .refl script
      | list layout =>
        have inside := onward_elements tokens
          ⟨isLines node layout.style, layout.separator, shape.gap, nextToken? following⟩ true
          separators elements script
        dsimp only
        split
        · exact inside.trans (onward_askLine _)
        · exact inside

theorem onward_elements (tokens : Nat) (plan : ListPlan) :
    ∀ (first : Bool) (separators : List Span) (elements : List Positional) (script : Script),
      Onward script (Script.elements registry tokens plan first separators elements script)
  | _, _, [], script => by
      rw [Script.elements]
      exact .refl script
  | first, separators, element :: elements, script => by
      rw [Script.elements]
      exact (script.onward_askElement tokens plan first).trans ((onward_tree element _).trans
        ((onward_separator _ plan _ _).trans (onward_elements tokens plan false _ elements _)))
end

/-! ## Lists and their last elements -/

/-- The offset of the separator behind the last element of a list. -/
def lastSeparator : List Span → Positional → List Positional → Nat
  | separators, element, [] => (separators.head?.map Span.start).getD element.span.stop
  | separators, _, element :: elements => lastSeparator (separators.drop 1) element elements

/-- The elements of a list come, with no separator behind the last one yet. -/
def upToLast (registry : Registry) (tokens : Nat) (plan : ListPlan) :
    Bool → List Span → Positional → List Positional → Script → Script
  | first, _, element, [] => fun script =>
    Script.tree registry element (script.askElement tokens plan first)
  | first, separators, element, next :: elements => fun script =>
    upToLast registry tokens plan false (separators.drop 1) next elements
      ((Script.tree registry element (script.askElement tokens plan first)).separator plan
        ((separators.head?.map Span.start).getD element.span.stop) false)

theorem onward_upToLast (tokens : Nat) (plan : ListPlan) (first : Bool) (separators : List Span)
    (element : Positional) (elements : List Positional) (script : Script) :
    Onward script (upToLast registry tokens plan first separators element elements script) := by
  induction elements generalizing first separators element script with
  | nil => exact (script.onward_askElement tokens plan first).trans (onward_tree element _)
  | cons next elements ih =>
    exact (script.onward_askElement tokens plan first).trans ((onward_tree element _).trans
      ((onward_separator _ plan _ _).trans (ih false _ next _)))

theorem elements_eq_upToLast (tokens : Nat) (plan : ListPlan) (first : Bool)
    (separators : List Span) (element : Positional) (elements : List Positional) (script : Script) :
    Script.elements registry tokens plan first separators (element :: elements) script =
      (upToLast registry tokens plan first separators element elements script).separator plan
        (lastSeparator separators element elements) true := by
  induction elements generalizing first separators element script with
  | nil =>
    rw [Script.elements, Script.elements]
    rfl
  | cons next elements ih =>
    rw [Script.elements, upToLast, lastSeparator, ← ih]
    rfl

end Script

/-- Empty slots bring nothing. -/
theorem Script.slots_vacant (node : Positional) (tokens : Nat) (shapes : List AnchorShape)
    (slots : List PositionalSlot) (script : Script) :
    ∀ {vacant : List (AnchorShape × PositionalSlot)},
      (∀ pair ∈ vacant, pair.2.isPresent = false) →
      Script.slots registry node tokens (vacant.map Prod.fst ++ shapes) (vacant.map Prod.snd ++ slots)
        script = Script.slots registry node tokens shapes slots script
  | [], _ => rfl
  | (shape, slot) :: vacant, empty => by
      obtain ⟨here, others⟩ := List.forall_mem_cons.mp empty
      have skipped : Script.slot registry node tokens shape (vacant.map Prod.snd ++ slots) slot script =
          script := by
        cases slot with
        | token content =>
          obtain rfl : content = none := by simpa [Slot.isPresent] using here
          rw [Script.slot]
          rfl
        | child content =>
          obtain rfl : content = none := by simpa [Slot.isPresent] using here
          rw [Script.slot]
          rfl
        | list elements separators =>
          obtain rfl : elements = [] := by simpa [Slot.isPresent] using here
          rw [Script.slot]
          cases shape.slot with
          | token | child => rfl
          | list layout => simp [Script.elements]
      rw [List.map_cons, List.map_cons, List.cons_append, List.cons_append, Script.slots]
      show Script.slots registry node tokens _ _
        (Script.slot registry node tokens shape _ slot script) = _
      rw [skipped]
      exact Script.slots_vacant node tokens shapes slots script others

theorem nextToken?_vacant (closer : Lexeme) (slots : List PositionalSlot) :
    ∀ {vacant : List PositionalSlot}, (∀ slot ∈ vacant, slot.isPresent = false) →
      nextToken? (vacant ++ .token (some closer) :: slots) = some closer.span.start
  | [], _ => rfl
  | slot :: vacant, empty => by
      obtain ⟨here, others⟩ := List.forall_mem_cons.mp empty
      have next := nextToken?_vacant closer slots others
      cases slot with
      | token content =>
        obtain rfl : content = none := by simpa [Slot.isPresent] using here
        exact next
      | child content => simpa [nextToken?, here] using next
      | list elements separators => simpa [nextToken?, here] using next

/-! ## Where a list comes -/

/-- What comes as a whole: a tree, the slots of a node from some slot on, or the elements of a list
from some element on. -/
inductive Task
  | tree (tree : Positional)
  | slots (node : Positional) (tokens : Nat) (shapes : List AnchorShape) (slots : List PositionalSlot)
  | elements (tokens : Nat) (plan : ListPlan) (first : Bool) (separators : List Span)
      (elements : List Positional)

/-- The whole comes. -/
def Task.run (registry : Registry) : Task → Script → Script
  | tree root => Script.tree registry root
  | slots node tokens shapes below => Script.slots registry node tokens shapes below
  | elements tokens plan first separators trees =>
    Script.elements registry tokens plan first separators trees

/-- What comes as part of something else, with the script in front of it. -/
inductive Calls (registry : Registry) : Task × Script → Task × Script → Prop
  | slots (kind : NodeKind) (span : Span) (slots : List PositionalSlot) (script : Script) :
      Calls registry (.tree (.node kind span slots), script)
        (.slots (.node kind span slots) script.tokens (registry.anchorsOf kind) slots, script)
  | rest (node : Positional) (tokens : Nat) (shape : AnchorShape) (shapes : List AnchorShape)
      (slot : PositionalSlot) (slots : List PositionalSlot) (script : Script) :
      Calls registry (.slots node tokens (shape :: shapes) (slot :: slots), script)
        (.slots node tokens shapes slots, Script.slot registry node tokens shape slots slot script)
  | child (node : Positional) (tokens : Nat) (shape : AnchorShape) (shapes : List AnchorShape)
      (child : Positional) (slots : List PositionalSlot) (script : Script) :
      Calls registry (.slots node tokens (shape :: shapes) (.child (some child) :: slots), script)
        (.tree child, script.askGap tokens shape.gap)
  | elements (node : Positional) (tokens : Nat) (shape : AnchorShape) (shapes : List AnchorShape)
      (layout : ListLayout) (isList : shape.slot = .list layout) (elements : List Positional)
      (separators : List Span) (slots : List PositionalSlot) (script : Script) :
      Calls registry
        (.slots node tokens (shape :: shapes) (.list elements separators :: slots), script)
        (.elements tokens ⟨isLines node layout.style, layout.separator, shape.gap, nextToken? slots⟩
          true separators elements, script)
  | element (tokens : Nat) (plan : ListPlan) (first : Bool) (separators : List Span)
      (element : Positional) (elements : List Positional) (script : Script) :
      Calls registry (.elements tokens plan first separators (element :: elements), script)
        (.tree element, script.askElement tokens plan first)
  | others (tokens : Nat) (plan : ListPlan) (first : Bool) (separators : List Span)
      (element : Positional) (elements : List Positional) (script : Script) :
      Calls registry (.elements tokens plan first separators (element :: elements), script)
        (.elements tokens plan false (separators.drop 1) elements,
          (Script.tree registry element (script.askElement tokens plan first)).separator plan
            ((separators.head?.map Span.start).getD element.span.stop) elements.isEmpty)

/-- The cues of a part are the first ones of the whole. -/
theorem suffix_of_calls {whole part : Task × Script} (calls : Calls registry whole part) :
    (part.1.run registry part.2).past <:+ (whole.1.run registry whole.2).past := by
  cases calls with
  | slots kind span slots script =>
    simp only [Task.run, Script.tree]
    exact List.suffix_rfl
  | rest node tokens shape shapes slot slots script =>
    simp only [Task.run, Script.slots]
    exact List.suffix_rfl
  | child node tokens shape shapes child slots script =>
    simp only [Task.run, Script.slots, Script.slot]
    exact (Script.onward_slots node tokens shapes slots _).past
  | elements node tokens shape shapes layout isList elements separators slots script =>
    simp only [Task.run, Script.slots, Script.slot, isList]
    refine List.IsSuffix.trans ?_ (Script.onward_slots node tokens shapes slots _).past
    split
    · exact List.suffix_cons _ _
    · exact List.suffix_rfl
  | element tokens plan first separators element elements script =>
    simp only [Task.run, Script.elements]
    exact ((Script.onward_separator _ plan _ _).trans
      (Script.onward_elements tokens plan false _ elements _)).past
  | others tokens plan first separators element elements script =>
    simp only [Task.run, Script.elements]
    exact List.suffix_rfl

theorem suffix_of_reached {whole part : Task × Script}
    (reached : Relation.ReflTransGen (Calls registry) whole part) :
    (part.1.run registry part.2).past <:+ (whole.1.run registry whole.2).past := by
  induction reached with
  | refl => exact List.suffix_rfl
  | tail _ calls ih => exact (suffix_of_calls calls).trans ih

/-! ## What stands behind cues -/

/-- Cues of steps, the last one first. -/
def cuesOf (steps : List Step) : List Cue := (steps.map Cue.step).reverse

theorem cuesOf_append (steps more : List Step) :
    cuesOf (steps ++ more) = cuesOf more ++ cuesOf steps := by
  rw [cuesOf, List.map_append, List.reverse_append, cuesOf, cuesOf]

/-- What a step adds to the tokens and comments. -/
def Step.lead? (past : List Cue) : Step → Option Lead
  | .token text =>
    some ⟨.token text, max (breaksAsked past) (if lineAsked past then 1 else 0), seen past⟩
  | .comment text => some ⟨.comment text, breaksAsked past, seen past⟩
  | .gap _ => none

/-- What steps add to the tokens and comments. -/
def leadsBehind : List Cue → List Step → List Lead
  | _, [] => []
  | past, step :: steps => (step.lead? past).toList ++ leadsBehind (.step step :: past) steps

theorem leads_cuesOf (past : List Cue) (steps : List Step) :
    leads (cuesOf steps ++ past) = leads past ++ leadsBehind past steps := by
  induction steps generalizing past with
  | nil => exact (List.append_nil _).symm
  | cons step steps ih =>
    have here : leads (.step step :: past) = leads past ++ (step.lead? past).toList := by
      cases step <;> simp [leads, Step.lead?]
    rw [leadsBehind, ← List.append_assoc, ← here, ← ih, ← List.singleton_append, cuesOf_append,
      List.append_assoc]
    rfl

theorem prefix_leads {past whole : List Cue} (suffix : past <:+ whole) : leads past <+: leads whole := by
  obtain ⟨later, rfl⟩ := suffix
  induction later with
  | nil => exact List.prefix_rfl
  | cons cue later ih =>
    refine ih.trans ?_
    cases cue with
    | line => exact List.prefix_rfl
    | step step =>
      cases step with
      | token | comment => exact List.prefix_append _ _
      | gap => exact List.prefix_rfl

theorem map_mark_leadsBehind (past : List Cue) (steps : List Step) :
    (leadsBehind past steps).map Lead.mark = written steps := by
  induction steps generalizing past with
  | nil => rfl
  | cons step steps ih =>
    rw [leadsBehind, List.map_append, ih]
    cases step <;> rfl

/-- Whether a step puts what comes next on a new line. -/
def Step.endsLine : Step → Bool
  | token _ => false
  | comment text => isLineComment text
  | gap spacing => spacing ≠ .sameLine

/-- Something visible has come, and nothing that comes next has to start a line. -/
structure Settled (past : List Cue) : Prop where
  visible : seen past = true
  breaks : breaksAsked past = 0
  line : lineAsked past = false

/-- Steps that end no line leave everything on it. -/
theorem Settled.keepsLine {past : List Cue} (settled : Settled past) {steps : List Step}
    (still : steps.any Step.endsLine = false) :
    ∀ lead ∈ leadsBehind past steps, lead.seen = true ∧ lead.breaks = 0 := by
  induction steps generalizing past with
  | nil => exact List.forall_mem_nil _
  | cons step steps ih =>
    obtain ⟨here, still⟩ := Bool.or_eq_false_iff.mp still
    obtain ⟨isSeen, breaks, line⟩ := settled
    refine List.forall_mem_append.mpr ⟨?_, ih ?_ still⟩
    · cases step <;> simp [Step.lead?, isSeen, breaks, line]
    · cases step with
      | token text => exact ⟨by simp [seen, isSeen], rfl, rfl⟩
      | comment text =>
        have closed : isLineComment text = false := here
        exact ⟨by simp [seen, isSeen], by simp [breaksAsked, closed], by simp [lineAsked, line]⟩
      | gap spacing =>
        obtain rfl : spacing = .sameLine := by simpa [Step.endsLine] using here
        exact ⟨isSeen, by simp [breaksAsked, breaks, Spacing.lineBreaks], line⟩

/-- A step that ends a line puts something behind it on a new one, if only the token at the end. -/
theorem exists_breaks {past : List Cue} (isSeen : seen past = true) {steps : List Step} (closer : String)
    (owed : 0 < breaksAsked past ∨ steps.any Step.endsLine = true) :
    ∃ lead ∈ leadsBehind past (steps ++ [.token closer]), lead.seen = true ∧ 0 < lead.breaks := by
  induction steps generalizing past with
  | nil =>
    have some : 0 < breaksAsked past := by simpa using owed
    exact ⟨_, List.mem_singleton_self _, isSeen, Nat.lt_of_lt_of_le some (Nat.le_max_left _ _)⟩
  | cons step steps ih =>
    -- either something is owed already, and the step pays it or passes it on, or it is owed later
    have goOn (still : seen (.step step :: past) = true)
        (later : 0 < breaksAsked (.step step :: past) ∨ steps.any Step.endsLine = true) :
        ∃ lead ∈ leadsBehind past (step :: steps ++ [.token closer]),
          lead.seen = true ∧ 0 < lead.breaks := by
      obtain ⟨lead, mem, found⟩ := ih still later
      exact ⟨lead, List.mem_append_right _ mem, found⟩
    have pays (lead : Lead) (isLead : step.lead? past = some lead) (isSeen : lead.seen = true)
        (breaks : 0 < lead.breaks) : ∃ lead ∈ leadsBehind past (step :: steps ++ [.token closer]),
          lead.seen = true ∧ 0 < lead.breaks := by
      refine ⟨lead, List.mem_append_left _ ?_, isSeen, breaks⟩
      rw [isLead]
      exact List.mem_singleton_self _
    rw [List.any_cons, Bool.or_eq_true] at owed
    cases step with
    | gap spacing =>
      refine goOn isSeen ?_
      rcases owed with some | here | there
      · exact .inl (Nat.lt_of_lt_of_le some (Nat.le_max_left _ _))
      · have some : 0 < spacing.lineBreaks := by
          cases spacing with
          | sameLine => cases here
          | newline | blank => decide
        exact .inl (Nat.lt_of_lt_of_le some (Nat.le_max_right _ _))
      · exact .inr there
    | comment text =>
      rcases owed with some | here | there
      · exact pays _ rfl isSeen some
      · have isLine : isLineComment text = true := here
        exact goOn (by simp [seen, isSeen]) (.inl (by simp [breaksAsked, isLine]))
      · exact goOn (by simp [seen, isSeen]) (.inr there)
    | token text =>
      rcases owed with some | here | there
      · exact pays _ rfl isSeen (Nat.lt_of_lt_of_le some (Nat.le_max_left _ _))
      · cases here
      · exact goOn (by simp [seen, isSeen]) (.inr there)

/-- Rows end a line with what they ask for or what they bring. -/
theorem any_endsLine_steps (rows : List CommentEntry) :
    (rows.flatMap CommentEntry.steps).any Step.endsLine = rows.any CommentEntry.breaksLine := by
  have one (row : CommentEntry) : row.steps.any Step.endsLine = row.breaksLine := by
    rw [CommentEntry.steps, List.any_cons, List.any_map]
    rfl
  induction rows with
  | nil => rfl
  | cons row rows ih => rw [List.flatMap_cons, List.any_append, one, ih, List.any_cons]

/-! ## Looking ahead -/

theorem mem_takeWhile_or {α : Type} {p q : α → Bool} {l : List α} {a : α} (mem : a ∈ l.takeWhile q) :
    a ∈ l.takeWhile p ∨ a ∈ (l.dropWhile p).takeWhile q := by
  induction l with
  | nil => cases mem
  | cons first l ih =>
    by_cases holds : p first = true
    · rw [List.takeWhile_cons_of_pos holds, List.dropWhile_cons_of_pos holds]
      by_cases goesOn : q first = true
      · rw [List.takeWhile_cons_of_pos goesOn] at mem
        rcases List.mem_cons.mp mem with rfl | mem
        · exact .inl List.mem_cons_self
        · exact (ih mem).imp_left (List.mem_cons_of_mem first)
      · rw [List.takeWhile_cons_of_neg goesOn] at mem
        cases mem
    · rw [List.dropWhile_cons_of_neg holds]
      exact .inr mem

theorem mem_takeWhile_of_mem_ahead {table : List CommentEntry} {offset bound : Nat}
    {row : CommentEntry}
    (mem : row ∈ (table.dropWhile (·.offset ≤ offset)).takeWhile (·.offset < bound)) :
    offset < bound ∧ row ∈ table.takeWhile (·.offset < bound) := by
  induction table with
  | nil => cases mem
  | cons first table ih =>
    by_cases before : first.offset ≤ offset
    · rw [List.dropWhile_cons_of_pos (by simpa using before)] at mem
      obtain ⟨room, mem⟩ := ih mem
      rw [List.takeWhile_cons_of_pos (by simp; omega)]
      exact ⟨room, List.mem_cons_of_mem first mem⟩
    · rw [List.dropWhile_cons_of_neg (by simpa using before)] at mem
      by_cases inside : first.offset < bound
      · exact ⟨by omega, mem⟩
      · rw [List.takeWhile_cons_of_neg (by simpa using inside)] at mem
        cases mem

/-- The rows that a look-ahead from an offset on goes over are among those that come behind a token
there. -/
theorem mem_between_of_mem_ahead {table : List CommentEntry} {offset bound : Nat} {row : CommentEntry}
    (mem : row ∈ (table.dropWhile (·.offset ≤ offset)).takeWhile (·.offset < bound)) :
    row ∈ (table.dropWhile (·.offset < offset)).takeWhile (·.offset < bound) := by
  induction table with
  | nil => exact mem
  | cons first table ih =>
    by_cases below : first.offset < offset
    · rw [List.dropWhile_cons_of_pos (by simpa using Nat.le_of_lt below)] at mem
      rw [List.dropWhile_cons_of_pos (by simpa using below)]
      exact ih mem
    · rw [List.dropWhile_cons_of_neg (by simpa using below)]
      exact (mem_takeWhile_of_mem_ahead mem).2

/-! ## Closed lists -/

/-- A list with separators, on one line if nothing breaks it, that a token of its node closes. -/
structure ClosedList (registry : Registry) (root : Positional) (table : List CommentEntry) where
  /-- The node of the list. -/
  node : Positional
  /-- The number of tokens in front of the node. -/
  tokens : Nat
  shape : AnchorShape
  layout : ListLayout
  isList : shape.slot = .list layout
  isInline : layout.style = .inline
  separator : String
  isSeparated : layout.separator = some separator
  /-- The first element. -/
  element : Positional
  /-- The other elements. -/
  elements : List Positional
  separators : List Span
  /-- The empty slots between the list and the token that closes it. -/
  vacant : List (AnchorShape × PositionalSlot)
  isVacant : ∀ pair ∈ vacant, pair.2.isPresent = false
  closing : AnchorShape
  isClose : closing.gap ≠ .line
  /-- The token that closes the list. -/
  closer : Lexeme
  shapes : List AnchorShape
  slots : List PositionalSlot
  /-- The script in front of the list. -/
  script : Script
  reached : Relation.ReflTransGen (Calls registry) (.tree root, .start table)
    (.slots node tokens (shape :: (vacant.map Prod.fst ++ closing :: shapes))
      (.list (element :: elements) separators :: (vacant.map Prod.snd ++ .token (some closer) :: slots)),
      script)

namespace ClosedList

variable {root : Positional} {table : List CommentEntry} (list : ClosedList registry root table)

/-- How the list is printed. -/
def plan : ListPlan := ⟨false, some list.separator, list.shape.gap, some list.closer.span.start⟩

/-- The script behind the last element. -/
def opened : Script :=
  .upToLast registry list.tokens list.plan true list.separators list.element list.elements list.script

/-- Where the last element has its separator. -/
def offset : Nat := Script.lastSeparator list.separators list.element list.elements

/-- The rows in front of the token that closes the list, if no separator is written. -/
def rows : List CommentEntry := list.opened.table.takeWhile (·.offset < list.closer.span.start)

/-- The rows in front of the separator. -/
def rowsBefore : List CommentEntry := list.opened.table.takeWhile (·.offset < list.offset)

/-- The rows between the separator and the token that closes the list. -/
def rowsBehind : List CommentEntry :=
  (list.opened.table.dropWhile (·.offset < list.offset)).takeWhile (·.offset < list.closer.span.start)

/-- Whether the look-ahead finds a line break. -/
def breaks : Bool :=
  (State.start list.opened.table).breaksBetween list.offset list.closer.span.start

/-- The steps between the last element and the token that closes the list. -/
def stretch : List Step :=
  if list.breaks then
    list.rowsBefore.flatMap CommentEntry.steps ++
      .token list.separator :: list.rowsBehind.flatMap CommentEntry.steps
  else list.rows.flatMap CommentEntry.steps

/-- The script behind the token that closes the list. -/
def closed : Script :=
  (list.opened.separator list.plan list.offset true).token list.closer.span.start list.closer.text

theorem past_closed :
    list.closed.past = cuesOf (list.stretch ++ [.token list.closer.text]) ++ list.opened.past := by
  have single (script : Script) (offset : Nat) (text : String) : (script.token offset text).past =
      cuesOf ((script.table.takeWhile (·.offset < offset)).flatMap CommentEntry.steps ++
        [.token text]) ++ script.past := by
    rw [cuesOf_append]
    rfl
  have separated : list.opened.separator list.plan list.offset true =
      if list.breaks then list.opened.token list.offset list.separator else list.opened := rfl
  rw [closed, single, stretch, separated]
  cases list.breaks with
  | false => rfl
  | true =>
    rw [if_pos rfl, if_pos rfl, single, ← List.append_assoc, ← cuesOf_append]
    simp only [List.append_assoc, List.cons_append, List.nil_append]
    rfl

/-- What closes the list is part of the whole. -/
theorem suffix_closed : list.closed.past <:+ cues registry root table := by
  have isVacant : ∀ slot ∈ list.vacant.map Prod.snd, slot.isPresent = false :=
    List.forall_mem_map.mpr list.isVacant
  have next := nextToken?_vacant list.closer list.slots isVacant
  have bare : isLines list.node list.layout.style = false := by rw [list.isInline]; rfl
  have noLine (script : Script) (tokens : Nat) : script.askGap tokens list.closing.gap = script := by
    unfold Script.askGap
    rw [if_neg fun asked => list.isClose asked.2]
  have inside := suffix_of_reached list.reached
  simp only [Task.run, Script.slots, Script.slot, list.isList, next, bare, list.isSeparated,
    Script.slots_vacant _ _ _ _ _ list.isVacant, noLine, Script.elements_eq_upToLast] at inside
  exact (Script.onward_slots list.node list.tokens list.shapes list.slots list.closed).past.trans
    (inside.trans (Script.onward_flush _ _).past)

variable {marks : List Mark}

/-- What is printed of a closed list: its stretch behind what came before, and the token that closes
it. -/
theorem exists_stretch (printed : Print.marks registry root table = .ok marks) :
    ∃ front between feeds back,
      spaced 0 marks = front ++ between ++ (.token list.closer.text, feeds) :: back ∧
      front.map Prod.fst = (leads list.opened.past).map Lead.mark ∧
      between.map Prod.fst = written list.stretch ∧
      List.Forall₂ Merged (leadsBehind list.opened.past (list.stretch ++ [.token list.closer.text]))
        (between ++ [(.token list.closer.text, feeds)]) := by
  have marksOf {leads : List Lead} {items : List (Mark × Nat)}
      (merged : List.Forall₂ Merged leads items) : items.map Prod.fst = leads.map Lead.mark := by
    induction merged with
    | nil => rfl
    | cons here _ ih => rw [List.map_cons, List.map_cons, here.mark, ih]
  obtain ⟨state, rfl, performs⟩ := Print.exists_performs printed
  have merged : List.Forall₂ Merged (leads (cues registry root table)) (spaced 0 state.marks.toList) :=
    performs.printed
  obtain ⟨later, split⟩ := prefix_leads list.suffix_closed
  rw [past_closed, leads_cuesOf, List.append_assoc] at split
  rw [← split] at merged
  obtain ⟨front, rest, whole, came, merged⟩ := exists_of_forall₂_append merged
  obtain ⟨inside, back, rfl, here, -⟩ := exists_of_forall₂_append merged
  have marks := marksOf here
  rw [map_mark_leadsBehind, written_append] at marks
  obtain ⟨between, last, rfl, between', last'⟩ := List.map_eq_append_iff.mp marks
  obtain ⟨⟨mark, feeds⟩, rfl, rfl⟩ := List.map_eq_singleton_iff.mp last'
  exact ⟨front, between, feeds, back, by simp [whole], marksOf came, between', here⟩

/-- Rows bring comments only. -/
theorem comment_of_mem_written {rows : List CommentEntry} {mark : Mark}
    (mem : mark ∈ written (rows.flatMap CommentEntry.steps)) : ∃ text, mark = .comment text := by
  obtain ⟨step, mem, writes⟩ := List.mem_filterMap.mp mem
  obtain ⟨row, -, mem⟩ := List.mem_flatMap.mp mem
  rcases List.mem_cons.mp mem with rfl | mem
  · cases writes
  · obtain ⟨text, -, rfl⟩ := List.mem_map.mp mem
    exact ⟨text, (Option.some.inj writes).symm⟩

/-- Behind the last element there are comments, and its separator if the look-ahead finds a line
break. -/
theorem mem_stretch {mark : Mark} (mem : mark ∈ written list.stretch) :
    (mark = .token list.separator ∧ list.breaks = true) ∨ ∃ text, mark = .comment text := by
  unfold stretch at mem
  split at mem
  · next breaks =>
    rw [written_append, written_token] at mem
    rcases List.mem_append.mp mem with before | mem
    · exact .inr (comment_of_mem_written before)
    · rcases List.mem_cons.mp mem with rfl | behind
      · exact .inl ⟨rfl, breaks⟩
      · exact .inr (comment_of_mem_written behind)
  · exact .inr (comment_of_mem_written mem)

theorem separator_mem_stretch (breaks : list.breaks = true) :
    .token list.separator ∈ written list.stretch := by
  rw [stretch, if_pos breaks, written_append, written_token]
  exact List.mem_append_right _ List.mem_cons_self

/-- What the look-ahead finds is printed between the separator and the token that closes the list. -/
theorem any_endsLine_of_breaks (breaks : list.breaks = true) :
    list.stretch.any Step.endsLine = true := by
  have found : list.rowsBehind.any CommentEntry.breaksLine = true := by
    obtain ⟨row, mem, breaksLine⟩ := List.any_eq_true.mp breaks
    exact List.any_eq_true.mpr ⟨row, mem_between_of_mem_ahead mem, breaksLine⟩
  rw [stretch, if_pos breaks, List.any_append, List.any_cons, any_endsLine_steps, any_endsLine_steps,
    found, Bool.or_true, Bool.or_true]

/-- Nothing asks for a line between the last element and the place of its separator. -/
structure EndsOnLine : Prop where
  settled : Settled list.opened.past
  still : ∀ row ∈ list.opened.table.takeWhile (·.offset ≤ list.offset), row.breaksLine = false

/-- If nothing in front of the separator ends a line, the look-ahead misses nothing. -/
theorem EndsOnLine.any_endsLine (ends : list.EndsOnLine) (breaks : list.breaks = false) :
    list.stretch.any Step.endsLine = false := by
  have quiet : list.rows.any CommentEntry.breaksLine = false := by
    rw [List.any_eq_false]
    intro row mem
    rw [Bool.not_eq_true]
    -- the look-ahead begins behind the separator, so rows in front of it are a case of their own
    rcases mem_takeWhile_or (p := (·.offset ≤ list.offset)) mem with before | ahead
    · exact ends.still row before
    · exact Bool.eq_false_iff.mpr fun breaksLine =>
        Bool.eq_false_iff.mp breaks (List.any_eq_true.mpr ⟨row, ahead, breaksLine⟩)
  rw [stretch, if_neg (by simp [breaks]), any_endsLine_steps, quiet]

/-- What is printed of a closed list, between what came up to its last element and what comes behind
the token that closes it. -/
structure Printed (marks : List Mark) (front between : List (Mark × Nat)) (feeds : Nat)
    (back : List (Mark × Nat)) : Prop where
  whole : spaced 0 marks = front ++ between ++ (.token list.closer.text, feeds) :: back
  came : front.map Prod.fst = (leads list.opened.past).map Lead.mark
  /-- Nothing but comments and a separator stands in front of the token. -/
  inside : ∀ item ∈ between, item.1 = .token list.separator ∨ ∃ text, item.1 = .comment text
  /-- A separator is there for a line that starts in front of the token or in front of a comment. -/
  needed : (∃ item ∈ between, item.1 = .token list.separator) →
    ∃ item ∈ between ++ [(.token list.closer.text, feeds)], 0 < item.2
  /-- Whenever a line starts there, the separator is there. -/
  present : list.EndsOnLine →
    (∃ item ∈ between ++ [(.token list.closer.text, feeds)], 0 < item.2) →
      ∃ item ∈ between, item.1 = .token list.separator

/-- What was printed from a stretch is what is printed of a closed list. -/
theorem printed_of_stretch {front between back : List (Mark × Nat)} {feeds : Nat}
    (whole : spaced 0 marks = front ++ between ++ (.token list.closer.text, feeds) :: back)
    (came : front.map Prod.fst = (leads list.opened.past).map Lead.mark)
    (brought : between.map Prod.fst = written list.stretch)
    (merged : List.Forall₂ Merged
      (leadsBehind list.opened.past (list.stretch ++ [.token list.closer.text]))
      (between ++ [(.token list.closer.text, feeds)]))
    (isSeen : seen list.opened.past = true) : list.Printed marks front between feeds back := by
  have held {item : Mark × Nat} (mem : item ∈ between) : item.1 ∈ written list.stretch :=
    brought ▸ List.mem_map_of_mem mem
  refine ⟨whole, came, fun item mem => ?_, ?_, ?_⟩
  · exact (list.mem_stretch (held mem)).imp_left And.left
  · rintro ⟨item, mem, isSeparator⟩
    rcases list.mem_stretch (held mem) with ⟨-, breaks⟩ | ⟨text, isComment⟩
    · obtain ⟨lead, mem, isSeen, breaksLine⟩ := exists_breaks isSeen list.closer.text
        (.inr (list.any_endsLine_of_breaks breaks))
      obtain ⟨item, mem, here⟩ := exists_of_mem_forall₂ merged mem
      exact ⟨item, mem, here.exact isSeen ▸ breaksLine⟩
    · rw [isSeparator] at isComment
      cases isComment
  · rintro ends ⟨item, mem, breaksLine⟩
    cases breaks : list.breaks with
    | false =>
      have still : (list.stretch ++ [Step.token list.closer.text]).any Step.endsLine = false := by
        rw [List.any_append, ends.any_endsLine list breaks]
        rfl
      obtain ⟨lead, mem, here⟩ := exists_of_forall₂_mem merged mem
      obtain ⟨isSeen, none⟩ := ends.settled.keepsLine still lead mem
      rw [here.exact isSeen, none] at breaksLine
      cases breaksLine
    | true =>
      have mem := list.separator_mem_stretch breaks
      rw [← brought] at mem
      exact List.mem_map.mp mem

/-- **Trailing separators.** If the last element of a list on one line has a separator, something
starts a line between the element and the token that closes the list.  If something starts a line
there, the element has a separator, unless a line was asked for in front of it. -/
theorem printed_marks (printed : Print.marks registry root table = .ok marks)
    (isSeen : seen list.opened.past = true) :
    ∃ front between feeds back, list.Printed marks front between feeds back := by
  obtain ⟨front, between, feeds, back, whole, came, brought, merged⟩ := list.exists_stretch printed
  exact ⟨front, between, feeds, back, list.printed_of_stretch whole came brought merged isSeen⟩

/-- A call with two arguments. -/
def pairedCall : Positional :=
  .node .callExpr ⟨0, 40⟩
    [.child (some (.node .ident ⟨0, 1⟩ [.token (some ⟨"f", ⟨0, 1⟩⟩)])),
     .token (some ⟨"(", ⟨10, 11⟩⟩),
     .list [.node .ident ⟨20, 21⟩ [.token (some ⟨"a", ⟨20, 21⟩⟩)],
        .node .ident ⟨30, 31⟩ [.token (some ⟨"b", ⟨30, 31⟩⟩)]] [⟨22, 23⟩],
     .token none, .token (some ⟨")", ⟨39, 40⟩⟩)]

/-- A block comment behind the last argument, and a line break behind that. -/
def pairedCallTable : List CommentEntry :=
  [⟨33, .sameLine, ["/* c */"]⟩, ⟨37, .newline, []⟩]

/-- The arguments of the call. -/
def pairedArguments : ClosedList .standard pairedCall pairedCallTable where
  node := pairedCall
  tokens := 0
  shape := _
  layout := _
  isList := rfl
  isInline := rfl
  separator := _
  isSeparated := rfl
  element := _
  elements := _
  separators := _
  vacant := [(_, .token none)]
  isVacant := by decide
  closing := _
  isClose := by decide
  closer := ⟨")", ⟨39, 40⟩⟩
  shapes := []
  slots := []
  script := _
  reached := Relation.ReflTransGen.refl |>.tail (.slots ..) |>.tail (.rest ..) |>.tail (.rest ..)

theorem printed_marks_pairedArguments :
    ∃ marks, Print.marks .standard pairedCall pairedCallTable = .ok marks ∧
      Print.finish marks = "f(a, b, /* c */\n)\n" ∧ pairedArguments.EndsOnLine ∧
      ∃ front between feeds back, pairedArguments.Printed marks front between feeds back := by
  have printed : Print.marks .standard pairedCall pairedCallTable =
      .ok [.token "f", .token "(", .token "a", .token ",", .space, .token "b", .token ",", .space,
        .comment "/* c */", .lineFeed, .token ")"] := by
    decide +kernel
  exact ⟨_, printed, by decide +kernel, ⟨⟨rfl, rfl, rfl⟩, by decide⟩,
    pairedArguments.printed_marks printed rfl⟩

end ClosedList

/-! ## Line feeds inside comments -/

/-- A call whose last separator has a comment over two lines behind it. -/
def crossingComment : String := "package p\n\nvar x = f(a, b, /* c\n d */)\n"

/-- A line feed inside a block comment is not foreseen: the list is closed on a later line, and its
last separator is gone. -/
theorem print_crossingComment :
    (parse crossingComment).diagnostics = [] ∧
      (decorate crossingComment >>= print).toOption =
        some "package p\n\nvar x = f(a, b /* c\n d */)\n" := by
  decide +kernel

end GoTrivia

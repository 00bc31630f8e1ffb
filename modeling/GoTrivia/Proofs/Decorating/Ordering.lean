import GoTrivia.Decorate.Fragment
import GoTrivia.Proofs.Grammar.Fitting
import GoTrivia.Proofs.Token.Lexing

/-!
# The fragments of a parsed tree in order

The fragments of the tree of a text come one behind the other, and each of them stands where
a token does: it is a token or a separator, or it marks the beginning or the end of one.

**Inserted semicolons.** A node ends with its last written token.  A semicolon that was
inserted at the end of a line and fills a slot still lies inside its node, because the
shapes with such slots go on with a child that has to be there (`sealed`).
-/

set_option autoImplicit false

namespace GoTrivia

open Positional

/-! ## Fragments between two offsets -/

/-- Fragments one behind the other between two offsets, all of them at certain places. -/
inductive Ranged (At : Span → Prop) : Nat → List Fragment → Nat → Prop
  | nil {low high : Nat} (le : low ≤ high) : Ranged At low [] high
  | cons {low high : Nat} {fragment : Fragment} {fragments : List Fragment}
      (place : At fragment.span) (begins : low ≤ fragment.span.start)
      (ordered : fragment.span.start ≤ fragment.span.stop)
      (rest : Ranged At fragment.span.stop fragments high) :
      Ranged At low (fragment :: fragments) high

namespace Ranged

variable {At : Span → Prop} {low middle high : Nat} {front back : List Fragment}

theorem le (ranged : Ranged At low front high) : low ≤ high := by
  induction ranged with
  | nil le => exact le
  | cons _ begins ordered _ ih => omega

theorem weaken (ranged : Ranged At middle back high) (begins : low ≤ middle) :
    Ranged At low back high := by
  cases ranged with
  | nil le => exact .nil (Nat.le_trans begins le)
  | cons place later ordered rest => exact .cons place (Nat.le_trans begins later) ordered rest

theorem append (first : Ranged At low front middle) (second : Ranged At middle back high) :
    Ranged At low (front ++ back) high := by
  induction first with
  | nil le => exact second.weaken le
  | cons place begins ordered _ ih => exact .cons place begins ordered (ih second)

/-- A place of a point. -/
theorem point {offset : Nat} (place : At (.point offset)) :
    Ranged At offset [.point (.point offset)] offset :=
  .cons place (Nat.le_refl _) (Nat.le_refl _) (.nil (Nat.le_refl _))

theorem places (ranged : Ranged At low front high) : ∀ fragment ∈ front, At fragment.span := by
  induction ranged with
  | nil _ => simp
  | cons place _ _ _ ih => exact List.forall_mem_cons.mpr ⟨place, ih⟩

theorem bounds (ranged : Ranged At low front high) :
    ∀ fragment ∈ front, low ≤ fragment.span.start ∧ fragment.span.start ≤ fragment.span.stop ∧
      fragment.span.stop ≤ high := by
  induction ranged with
  | nil _ => simp
  | cons _ begins ordered rest ih =>
    refine List.forall_mem_cons.mpr ⟨⟨begins, ordered, rest.le⟩, fun other mem => ?_⟩
    obtain ⟨later, behind⟩ := ih other mem
    exact ⟨by omega, behind⟩

/-- Each fragment ends in front of all that follow. -/
theorem pairwise (ranged : Ranged At low front high) :
    front.Pairwise fun fragment next => fragment.span.stop ≤ next.span.start := by
  induction ranged with
  | nil _ => exact .nil
  | cons _ _ _ rest ih => exact .cons (fun next mem => (rest.bounds next mem).1) ih

end Ranged

/-! ## Slots with semicolons -/

/-- Whether a filled slot for a child is among the given ones. -/
def hasChild (shapes : List AnchorShape) (present : List Bool) : Bool :=
  (shapes.zip present).any fun (shape, filled) => shape.slot == .child && filled

/-- Whether behind every filled slot for a semicolon there is a filled one for a child. -/
def sealed : List AnchorShape → List Bool → Bool
  | shape :: shapes, filled :: present =>
    (shape.slot != .token (.fixed ";") || !filled || hasChild shapes present) &&
      sealed shapes present
  | _, _ => true

theorem sealed_of_forall_ne {shapes : List AnchorShape}
    (others : shapes.all (fun shape => shape.slot != .token (.fixed ";")) = true)
    (present : List Bool) : sealed shapes present = true := by
  induction shapes generalizing present with
  | nil => rfl
  | cons shape shapes ih =>
    cases present with
    | nil => rfl
    | cons filled present =>
      rw [List.all_cons, Bool.and_eq_true] at others
      simp [sealed, others.1, ih others.2]

/-- The shapes in which a semicolon has a slot end with a child that has to be there. -/
theorem sealed_of_mayFill {kind : NodeKind} {present : List Bool}
    (lengths : (standardShape kind).anchors.length = present.length)
    (may : mayFill kind present = true) : sealed (standardShape kind).anchors present = true := by
  have conditional : ∀ a b c d e f g : Bool, mayFill .ifStmt [a, b, c, d, e, f, g] = true →
      sealed (standardShape .ifStmt).anchors [a, b, c, d, e, f, g] = true := by decide
  have loop : ∀ a b c d e f g : Bool, mayFill .forStmt [a, b, c, d, e, f, g] = true →
      sealed (standardShape .forStmt).anchors [a, b, c, d, e, f, g] = true := by decide
  have choice : ∀ a b c d e : Bool, mayFill .switchStmt [a, b, c, d, e] = true →
      sealed (standardShape .switchStmt).anchors [a, b, c, d, e] = true := by decide
  by_cases isIf : kind = .ifStmt
  · subst isIf
    match present, lengths with
    | [a, b, c, d, e, f, g], _ => exact conditional a b c d e f g may
  by_cases isFor : kind = .forStmt
  · subst isFor
    match present, lengths with
    | [a, b, c, d, e, f, g], _ => exact loop a b c d e f g may
  by_cases isSwitch : kind = .switchStmt
  · subst isSwitch
    match present, lengths with
    | [a, b, c, d, e], _ => exact choice a b c d e may
  refine sealed_of_forall_ne ?_ present
  cases kind <;> first | contradiction | decide

/-- Only a slot for semicolons takes one. -/
theorem TokenFits.eq_fixed {text : TokenText} (fits : TokenFits text .semicolon) :
    text = .fixed ";" := by
  cases text with
  | free => exact absurd rfl fits.1
  | fixed spelling =>
    have spelled : TokenKind.semicolon.spelling? = some spelling := fits
    rw [← Option.some.inj spelled]

/-- A child has a written token. -/
theorem SpellsSlots.visible : ∀ {kind : NodeKind} {shapes : List AnchorShape}
    {slots : List PositionalSlot} {tokens : List Token}, SpellsSlots kind shapes slots tokens →
    hasChild shapes (slots.map Slot.isPresent) = true →
    ∃ token ∈ tokens, token.isImplicit = false
  | _, _, _, _, .nil, found => by simp [hasChild] at found
  | _, shape :: _, _, _, .vacant empty rest, found => by
      refine rest.visible ?_
      have absent : (Slot.vacant shape.slot : PositionalSlot).isPresent = false := by
        cases shape.slot <;> rfl
      simpa [hasChild, empty, absent] using found
  | _, _, _, _, .token isToken _ _ rest, found => by
      obtain ⟨token, mem, shown⟩ := rest.visible (by simpa [hasChild, isToken] using found)
      exact ⟨token, by simp [mem], shown⟩
  | _, _, _, _, .child _ content _ _, _ => by
      obtain ⟨token, mem, shown⟩ := content.stopsAt.visible
      exact ⟨token, by simp [mem], shown⟩
  | _, _, _, _, .separated isList _ _ _ rest, found => by
      obtain ⟨token, mem, shown⟩ := rest.visible (by simpa [hasChild, isList] using found)
      exact ⟨token, by simp [mem], shown⟩
  | _, _, _, _, .terminated isList _ _ rest, found => by
      obtain ⟨token, mem, shown⟩ := rest.visible (by simpa [hasChild, isList] using found)
      exact ⟨token, by simp [mem], shown⟩

/-! ## Tokens between two offsets -/

/-- A span and its two ends are at certain places. -/
def Marked (At : Span → Prop) (span : Span) : Prop :=
  At span ∧ At (.point span.start) ∧ At (.point span.stop)

/-- Tokens one behind the other between two offsets.  Semicolons that were inserted may lie
behind the second one. -/
structure Between (At : Span → Prop) (low : Nat) (tokens : List Token) (high : Nat) : Prop where
  le : low ≤ high
  begins : ∀ token ∈ tokens, low ≤ token.span.start
  ends : ∀ token ∈ tokens, token.isImplicit = false → token.span.stop ≤ high
  apart : tokens.Pairwise fun token next => token.span.stop ≤ next.span.start
  ordered : ∀ token ∈ tokens, token.span.start ≤ token.span.stop
  marked : ∀ token ∈ tokens, Marked At token.span

namespace Between

variable {At : Span → Prop} {low high : Nat} {front tokens : List Token} {token : Token}

/-- What is left behind tokens that end at an offset. -/
theorem behind (between : Between At low (front ++ tokens) high) {stop : Nat}
    (stops : StopsAt front stop) : Between At stop tokens high := by
  obtain ⟨before, last, back, rfl, shown, -, rfl⟩ := stops
  obtain ⟨-, -, across⟩ := List.pairwise_append.mp between.apart
  refine ⟨between.ends last (by simp) shown, fun token mem => across last (by simp) token mem,
    fun token mem => between.ends token (by simp [mem]),
    (List.pairwise_append.mp between.apart).2.1,
    fun token mem => between.ordered token (by simp [mem]),
    fun token mem => between.marked token (by simp [mem])⟩

theorem tail (between : Between At low (token :: tokens) high) (inside : token.span.stop ≤ high) :
    Between At token.span.stop tokens high :=
  ⟨inside, fun next mem => List.rel_of_pairwise_cons between.apart mem,
    fun next mem => between.ends next (by simp [mem]), between.apart.of_cons,
    fun next mem => between.ordered next (by simp [mem]),
    fun next mem => between.marked next (by simp [mem])⟩

theorem skip (between : Between At low (token :: tokens) high) : Between At low tokens high :=
  ⟨between.le, fun next mem => between.begins next (by simp [mem]),
    fun next mem => between.ends next (by simp [mem]), between.apart.of_cons,
    fun next mem => between.ordered next (by simp [mem]),
    fun next mem => between.marked next (by simp [mem])⟩

/-- Leading tokens lie between the place where they begin and the one where they end. -/
theorem leading {first : Token} {stop : Nat} (between : Between At low (front ++ tokens) high)
    (begins : front.head? = some first) (stops : StopsAt front stop) :
    Between At first.span.start front stop := by
  obtain ⟨rest, rfl⟩ := List.head?_eq_some_iff.mp begins
  have apart := (List.pairwise_append.mp between.apart).1
  have ordered : ∀ token ∈ first :: rest, token.span.start ≤ token.span.stop :=
    fun token mem => between.ordered token (List.mem_append_left _ mem)
  have first_le : ∀ token ∈ first :: rest, first.span.start ≤ token.span.start := by
    refine List.forall_mem_cons.mpr ⟨Nat.le_refl _, fun token mem => ?_⟩
    have := ordered first (by simp)
    have : first.span.stop ≤ token.span.start := List.rel_of_pairwise_cons apart mem
    omega
  obtain ⟨before, last, back, split, shown, hidden, rfl⟩ := stops
  rw [split] at apart ordered first_le
  obtain ⟨-, -, across⟩ := List.pairwise_append.mp apart
  have lastOrdered := ordered last (by simp)
  refine split ▸ ⟨?_, first_le, ?_, apart, ordered, ?_⟩
  · have := first_le last (by simp)
    omega
  · intro token mem seen
    rcases List.mem_append.mp mem with early | late
    · have := across token early last (by simp)
      have := ordered token mem
      omega
    · rcases List.mem_cons.mp late with rfl | late
      · exact Nat.le_refl _
      · simp [hidden token late] at seen
  · intro token mem
    exact between.marked token (List.mem_append_left _ (split ▸ mem))

end Between

/-! ## Trees -/

section Trees

variable {At : Span → Prop}

/-- The places of the points around a tree. -/
theorem Spells.marked {tree : Positional} {tokens : List Token} (spells : Spells tree tokens)
    (marked : ∀ token ∈ tokens, Marked At token.span) :
    At (.point tree.info.start) ∧ At (.point tree.info.stop) := by
  obtain ⟨before, last, back, split, -, -, stop⟩ := spells.stopsAt
  obtain ⟨first, rest, begins⟩ := List.exists_cons_of_ne_nil spells.ne_nil
  rw [spells.start (by rw [begins]; rfl), ← stop]
  exact ⟨(marked first (by simp [begins])).2.1, (marked last (by simp [split])).2.2⟩

/-- What a tree takes from the tokens in front of others. -/
theorem Spells.between {tree : Positional} {front tokens : List Token} {low high : Nat}
    (spells : Spells tree front) (between : Between At low (front ++ tokens) high) :
    low ≤ tree.info.start ∧ Between At tree.info.start front tree.info.stop ∧
      Between At tree.info.stop tokens high := by
  obtain ⟨first, rest, begins⟩ := List.exists_cons_of_ne_nil spells.ne_nil
  have head : front.head? = some first := by rw [begins]; rfl
  rw [spells.start head]
  exact ⟨between.begins first (by simp [begins]), between.leading head spells.stopsAt,
    between.behind spells.stopsAt⟩

mutual
theorem Spells.ranged : ∀ {tree : Positional} {tokens : List Token}, Spells tree tokens →
    Between At tree.info.start tokens tree.info.stop →
    Ranged At tree.info.start tree.fragments tree.info.stop
  | _, _, .node content filled begins start stop below, between => by
      have places := (Spells.node content filled begins start stop below).marked between.marked
      have sound := sealed_of_mayFill (by simpa using content.fits.1) filled
      rw [fragments]
      exact (Ranged.point places.1).append
        ((content.ranged sound between).append (Ranged.point places.2))

theorem SpellsSlots.ranged : ∀ {kind : NodeKind} {shapes : List AnchorShape}
    {slots : List PositionalSlot} {tokens : List Token} {low high : Nat},
    SpellsSlots kind shapes slots tokens → sealed shapes (slots.map Slot.isPresent) = true →
    Between At low tokens high → Ranged At low (fragmentsSlots slots) high
  | _, _, _, _, _, _, .nil, _, between => by
      rw [fragmentsSlots]
      exact .nil between.le
  | _, shape :: _, _, _, _, _, .vacant empty rest, closed, between => by
      have none : ∀ slots, fragmentsSlots (.vacant shape.slot :: slots) = fragmentsSlots slots := by
        intro slots
        cases shape.slot <;> simp [Slot.vacant, fragmentsSlots, fragmentsElements]
      rw [empty, none]
      exact rest.ranged (by simpa [sealed] using (Bool.and_eq_true_iff.mp closed).2) between
  | _, shape :: _, _, token :: _, _, high, .token isToken fits _ rest, closed, between => by
      obtain ⟨here, later⟩ := Bool.and_eq_true_iff.mp closed
      have inside : token.span.stop ≤ high := by
        by_cases shown : token.isImplicit = false
        · exact between.ends token (by simp) shown
        -- An inserted semicolon has a child behind it, and so a written token.
        · have isSemicolon : token.kind = .semicolon := by
            by_contra other
            exact shown (isImplicit_of_kind other)
          have isFixed : shape.slot = .token (.fixed ";") := by
            rw [isSemicolon] at fits
            rw [isToken, fits.eq_fixed]
          obtain ⟨next, mem, seen⟩ := rest.visible (by simpa [isFixed] using here)
          have apart : token.span.stop ≤ next.span.start :=
            List.rel_of_pairwise_cons between.apart mem
          have := between.ordered next (by simp [mem])
          have := between.ends next (by simp [mem]) seen
          omega
      rw [fragmentsSlots]
      exact .cons (between.marked token (by simp)).1 (between.begins token (by simp))
        (between.ordered token (by simp)) (rest.ranged later (between.tail inside))
  | _, _, _, _, _, _, .child _ content _ rest, closed, between => by
      obtain ⟨begins, inside, behind⟩ := content.between between
      obtain ⟨-, later⟩ := Bool.and_eq_true_iff.mp closed
      rw [fragmentsSlots]
      exact ((content.ranged inside).weaken begins).append
        ((Ranged.point (content.marked inside.marked).2).append (rest.ranged later behind))
  | _, _, _, _, _, _, .separated _ _ content _ rest, closed, between => by
      obtain ⟨-, later⟩ := Bool.and_eq_true_iff.mp closed
      rw [fragmentsSlots]
      exact content.ranged between fun behind => rest.ranged later behind
  | _, _, _, _, _, _, .terminated _ _ content rest, closed, between => by
      obtain ⟨-, later⟩ := Bool.and_eq_true_iff.mp closed
      rw [fragmentsSlots]
      exact content.ranged between fun behind => rest.ranged later behind

theorem SpellsSeparated.ranged : ∀ {nodes : List Positional} {separators : List Span}
    {front tokens : List Token} {low high : Nat} {fragments : List Fragment},
    SpellsSeparated nodes separators front → Between At low (front ++ tokens) high →
    (∀ {low : Nat}, Between At low tokens high → Ranged At low fragments high) →
    Ranged At low (fragmentsElements separators nodes ++ fragments) high
  | _, _, _, _, _, _, _, .nil, between, following => by
      rw [fragmentsElements]
      exact following between
  | _, _, _, _, _, _, _, .last content _, between, following => by
      obtain ⟨begins, inside, behind⟩ := content.between between
      simp only [fragmentsElements, List.head?_nil, Option.map_none, Option.toList_none,
        List.append_nil]
      exact ((content.ranged inside).weaken begins).append (following behind)
  | _, _, _, _, _, _, _, @SpellsSeparated.cons _ _ comma _ _ _ content _ isComma rest, between,
    following => by
      rw [List.append_assoc] at between
      obtain ⟨begins, inside, behind⟩ := content.between between
      have shown : comma.isImplicit = false := isImplicit_of_kind (by simp [isComma])
      have further := rest.ranged (behind.tail (behind.ends comma (by simp) shown)) following
      simp only [fragmentsElements, List.head?_cons, Option.map_some, Option.toList_some,
        List.drop_one, List.tail_cons, List.append_assoc]
      exact ((content.ranged inside).weaken begins).append
        (.cons (behind.marked comma (by simp)).1 (behind.begins comma (by simp))
          (behind.ordered comma (by simp)) further)

theorem SpellsTerminated.ranged : ∀ {nodes : List Positional} {front tokens : List Token}
    {low high : Nat} {fragments : List Fragment}, SpellsTerminated nodes front →
    Between At low (front ++ tokens) high →
    (∀ {low : Nat}, Between At low tokens high → Ranged At low fragments high) →
    Ranged At low (fragmentsElements [] nodes ++ fragments) high
  | _, _, _, _, _, _, .nil, between, following => by
      rw [fragmentsElements]
      exact following between
  | _, _, _, _, _, _, .skip _ rest, between, following => rest.ranged between.skip following
  | _, _, _, _, _, _, .cons content rest, between, following => by
      rw [List.append_assoc] at between
      obtain ⟨begins, inside, behind⟩ := content.between between
      simp only [fragmentsElements, List.head?_nil, Option.map_none, Option.toList_none,
        List.append_nil, List.drop_nil, List.append_assoc]
      exact ((content.ranged inside).weaken begins).append (rest.ranged behind following)
end

/-- The fragments of a file lie between its beginning and its end. -/
theorem Grammar.SpellsFile.ranged {length : Nat} {tree : Positional} {tokens : List Token}
    (spells : SpellsFile length tree tokens) (lawful : Lawful tokens)
    (ended : ∀ last, tokens.getLast? = some last → last.span = .point length)
    (marked : ∀ token ∈ tokens, Marked At token.span) : Ranged At 0 tree.fragments length := by
  cases spells with
  | @file slots front first last content filled begins isEnd =>
    have closes : last.span = .point length := ended last (by simp)
    obtain ⟨apart, -, across⟩ := List.pairwise_append.mp lawful.ordered
    have ordered : ∀ token ∈ front, token.span.start ≤ token.span.stop := fun token mem =>
      (lawful.regular token (List.mem_append_left _ mem)).ordered
    have inside : ∀ token ∈ front, token.span.stop ≤ length := fun token mem => by
      have := across token mem last (by simp)
      rwa [closes] at this
    have mem : first ∈ front := List.mem_of_head? begins
    have early : first.span.start ≤ length := Nat.le_trans (ordered first mem) (inside first mem)
    have between : Between At first.span.start front length := by
      refine ⟨early, ?_, fun token mem _ => inside token mem, apart, ordered,
        fun token mem => marked token (List.mem_append_left _ mem)⟩
      obtain ⟨rest, rfl⟩ := List.head?_eq_some_iff.mp begins
      refine List.forall_mem_cons.mpr ⟨Nat.le_refl _, fun token mem => ?_⟩
      have := ordered first (by simp)
      have : first.span.stop ≤ token.span.start := List.rel_of_pairwise_cons apart mem
      omega
    have sound := sealed_of_mayFill (by simpa using content.fits.1) filled
    have atEnd : At (.point length) := closes ▸ (marked last (by simp)).1
    rw [fragments]
    simp only [Span.closing, Nat.max_eq_left early]
    refine Ranged.weaken ?_ (Nat.zero_le first.span.start)
    exact (Ranged.point (marked first (List.mem_append_left _ mem)).2.1).append
      ((content.ranged sound between).append (Ranged.point atEnd))

/-- **Fragments in order.** The fragments of the tree of a text come one behind the other, up
to the end of the text, at the places of tokens. -/
theorem ranged_parse {text : String} (clean : (parse text).diagnostics = [])
    (marked : ∀ token ∈ (lex text).tokens, Marked At token.span) :
    Ranged At 0 (parse text).tree.root.fragments (byteLength text.toList) := by
  have lawful := lawful_lex text
  have spells := spellsFile_parse lawful clean
  have ended : ∀ last, (lex text).tokens.getLast? = some last →
      last.span = .point (byteLength text.toList) := by
    intro last found
    obtain ⟨inner, ended, -⟩ := ended_lex text
    rw [ended, List.getLast?_concat] at found
    rw [← Option.some.inj found]
  exact spells.ranged lawful ended marked

end Trees

end GoTrivia

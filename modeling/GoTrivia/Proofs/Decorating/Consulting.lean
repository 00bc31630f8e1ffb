import GoTrivia.Proofs.Decorating.Checking
import GoTrivia.Proofs.Decorating.Gaps

/-!
# Which trees are not decorated

A source tree with a node that is not known, or whose slots are not of the right kinds, is
refused for the first such node.  Otherwise only an offset that lies on no line stops decorating,
and the first such offset is the reason given.  Not all offsets count.  A gap asks for the line
its fragment in front ends on, for the lines each comment starts and ends on, and for the line
the fragment behind it starts on, the latter only if there is something in front of that
fragment (`consulted`).  So the first fragment's start and the last fragment's end are asked for
only if comments stand there (`Asked`).
-/

set_option autoImplicit false

namespace GoTrivia

namespace CommentGap

variable {resolver : LineResolver} {α β : Type}

/-! ## The offsets a gap asks for -/

/-- The two ends of comments. -/
def endsOf (comments : List Lexeme) : List Nat :=
  comments.flatMap fun comment => [comment.span.start, comment.span.stop]

/-- The offset asked for in front of a gap. -/
def consultedBefore (prev : Option Fragment) : List Nat := (prev.map (·.span.stop)).toList

/-- The offset asked for behind a gap, if there is something to count lines from. -/
def consultedBehind (counts : Bool) (next : Option Fragment) : List Nat :=
  if counts then (next.map (·.span.start)).toList else []

/-- The offsets whose lines are asked for in a gap, in order. -/
def consulted (gap : CommentGap) : List Nat :=
  consultedBefore gap.prev ++ (endsOf gap.comments ++
    consultedBehind (gap.prev.isSome || !gap.comments.isEmpty) gap.next)

/-- The first of some offsets that lies on no line. -/
def unresolved? (resolver : LineResolver) (offsets : List Nat) : Option Nat :=
  offsets.find? fun offset => (resolver.lineOf? offset).isNone

/-- A step asks for the lines of offsets, one after the other, and fails at the first offset that
lies on no line but for no other reason. -/
def Asks (resolver : LineResolver) (offsets : List Nat) (step : Except TreeError α) : Prop :=
  match unresolved? resolver offsets with
  | some offset => step = .error (.unresolved offset)
  | none => ∃ value, step = .ok value

namespace Asks

theorem ok (value : α) : Asks resolver [] (.ok value : Except TreeError α) := ⟨value, rfl⟩

theorem lineOf (offset : Nat) : Asks resolver [offset] (lineOf resolver offset) := by
  unfold Asks unresolved? CommentGap.lineOf
  rw [List.find?_singleton]
  cases resolver.lineOf? offset with
  | none => rfl
  | some line => exact ⟨line, rfl⟩

theorem bind {first : Except TreeError α} {next : α → Except TreeError β} {offsets more : List Nat}
    (here : Asks resolver offsets first)
    (there : ∀ value, first = .ok value → Asks resolver more (next value)) :
    Asks resolver (offsets ++ more) (first >>= next) := by
  unfold Asks unresolved? at here ⊢
  rw [List.find?_append]
  cases found : offsets.find? fun offset => (resolver.lineOf? offset).isNone with
  | some offset =>
    rw [found] at here
    subst here
    rfl
  | none =>
    rw [found] at here
    obtain ⟨value, rfl⟩ := here
    exact there value rfl

theorem map {step : Except TreeError α} {offsets : List Nat} (next : α → β)
    (asks : Asks resolver offsets step) :
    Asks resolver offsets (step >>= fun value => .ok (next value)) :=
  List.append_nil offsets ▸ asks.bind fun value _ => .ok (next value)

variable {offsets : List Nat} {step : Except TreeError α}

theorem error_iff (asks : Asks resolver offsets step) {error : TreeError} :
    step = .error error ↔ ∃ offset, unresolved? resolver offsets = some offset ∧
      error = .unresolved offset := by
  unfold Asks at asks
  cases found : unresolved? resolver offsets with
  | some offset =>
    rw [found] at asks
    subst asks
    simp [eq_comm]
  | none =>
    rw [found] at asks
    obtain ⟨value, rfl⟩ := asks
    simp

theorem ok_iff (asks : Asks resolver offsets step) :
    (∃ value, step = .ok value) ↔ ∀ offset ∈ offsets, (resolver.lineOf? offset).isSome := by
  have resolved : unresolved? resolver offsets = none ↔
      ∀ offset ∈ offsets, (resolver.lineOf? offset).isSome := by
    simp [unresolved?, Option.isSome_iff_ne_none]
  rw [← resolved]
  unfold Asks at asks
  cases found : unresolved? resolver offsets with
  | some offset =>
    rw [found] at asks
    subst asks
    simp
  | none =>
    rw [found] at asks
    exact iff_of_true asks rfl

end Asks

/-! ## Assigning -/

theorem lineBefore_some (prev : Fragment) :
    lineBefore resolver (some prev) = lineOf resolver prev.span.stop >>= fun line => .ok (some line) := by
  rw [lineBefore]
  cases lineOf resolver prev.span.stop <;> rfl

theorem asks_lineBefore (prev : Option Fragment) :
    Asks resolver (consultedBefore prev) (lineBefore resolver prev) := by
  cases prev with
  | none => exact .ok none
  | some prev =>
    rw [lineBefore_some]
    exact (Asks.lineOf prev.span.stop).map some

theorem isSome_of_lineBefore {prev : Option Fragment} {line : Option Nat}
    (found : lineBefore resolver prev = .ok line) : line.isSome = prev.isSome := by
  cases prev with
  | none =>
    cases found
    rfl
  | some prev =>
    rw [lineBefore_some] at found
    obtain ⟨value, -, found⟩ := Except.bind_eq_ok.mp found
    cases found
    rfl

theorem asks_group (comments : List Lexeme) : ∀ (line : Option Nat) (groups : List TriviaGroup),
    Asks resolver (endsOf comments) (group resolver line groups comments) := by
  induction comments with
  | nil => exact fun line groups => .ok _
  | cons comment comments ih =>
    intro line groups
    unfold group
    show Asks resolver ([comment.span.start] ++ ([comment.span.stop] ++ endsOf comments)) _
    exact .bind (.lineOf comment.span.start) fun first _ => .bind (.lineOf comment.span.stop)
      fun last _ => ih _ _

/-- Behind comments there is a line to count from. -/
theorem isSome_of_group {comments : List Lexeme} : ∀ {line last : Option Nat}
    {groups groups' : List TriviaGroup},
    group resolver line groups comments = .ok (groups', last) →
      last.isSome = (line.isSome || !comments.isEmpty) := by
  induction comments with
  | nil =>
    intro line last groups groups' grouped
    cases grouped
    simp
  | cons comment comments ih =>
    intro line last groups groups' grouped
    unfold group at grouped
    obtain ⟨first, -, grouped⟩ := Except.bind_eq_ok.mp grouped
    obtain ⟨stop, -, grouped⟩ := Except.bind_eq_ok.mp grouped
    simp [ih grouped]

theorem asks_deltaBehind (line : Option Nat) (next : Option Fragment) :
    Asks resolver (consultedBehind line.isSome next) (deltaBehind resolver line next) := by
  cases line with
  | none => exact .ok 0
  | some line =>
    cases next with
    | none => exact .ok 0
    | some next => exact (Asks.lineOf next.span.start).map (· - line)

/-- Assigning a gap asks for its offsets and fails for nothing else. -/
theorem asks_assign (gap : CommentGap) : Asks resolver gap.consulted (gap.assign resolver) := by
  rw [assign_eq_bind]
  refine .bind (asks_lineBefore gap.prev) fun line before => .bind (asks_group gap.comments line [])
    fun grouped counted => .map _ ?_
  have counts : grouped.2.isSome = (line.isSome || !gap.comments.isEmpty) := isSome_of_group counted
  rw [isSome_of_lineBefore before] at counts
  exact counts ▸ asks_deltaBehind grouped.2 gap.next

/-- Assigning gaps asks for their offsets, gap by gap. -/
theorem asks_assignAll (gaps : List CommentGap) :
    Asks resolver (gaps.flatMap consulted) (assignAll resolver gaps).result := by
  induction gaps with
  | nil => exact .ok []
  | cons gap gaps ih =>
    rw [result_assignAll_cons]
    exact .bind (asks_assign gap) fun assignment _ => ih.map _

/-! ## The offsets all gaps ask for -/

/-- The comments behind the last of some fragments. -/
def beyondAll (fragments : List Fragment) (comments : List Lexeme) : List Lexeme :=
  fragments.foldl (fun comments fragment => beyond fragment.span.start comments) comments

theorem beyondAll_cons (fragment : Fragment) (fragments : List Fragment) (comments : List Lexeme) :
    beyondAll (fragment :: fragments) comments =
      beyondAll fragments (beyond fragment.span.start comments) := rfl

/-- The offsets that the fragments and the comments of a tree are asked for. -/
inductive Asked (fragments : List Fragment) (comments : List Lexeme) : Nat → Prop
  /-- Each comment starts on a line. -/
  | commentStart (comment : Lexeme) (mem : comment ∈ comments) :
      Asked fragments comments comment.span.start
  /-- Each comment ends on a line. -/
  | commentStop (comment : Lexeme) (mem : comment ∈ comments) :
      Asked fragments comments comment.span.stop
  /-- Each fragment but the first starts on a line. -/
  | start (fragment : Fragment) (mem : fragment ∈ fragments.tail) :
      Asked fragments comments fragment.span.start
  /-- Each fragment but the last ends on a line. -/
  | stop (fragment : Fragment) (mem : fragment ∈ fragments.dropLast) :
      Asked fragments comments fragment.span.stop
  /-- The first fragment starts on a line if comments stand in front of it. -/
  | firstStart (first : Fragment) (isFirst : fragments.head? = some first)
      (commented : inFront first.span.start comments ≠ []) :
      Asked fragments comments first.span.start
  /-- The last fragment ends on a line if comments are left behind it. -/
  | lastStop (last : Fragment) (isLast : fragments.getLast? = some last)
      (commented : beyondAll fragments comments ≠ []) : Asked fragments comments last.span.stop

theorem mem_endsOf {comments : List Lexeme} {offset : Nat} :
    offset ∈ endsOf comments ↔
      ∃ comment ∈ comments, offset = comment.span.start ∨ offset = comment.span.stop := by
  simp [endsOf]

theorem endsOf_inFront_beyond (start : Nat) (comments : List Lexeme) :
    endsOf (inFront start comments) ++ endsOf (beyond start comments) = endsOf comments := by
  rw [endsOf, endsOf, ← List.flatMap_append, inFront_append_beyond, endsOf]

/-- Behind a fragment, all ends of fragments count that are not the end of the last one. -/
theorem mem_consulted_behind {offset : Nat} : ∀ (fragments : List Fragment) (prev : Fragment)
    (comments : List Lexeme),
    offset ∈ (ofFragments (some prev) fragments comments).flatMap consulted ↔
      offset ∈ endsOf comments ∨ (∃ fragment ∈ fragments, offset = fragment.span.start) ∨
      (∃ fragment ∈ (prev :: fragments).dropLast, offset = fragment.span.stop) ∨
      ∃ last, (prev :: fragments).getLast? = some last ∧ beyondAll fragments comments ≠ [] ∧
        offset = last.span.stop
  | [], prev, [] => by simp [ofFragments, endsOf, beyondAll]
  | [], prev, comment :: comments => by
      simp [ofFragments, consulted, consultedBefore, consultedBehind, beyondAll, or_comm]
  | fragment :: fragments, prev, comments => by
      rw [ofFragments_cons, List.flatMap_cons, List.mem_append,
        mem_consulted_behind fragments fragment, ← endsOf_inFront_beyond fragment.span.start comments]
      have asked : offset ∈ (⟨some prev, some fragment, inFront fragment.span.start comments⟩ :
          CommentGap).consulted ↔ offset = prev.span.stop ∨
            offset ∈ endsOf (inFront fragment.span.start comments) ∨ offset = fragment.span.start := by
        simp [consulted, consultedBefore, consultedBehind]
      rw [asked, List.mem_append, List.dropLast_cons_cons, List.getLast?_cons_cons,
        beyondAll_cons]
      simp only [List.exists_mem_cons_iff]
      exact iff_of_eq (by ac_rfl)

/-- The offsets all gaps ask for. -/
theorem mem_consulted_iff {fragments : List Fragment} {comments : List Lexeme} {offset : Nat} :
    offset ∈ (ofFragments none fragments comments).flatMap consulted ↔
      Asked fragments comments offset := by
  have parts : offset ∈ (ofFragments none fragments comments).flatMap consulted ↔
      offset ∈ endsOf comments ∨ (∃ fragment ∈ fragments.tail, offset = fragment.span.start) ∨
      (∃ fragment ∈ fragments.dropLast, offset = fragment.span.stop) ∨
      (∃ first, fragments.head? = some first ∧ inFront first.span.start comments ≠ [] ∧
        offset = first.span.start) ∨
      ∃ last, fragments.getLast? = some last ∧ beyondAll fragments comments ≠ [] ∧
        offset = last.span.stop := by
    cases fragments with
    | nil =>
      cases comments <;> simp [ofFragments, consulted, consultedBefore, consultedBehind, endsOf]
    | cons first fragments =>
      have asked : offset ∈ (⟨none, some first, inFront first.span.start comments⟩ :
          CommentGap).consulted ↔ offset ∈ endsOf (inFront first.span.start comments) ∨
            inFront first.span.start comments ≠ [] ∧ offset = first.span.start := by
        cases inFront first.span.start comments <;>
          simp [consulted, consultedBefore, consultedBehind]
      rw [ofFragments_cons, List.flatMap_cons, List.mem_append, mem_consulted_behind, asked,
        ← endsOf_inFront_beyond first.span.start comments, List.mem_append]
      simp only [List.head?_cons, Option.some.injEq, exists_eq_left', List.tail_cons,
        beyondAll_cons]
      exact iff_of_eq (by ac_rfl)
  rw [parts]
  constructor
  · rintro (ends | ⟨fragment, mem, rfl⟩ | ⟨fragment, mem, rfl⟩ | ⟨first, isFirst, commented, rfl⟩ |
      ⟨last, isLast, commented, rfl⟩)
    · obtain ⟨comment, mem, rfl | rfl⟩ := mem_endsOf.mp ends
      · exact .commentStart comment mem
      · exact .commentStop comment mem
    · exact .start fragment mem
    · exact .stop fragment mem
    · exact .firstStart first isFirst commented
    · exact .lastStop last isLast commented
  · rintro (⟨comment, mem⟩ | ⟨comment, mem⟩ | ⟨fragment, mem⟩ | ⟨fragment, mem⟩ |
      ⟨first, isFirst, commented⟩ | ⟨last, isLast, commented⟩)
    · exact .inl (mem_endsOf.mpr ⟨comment, mem, .inl rfl⟩)
    · exact .inl (mem_endsOf.mpr ⟨comment, mem, .inr rfl⟩)
    · exact .inr (.inl ⟨fragment, mem, rfl⟩)
    · exact .inr (.inr (.inl ⟨fragment, mem, rfl⟩))
    · exact .inr (.inr (.inr (.inl ⟨first, isFirst, commented, rfl⟩)))
    · exact .inr (.inr (.inr (.inr ⟨last, isLast, commented, rfl⟩)))

end CommentGap

/-! ## Errors about shapes -/

/-- What is wrong with a tree and not with an offset. -/
def TreeError.IsShape : TreeError → Prop
  | .unknownShape _ => True
  | .mismatch _ _ _ => True
  | _ => False

theorem SlotTree.BreaksBy.isShape {ν τ σ : Type} {registry : Registry}
    {fits : Shape → AnchorShape → Slot ν τ σ → Prop}
    {breaks : Shape → AnchorShape → Slot ν τ σ → Mismatch → Prop} {node : SlotTree ν τ σ}
    {error : TreeError} (wrong : node.BreaksBy registry fits breaks error) : error.IsShape := by
  cases wrong <;> trivial

/-! ## Decorating -/

open SlotTree (Kinded Miskinded FirstOf unlessFault)

variable {registry : Registry} {resolver : LineResolver} {source : SourceTree}

/-- The offsets whose lines are asked for when a tree is decorated, gap by gap. -/
def SourceTree.consulted (source : SourceTree) (resolver : LineResolver) : List Nat :=
  (CommentGap.ofFragments none (source.resolved resolver).fragments source.comments).flatMap
    CommentGap.consulted

theorem unlessFault_eq_ok {nodes : List Positional} :
    unlessFault (SlotTree.kindFault? registry) nodes () = .ok () ↔
      ∀ node ∈ nodes, Kinded registry node :=
  (SlotTree.unlessFault_eq_ok_iff fun _ => SlotTree.kindFault?_eq_none_iff).trans
    (and_iff_left rfl)

theorem unlessFault_eq_error {nodes : List Positional} {error : TreeError} :
    unlessFault (SlotTree.kindFault? registry) nodes () = .error error ↔
      FirstOf (Kinded registry) (Miskinded registry) nodes error :=
  SlotTree.unlessFault_eq_error_iff (fun _ => SlotTree.kindFault?_eq_none_iff)
    fun _ _ => SlotTree.kindFault?_eq_some_iff

/-- Decorating checks all nodes, then assigns all comments, and fails at nothing else. -/
theorem result_decorate : (source.decorate registry resolver).result =
    unlessFault (SlotTree.kindFault? registry) source.root.preorder () >>= fun _ =>
      (CommentGap.assignAll resolver
        (CommentGap.ofFragments none (source.resolved resolver).fragments source.comments)).result >>=
          fun assignments => .ok ⟨(Decorate.rebuild registry source.root
            (CommentGap.decorations none assignments)).1, source.metadata⟩ := by
  unfold SourceTree.decorate unlessFault
  cases source.root.preorder.findSome? (SlotTree.kindFault? registry) with
  | some error => rfl
  | none =>
    show Except.map _ (CommentGap.assignAll resolver _).result = (CommentGap.assignAll resolver _).result >>= _
    cases (CommentGap.assignAll resolver (CommentGap.ofFragments none
      (source.resolved resolver).fragments source.comments)).result <;> rfl

theorem asks_decorate (kinded : ∀ node ∈ source.root.preorder, Kinded registry node) :
    CommentGap.Asks resolver (source.consulted resolver) (source.decorate registry resolver).result := by
  rw [result_decorate, unlessFault_eq_ok.mpr kinded]
  exact (CommentGap.asks_assignAll _).map _

theorem SourceTree.mem_consulted {offset : Nat} : offset ∈ source.consulted resolver ↔
    CommentGap.Asked (source.resolved resolver).fragments source.comments offset :=
  CommentGap.mem_consulted_iff

/-- Either all nodes pass, or there is a first one that does not. -/
theorem kinded_or_firstOf (registry : Registry) (nodes : List Positional) :
    (∀ node ∈ nodes, Kinded registry node) ∨
      ∃ error, FirstOf (Kinded registry) (Miskinded registry) nodes error := by
  cases checked : unlessFault (SlotTree.kindFault? registry) nodes () with
  | ok result => exact .inl (unlessFault_eq_ok.mp checked)
  | error error => exact .inr ⟨error, unlessFault_eq_error.mp checked⟩

/-- Where there is a first node that does not pass, not all nodes pass. -/
theorem exists_not_kinded {nodes : List Positional} {error : TreeError}
    (first : FirstOf (Kinded registry) (Miskinded registry) nodes error) :
    ∃ node ∈ nodes, ¬Kinded registry node := by
  obtain ⟨front, one, back, rfl, -, wrong⟩ := first
  refine ⟨one, by simp, fun kinded => ?_⟩
  have none := SlotTree.kindFault?_eq_none_iff.mpr kinded
  rw [SlotTree.kindFault?_eq_some_iff.mpr wrong] at none
  cases none

theorem SlotTree.FirstOf.isShape {nodes : List Positional} {error : TreeError}
    (first : FirstOf (Kinded registry) (Miskinded registry) nodes error) : error.IsShape := by
  obtain ⟨_, _, _, _, _, wrong⟩ := first
  exact wrong.isShape

/-- The reasons why a source tree is not decorated. -/
theorem decorate_eq_error_iff {error : TreeError} :
    (source.decorate registry resolver).result = .error error ↔
      FirstOf (Kinded registry) (Miskinded registry) source.root.preorder error ∨
      (∀ node ∈ source.root.preorder, Kinded registry node) ∧
        ∃ offset, CommentGap.unresolved? resolver (source.consulted resolver) = some offset ∧
          error = .unresolved offset := by
  rcases kinded_or_firstOf registry source.root.preorder with kinded | ⟨found, first⟩
  · have none : ¬FirstOf (Kinded registry) (Miskinded registry) source.root.preorder error := by
      intro first
      obtain ⟨node, mem, wrong⟩ := exists_not_kinded first
      exact wrong (kinded node mem)
    rw [(asks_decorate kinded).error_iff, or_iff_right none, and_iff_right kinded]
  · have notAll : ¬∀ node ∈ source.root.preorder, Kinded registry node := by
      obtain ⟨node, mem, wrong⟩ := exists_not_kinded first
      exact fun kinded => wrong (kinded node mem)
    have checked := unlessFault_eq_error.mpr first
    rw [result_decorate, or_iff_left (fun both => notAll both.1), ← unlessFault_eq_error, checked]
    exact ⟨fun same => congrArg _ (Except.error.inj same), fun same => congrArg _ (Except.error.inj same)⟩

/-- When a source tree is decorated. -/
theorem exists_decorate_iff : (∃ tree, (source.decorate registry resolver).result = .ok tree) ↔
    (∀ node ∈ source.root.preorder, Kinded registry node) ∧
      ∀ offset ∈ source.consulted resolver, (resolver.lineOf? offset).isSome := by
  rcases kinded_or_firstOf registry source.root.preorder with kinded | ⟨found, first⟩
  · rw [(asks_decorate kinded).ok_iff, and_iff_right kinded]
  · obtain ⟨node, mem, wrong⟩ := exists_not_kinded first
    refine iff_of_false ?_ fun both => wrong (both.1 node mem)
    rintro ⟨tree, decorated⟩
    cases decorated.symm.trans (decorate_eq_error_iff.mpr (.inl first))

/-- When decorating a source tree fails, and how. -/
structure DecorateOutcome (registry : Registry) (resolver : LineResolver) (source : SourceTree) :
    Prop where
  /-- A tree is refused for its shape if some node does not pass. -/
  misshapen : (∃ error, error.IsShape ∧ (source.decorate registry resolver).result = .error error) ↔
    ∃ node ∈ source.root.preorder, ¬Kinded registry node
  /-- The reason is what is wrong with the first such node, whatever the resolver does. -/
  first : ∀ error, error.IsShape → ((source.decorate registry resolver).result = .error error ↔
    FirstOf (Kinded registry) (Miskinded registry) source.root.preorder error)
  /-- Otherwise it is refused if an offset that is asked for lies on no line. -/
  unresolved : (∃ offset, (source.decorate registry resolver).result = .error (.unresolved offset)) ↔
    (∀ node ∈ source.root.preorder, Kinded registry node) ∧
      ∃ offset, CommentGap.Asked (source.resolved resolver).fragments source.comments offset ∧
        resolver.lineOf? offset = none
  /-- The reason is the first of these offsets that lies on no line, gap by gap. -/
  firstUnresolved : ∀ offset, (source.decorate registry resolver).result =
    .error (.unresolved offset) → CommentGap.unresolved? resolver (source.consulted resolver) = some offset
  /-- What is asked for gap by gap are these offsets. -/
  asked : ∀ offset, offset ∈ source.consulted resolver ↔
    CommentGap.Asked (source.resolved resolver).fragments source.comments offset
  /-- In all other cases the tree is decorated. -/
  decorated : (∃ tree, (source.decorate registry resolver).result = .ok tree) ↔
    (∀ node ∈ source.root.preorder, Kinded registry node) ∧
      ∀ offset, CommentGap.Asked (source.resolved resolver).fragments source.comments offset →
        (resolver.lineOf? offset).isSome
  /-- Checking the nodes once more when the tree is built up finds nothing. -/
  rebuilt : (∀ node ∈ source.root.preorder, Kinded registry node) → ∀ supply,
    Decorate.checkedRebuild registry source.root supply =
      .ok (Decorate.rebuild registry source.root supply)

/-- **Refusing.** A source tree is refused for the first node that does not pass, or else for the
first offset that is asked for and lies on no line, and for nothing else. -/
theorem decorate_outcome (registry : Registry) (resolver : LineResolver) (source : SourceTree) :
    DecorateOutcome registry resolver source where
  misshapen := by
    constructor
    · rintro ⟨error, isShape, refused⟩
      obtain first | ⟨-, offset, -, rfl⟩ := decorate_eq_error_iff.mp refused
      · exact exists_not_kinded first
      · exact isShape.elim
    · rintro ⟨node, mem, wrong⟩
      obtain kinded | ⟨error, first⟩ := kinded_or_firstOf registry source.root.preorder
      · exact absurd (kinded node mem) wrong
      · exact ⟨error, first.isShape, decorate_eq_error_iff.mpr (.inl first)⟩
  first := by
    intro error isShape
    refine ⟨fun refused => ?_, fun first => decorate_eq_error_iff.mpr (.inl first)⟩
    obtain first | ⟨-, offset, -, rfl⟩ := decorate_eq_error_iff.mp refused
    · exact first
    · exact isShape.elim
  unresolved := by
    simp only [← SourceTree.mem_consulted]
    constructor
    · rintro ⟨offset, refused⟩
      obtain first | ⟨kinded, _, found, ⟨⟩⟩ := decorate_eq_error_iff.mp refused
      · exact first.isShape.elim
      · exact ⟨kinded, offset, List.mem_of_find?_eq_some found, by simpa using List.find?_some found⟩
    · rintro ⟨kinded, offset, mem, lost⟩
      have found : (CommentGap.unresolved? resolver (source.consulted resolver)).isSome :=
        List.find?_isSome.mpr ⟨offset, mem, by simp [lost]⟩
      obtain ⟨first, found⟩ := Option.isSome_iff_exists.mp found
      exact ⟨first, decorate_eq_error_iff.mpr (.inr ⟨kinded, first, found, rfl⟩)⟩
  firstUnresolved := by
    intro offset refused
    obtain first | ⟨-, _, found, ⟨⟩⟩ := decorate_eq_error_iff.mp refused
    · exact first.isShape.elim
    · exact found
  asked _ := SourceTree.mem_consulted
  decorated := by
    simp only [← SourceTree.mem_consulted]
    exact exists_decorate_iff
  rebuilt kinded supply := Decorate.checkedRebuild_eq source.root supply fun node mem =>
    SlotTree.kindFault?_eq_none_iff.mpr (kinded node mem)

/-- A name with a comment in front of it. -/
def commentedName : SourceTree where
  root := .node .ident ⟨8, 9⟩ [.token (some ⟨"a", ⟨8, 9⟩⟩)]
  comments := [⟨"/* a */", ⟨0, 7⟩⟩]
  metadata := .empty

/-- Places offsets on one line as far as the comment reaches, and the name one byte further. -/
def untilName : LineResolver where
  lineOf? offset := if offset ≤ 7 then some 0 else none
  resolve node := ⟨node.span.start + 1, node.span.stop + 1⟩

/-- A resolver that places the comment but not the name refuses the tree where the name is found
to start, which it is asked for because of the comment. -/
theorem decorate_outcome_commentedName :
    (commentedName.decorate .standard untilName).result = .error (.unresolved 9) ∧
      CommentGap.Asked (commentedName.resolved untilName).fragments commentedName.comments 9 := by
  have outcome := decorate_outcome .standard untilName commentedName
  have mem : 9 ∈ commentedName.consulted untilName := by decide +kernel
  have asked := (outcome.asked 9).mp mem
  have kinded : ∀ node ∈ commentedName.root.preorder, Kinded .standard node := fun node inside =>
    SlotTree.kindFault?_eq_none_iff.mp (by
      have : ∀ node ∈ commentedName.root.preorder,
        SlotTree.kindFault? .standard node = none := by decide +kernel
      exact this node inside)
  obtain ⟨offset, refused⟩ := outcome.unresolved.mpr ⟨kinded, 9, asked, rfl⟩
  have first := outcome.firstUnresolved offset refused
  have isNine : CommentGap.unresolved? untilName (commentedName.consulted untilName) = some 9 := by
    decide +kernel
  obtain rfl := Option.some.inj (first.symm.trans isNine)
  exact ⟨refused, asked⟩

end GoTrivia

import GoTrivia.Proofs.Grammar.AbreastTypes
import GoTrivia.Proofs.Grammar.GrowingLists

/-!
# How parameter lists grow

Grouping entries into fields moves the commas between them: those behind an entry with a type
go between the fields, those behind a name without one between the names of a field.  Names
that are still without a type at the end of the list are fields of their own, and their commas
go back between the fields.

What is waiting for a type begins in front of any type to come, so a field ends where its type
does, and the comma behind the type is the comma behind the field (`Param.Reaches`).
-/

set_option autoImplicit false

namespace GoTrivia

namespace Grammar

/-! ## Lists that end with fields -/

namespace Elements

variable {whole : List Token} {list : Elements} {node : Positional} {separator : Option Span}

@[simp]
theorem separators_separateBy (list : Elements) (separator : Option Span) :
    (list.separateBy separator).separators = list.separators ++ separator.toList := by
  cases separator with
  | none => exact (List.append_nil _).symm
  | some span => rfl

theorem Closed.pushBy (closed : list.Closed whole)
    (behind : ∀ span, separator = some span → Behind whole node span) :
    CommaSeparated whole ((list.push node).separateBy separator).nodes
      ((list.push node).separateBy separator).separators := by
  have hangs := closed.push node
  cases separator with
  | none => exact hangs.commas
  | some span => exact (hangs.separate (behind span rfl)).commas

theorem Closed.pushClosed (closed : list.Closed whole)
    (behind : ∀ span, separator = some span → Behind whole node span) (some : separator ≠ none) :
    ((list.push node).separateBy separator).Closed whole := by
  obtain ⟨span, rfl⟩ := Option.ne_none_iff_exists'.mp some
  exact (closed.push node).separate (behind span rfl)

theorem Grows.separateBy {count least : Nat} {place : Place}
    (grows : list.Grows whole count place least) :
    (list.separateBy separator).Grows whole count place least := by
  unfold Grows
  rwa [nodes_separateBy]

end Elements

/-! ## Entries in a list -/

/-- What an entry ends with. -/
def Param.last (entry : Param) : Positional := entry.type.getD entry.first

/-- An entry with a comma ends behind an offset. -/
def Param.Reaches (offset : Nat) (entry : Param) : Prop :=
  entry.separator ≠ none → offset ≤ entry.last.span.stop

/-- An entry whose trees the grammar may put there, with its comma. -/
structure Param.Sits (whole : List Token) (count : Nat) (entry : Param) : Prop where
  first : Grown whole count .type 0 entry.first
  type : ∀ type, entry.type = some type → Grown whole count .type 0 type
  behind : ∀ span, entry.separator = some span → Behind whole entry.last span
  reaches : entry.Reaches entry.first.span.start

/-- Entries in order with a comma behind each but the last. -/
structure Entered (whole : List Token) (count : Nat) (entries : List Param) : Prop where
  sits : ∀ entry ∈ entries, entry.Sits whole count
  ordered : entries.Pairwise fun entry later =>
    entry.separator ≠ none ∧ later.Reaches entry.first.span.start

variable {whole : List Token} {count count' : Nat} {entries : List Param} {entry : Param}
  {names list : Elements} {type : Positional} {origin state : ParseState}

theorem Param.Sits.mono (sits : entry.Sits whole count) (le : count ≤ count') :
    entry.Sits whole count' :=
  ⟨sits.first.mono le, fun type isType => (sits.type type isType).mono le, sits.behind,
    sits.reaches⟩

theorem Entered.mono (entered : Entered whole count entries) (le : count ≤ count') :
    Entered whole count' entries :=
  ⟨fun entry mem => (entered.sits entry mem).mono le, entered.ordered⟩

theorem Entered.tail (entered : Entered whole count (entry :: entries)) :
    Entered whole count entries :=
  ⟨fun entry mem => entered.sits entry (.tail _ mem), entered.ordered.tail⟩

theorem Entered.separator_ne (entered : Entered whole count (entry :: entries))
    (more : entries ≠ []) : entry.separator ≠ none := by
  obtain ⟨next, rest, rfl⟩ := List.exists_cons_of_ne_nil more
  exact (List.rel_of_pairwise_cons entered.ordered List.mem_cons_self).1

/-! ## Fields -/

theorem grown_fieldOf (grows : names.Grows whole count .type 0)
    (separated : CommaSeparated whole names.nodes names.separators)
    (grown : Grown whole count .type 0 type) : Grown whole count .type 0 (fieldOf names type) :=
  Fills.grown (.cons (.commas (fun _ => grows) (Nat.le_refl _) separated rfl rfl rfl) <|
    .cons (.child grown (Nat.le_refl _) (Nat.zero_le _)) <| .cons .childless .nil) rfl

/-- The comma behind a type is the comma behind its field. -/
theorem Behind.fieldOf {separator : Span} (behind : Behind whole type separator)
    (reaches : ∀ name ∈ names.nodes, name.span.start ≤ type.span.stop) :
    Behind whole (fieldOf names type) separator := by
  obtain ⟨ordered, front, last, comma, back, split, isComma, same, shown, stop⟩ := behind
  refine ⟨Span.start_le_stop_closing _ _, front, last, comma, back, split, isComma, same, shown, ?_⟩
  have le : ((names.nodes.head?.map Positional.span).getD type.span).start ≤ type.span.stop := by
    cases filled : names.nodes with
    | nil => exact ordered
    | cons name rest => exact reaches name (by simp [filled])
  rw [stop]
  exact (Nat.max_eq_left le).symm

/-- What grouping entries has come to: names that wait for their type and fields, both with a
comma at their end as long as there are entries. -/
structure Gathering (whole : List Token) (count : Nat) (entries : List Param)
    (names list : Elements) : Prop where
  namesGrow : names.Grows whole count .type 0
  listGrow : list.Grows whole count .type 0
  namesCommas : CommaSeparated whole names.nodes names.separators
  listCommas : CommaSeparated whole list.nodes list.separators
  namesClosed : entries ≠ [] → names.Closed whole
  listClosed : entries ≠ [] ∨ names.nodes ≠ [] → list.Closed whole
  reaches : ∀ name ∈ names.nodes, ∀ entry ∈ entries, entry.Reaches name.span.start

theorem Gathering.mono (gathering : Gathering whole count entries names list)
    (le : count ≤ count') : Gathering whole count' entries names list :=
  { gathering with
    namesGrow := gathering.namesGrow.mono le
    listGrow := gathering.listGrow.mono le }

theorem Gathering.empty : Gathering whole count entries .empty .empty where
  namesGrow := Elements.grows_empty
  listGrow := Elements.grows_empty
  namesCommas := Elements.closed_empty.commas
  listCommas := Elements.closed_empty.commas
  namesClosed _ := Elements.closed_empty
  listClosed _ := Elements.closed_empty
  reaches _ mem := nomatch mem

/-- A name that waits for its type. -/
theorem Gathering.wait (gathering : Gathering whole count (entry :: entries) names list)
    (entered : Entered whole count (entry :: entries)) (untyped : entry.type = none) :
    Gathering whole count entries ((names.push entry.first).separateBy entry.separator) list := by
  have sits := entered.sits entry List.mem_cons_self
  have closed := gathering.namesClosed (List.cons_ne_nil _ _)
  have behind : ∀ span, entry.separator = some span → Behind whole entry.first span := by
    have last : entry.last = entry.first := by rw [Param.last, untyped, Option.getD_none]
    exact last ▸ sits.behind
  refine ⟨(gathering.namesGrow.push sits.first).separateBy, gathering.listGrow, closed.pushBy behind,
    gathering.listCommas, fun more => closed.pushClosed behind (entered.separator_ne more),
    fun _ => gathering.listClosed (.inl (List.cons_ne_nil _ _)), fun name mem later isLater => ?_⟩
  rw [Elements.nodes_separateBy] at mem
  rcases List.mem_append.mp mem with mem | mem
  · exact gathering.reaches name mem later (.tail _ isLater)
  · obtain rfl := List.mem_singleton.mp mem
    exact (List.rel_of_pairwise_cons entered.ordered isLater).2

/-- A type, and with it a field of the names that waited. -/
theorem Gathering.field (gathering : Gathering whole count (entry :: entries) names list)
    (entered : Entered whole count (entry :: entries)) (typed : entry.type = some type) :
    Gathering whole count entries .empty
      ((list.push (fieldOf (names.push entry.first) type)).separateBy entry.separator) := by
  have sits := entered.sits entry List.mem_cons_self
  have namesClosed := gathering.namesClosed (List.cons_ne_nil _ _)
  have listClosed := gathering.listClosed (.inl (List.cons_ne_nil _ _))
  have last : entry.last = type := by rw [Param.last, typed, Option.getD_some]
  have field := grown_fieldOf (gathering.namesGrow.push sits.first) (namesClosed.push _).commas
    (sits.type type typed)
  have behind : ∀ span, entry.separator = some span →
      Behind whole (fieldOf (names.push entry.first) type) span := by
    intro span isSpan
    refine (last ▸ sits.behind span isSpan).fieldOf fun name mem => ?_
    have some : entry.separator ≠ none := by simp [isSpan]
    rw [← last]
    rcases List.mem_append.mp mem with mem | mem
    · exact gathering.reaches name mem entry List.mem_cons_self some
    · obtain rfl := List.mem_singleton.mp mem
      exact sits.reaches some
  refine ⟨Elements.grows_empty, (gathering.listGrow.push field).separateBy,
    Elements.closed_empty.commas, listClosed.pushBy behind, fun _ => Elements.closed_empty,
    fun more => ?_, fun _ mem => nomatch mem⟩
  exact listClosed.pushClosed behind (entered.separator_ne (more.resolve_right fun some => some rfl))

/-! ## Grouping -/

/-- A list with fields for the rest of some entries or names. -/
def Completes (whole : List Token) (count : Nat) (list : Elements) : Prop :=
  list.Grows whole count .type 0 ∧ CommaSeparated whole list.nodes list.separators

theorem completes_unnamedParams (entered : Entered whole count entries)
    (bare : ∀ entry ∈ entries, entry.type = none) (grows : list.Grows whole count .type 0)
    (separated : CommaSeparated whole list.nodes list.separators)
    (closed : entries ≠ [] → list.Closed whole) :
    Completes whole count (unnamedParams entries list) := by
  induction entries generalizing list with
  | nil => exact ⟨grows, separated⟩
  | cons entry entries ih =>
    have sits := entered.sits entry List.mem_cons_self
    have closed := closed (List.cons_ne_nil _ _)
    have field := grown_fieldOf Elements.grows_empty Elements.closed_empty.commas sits.first
    have last : entry.last = entry.first := by
      rw [Param.last, bare entry List.mem_cons_self, Option.getD_none]
    have behind : ∀ span, entry.separator = some span →
        Behind whole (fieldOf .empty entry.first) span :=
      fun span isSpan => (last ▸ sits.behind span isSpan).fieldOf fun _ mem => nomatch mem
    exact ih entered.tail (fun entry mem => bare entry (.tail _ mem))
      (grows.push field).separateBy (closed.pushBy behind) fun more =>
        closed.pushClosed behind (entered.separator_ne more)

theorem completes_strayNames {nodes : List Positional} {separators : List Span}
    (grows : ∀ node ∈ nodes, Grown whole count .type 0 node)
    (separated : CommaSeparated whole nodes separators) (done : list.Grows whole count .type 0)
    (closed : list.Closed whole) : Completes whole count (strayNames nodes separators list) := by
  obtain ⟨front, rest, rfl, short, behind⟩ := separated
  induction behind generalizing list with
  | nil =>
    match rest, short with
    | [], _ => exact ⟨done, closed.commas⟩
    | [name], _ =>
      have field := grown_fieldOf Elements.grows_empty Elements.closed_empty.commas
        (grows name (by simp))
      exact ⟨done.push field, (closed.push _).commas⟩
  | @cons name separator front separators first _ ih =>
    have field := grown_fieldOf Elements.grows_empty Elements.closed_empty.commas
      (grows name (by simp))
    have behind : Behind whole (fieldOf .empty name) separator :=
      first.fieldOf fun _ mem => nomatch mem
    exact ih (done.push field) ((closed.push _).separate behind)
      fun node mem => grows node (.tail _ mem)

/-- A list that grouping gives, after which the same tokens are ahead. -/
def Groups (origin state : ParseState) (list : Elements) (after : ParseState) : Prop :=
  Listing origin .type 0 list after ∧ Same state after

theorem leads_namedParams (stands : Stands origin state)
    (entered : Entered origin.tokens state.diagnostics.length entries)
    (gathering : Gathering origin.tokens state.diagnostics.length entries names list) :
    Leads origin (Groups origin state) (namedParams entries names list) state := by
  induction entries generalizing names list state with
  | nil =>
    unfold namedParams
    split
    · exact .pure stands ⟨⟨gathering.listGrow, gathering.listCommas⟩, rfl⟩
    · next name rest filled =>
      refine .bind (.reportAt stands) fun {_ middle} stands _ le same => .pure stands ?_
      have stray := gathering.mono le
      have completes := completes_strayNames stray.namesGrow stray.namesCommas stray.listGrow
        (stray.listClosed (.inr (by simp [filled])))
      exact ⟨⟨completes.1, completes.2⟩, same.1⟩
  | cons entry entries ih =>
    -- A report about the name leaves the rest as it is.
    have kept : ∀ {now list after}, Same state now → Groups origin now list after →
        Groups origin state list after :=
      fun same groups => ⟨groups.1, by rw [Same, groups.2, same]⟩
    unfold namedParams
    cases typed : entry.type with
    | some type =>
      have field := fun {now} (stands : Stands origin now)
          (le : state.diagnostics.length ≤ now.diagnostics.length) =>
        ih stands (entered.mono le).tail ((gathering.mono le).field (entered.mono le) typed)
      refine .ite (fun _ => ?_) fun _ => field stands (Nat.le_refl _)
      exact .bind (.reportAt stands) fun stands _ le same =>
        (field stands le).imp fun _ _ _ => kept same.1
    | none =>
      have wait := fun {now} (stands : Stands origin now)
          (le : state.diagnostics.length ≤ now.diagnostics.length) =>
        ih stands (entered.mono le).tail ((gathering.mono le).wait (entered.mono le) typed)
      refine .ite (fun _ => ?_) fun _ => wait stands (Nat.le_refl _)
      exact .bind (.reportAt stands) fun stands _ le same =>
        (wait stands le).imp fun _ _ _ => kept same.1

theorem leads_groupParams (stands : Stands origin state)
    (entered : Entered origin.tokens state.diagnostics.length entries) :
    Leads origin (Groups origin state) (groupParams entries) state := by
  unfold groupParams
  refine .ite (fun bare => ?_) fun _ => leads_namedParams stands entered .empty
  have completes := completes_unnamedParams entered (by simpa using bare) Elements.grows_empty
    Elements.closed_empty.commas fun _ => Elements.closed_empty
  exact .pure stands ⟨⟨completes.1, completes.2⟩, rfl⟩

/-! ## Reading entries -/

/-- An entry without its comma, and what a comma in line is behind. -/
structure Entering (origin : ParseState) (entry : Positional × Option Positional)
    (after : ParseState) : Prop where
  first : Grown origin.tokens after.diagnostics.length .type 0 entry.1
  type : ∀ type, entry.2 = some type → Grown origin.tokens after.diagnostics.length .type 0 type
  rests : Rests origin (entry.2.getD entry.1) after
  since : entry.1.span.start ≤ after.current.span.start
  reaches : after.current.kind = .comma → entry.1.span.start ≤ (entry.2.getD entry.1).span.stop

section Reading

variable {closer : TokenKind} {element : Parse Positional}

theorem leads_paramEntry (elements : ∀ now, now.upcoming.length ≤ state.upcoming.length →
      Stands origin now → Leads origin (Resting origin .type 0) element now)
    (stands : Stands origin state) :
    Leads origin (Entering origin) (paramEntry element) state := by
  have alone : Leads origin (Entering origin) (do return (← element, none)) state :=
    .bind (elements state (Nat.le_refl _) stands) fun stands _ _ resting =>
      .pure stands ⟨resting.grown, nofun, resting.rests, resting.rests.since,
        fun _ => resting.rests.ordered⟩
  unfold paramEntry
  refine .peek (.ite (fun _ => alone) fun isName => .ahead ?_)
  rw [Decidable.not_not] at isName
  split
  case h_5 =>
    refine .bind (leads_name .type rfl stands isName)
      fun {name middle} stands fewer _ found => ?_
    obtain ⟨named, past⟩ := found
    refine .bind (elements middle fewer stands) fun {type after} stands fewer le resting => ?_
    have first : Resting origin .type 0 name middle := named.weaken (Nat.zero_le _)
    refine .pure stands ⟨first.grown.mono le, fun _ same => ?_, resting.rests, ?_,
      fun isComma => ?_⟩
    · cases same
      exact resting.grown
    · exact (past.later fewer).since stands
    · obtain ⟨last, taken, -, stop⟩ := resting.rests.ends isComma
      exact stop ▸ (past.later fewer).le_last taken
  all_goals exact alone

theorem leads_paramEntries (elements : ∀ now, now.upcoming.length ≤ state.upcoming.length →
      Stands origin now → Leads origin (Resting origin .type 0) element now)
    (stands : Stands origin state) (firm : Firm origin state) :
    Leads origin (fun entries after =>
        Entered origin.tokens after.diagnostics.length entries ∧ Firm origin after)
      (paramEntries closer element) state := by
  rw [paramEntries_eq]
  refine leads_iterate (fun entries now =>
    Entered origin.tokens now.diagnostics.length entries ∧ Firm origin now ∧
      ∀ entry ∈ entries, entry.separator ≠ none ∧ Past origin entry.first.span.start now) ?_ stands
    ⟨⟨List.forall_mem_nil _, .nil⟩, firm, List.forall_mem_nil _⟩
  rintro entries now stands fewer - ⟨entered, firm, passed⟩
  unfold paramStep
  refine .peek (.ite (fun _ => .pure stands (.done ⟨entered, firm⟩)) fun _ => ?_)
  have within := fun now' (le : now'.upcoming.length ≤ now.upcoming.length) =>
    elements now' (Nat.le_trans le fewer)
  refine .bind (leads_paramEntry within stands) fun {read later} stands fewer le entering => ?_
  obtain ⟨first, type⟩ := read
  have pushed : ∀ {separator count}, later.diagnostics.length ≤ count →
      (∀ span, separator = some span → later.current.kind = .comma ∧ span = later.current.span) →
      Entered origin.tokens count (entries ++ [⟨first, type, separator⟩]) := by
    intro separator count le' isComma
    have commas : separator ≠ none → later.current.kind = .comma := fun some => by
      obtain ⟨span, rfl⟩ := Option.ne_none_iff_exists'.mp some
      exact (isComma span rfl).1
    refine ⟨?_, List.pairwise_append.mpr ⟨entered.ordered, .cons (by simp) .nil, ?_⟩⟩
    · intro entry mem
      rcases List.mem_append.mp mem with mem | mem
      · exact (entered.sits entry mem).mono (Nat.le_trans le le')
      · obtain rfl := List.mem_singleton.mp mem
        refine ⟨entering.first.mono le', fun type same => (entering.type type same).mono le', ?_,
          fun some => entering.reaches (commas some)⟩
        intro span some
        obtain ⟨isComma, rfl⟩ := isComma span some
        exact entering.rests.behind isComma
    · intro entry mem new isNew
      obtain rfl := List.mem_singleton.mp isNew
      refine ⟨(passed entry mem).1, fun some => ?_⟩
      obtain ⟨last, taken, -, stop⟩ := entering.rests.ends (commas some)
      exact stop ▸ ((passed entry mem).2.later fewer).le_last taken
  refine .peek (.ite (fun isComma => ?_) fun other => ?_)
  · refine .take stands (by simp [isComma]) fun taken _ same => .pure taken.stands ?_
    refine .again (by omega) ⟨pushed (by omega) fun span some => ⟨isComma, ?_⟩,
      taken.firm (by simp [isComma]), fun entry mem => ?_⟩
    · cases some
      rfl
    · rcases List.mem_append.mp mem with mem | mem
      · exact ⟨(passed entry mem).1, (passed entry mem).2.later (by omega)⟩
      · obtain rfl := List.mem_singleton.mp mem
        exact ⟨by simp, .of_start stands entering.since (by omega)⟩
  · exact .pure stands (.done ⟨pushed (Nat.le_refl _) nofun, .of_ne other⟩)

end Reading

/-! ## Fields and their entries -/

theorem nodes_unnamedParams (entries : List Param) (list : Elements) :
    (unnamedParams entries list).nodes =
      list.nodes ++ entries.map fun entry => fieldOf .empty entry.first := by
  induction entries generalizing list with
  | nil => exact (List.append_nil _).symm
  | cons entry entries ih =>
    rw [unnamedParams, ih, Elements.nodes_separateBy]
    exact List.append_assoc _ _ _

theorem unnamed_unnamedParams (bare : ∀ entry ∈ entries, entry.type = none) :
    List.Forall₂ IsUnnamed entries (unnamedParams entries .empty).nodes := by
  rw [nodes_unnamedParams, Elements.empty, List.nil_append, List.forall₂_map_right_iff,
    List.forall₂_same]
  exact fun entry mem => ⟨bare entry mem, rfl, rfl⟩

/-- One more field at the end. -/
theorem NamedFields.push {shared : List Param} {last : Param} {field : Positional}
    {separators : List Span} {fields : List Positional} (done : NamedFields entries fields)
    (untyped : ∀ entry ∈ shared, entry.type = none) (typed : last.type = some type)
    (names : ∀ entry ∈ shared ++ [last], entry.first.kind = .ident)
    (commas : shared.map Param.separator = separators.map some)
    (isField : IsField field ((shared ++ [last]).map Param.first) separators type) :
    NamedFields (entries ++ (shared ++ [last])) (fields ++ [field]) := by
  induction done with
  | nil => exact .cons untyped typed names commas isField .nil
  | cons untyped' typed' names' commas' isField' _ ih =>
    rw [List.append_assoc, List.cons_append]
    exact .cons untyped' typed' names' commas' isField' ih

/-- Without a report, each name finds its type. -/
theorem named_namedParams {done shared : List Param} {tokens : List Token} {result : Elements}
    {after : ParseState} (spells : SpellsEntries entries tokens)
    (run : Clean (namedParams entries names list) state result after)
    (fields : NamedFields done list.nodes) (untyped : ∀ entry ∈ shared, entry.type = none)
    (idents : ∀ entry ∈ shared, entry.first.kind = .ident)
    (waiting : names.nodes = shared.map Param.first)
    (commas : shared.map Param.separator = names.separators.map some) :
    NamedFields (done ++ (shared ++ entries)) result.nodes := by
  induction spells generalizing names list done shared with
  | nil =>
    unfold namedParams at run
    split at run
    · next none =>
      obtain rfl : shared = [] := List.map_eq_nil_iff.mp (waiting.symm.trans none)
      obtain ⟨rfl, -⟩ := Clean.pure_iff.mp run
      simpa using fields
    · simp at run
  | @cons entry entries _ _ _ _ _ closed others ih =>
    have keeps := keeps_namedParams entries
    unfold namedParams at run
    cases typed : entry.type with
    | none =>
      simp [typed] at run
      obtain ⟨isIdent, run⟩ := run
      cases entries with
      | nil =>
        -- The name just pushed has no type, so leaving the list here is reported.
        unfold namedParams at run
        split at run
        · next none => simp [Elements.push] at none
        · simp at run
      | cons next entries =>
        obtain ⟨span, isSpan⟩ := Option.ne_none_iff_exists'.mp (closed (List.cons_ne_nil _ _))
        have untyped : ∀ other ∈ shared ++ [entry], other.type = none := by
          simpa [or_imp, forall_and, typed] using untyped
        have kept := ih run fields untyped (by simpa [or_imp, forall_and, isIdent] using idents)
          (by simp [Elements.push, waiting]) (by simp [Elements.push, commas, isSpan])
        simpa using kept
    | some type =>
      simp [typed] at run
      obtain ⟨isIdent, run⟩ := run
      have isField : IsField (fieldOf (names.push entry.first) type)
          ((shared ++ [entry]).map Param.first) names.separators type :=
        ⟨rfl, by simp [fieldOf, Elements.push, Elements.slot, waiting, SlotTree.slots]⟩
      have pushed := fields.push untyped typed
        (by simpa [or_imp, forall_and, isIdent] using idents) commas isField
      have kept := ih run (by simpa [Elements.push] using pushed) (List.forall_mem_nil _)
        (List.forall_mem_nil _) rfl rfl
      simpa using kept

/-- Without a report, a parameter list groups the entries it spells. -/
theorem reads_fields {element : Parse Positional} [Keeps element] (closer : TokenKind)
    (reads : Reads element Anywhere Ending) :
    Reads (params closer element) Anywhere fun list tokens =>
      ∃ entries, SpellsEntries entries tokens ∧ Grouped entries list.nodes := by
  intro state list after run lawful _
  simp [params] at run
  obtain ⟨entries, middle, entriesRun, run⟩ := run
  obtain ⟨tokens, took, spells, -⟩ := reads_paramEntries closer reads entriesRun lawful trivial
  unfold groupParams at run
  simp only [Clean.ite_iff, Clean.pure_iff] at run
  rcases run with ⟨bare, rfl, rfl, -⟩ | ⟨-, run⟩
  · exact ⟨tokens, took, entries, spells, .inl (unnamed_unnamedParams (by simpa using bare))⟩
  · have named := named_namedParams spells run .nil (List.forall_mem_nil _)
      (List.forall_mem_nil _) rfl rfl
    -- Grouping takes no tokens.
    obtain ⟨rfl, -⟩ := delimited_namedParams spells run Elements.open_empty Elements.open_empty
      (by simpa [took.split] using lawful)
    exact ⟨tokens, took, entries, spells, .inr named⟩

/-! ## Parameter lists -/

/-- The slots and entries of a parameter list. -/
structure Parameters (origin : ParseState) (list : Elements) (after : ParseState) : Prop where
  listing : Listing origin .type 0 list after
  fields : 0 < after.diagnostics.length ∨ Fields origin.tokens list.nodes
  firm : Firm origin after

theorem leads_params (closer : TokenKind) {element : Parse Positional} [Keeps element]
    (elements : ∀ now, now.upcoming.length ≤ state.upcoming.length →
      Stands origin now → Leads origin (Resting origin .type 0) element now)
    (reads : Reads element Anywhere Ending) (stands : Stands origin state)
    (firm : Firm origin state) :
    Leads origin (Parameters origin) (params closer element) state := by
  have listed : Leads origin (fun list after => Listing origin .type 0 list after ∧
      Firm origin after) (params closer element) state := by
    unfold params
    refine .bind (leads_paramEntries elements stands firm) fun stands _ _ entered => ?_
    exact (leads_groupParams stands entered.1).imp fun _ _ _ groups =>
      ⟨groups.1, groups.2.firm entered.2⟩
  refine (listed.read stands (reads_fields closer reads)).imp fun _ _ _ holds => ?_
  obtain ⟨⟨listing, firm⟩, grouped⟩ := holds
  refine ⟨listing, grouped.imp_right ?_, firm⟩
  rintro ⟨front, inside, back, split, entries, spells, grouped⟩
  exact ⟨entries, front, inside, back, split, spells, grouped⟩

end Grammar

end GoTrivia

import GoTrivia.Proofs.Grammar.Lists

/-!
# Parameter lists

Parameters are read as entries first and grouped into fields afterwards.  Grouping takes no
tokens: it only spreads the tokens of the entries over fields, so it is followed along the
entries.  Names that wait for their type and fields that are complete are both lists that
end with a separator, up to the last entry.
-/

set_option autoImplicit false

namespace GoTrivia

namespace Grammar

/-! ## Fields -/

section Fields

variable {names : Elements} {type : Positional} {front more rest : List Token}

theorem head_start {node : Positional} {nodes : List Positional} {separators : List Span}
    {tokens : List Token} {first : Token}
    (spells : SpellsSeparated (node :: nodes) separators tokens)
    (begins : tokens.head? = some first) : node.info.start = first.span.start := by
  cases spells with
  | last content ends => exact content.start begins
  | cons content ends isComma rest =>
    refine content.start ?_
    rwa [List.head?_append_of_ne_nil _ content.ne_nil] at begins

/-- A field without names spells what its type does. -/
theorem spells_field_unnamed (spells : Spells type more) (lawful : Lawful (more ++ rest)) :
    Spells (fieldOf .empty type) more := by
  obtain ⟨first, tail, rfl⟩ := List.exists_cons_of_ne_nil spells.ne_nil
  have content : SpellsSlots .field (standardShape .field).anchors
      [Elements.empty.slot, childSlot type, .child none] ((first :: tail) ++ []) :=
    .vacant rfl (.child rfl spells trivial (.vacant rfl .nil))
  rw [List.append_nil] at content
  have start : type.info.start = first.span.start := spells.start rfl
  have ordered : first.span.start ≤ type.info.stop := spells.stopsAt.le lawful rfl
  refine .node content rfl rfl start ?_ (by decide)
  show StopsAt (first :: tail) (Span.closing type.info.start type.info.stop).stop
  rw [start, Span.closing, Nat.max_eq_left ordered]
  exact spells.stopsAt

/-- A field with names spells the names and then the type. -/
theorem spells_field_named (joined : names.Joined front) (spells : Spells type more)
    (lawful : Lawful (front ++ more ++ rest)) : Spells (fieldOf names type) (front ++ more) := by
  obtain ⟨node, nodes, filled⟩ : ∃ node nodes, names.nodes = node :: nodes :=
    List.exists_cons_of_ne_nil (by
      intro none
      have lengths := joined.2
      simp [none] at lengths)
  obtain ⟨first, tail, rfl⟩ : ∃ first tail, front = first :: tail := by
    obtain ⟨final, tail, -⟩ := joined.1.ends joined.2
    exact List.exists_cons_of_ne_nil (by rintro rfl; simp at tail)
  have content : SpellsSlots .field (standardShape .field).anchors
      [names.slot, childSlot type, .child none] ((first :: tail) ++ (more ++ [])) :=
    .separated rfl rfl joined.1 (fun same _ => absurd joined.2 (by omega))
      (.child rfl spells trivial (.vacant rfl .nil))
  rw [List.append_nil] at content
  have start : node.info.start = first.span.start := by
    have separated := joined.1
    rw [Elements.Separated, filled] at separated
    exact head_start separated rfl
  have stops : StopsAt ((first :: tail) ++ more) type.info.stop := spells.stopsAt.append
  have ordered : first.span.start ≤ type.info.stop := stops.le lawful rfl
  have present : [names.slot, childSlot type, .child none].map Slot.isPresent =
      [true, true, false] := by
    simp [Elements.slot, childSlot, Slot.isPresent, filled]
  have field : fieldOf names type = .node .field (.closing node.info.start type.info.stop)
      [names.slot, childSlot type, .child none] := by
    simp [fieldOf, filled]
  rw [field]
  refine .node content (by rw [present]; rfl) rfl start ?_ (by decide)
  rwa [start, Span.closing, Nat.max_eq_left ordered]

end Fields

/-! ## Entries -/

/-- A separator spells one comma, its absence nothing. -/
def Separates : Option Span → List Token → Prop
  | none, tokens => tokens = []
  | some span, tokens => ∃ comma, comma.kind = .comma ∧ comma.span = span ∧ tokens = [comma]

/-- The tokens of an entry without its comma: of a type alone, or of a name and its type. -/
def SpellsEntry (first : Positional) : Option Positional → List Token → Prop
  | none, tokens => Ending first tokens
  | some type, tokens => ∃ front more, tokens = front ++ more ∧ Ending first front ∧
      Ending type more

/-- Entries spell tokens with a comma behind each, perhaps but the last. -/
inductive SpellsEntries : List Param → List Token → Prop
  | nil : SpellsEntries [] []
  | cons {entry : Param} {entries : List Param} {front comma tokens : List Token}
      (content : SpellsEntry entry.first entry.type front)
      (behind : Separates entry.separator comma)
      (closed : entries ≠ [] → entry.separator ≠ none) (rest : SpellsEntries entries tokens) :
      SpellsEntries (entry :: entries) (front ++ (comma ++ tokens))

theorem SpellsEntries.push {entries : List Param} {tokens front comma : List Token}
    (spells : SpellsEntries entries tokens) (entry : Param)
    (isOpen : ∀ entry ∈ entries, entry.separator ≠ none)
    (content : SpellsEntry entry.first entry.type front)
    (behind : Separates entry.separator comma) :
    SpellsEntries (entries ++ [entry]) (tokens ++ (front ++ comma)) := by
  induction spells with
  | nil =>
    have single := SpellsEntries.cons content behind (by simp) .nil
    rwa [List.append_nil] at single
  | cons first separator closed rest ih =>
    rw [List.append_assoc, List.append_assoc]
    refine .cons first separator (fun _ => isOpen _ (by simp)) (ih fun entry mem => ?_)
    exact isOpen entry (by simp [mem])

variable {element : Parse Positional} [Keeps element]

theorem reads_paramEntry (reads : Reads element Anywhere Ending) :
    Reads (paramEntry element) Anywhere fun entry => SpellsEntry entry.1 entry.2 := by
  intro state entry after run lawful _
  have alone : ∀ type, Clean element state type after → entry = (type, none) →
      ∃ tokens, Took state tokens after ∧ SpellsEntry entry.1 entry.2 tokens := by
    rintro type typeRun rfl
    exact reads typeRun lawful trivial
  simp [paramEntry] at run
  rcases run with ⟨-, run⟩ | ⟨-, type, typeRun, same⟩
  · split at run
    case h_5 =>
      simp at run
      obtain ⟨name, middle, nameRun, type, typeRun, rfl⟩ := run
      obtain ⟨front, nameTook, isName⟩ := reads_ident nameRun lawful trivial
      obtain ⟨more, typeTook, ending⟩ := nameTook.read reads typeRun trivial
      exact ⟨_, typeTook, front, more, rfl, isName.1.ending, ending⟩
    all_goals
      simp at run
      obtain ⟨type, typeRun, same⟩ := run
      exact alone type typeRun same
  · exact alone type typeRun same

/-- The entries of a whole list, which take tokens exactly if there are some. -/
def Entries (entries : List Param) (tokens : List Token) : Prop :=
  SpellsEntries entries tokens ∧ (entries = [] → tokens = [])

theorem reads_paramEntries (closer : TokenKind) (reads : Reads element Anywhere Ending) :
    Reads (paramEntries closer element) Anywhere Entries := by
  intro state entries after run lawful _
  refine (Took.refl lawful).iterate
    (fun entries tokens => Entries entries tokens ∧ ∀ entry ∈ entries, entry.separator ≠ none)
    Entries run (fun _ => inferInstance) ⟨⟨.nil, fun _ => rfl⟩, by simp⟩ ?_ ?_
  · intro entries now tokens next later took ⟨spells, isOpen⟩ step
    simp at step
    obtain ⟨-, first, type, middle, entryRun, isComma, ⟨rfl, -⟩, rfl⟩ := step
    obtain ⟨more, entryTook, content⟩ := took.read (reads_paramEntry reads) entryRun trivial
    have commaTook := entryTook.take (by simp [isComma])
    have behind : Separates (some middle.current.span) [middle.current] :=
      ⟨_, isComma, rfl, rfl⟩
    have pushed := spells.1.push ⟨first, type, some middle.current.span⟩ isOpen content
      behind
    rw [← List.append_assoc] at pushed
    refine ⟨_, by simp, commaTook, ⟨pushed, by simp⟩, ?_⟩
    simpa [or_imp, forall_and] using isOpen
  · intro entries now tokens next later took ⟨spells, isOpen⟩ step
    simp at step
    rcases step with ⟨-, rfl, rfl, -⟩ | ⟨-, first, type, entryRun, -, rfl, -⟩
    · exact ⟨tokens, took, spells⟩
    · obtain ⟨more, entryTook, content⟩ := took.read (reads_paramEntry reads) entryRun trivial
      have pushed := spells.1.push ⟨first, type, none⟩ isOpen content rfl
      rw [List.append_nil] at pushed
      exact ⟨_, entryTook, pushed, by simp⟩

/-! ## Grouping -/

theorem Elements.Joined.separateBy {list : Elements} {separator : Option Span}
    {tokens comma : List Token} (joined : list.Joined tokens) (behind : Separates separator comma)
    (closed : separator ≠ none) : (list.separateBy separator).Open (tokens ++ comma) := by
  cases separator with
  | none => exact absurd rfl closed
  | some span =>
    obtain ⟨token, isComma, rfl, rfl⟩ := behind
    exact joined.separate isComma

@[simp]
theorem Elements.nodes_separateBy (list : Elements) (separator : Option Span) :
    (list.separateBy separator).nodes = list.nodes := by
  cases separator <;> rfl

/-- A complete field and the comma behind it go to the end of the fields. -/
theorem Elements.Open.pushField {list : Elements} {field : Positional} {separator : Option Span}
    {tokens front comma : List Token} (isOpen : list.Open tokens) (ending : Ending field front)
    (behind : Separates separator comma) :
    ((list.push field).separateBy separator).Delimited (tokens ++ (front ++ comma)) ∧
      (separator ≠ none →
        ((list.push field).separateBy separator).Open (tokens ++ (front ++ comma))) := by
  have joined := isOpen.push ending
  rw [← List.append_assoc]
  refine ⟨?_, joined.separateBy behind⟩
  cases separator with
  | none =>
    obtain rfl := behind
    rw [List.append_nil]
    exact joined.delimited
  | some span => exact (joined.separateBy behind (by simp)).delimited

theorem lawful_behind {tokens : List Token} {front : List Token} {after : ParseState}
    (lawful : Lawful (front ++ tokens ++ after.tokens)) : Lawful (tokens ++ after.tokens) := by
  rw [List.append_assoc] at lawful
  exact lawful.of_append (by simp [ParseState.tokens])

theorem delimited_unnamedParams {entries : List Param} {more : List Token} {after : ParseState}
    (spells : SpellsEntries entries more) {list : Elements} {tokens : List Token}
    (isOpen : list.Open tokens) (bare : ∀ entry ∈ entries, entry.type = none)
    (lawful : Lawful (more ++ after.tokens)) :
    (unnamedParams entries list).Delimited (tokens ++ more) := by
  induction spells generalizing list tokens with
  | nil => simpa [unnamedParams] using isOpen.delimited
  | @cons entry entries front comma more content behind closed rest ih =>
    rw [bare entry (by simp)] at content
    have field : Ending (fieldOf .empty entry.first) front := by
      rw [List.append_assoc] at lawful
      exact ⟨spells_field_unnamed content.1 lawful, content.2⟩
    obtain ⟨delimited, further⟩ := isOpen.pushField field behind
    rw [← List.append_assoc front, ← List.append_assoc tokens]
    cases entries with
    | nil =>
      cases rest
      simpa [unnamedParams] using delimited
    | cons next entries =>
      refine ih (further (closed (by simp))) (fun entry mem => bare entry (by simp [mem])) ?_
      rw [← List.append_assoc front] at lawful
      exact lawful_behind lawful

/-- Names without a type are left over at the end only if a diagnostic says so. -/
theorem delimited_namedParams {entries : List Param} {more : List Token} {rest : ParseState}
    (spells : SpellsEntries entries more) {names list result : Elements}
    {front tokens : List Token} {state after : ParseState}
    (run : Clean (namedParams entries names list) state result after) (waiting : names.Open front)
    (isOpen : list.Open tokens) (lawful : Lawful (front ++ more ++ rest.tokens)) :
    after = state ∧ result.Delimited (tokens ++ (front ++ more)) := by
  induction spells generalizing names list front tokens with
  | nil =>
    unfold namedParams at run
    split at run
    · next none =>
      simp at run
      obtain ⟨rfl, rfl, -⟩ := run
      rw [waiting.delimited.2 none]
      exact ⟨rfl, by simpa using isOpen.delimited⟩
    · simp at run
  | @cons entry entries own comma more content behind closed others ih =>
    have keeps := keeps_namedParams entries
    unfold namedParams at run
    cases typed : entry.type with
    | none =>
      simp [typed] at run
      rw [typed] at content
      have joined := waiting.push content
      cases entries with
      | nil =>
        cases others
        unfold namedParams at run
        -- The name just pushed has no type, so leaving the list here is reported.
        split at run
        · next none => simp [Elements.push] at none
        · simp at run
      | cons next entries =>
        have separated := joined.separateBy behind (closed (by simp))
        have kept := ih run.2 separated isOpen (by simpa using lawful)
        simpa using kept
    | some type =>
      simp [typed] at run
      rw [typed] at content
      obtain ⟨ident, own, rfl, isName, isType⟩ := content
      have joined := waiting.push isName
      have field : Ending (fieldOf (names.push entry.first) type) (front ++ ident ++ own) := by
        have whole : Lawful (front ++ ident ++ own ++ (comma ++ more ++ rest.tokens)) := by
          simpa using lawful
        exact ⟨spells_field_named joined isType.1 whole, isType.2.append⟩
      obtain ⟨delimited, further⟩ := isOpen.pushField field behind
      cases entries with
      | nil =>
        cases others
        simp [namedParams, Elements.empty] at run
        obtain ⟨-, rfl, rfl, -⟩ := run
        exact ⟨rfl, by simpa using delimited⟩
      | cons next entries =>
        have whole : Lawful (front ++ (ident ++ own) ++ comma ++ more ++ rest.tokens) := by
          simpa using lawful
        have kept := ih run.2 Elements.open_empty (further (closed (by simp)))
          (lawful_behind whole)
        simpa using kept

/-- A parameter list spells its fields, and takes tokens only if it has some. -/
theorem reads_params (closer : TokenKind) (reads : Reads element Anywhere Ending) :
    Reads (params closer element) Anywhere Elements.Delimited := by
  intro state list after run lawful _
  simp [params] at run
  obtain ⟨entries, middle, entriesRun, run⟩ := run
  obtain ⟨tokens, took, spells, -⟩ := reads_paramEntries closer reads entriesRun lawful trivial
  rw [took.split] at lawful
  unfold groupParams at run
  simp only [Clean.ite_iff, Clean.pure_iff] at run
  rcases run with ⟨bare, rfl, rfl, -⟩ | ⟨-, run⟩
  · have delimited := delimited_unnamedParams spells Elements.open_empty (by simpa using bare) lawful
    exact ⟨tokens, took, by simpa using delimited⟩
  · obtain ⟨rfl, delimited⟩ := delimited_namedParams spells run Elements.open_empty
      Elements.open_empty (by simpa using lawful)
    exact ⟨tokens, took, by simpa using delimited⟩

end Grammar

end GoTrivia

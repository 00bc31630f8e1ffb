import GoTrivia.Proofs.Decorating.Parsed
import GoTrivia.Proofs.Grammar.GrownNodes
import GoTrivia.Proofs.Grammar.Total

/-!
# Separators and parameters

**Separators.** In the tree of every text a list has separators if its shape has one, and then
each separator is the comma right behind its element; at most the last element has none.

**Parameters.** Whether the entries of a parameter list are names or types shows only behind
them, so they are read first and grouped afterwards.  In a text without diagnostics all
parameters of a list are types alone or all have names, and names that share a type have commas
between them.  The tokens of the list are those of its entries: nothing is moved or left out.

A node of a text without diagnostics has a stretch of tokens, which its slots share in order
(`SpellsSlots.segments`).
-/

set_option autoImplicit false

namespace GoTrivia

/-! ## Slots and their tokens -/

/-- A slot spells a list of tokens. -/
inductive SpellsSlot (shape : AnchorShape) : PositionalSlot → List Token → Prop
  | vacant : SpellsSlot shape (.vacant shape.slot) []
  | token (token : Token) : SpellsSlot shape (.token (some token.toLexeme)) [token]
  | child {child : Positional} {tokens : List Token} (content : Spells child tokens) :
      SpellsSlot shape (.child (some child)) tokens
  | separated {layout : ListLayout} {nodes : List Positional} {separators : List Span}
      {tokens : List Token} (isList : shape.slot = .list layout)
      (separator : layout.separator = some ",") (content : SpellsSeparated nodes separators tokens) :
      SpellsSlot shape (.list nodes separators) tokens
  | terminated {layout : ListLayout} {nodes : List Positional} {tokens : List Token}
      (isList : shape.slot = .list layout) (separator : layout.separator = none)
      (content : SpellsTerminated nodes tokens) : SpellsSlot shape (.list nodes []) tokens

/-- The tokens of a node are those of its slots, one after the other. -/
theorem SpellsSlots.segments : ∀ {kind : NodeKind} {shapes : List AnchorShape}
    {slots : List PositionalSlot} {tokens : List Token}, SpellsSlots kind shapes slots tokens →
    ∃ segments : List (List Token), tokens = segments.flatten ∧
      List.Forall₂ (fun pair segment => SpellsSlot pair.1 pair.2 segment) (shapes.zip slots) segments
  | _, _, _, _, .nil => ⟨[], rfl, .nil⟩
  | _, shape :: _, _, _, .vacant empty rest => by
      obtain ⟨segments, rfl, each⟩ := rest.segments
      exact ⟨[] :: segments, rfl, .cons (empty ▸ .vacant) each⟩
  | _, _, _, _, @SpellsSlots.token _ _ _ _ taken _ _ _ _ _ rest => by
      obtain ⟨segments, rfl, each⟩ := rest.segments
      exact ⟨[taken] :: segments, rfl, .cons (.token taken) each⟩
  | _, _, _, _, .child _ content _ rest => by
      obtain ⟨segments, rfl, each⟩ := rest.segments
      exact ⟨_ :: segments, rfl, .cons (.child content) each⟩
  | _, _, _, _, .separated isList separator content _ rest => by
      obtain ⟨segments, rfl, each⟩ := rest.segments
      exact ⟨_ :: segments, rfl, .cons (.separated isList separator content) each⟩
  | _, _, _, _, .terminated isList separator content rest => by
      obtain ⟨segments, rfl, each⟩ := rest.segments
      exact ⟨_ :: segments, rfl, .cons (.terminated isList separator content) each⟩

/-- What a list with commas spells. -/
theorem SpellsSlot.list {shape : AnchorShape} {nodes : List Positional} {separators : List Span}
    {tokens : List Token} (spells : SpellsSlot shape (.list nodes separators) tokens)
    {layout : ListLayout} (isList : shape.slot = .list layout) (commas : layout.separator.isSome = true) :
    SpellsSeparated nodes separators tokens := by
  generalize isSlot : (.list nodes separators : PositionalSlot) = slot at spells
  cases spells with
  | vacant =>
    rw [isList] at isSlot
    cases isSlot
    exact .nil
  | token | child => cases isSlot
  | separated _ _ content =>
    cases isSlot
    exact content
  | terminated isList' separator =>
    rw [isList] at isList'
    cases isList'
    rw [separator] at commas
    cases commas

theorem SpellsSlot.content {shape : AnchorShape} {child : Positional} {tokens : List Token}
    (spells : SpellsSlot shape (.child (some child)) tokens) : Spells child tokens := by
  generalize isSlot : (.child (some child) : PositionalSlot) = slot at spells
  cases spells with
  | vacant => cases isVacant : shape.slot <;> simp [isVacant, Slot.vacant] at isSlot
  | child content =>
    cases isSlot
    exact content
  | token | separated | terminated => cases isSlot

theorem SpellsSlot.eq_nil {shape : AnchorShape} {tokens : List Token}
    (spells : SpellsSlot shape (.child none) tokens) : tokens = [] := by
  generalize isSlot : (.child none : PositionalSlot) = slot at spells
  cases spells with
  | vacant => rfl
  | token | child | separated | terminated => cases isSlot

/-! ## Fields and their entries -/

theorem Ends.of_append {front back : List Token} (ends : Ends (front ++ back)) (some : back ≠ []) :
    Ends back := by
  obtain ⟨last, isLast, closes⟩ := ends
  rw [List.getLast?_append_of_ne_nil _ some] at isLast
  exact ⟨last, isLast, closes⟩

namespace Grammar

/-- What the fields of a parameter list are: types alone, or names with commas between them and
a type. -/
structure IsNamedField (field : Positional) (names : List Positional) (separators : List Span)
    (type : Positional) : Prop where
  isField : IsField field names separators type
  idents : ∀ name ∈ names, name.kind = .ident
  between : names.length = separators.length + 1

variable {fields names : List Positional} {separators : List Span} {field type : Positional}
  {entries : List Param} {tokens front more comma : List Token} {separator : Option Span}

/-- A field spells its names and then its type. -/
theorem IsField.spells (isField : IsField field names separators type) (spells : Spells field tokens) :
    ∃ front more, tokens = front ++ more ∧ SpellsSeparated names separators front ∧
      Spells type more := by
  cases spells with
  | @node kind span slots first tokens content =>
    obtain rfl : kind = .field := isField.kind
    obtain rfl : slots = [.list names separators, childSlot type, .child none] := isField.slots
    obtain ⟨segments, rfl, each⟩ := content.segments
    obtain ⟨inNames, behindNames, isNames, others, rfl⟩ := List.forall₂_cons_left_iff.mp each
    obtain ⟨inType, behindType, isType, last, rfl⟩ := List.forall₂_cons_left_iff.mp others
    obtain ⟨inTag, none, isTag, nothing, rfl⟩ := List.forall₂_cons_left_iff.mp last
    obtain rfl := List.forall₂_nil_left_iff.mp nothing
    have spells := isType.content
    obtain rfl : inTag = [] := isTag.eq_nil
    exact ⟨inNames, inType, by simp, isNames.list rfl rfl, spells⟩

theorem separates_comma {token : Token} (isComma : token.kind = .comma) :
    Separates (some token.span) [token] := ⟨token, isComma, rfl, rfl⟩

/-- Names and their type, with what is behind them. -/
theorem exists_entries_cons (typeSpells : Ending type more) (behind : Separates separator comma)
    (closed : entries ≠ [] → separator ≠ none) (rest : SpellsEntries entries tokens) :
    ∀ {names : List Positional} {separators : List Span} {front : List Token},
      SpellsSeparated names separators front → names.length = separators.length + 1 →
      ∃ shared last, names = (shared ++ [last]).map Param.first ∧ last.type = some type ∧
        (∀ entry ∈ shared, entry.type = none) ∧
        shared.map Param.separator = separators.map some ∧
        SpellsEntries (shared ++ last :: entries) (front ++ more ++ (comma ++ tokens))
  | _, _, _, .nil, between => by simp at between
  | _, _, _, @SpellsSeparated.last name inName content ends, _ => by
      refine ⟨[], ⟨name, some type, separator⟩, rfl, rfl, List.forall_mem_nil _, rfl, ?_⟩
      exact .cons ⟨inName, more, rfl, ⟨content, ends⟩, typeSpells⟩ behind closed rest
  | _, _, _, @SpellsSeparated.cons name names own separators inName inNames content ends isComma others,
      between => by
      obtain ⟨shared, last, rfl, typed, untyped, commas, spells⟩ :=
        exists_entries_cons typeSpells behind closed rest others (by simpa using between)
      have spelled : SpellsEntry name none inName := ⟨content, ends⟩
      have pushed : SpellsEntries (⟨name, none, some own.span⟩ :: (shared ++ last :: entries)) _ :=
        .cons spelled (separates_comma isComma) (fun _ => Option.some_ne_none _) spells
      refine ⟨⟨name, none, some own.span⟩ :: shared, last, rfl, typed, ?_, by simp [commas], ?_⟩
      · exact List.forall_mem_cons.mpr ⟨rfl, untyped⟩
      · simpa using pushed

/-- A field that is a type alone spells the type. -/
theorem IsField.ending (isField : IsField field [] [] type) (spells : Spells field tokens)
    (ends : Ends tokens) : Ending type tokens := by
  obtain ⟨front, more, rfl, namesSpell, typeSpells⟩ := isField.spells spells
  cases namesSpell
  exact ⟨typeSpells, ends⟩

/-- Fields that are types alone spell entries that are types alone. -/
theorem exists_entries_unnamed : ∀ {fields : List Positional} {separators : List Span}
    {tokens : List Token}, SpellsSeparated fields separators tokens →
    (∀ field ∈ fields, ∃ type, IsField field [] [] type) →
    ∃ entries, SpellsEntries entries tokens ∧ List.Forall₂ IsUnnamed entries fields
  | _, _, _, .nil, _ => ⟨[], .nil, .nil⟩
  | _, _, _, .last content ends, unnamed => by
      obtain ⟨type, isField⟩ := unnamed _ List.mem_cons_self
      have spells := SpellsEntries.nil.push ⟨type, none, none⟩ nofun (isField.ending content ends) rfl
      exact ⟨_, by simpa using spells, .cons ⟨rfl, isField⟩ .nil⟩
  | _, _, _, @SpellsSeparated.cons field fields comma _ front tokens content ends isComma rest,
      unnamed => by
      obtain ⟨⟨type, isField⟩, others⟩ := List.forall_mem_cons.mp unnamed
      obtain ⟨entries, spells, grouped⟩ := exists_entries_unnamed rest others
      have spelled : SpellsEntry type none front := isField.ending content ends
      have pushed : SpellsEntries (⟨type, none, some comma.span⟩ :: entries)
          (front ++ ([comma] ++ tokens)) :=
        .cons spelled (separates_comma isComma) (fun _ => Option.some_ne_none _) spells
      exact ⟨_, pushed, .cons ⟨rfl, isField⟩ grouped⟩

/-- Names that share a type, as a field in front of others. -/
theorem IsNamedField.exists_entries (named : IsNamedField field names separators type)
    (spells : Spells field front) (ends : Ends front) (behind : Separates separator comma)
    (closed : entries ≠ [] → separator ≠ none) (rest : SpellsEntries entries tokens)
    (grouped : NamedFields entries fields) :
    ∃ entries, SpellsEntries entries (front ++ (comma ++ tokens)) ∧
      NamedFields entries (field :: fields) := by
  obtain ⟨inNames, inType, rfl, namesSpell, typeSpells⟩ := named.isField.spells spells
  have typeEnds : Ending type inType := ⟨typeSpells, ends.of_append typeSpells.ne_nil⟩
  obtain ⟨shared, last, rfl, typed, untyped, commas, spelled⟩ :=
    exists_entries_cons typeEnds behind closed rest namesSpell named.between
  exact ⟨_, spelled, .cons untyped typed (List.forall_mem_map.mp named.idents) commas named.isField
    grouped⟩

/-- Fields with names spell entries of which some have types. -/
theorem exists_entries_named : ∀ {fields : List Positional} {separators : List Span}
    {tokens : List Token}, SpellsSeparated fields separators tokens →
    (∀ field ∈ fields, ∃ names separators type, IsNamedField field names separators type) →
    ∃ entries, SpellsEntries entries tokens ∧ NamedFields entries fields
  | _, _, _, .nil, _ => ⟨[], .nil, .nil⟩
  | _, _, _, .last content ends, named => by
      obtain ⟨names, separators, type, isNamed⟩ := named _ List.mem_cons_self
      obtain ⟨entries, spells, grouped⟩ :=
        isNamed.exists_entries content ends (show Separates none [] from rfl) nofun .nil .nil
      exact ⟨entries, by simpa using spells, grouped⟩
  | _, _, _, .cons content ends isComma rest, named => by
      obtain ⟨⟨names, separators, type, isNamed⟩, others⟩ := List.forall_mem_cons.mp named
      obtain ⟨entries, spells, grouped⟩ := exists_entries_named rest others
      exact isNamed.exists_entries content ends (separates_comma isComma)
        (fun _ => Option.some_ne_none _) spells grouped

/-- How the fields of a parameter list look: they are all types alone, or they all have names. -/
def Uniform (fields : List Positional) : Prop :=
  (∀ field ∈ fields, ∃ type, IsField field [] [] type) ∨
    ∀ field ∈ fields, ∃ names separators type, IsNamedField field names separators type

theorem NamedFields.named (grouped : NamedFields entries fields) :
    ∀ field ∈ fields, ∃ names separators type, IsNamedField field names separators type := by
  induction grouped with
  | nil => exact List.forall_mem_nil _
  | @cons shared entries last type field separators fields _ _ names commas isField _ ih =>
    have lengths : shared.length = separators.length := by
      simpa using congrArg List.length commas
    refine List.forall_mem_cons.mpr ⟨⟨_, separators, type, isField, ?_, by simp [lengths]⟩, ih⟩
    exact List.forall_mem_map.mpr names

theorem Grouped.uniform (grouped : Grouped entries fields) : Uniform fields := by
  refine grouped.imp (fun unnamed => ?_) NamedFields.named
  clear grouped
  induction unnamed with
  | nil => exact List.forall_mem_nil _
  | cons isUnnamed _ ih => exact List.forall_mem_cons.mpr ⟨⟨_, isUnnamed.2⟩, ih⟩

/-- The fields of a list group the entries that the list spells. -/
theorem Uniform.exists_entries (uniform : Uniform fields)
    (spells : SpellsSeparated fields separators tokens) :
    ∃ entries, SpellsEntries entries tokens ∧ Grouped entries fields := by
  rcases uniform with unnamed | named
  · obtain ⟨entries, spelled, grouped⟩ := exists_entries_unnamed spells unnamed
    exact ⟨entries, spelled, .inl grouped⟩
  · obtain ⟨entries, spelled, grouped⟩ := exists_entries_named spells named
    exact ⟨entries, spelled, .inr grouped⟩

/-! ## Every list -/

/-- Each separator is the comma right behind its element, and at most the last element has
none. -/
theorem CommaSeparated.behind {whole : List Token} {nodes : List Positional}
    (separated : CommaSeparated whole nodes separators) :
    (nodes.length = separators.length ∨ nodes.length = separators.length + 1) ∧
      ∀ (i : Nat) (separator : Span), separators[i]? = some separator →
        ∃ element, nodes[i]? = some element ∧ Behind whole element separator := by
  obtain ⟨front, rest, rfl, short, each⟩ := separated
  have lengths := each.length_eq
  refine ⟨by rw [List.length_append]; omega, fun i separator found => ?_⟩
  obtain ⟨bound, rfl⟩ := List.getElem?_eq_some_iff.mp found
  have inFront : i < front.length := by omega
  refine ⟨front[i], ?_, (List.forall₂_iff_get.mp each).2 i inFront bound⟩
  rw [List.getElem?_append_left inFront, List.getElem?_eq_getElem inFront]

/-- Parameters are separated by commas. -/
theorem separator?_of_isParamList {kind : NodeKind} {shape : AnchorShape}
    (mem : shape ∈ (standardShape kind).anchors) (isParams : isParamList kind shape.anchor = true) :
    shape.slot = .list StandardShape.commas := by
  have all : (NodeKind.all.all fun kind => (standardShape kind).anchors.all fun shape =>
      !isParamList kind shape.anchor || decide (shape.slot = .list StandardShape.commas)) = true := by
    decide
  have each := List.all_eq_true.mp (List.all_eq_true.mp all kind (NodeKind.mem_all kind)) shape mem
  simpa [isParams] using each

/-- What the lists in the tree of a text look like. -/
structure ListsLaidOut (text : String) : Prop where
  /-- A list whose shape has no separator has none. -/
  bare : ∀ node ∈ (parse text).tree.root.preorder,
    ∀ pair ∈ (standardShape node.kind).anchors.zip node.slots, ∀ nodes separators,
      pair.2 = .list nodes separators → pair.1.slot.separator? = none → separators = []
  /-- In a list whose shape has a separator each one is the comma taken right behind its
  element, and at most the last element has none. -/
  separated : ∀ node ∈ (parse text).tree.root.preorder,
    ∀ pair ∈ (standardShape node.kind).anchors.zip node.slots, ∀ nodes separators,
      pair.2 = .list nodes separators → pair.1.slot.separator? ≠ none →
        (nodes.length = separators.length ∨ nodes.length = separators.length + 1) ∧
          ∀ (i : Nat) (separator : Span), separators[i]? = some separator →
            ∃ element : Positional, nodes[i]? = some element ∧
              Behind (lex text).tokens element separator
  /-- Without diagnostics, the fields of a parameter list are all types alone or all have
  names, which are identifiers with commas between them. -/
  uniform : (parse text).diagnostics = [] → ∀ node ∈ (parse text).tree.root.preorder,
    ∀ pair ∈ (standardShape node.kind).anchors.zip node.slots, ∀ fields separators,
      pair.2 = .list fields separators → isParamList node.kind pair.1.anchor = true →
        Uniform fields
  /-- Without diagnostics, the slots of a node share a stretch of the tokens in order, and the
  part of a parameter list is made of the entries that its fields group, in order. -/
  covered : (parse text).diagnostics = [] → ∀ node ∈ (parse text).tree.root.preorder,
    ∃ segments : List (List Token), segments.flatten <:+: (lex text).tokens ∧
      List.Forall₂ (fun pair segment => SpellsSlot pair.1 pair.2 segment ∧
          ∀ fields separators, pair.2 = .list fields separators →
            isParamList node.kind pair.1.anchor = true →
              ∃ entries, SpellsEntries entries segment ∧ Grouped entries fields)
        ((standardShape node.kind).anchors.zip node.slots) segments

section Text

variable {text : String} {node : Positional} {pair : AnchorShape × PositionalSlot}
  {nodes : List Positional}

/-- A list in the tree of a text is where its shape has one. -/
theorem exists_layout (mem : node ∈ (parse text).tree.root.preorder)
    (paired : pair ∈ (standardShape node.kind).anchors.zip node.slots)
    (isSlot : pair.2 = .list nodes separators) :
    ∃ layout, pair.1.slot = .list layout ∧ SeparatedAs (lex text).tokens layout nodes separators := by
  obtain ⟨place, least, grown⟩ := grown_of_mem text node mem
  obtain ⟨-, each⟩ := List.forall₂_iff_zip.mp grown.fills
  obtain ⟨kind, span, slots⟩ := node
  have fits := (Pairing.fits_of_kindFault? (kinded_root text _ mem)).2 pair paired
  rw [isSlot] at fits
  cases isList : pair.1.slot with
  | token | child => simp [isList, Slot.fits] at fits
  | list layout => exact ⟨layout, rfl, ((each paired).laid nodes separators isSlot).1 layout isList⟩

theorem uniform_of_clean (clean : (parse text).diagnostics = [])
    (mem : node ∈ (parse text).tree.root.preorder)
    (paired : pair ∈ (standardShape node.kind).anchors.zip node.slots)
    (isSlot : pair.2 = .list fields separators)
    (isParams : isParamList node.kind pair.1.anchor = true) : Uniform fields := by
  obtain ⟨place, least, grown⟩ := grown_of_mem text node mem
  obtain ⟨-, each⟩ := List.forall₂_iff_zip.mp grown.fills
  rcases ((each paired).laid fields separators isSlot).2 isParams with some | fields
  · simp [clean] at some
  · obtain ⟨entries, front, inside, back, -, -, grouped⟩ := fields
    exact grouped.uniform

end Text

/-- **Lists.** In the tree of every text lists are separated as their shapes ask for, and in a
text without diagnostics parameters are grouped as they were written. -/
theorem listsLaidOut (text : String) : ListsLaidOut text where
  bare node mem pair paired nodes separators isSlot none := by
    obtain ⟨layout, isList, separated⟩ := exists_layout mem paired isSlot
    rw [isList] at none
    have none : layout.separator = .none := none
    rwa [SeparatedAs, none, if_neg (by simp)] at separated
  separated node mem pair paired nodes separators isSlot some := by
    obtain ⟨layout, isList, separated⟩ := exists_layout mem paired isSlot
    rw [isList] at some
    have some : layout.separator ≠ none := some
    rw [SeparatedAs, if_pos (Option.isSome_iff_ne_none.mpr some)] at separated
    exact separated.behind
  uniform clean node mem pair paired fields separators isSlot isParams :=
    uniform_of_clean clean mem paired isSlot isParams
  covered clean node mem := by
    obtain ⟨tokens, inside, -, content, -⟩ :=
      (spellsFile_parse (lawful_lex text) clean).readIn node mem
    obtain ⟨segments, rfl, each⟩ := content.segments
    rw [List.forall₂_iff_zip] at each
    refine ⟨segments, inside, List.forall₂_iff_zip.mpr ⟨each.1, fun {pair segment} zipped =>
      ⟨each.2 zipped, fun fields separators isSlot isParams => ?_⟩⟩⟩
    have paired := (List.of_mem_zip zipped).1
    have isList := separator?_of_isParamList (List.of_mem_zip paired).1 isParams
    have spells := isSlot ▸ each.2 zipped
    exact (uniform_of_clean clean mem paired isSlot isParams).exists_entries (spells.list isList rfl)

/-- Parameters of which two share a type. -/
def sharedParams : String := "package p\n\nfunc f(a, b T, c U) { g(a, b,) }\n"

/-- Whether a slot holds a list with so many elements and so many separators. -/
def holdsList (nodes separators : Nat) : PositionalSlot → Bool
  | .list elements spans => elements.length == nodes && spans.length == separators
  | _ => false

theorem listsLaidOut_sharedParams :
    (parse sharedParams).diagnostics = [] ∧
      ∃ node ∈ (parse sharedParams).tree.root.preorder,
        ∃ pair ∈ (standardShape node.kind).anchors.zip node.slots, ∃ fields separators,
          pair.2 = .list fields separators ∧ isParamList node.kind pair.1.anchor = true ∧
          fields.length = 2 ∧ separators.length = 1 ∧ Uniform fields ∧
          ∃ entries segment, SpellsEntries entries segment ∧ Grouped entries fields := by
  have clean : (parse sharedParams).diagnostics = [] := by decide +kernel
  have found : ((parse sharedParams).tree.root.preorder.any fun node =>
      ((standardShape node.kind).anchors.zip node.slots).any fun pair =>
        isParamList node.kind pair.1.anchor && holdsList 2 1 pair.2) = true := by decide +kernel
  obtain ⟨node, mem, found⟩ := List.any_eq_true.mp found
  obtain ⟨⟨shape, slot⟩, paired, found⟩ := List.any_eq_true.mp found
  obtain ⟨isParams, holds⟩ := Bool.and_eq_true_iff.mp found
  unfold holdsList at holds
  split at holds
  · next fields separators isList =>
    obtain ⟨two, one⟩ := Bool.and_eq_true_iff.mp holds
    have laid := listsLaidOut sharedParams
    obtain ⟨segments, -, each⟩ := laid.covered clean node mem
    obtain ⟨count, each⟩ := List.forall₂_iff_zip.mp each
    have inside := paired
    rw [← List.map_fst_zip (Nat.le_of_eq count)] at inside
    obtain ⟨⟨_, segment⟩, zipped, rfl⟩ := List.mem_map.mp inside
    obtain ⟨entries, spells, grouped⟩ := (each zipped).2 fields separators isList isParams
    exact ⟨clean, node, mem, _, paired, fields, separators, isList, isParams, eq_of_beq two,
      eq_of_beq one, laid.uniform clean node mem _ paired fields separators isList isParams,
      entries, segment, spells, grouped⟩
  · cases holds

end Grammar

end GoTrivia

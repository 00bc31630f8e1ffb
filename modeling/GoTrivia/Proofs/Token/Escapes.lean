import Mathlib.Algebra.Ring.Parity
import Mathlib.Data.List.DropRight
import GoTrivia.Token.Piece

/-!
# Where a quoted literal ends

The backslashes of a run escape each other in pairs, so a character is escaped exactly if an odd
run of backslashes stands in front of it.  A literal that a quote has opened ends with the first
quote or line feed that is not escaped, or with the text, and at no other place.  So what is read
of a literal is told without following the escapes from its beginning (`quoted_eq`).
-/

set_option autoImplicit false

namespace GoTrivia

/-! ## Escapes -/

/-- The length of the run of backslashes that a text ends with. -/
def backslashRun (s : List Char) : Nat := (s.rtakeWhile (· == '\\')).length

/-- An odd run of backslashes at the end of a text escapes the next character. -/
def Escapes (s : List Char) : Prop := Odd (backslashRun s)

instance (s : List Char) : Decidable (Escapes s) := inferInstanceAs (Decidable (Odd _))

/-- Wherever a character stands in a text, it is escaped. -/
def OnlyEscaped (c : Char) (s : List Char) : Prop :=
  ∀ front back, s = front ++ c :: back → Escapes front

theorem backslashRun_append (s t : List Char) :
    backslashRun (s ++ t) =
      if backslashRun t = t.length then backslashRun s + t.length else backslashRun t := by
  unfold backslashRun List.rtakeWhile
  rw [List.reverse_append, List.takeWhile_append]
  simp only [List.length_reverse]
  split <;> simp [Nat.add_comm]

/-- What does not escape anything makes no difference to what follows. -/
theorem escapes_append {s : List Char} (bare : ¬Escapes s) (t : List Char) :
    Escapes (s ++ t) ↔ Escapes t := by
  unfold Escapes at bare ⊢
  rw [backslashRun_append]
  split
  · next whole => simp [Nat.odd_add, whole, bare]
  · rfl

theorem not_escapes_nil : ¬Escapes [] := by simp [Escapes, backslashRun]

theorem not_escapes_single {c : Char} (plain : c ≠ '\\') : ¬Escapes [c] := by
  simp [Escapes, backslashRun, List.rtakeWhile, plain]

/-- A backslash escapes whatever follows it, another backslash as well. -/
theorem not_escapes_pair (c : Char) : ¬Escapes ['\\', c] := by
  by_cases isBackslash : c = '\\'
  · subst isBackslash
    decide
  · simp [Escapes, backslashRun, List.rtakeWhile, isBackslash]

/-- What escapes ends with a backslash. -/
theorem Escapes.exists_concat {s : List Char} (escapes : Escapes s) : ∃ front, s = front ++ ['\\'] := by
  cases s using List.reverseRecOn with
  | nil => exact absurd escapes not_escapes_nil
  | append_singleton front c =>
    refine ⟨front, ?_⟩
    by_contra other
    have plain : c ≠ '\\' := by
      rintro rfl
      exact other rfl
    simp [Escapes, backslashRun, List.rtakeWhile, plain] at escapes

namespace OnlyEscaped

variable {c d : Char} {s t : List Char}

theorem nil : OnlyEscaped c [] := fun front back split => by simp at split

theorem single (other : d ≠ c) : OnlyEscaped c [d] := fun front back split => by
  cases front with
  | nil => exact absurd (List.cons.inj split).1 other
  | cons head front => simp at split

theorem pair (plain : c ≠ '\\') (d : Char) : OnlyEscaped c ['\\', d] := fun front back split => by
  rcases front with _ | ⟨head, _ | ⟨next, front⟩⟩
  · exact absurd (List.cons.inj split).1.symm plain
  · obtain ⟨rfl, -⟩ := List.cons.inj split
    decide
  · simp at split

theorem append (bare : ¬Escapes s) (first : OnlyEscaped c s) (second : OnlyEscaped c t) :
    OnlyEscaped c (s ++ t) := fun front back split => by
  rcases List.append_eq_append_iff.mp split with ⟨gap, rfl, behind⟩ | ⟨gap, inside, behind⟩
  · exact (escapes_append bare gap).mpr (second gap back behind)
  · cases gap with
    | nil => exact absurd (second [] back behind.symm) not_escapes_nil
    | cons head gap =>
      obtain ⟨rfl, -⟩ := List.cons.inj behind
      exact first front gap inside

end OnlyEscaped

/-! ## Where a literal ends -/

/-- A literal runs as far as quotes and line feeds are escaped, and ends in front of the first one
that is not, or with the text. -/
structure LiteralEnds (quote : Char) (inside back : List Char) : Prop where
  quotes : OnlyEscaped quote inside
  feeds : OnlyEscaped '\n' inside
  stops : back = [] ∨ (back.head? = some quote ∨ back.head? = some '\n') ∧ ¬Escapes inside

namespace LiteralEnds

variable {quote : Char} {inside back inside' back' : List Char}

theorem append {s : List Char} (bare : ¬Escapes s) (quotes : OnlyEscaped quote s)
    (feeds : OnlyEscaped '\n' s) (ends : LiteralEnds quote inside back) :
    LiteralEnds quote (s ++ inside) back where
  quotes := quotes.append bare ends.quotes
  feeds := feeds.append bare ends.feeds
  stops := by rw [escapes_append bare]; exact ends.stops

theorem not_escapes {c : Char} (ends : LiteralEnds quote inside (c :: back)) : ¬Escapes inside :=
  (ends.stops.resolve_left (List.cons_ne_nil _ _)).2

/-- What stands behind the closing quote makes no difference. -/
theorem behind (ends : LiteralEnds quote inside (quote :: back)) (rest : List Char) :
    LiteralEnds quote inside (quote :: rest) :=
  ⟨ends.quotes, ends.feeds, .inr ⟨.inl rfl, ends.not_escapes⟩⟩

/-- A literal that has ended does not go on. -/
theorem eq_nil_of_append {gap : List Char} (ends : LiteralEnds quote inside (gap ++ back))
    (later : LiteralEnds quote (inside ++ gap) back) : gap = [] := by
  cases gap with
  | nil => rfl
  | cons head gap =>
    rcases ends.stops with none | ⟨stop, bare⟩
    · cases none
    · rcases stop with isQuote | isFeed
      · obtain rfl : head = quote := by simpa using isQuote
        exact absurd (later.quotes inside gap rfl) bare
      · obtain rfl : head = '\n' := by simpa using isFeed
        exact absurd (later.feeds inside gap rfl) bare

/-- A literal ends at one place. -/
theorem unique (ends : LiteralEnds quote inside back) (ends' : LiteralEnds quote inside' back')
    (same : inside ++ back = inside' ++ back') : inside = inside' ∧ back = back' := by
  rcases List.append_eq_append_iff.mp same with ⟨gap, rfl, rfl⟩ | ⟨gap, rfl, rfl⟩
  · obtain rfl := ends.eq_nil_of_append ends'
    simp
  · obtain rfl := ends'.eq_nil_of_append ends
    simp

end LiteralEnds

namespace Cut

variable {quote : Char} {inside back : List Char}

/-- Every literal ends somewhere, and that is how far it is read. -/
theorem exists_literalEnds (plain : quote ≠ '\\') (s : List Char) :
    ∃ inside back, s = inside ++ back ∧ LiteralEnds quote inside back ∧
      quoted quote s =
        (if back.head? = some quote then (inside.length + 1, true) else (inside.length, false)) := by
  -- what a step takes is an escape with its character, or a character alone; neither escapes anything
  fun_induction quoted quote s with
  | case1 => exact ⟨[], [], rfl, ⟨.nil, .nil, .inl rfl⟩, rfl⟩
  | case2 =>
    exact ⟨['\\'], [], rfl, ⟨.single plain.symm, .single (by decide), .inl rfl⟩, rfl⟩
  | case3 c rest n closed read ih =>
    obtain ⟨inside, back, rfl, ends, length⟩ := ih
    refine ⟨['\\', c] ++ inside, back, rfl,
      ends.append (not_escapes_pair c) (.pair plain c) (.pair (by decide) c), ?_⟩
    rw [read] at length
    split at length <;> cases length <;> simp [*]
  | case4 rest =>
    exact ⟨[], quote :: rest, rfl, ⟨.nil, .nil, .inr ⟨.inl rfl, not_escapes_nil⟩⟩, by simp⟩
  | case5 rest alone more other =>
    exact ⟨[], '\n' :: rest, rfl, ⟨.nil, .nil, .inr ⟨.inr rfl, not_escapes_nil⟩⟩, by simp [other]⟩
  | case6 c rest alone more other line n closed read ih =>
    obtain ⟨inside, back, rfl, ends, length⟩ := ih
    have isPlain : c ≠ '\\' := by
      rintro rfl
      cases joined : inside ++ back with
      | nil => exact alone rfl joined
      | cons head tail => exact more head tail rfl joined
    refine ⟨[c] ++ inside, back, rfl,
      ends.append (not_escapes_single isPlain) (.single other) (.single line), ?_⟩
    rw [read] at length
    split at length <;> cases length <;> simp [*]

theorem quoted_eq (plain : quote ≠ '\\') (ends : LiteralEnds quote inside back) :
    quoted quote (inside ++ back) =
      if back.head? = some quote then (inside.length + 1, true) else (inside.length, false) := by
  obtain ⟨inside', back', split, ends', read⟩ := exists_literalEnds plain (inside ++ back)
  obtain ⟨rfl, rfl⟩ := ends.unique ends' split
  exact read

end Cut

end GoTrivia

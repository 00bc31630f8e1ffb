import GoTrivia.Token.Kind

/-!
# Sets of token kinds

The grammar decides by one token of look-ahead, so most of its choices ask whether
the next kind belongs to a fixed set.  A set is its membership test; its members
are listed in the order of `TokenKind.all`, and two sets are equal when they have
the same members.
-/

set_option autoImplicit false

namespace GoTrivia

/-- A set of token kinds. -/
structure KindSet where
  contains : TokenKind → Bool

namespace KindSet

/-- The set without members. -/
def empty : KindSet := ⟨fun _ => false⟩

/-- The set of the listed kinds. -/
def ofList (kinds : List TokenKind) : KindSet := ⟨fun kind => kinds.contains kind⟩

/-- The members of either set. -/
def union (left right : KindSet) : KindSet :=
  ⟨fun kind => left.contains kind || right.contains kind⟩

/-- The members in the order of all kinds. -/
def members (set : KindSet) : List TokenKind := TokenKind.all.filter set.contains

/-- Whether the set has no members. -/
def isEmpty (set : KindSet) : Bool := set.members.isEmpty

instance : BEq KindSet := ⟨fun left right => left.members == right.members⟩

@[simp]
theorem contains_ofList (kinds : List TokenKind) (kind : TokenKind) :
    (ofList kinds).contains kind = kinds.contains kind := rfl

@[simp]
theorem contains_union (left right : KindSet) (kind : TokenKind) :
    (left.union right).contains kind = (left.contains kind || right.contains kind) := rfl

end KindSet

end GoTrivia

import GoTrivia.Error
import GoTrivia.Tree.StandardShape

/-!
# Registries of shapes

A registry assigns shapes to node kinds.  The standard one knows every kind; one
that was filled selectively makes whoever meets an unknown kind stop.
-/

set_option autoImplicit false

namespace GoTrivia

/-- The shape of each known kind. -/
structure Registry where
  shape? : NodeKind → Option Shape

namespace Registry

/-- Knows nothing. -/
def empty : Registry := ⟨fun _ => none⟩

/-- Knows the standard shape of every kind. -/
def standard : Registry := ⟨fun kind => some (standardShape kind)⟩

/-- Makes a shape known, in place of what was known for its kind. -/
def register (registry : Registry) (shape : Shape) : Registry :=
  ⟨fun kind => if kind = shape.kind then some shape else registry.shape? kind⟩

/-- Makes shapes known one after the other. -/
def ofShapes (shapes : List Shape) : Registry := shapes.foldl register empty

/-- The shape of a kind, or the error that there is none. -/
def shapeOf (registry : Registry) (kind : NodeKind) : Except TreeError Shape :=
  match registry.shape? kind with
  | some shape => .ok shape
  | none => .error (.unknownShape kind)

/-- The anchors of a kind, none if it is unknown. -/
def anchorsOf (registry : Registry) (kind : NodeKind) : List AnchorShape :=
  match registry.shape? kind with
  | some shape => shape.anchors
  | none => []

/-- How many kinds are known. -/
def size (registry : Registry) : Nat :=
  (NodeKind.all.filter fun kind => (registry.shape? kind).isSome).length

@[simp]
theorem shape?_standard (kind : NodeKind) :
    standard.shape? kind = some (standardShape kind) := rfl

theorem shape?_register (registry : Registry) (shape : Shape) (kind : NodeKind) :
    (registry.register shape).shape? kind =
      if kind = shape.kind then some shape else registry.shape? kind := rfl

end Registry

end GoTrivia

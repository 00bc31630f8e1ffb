/-!
# Maps that remember insertion order

A map whose entries come out in the order their keys were first inserted.
Inserting under a key that is already there replaces the value where it stands.
Keys are distinct by construction.
-/

set_option autoImplicit false

namespace GoTrivia

/-- Entries in order of insertion, one for each key. -/
structure OrderedMap (κ ν : Type) where
  entries : List (κ × ν)
  distinct : (entries.map Prod.fst).Nodup

namespace OrderedMap

variable {κ ν : Type}

/-- The map without entries. -/
def empty : OrderedMap κ ν := ⟨[], List.nodup_nil⟩

instance : Inhabited (OrderedMap κ ν) := ⟨empty⟩

/-- Whether there are no entries. -/
def isEmpty (map : OrderedMap κ ν) : Bool := map.entries.isEmpty

/-- The keys in order of insertion. -/
def keys (map : OrderedMap κ ν) : List κ := map.entries.map Prod.fst

variable [DecidableEq κ]

/-- The value under a key in a list of entries. -/
def find (key : κ) : List (κ × ν) → Option ν
  | [] => none
  | (k, v) :: rest => if k = key then some v else find key rest

/-- The value under a key. -/
def get? (map : OrderedMap κ ν) (key : κ) : Option ν := find key map.entries

/-- A list of entries with the value under a key set: in place if the key is
there, at the end if not. -/
def put (key : κ) (value : ν) : List (κ × ν) → List (κ × ν)
  | [] => [(key, value)]
  | (k, v) :: rest => if k = key then (k, value) :: rest else (k, v) :: put key value rest

theorem mem_keys_put {key : κ} {value : ν} {k : κ} {entries : List (κ × ν)} :
    k ∈ (put key value entries).map Prod.fst ↔ k = key ∨ k ∈ entries.map Prod.fst := by
  induction entries with
  | nil => simp [put]
  | cons entry rest ih =>
    simp only [put]
    split
    · next same => simp only [List.map_cons, List.mem_cons, same]; grind
    · simp only [List.map_cons, List.mem_cons, ih]; grind

theorem nodup_put {key : κ} {value : ν} {entries : List (κ × ν)}
    (distinct : (entries.map Prod.fst).Nodup) :
    ((put key value entries).map Prod.fst).Nodup := by
  induction entries with
  | nil => simp [put]
  | cons entry rest ih =>
    simp only [List.map_cons, List.nodup_cons] at distinct
    simp only [put]
    split
    · simpa using distinct
    · next other =>
      simp only [List.map_cons, List.nodup_cons, mem_keys_put]
      exact ⟨by grind, ih distinct.2⟩

/-- Sets the value under a key. -/
def insert (map : OrderedMap κ ν) (key : κ) (value : ν) : OrderedMap κ ν :=
  ⟨put key value map.entries, nodup_put map.distinct⟩

/-- Inserts pairs one after the other. -/
def insertMany (map : OrderedMap κ ν) (pairs : List (κ × ν)) : OrderedMap κ ν :=
  pairs.foldl (fun map pair => map.insert pair.1 pair.2) map

/-- Whether two maps hold the same values under the same keys, in whatever order
they were inserted. -/
def sameEntries [DecidableEq ν] (left right : OrderedMap κ ν) : Bool :=
  left.entries.length == right.entries.length &&
    left.entries.all fun entry => right.get? entry.1 == some entry.2

@[simp]
theorem get?_empty (key : κ) : (empty : OrderedMap κ ν).get? key = none := rfl

theorem get?_insert (map : OrderedMap κ ν) (key : κ) (value : ν) (other : κ) :
    (map.insert key value).get? other = if key = other then some value else map.get? other := by
  simp only [get?, insert]
  induction map.entries with
  | nil => simp [put, find]
  | cons entry rest ih => simp only [put]; split <;> simp only [find] <;> grind

end OrderedMap

/-- Keys and values that travel with a tree, such as the language version its
source asks for. -/
abbrev Metadata := OrderedMap String String

end GoTrivia

import Marginalia.Link.Error

/-!
# Comment maps

A comment map holds the final comment text of each node that has one, in the order in which nodes
first received a text.  A text is never replaced: a later one is added on a new line.  At the end of
a pass the map is frozen.

## Main definitions

* `CommentMap` — the map.
* `CommentMap.get?`, `CommentMap.keys` — looking at it.
* `CommentMap.add`, `CommentMap.freeze` — changing it.
-/

namespace Marginalia

/-- The comment text of each node that has one. -/
structure CommentMap where
  /-- Nodes and their texts, in the order of their first text. -/
  entries : List (Int × String)
  frozen : Bool
deriving Repr, DecidableEq, Inhabited

namespace CommentMap

/-- A map without entries. -/
def empty : CommentMap := ⟨[], false⟩

/-- The number of entries. -/
def size (m : CommentMap) : Nat := m.entries.length

/-- The nodes with a text, in the order of their first text. -/
def keys (m : CommentMap) : List Int := m.entries.map Prod.fst

/-- The text of a node. -/
def get? (m : CommentMap) (key : Int) : Option String := m.entries.lookup key

/-- Whether a node has a text. -/
def contains (m : CommentMap) (key : Int) : Bool := (m.get? key).isSome

/-- Adds a text to an entry, on a new line if there is one already. -/
def put (key : Int) (text : String) : List (Int × String) → List (Int × String)
  | [] => [(key, text)]
  | (k, old) :: rest =>
    if k = key then (k, old ++ "\n" ++ text) :: rest else (k, old) :: put key text rest

/-- Adds a text to a node, unless the map is frozen. -/
def add (m : CommentMap) (key : Int) (text : String) : Except LinkError CommentMap :=
  if m.frozen then .error .mapFrozen else .ok { m with entries := put key text m.entries }

/-- The map, closed to further texts. -/
def freeze (m : CommentMap) : CommentMap := { m with frozen := true }

end CommentMap

end Marginalia

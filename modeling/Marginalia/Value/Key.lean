import Marginalia.Value.Basic

/-!
# Keys of mappings

A mapping holds each key once.  Two keys are the same if they are equal texts, if both are null, or
if they are numbers of the same size, whatever their kinds: `1`, `1.0` and true are one key.  Keys
of another kind are compared within their kind.  A key
that is given again keeps its first spelling and its place, and takes the last value.

## Main definitions

* `Value.number?` — the exact size of a number.
* `Value.sameKey` — whether two keys are the same.
* `Value.keyBefore?` — the order of keys.
* `Value.putKey`, `Value.ofEntries` — mappings from entries.
-/

namespace Marginalia.Value

/-- The exact size of a number; true counts as one, and false as zero. -/
def number? : Value → Option Decimal.Reading
  | .bool b => some (.finite (.ofInt (if b then 1 else 0)))
  | .int n => some (.finite (.ofInt n))
  | .float x => some (Decimal.read x)
  | .null | .text _ | .list _ | .mapping _ | .foreign _ => none

/-- Whether two keys are the same. -/
def sameKey (a b : Value) : Bool :=
  match a, b with
  | .null, .null => true
  | .text s, .text t => s == t
  | .foreign v, .foreign w => v.kind == w.kind && v.rank == w.rank
  | a, b =>
    match a.number?, b.number? with
    | some x, some y => x.order? y == some .eq
    | _, _ => false

/-- Whether a key comes strictly before another one: texts by their characters, numbers by their
size, and values of one other kind by their rank.  Keys of different kinds have no order. -/
def keyBefore? (a b : Value) : Option Bool :=
  match a, b with
  | .text s, .text t => some (decide (s < t))
  | .foreign v, .foreign w => if v.kind = w.kind then some (decide (v.rank < w.rank)) else none
  | a, b =>
    match a.number?, b.number? with
    | some x, some y => some (x.order? y == some .lt)
    | _, _ => none

/-- Puts a value under a key; a new key comes last. -/
def putKey (key v : Value) : List (Value × Value) → List (Value × Value)
  | [] => [(key, v)]
  | (k, old) :: rest =>
    if k.sameKey key then (k, v) :: rest else (k, old) :: putKey key v rest

/-- The mapping that entries make one after the other. -/
def ofEntries (entries : List (Value × Value)) : Value :=
  .mapping (entries.foldl (fun done (k, v) => putKey k v done) [])

end Marginalia.Value

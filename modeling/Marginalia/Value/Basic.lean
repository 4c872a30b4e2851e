import Marginalia.Decimal.Shortest
import Marginalia.Text.Digit
import Marginalia.Text.Quoted

/-!
# Values of documents

Configuration files and reports are documents: trees of mappings, lists and plain values.  The keys
of a mapping keep the order in which they were given, and may be values of any kind.  Readers of
documents may also make values of kinds of their own, such as dates, of which only a little is known
here.

Not every value can be shown: whole numbers have at most a given number of digits, and values are
nested only so deeply.

## Main definitions

* `Foreign` — a value of another kind.
* `Value` — the values.
* `ShowFault` — why a value cannot be shown.
* `Value.kindName` — the name of a value's kind in messages.
* `Value.literal` — a value as it is shown in messages.
* `Value.display` — the same, except that a text stands for itself.
* `Value.object`, `Value.get?` — mappings with texts as keys.
-/

namespace Marginalia

/-- A failure inside a part that is not described here: the name of its kind, and its wording. -/
structure Crash where
  kind : String
  message : String
deriving Inhabited, Repr, DecidableEq

/-- A value of another kind, as far as it is known. -/
structure Foreign where
  /-- The name of its kind. -/
  kind : String
  /-- The name of its kind with what it belongs to. -/
  fullKind : String
  /-- Its place in the order of its kind. -/
  rank : List Nat
  /-- How it is written. -/
  text : Except Crash String
  /-- How it is shown in messages. -/
  literal : Except Crash String
deriving Inhabited, Repr

/-- A value of a document. -/
inductive Value where
  | null
  | bool (b : Bool)
  | int (n : Int)
  | float (x : Float)
  | text (s : String)
  | list (items : List Value)
  | mapping (entries : List (Value × Value))
  | foreign (v : Foreign)
deriving Inhabited, Repr

namespace Value

/-- The name of a value's kind in messages. -/
def kindName : Value → String
  | .null => "NoneType"
  | .bool _ => "bool"
  | .int _ => "int"
  | .float _ => "float"
  | .text _ => "str"
  | .list _ => "list"
  | .mapping _ => "dict"
  | .foreign v => v.kind

/-- The name of a value's kind with what it belongs to. -/
def fullKindName : Value → String
  | .foreign v => v.fullKind
  | v => v.kindName

/-- Doubles in messages and documents: no exponent between `1e-04` and `1e+15`. -/
def floatLayout : Decimal.Layout := ⟨-4, 16, 2, "inf", "nan"⟩

end Value

/-- Why a value cannot be shown. -/
inductive ShowFault where
  /-- A whole number has too many digits. -/
  | digits
  /-- The value is nested too deeply. -/
  | nesting
  /-- A value of another kind fails. -/
  | crash (cause : Crash)
deriving Repr, DecidableEq

/-- The wording of the fault. -/
def ShowFault.message : ShowFault → String
  | .digits =>
    "Exceeds the limit (" ++ toString Text.digitLimit ++ " digits) for integer string " ++
      "conversion; use sys.set_int_max_str_digits() to increase the limit"
  | .nesting => "maximum recursion depth exceeded while getting the repr of an object"
  | .crash cause => cause.message

namespace Value

/-- Whether a whole number has few enough digits to be shown. -/
@[irreducible]
def isShort (n : Int) : Bool := decide (n.natAbs < Nat.pow 10 Text.digitLimit)

mutual

/-- A value as it is shown in messages, if it is nested at most `room` deep. -/
def literal : Value → (room : Nat) → Except ShowFault String
  | _, 0 => .error .nesting
  | .null, _ => .ok "None"
  | .bool true, _ => .ok "True"
  | .bool false, _ => .ok "False"
  | .int n, _ => if isShort n then .ok (toString n) else .error .digits
  | .float x, _ => .ok (Decimal.write floatLayout x)
  | .text s, _ => .ok (Text.quoted s)
  | .list items, room + 1 => do
    return "[" ++ ", ".intercalate (← literals items room) ++ "]"
  | .mapping entries, room + 1 => do
    return "\x7b" ++ ", ".intercalate (← literalEntries entries room) ++ "\x7d"
  | .foreign v, _ => v.literal.mapError .crash

/-- The items of a list as they are shown in messages. -/
def literals : List Value → (room : Nat) → Except ShowFault (List String)
  | [], _ => .ok []
  | v :: vs, room => do return (← v.literal room) :: (← literals vs room)

/-- The entries of a mapping as they are shown in messages. -/
def literalEntries : List (Value × Value) → (room : Nat) → Except ShowFault (List String)
  | [], _ => .ok []
  | (k, v) :: rest, room => do
    return ((← k.literal room) ++ ": " ++ (← v.literal room)) :: (← literalEntries rest room)

end

/-- A value as text: a text stands for itself, and a value of another kind for how it is written.
Anything else is shown as in messages. -/
def display (v : Value) (room : Nat) : Except ShowFault String :=
  match v with
  | .text s => .ok s
  | .foreign v => v.text.mapError .crash
  | v => v.literal room

/-- An optional text as a value. -/
def ofText? : Option String → Value
  | some s => .text s
  | none => .null

/-- A mapping with texts as keys. -/
def object (entries : List (String × Value)) : Value :=
  .mapping (entries.map fun (k, v) => (.text k, v))

/-- The value under a text key. -/
def get? (key : String) : Value → Option Value
  | .mapping entries =>
    (entries.find? fun entry => match entry.1 with | .text s => s == key | _ => false).map Prod.snd
  | _ => none

/-- The texts of a list, if all its items are texts. -/
def texts? : Value → Option (List String)
  | .list items => items.mapM fun | .text s => some s | _ => none
  | _ => none

end Value

end Marginalia

import Marginalia.Value.Key

/-!
# Documents as JSON

Values are written as JSON on one line, or on several with their keys sorted, and are read back
from it.  A double is written with the fewest digits that read back, and a number without a
fraction and an exponent is a whole number.  Doubles that are not finite are written by name, and a
value of another kind by the name of its kind.

## Main definitions

* `Json.Escaping`, `Json.string` — texts between double quotes.
* `Json.line` — a value on one line.
* `Json.pages` — a value on several lines, with sorted keys and in ASCII.
* `Json.parse?` — the value of a text.
-/

namespace Marginalia

namespace Json

/-! ## Texts -/

/-- Which characters are escaped besides quotes, backslashes and control characters. -/
inductive Escaping where
  /-- No others. -/
  | minimal
  /-- All that are not printable ASCII. -/
  | ascii
deriving Repr, DecidableEq

/-- A code unit as an escape. -/
def unitEscape (n : Nat) : List Char := ['\\', 'u'] ++ Text.hexPadded 4 n

/-- A character by its code units. -/
def codeEscape (c : Char) : List Char :=
  if c.toNat < 0x10000 then unitEscape c.toNat
  else
    let n := c.toNat - 0x10000
    unitEscape (0xd800 + n / 0x400) ++ unitEscape (0xdc00 + n % 0x400)

/-- How a character stands between the quotes. -/
def stringChar (escaping : Escaping) (c : Char) : List Char :=
  match c with
  | '"' => ['\\', '"']
  | '\\' => ['\\', '\\']
  | '\n' => ['\\', 'n']
  | '\r' => ['\\', 'r']
  | '\t' => ['\\', 't']
  | '\x08' => ['\\', 'b']
  | '\x0c' => ['\\', 'f']
  | c =>
    if c.toNat < 0x20 then codeEscape c
    else if escaping = .ascii ∧ 0x7e < c.toNat then codeEscape c
    else [c]

/-- A text between double quotes. -/
def string (escaping : Escaping) (s : String) : String :=
  String.ofList ('"' :: s.toList.flatMap (stringChar escaping) ++ ['"'])

/-! ## Writing -/

/-- Doubles in JSON. -/
def floatLayout : Decimal.Layout := ⟨-4, 16, 2, "Infinity", "NaN"⟩

/-- The text of a key.  A key that no document can hold is named by its kind. -/
def keyText : Value → String
  | .null => "null"
  | .bool true => "true"
  | .bool false => "false"
  | .int n => toString n
  | .float x => Decimal.write floatLayout x
  | .text s => s
  | v => v.kindName

mutual

/-- A value on one line. -/
def line (escaping : Escaping) : Value → String
  | .null => "null"
  | .bool true => "true"
  | .bool false => "false"
  | .int n => toString n
  | .float x => Decimal.write floatLayout x
  | .text s => string escaping s
  | .list items => "[" ++ ", ".intercalate (lines escaping items) ++ "]"
  | .mapping entries => "\x7b" ++ ", ".intercalate (lineEntries escaping entries) ++ "\x7d"
  | .foreign v => string escaping v.kind

/-- The items of a list, each on one line. -/
def lines (escaping : Escaping) : List Value → List String
  | [] => []
  | v :: vs => line escaping v :: lines escaping vs

/-- The entries of a mapping, each on one line. -/
def lineEntries (escaping : Escaping) : List (Value × Value) → List String
  | [] => []
  | (k, v) :: rest =>
    (string escaping (keyText k) ++ ": " ++ line escaping v) :: lineEntries escaping rest

end

/-- A line break followed by the indentation of a depth. -/
def indent (depth : Nat) : String := String.ofList ('\n' :: List.replicate (2 * depth) ' ')

/-- Parts between brackets, each on a line of its own. -/
def block (opening closing : String) (depth : Nat) : List String → String
  | [] => opening ++ closing
  | parts =>
    opening ++ indent (depth + 1) ++ ("," ++ indent (depth + 1)).intercalate parts ++
      indent depth ++ closing

/-- Entries in the order of their keys. -/
def sortEntries (entries : List (String × String)) : List (String × String) :=
  entries.mergeSort fun a b => !decide (b.1 < a.1)

mutual

/-- A value on several lines at a depth, with sorted keys and in ASCII. -/
def page (depth : Nat) : Value → String
  | .list items => block "[" "]" depth (pageItems (depth + 1) items)
  | .mapping entries =>
    block "\x7b" "\x7d" depth
      ((sortEntries (pageEntries (depth + 1) entries)).map fun (k, v) =>
        string .ascii k ++ ": " ++ v)
  | v => line .ascii v

/-- The items of a list at a depth. -/
def pageItems (depth : Nat) : List Value → List String
  | [] => []
  | v :: vs => page depth v :: pageItems depth vs

/-- The entries of a mapping at a depth. -/
def pageEntries (depth : Nat) : List (Value × Value) → List (String × String)
  | [] => []
  | (k, v) :: rest => (keyText k, page depth v) :: pageEntries depth rest

end

/-- A value on several lines, with sorted keys and in ASCII. -/
def pages (v : Value) : String := page 0 v

/-! ## Reading -/

/-- Drops the blanks between tokens. -/
def skipBlanks : List Char → List Char
  | c :: cs => if c == ' ' || c == '\n' || c == '\r' || c == '\t' then skipBlanks cs else c :: cs
  | [] => []

/-- The value of a hexadecimal digit. -/
def hexDigit? (c : Char) : Option Nat :=
  if c.isDigit then some (c.toNat - 48)
  else if decide ('a' ≤ c) && decide (c ≤ 'f') then some (c.toNat - 87)
  else if decide ('A' ≤ c) && decide (c ≤ 'F') then some (c.toNat - 55)
  else none

/-- The value of four hexadecimal digits. -/
def unit? (a b c d : Char) : Option Nat := do
  return ((← hexDigit? a) * 16 + (← hexDigit? b)) * 256 + ((← hexDigit? c) * 16 + (← hexDigit? d))

/-- The character of a code unit; half of a pair alone is U+FFFD. -/
def charOfUnit (n : Nat) : Char :=
  if 0xd800 ≤ n ∧ n < 0xe000 then '�' else Char.ofNat n

/-- The character that two code units stand for, if they are a pair. -/
def pair? (high low : Nat) : Option Char :=
  if 0xd800 ≤ high ∧ high < 0xdc00 ∧ 0xdc00 ≤ low ∧ low < 0xe000 then
    some (Char.ofNat (0x10000 + (high - 0xd800) * 0x400 + (low - 0xdc00)))
  else none

/-- The character that an escape letter stands for. -/
def escape? : Char → Option Char
  | 'n' => some '\n'
  | 't' => some '\t'
  | 'r' => some '\r'
  | 'b' => some '\x08'
  | 'f' => some '\x0c'
  | '/' => some '/'
  | '\\' => some '\\'
  | '"' => some '"'
  | _ => none

/-- Reads a text behind its opening quote, the characters read so far being `done`, latest first. -/
def readString (done : List Char) : List Char → Option (String × List Char)
  | '"' :: rest => some (String.ofList done.reverse, rest)
  | '\\' :: 'u' :: a :: b :: c :: d :: rest =>
    match unit? a b c d, rest with
    | none, _ => none
    | some high, '\\' :: 'u' :: e :: f :: g :: h :: rest' =>
      match (unit? e f g h).bind (pair? high) with
      | some c => readString (c :: done) rest'
      | none => readString (charOfUnit high :: done) ('\\' :: 'u' :: e :: f :: g :: h :: rest')
    | some high, rest => readString (charOfUnit high :: done) rest
  | '\\' :: c :: rest =>
    match escape? c with
    | some c => readString (c :: done) rest
    | none => none
  | c :: rest => readString (c :: done) rest
  | [] => none

/-- The number that decimal digits denote. -/
def number (digits : List Char) : Nat := digits.foldl (fun n c => 10 * n + (c.toNat - 48)) 0

/-- Reads an exponent behind its letter. -/
def readExponent (cs : List Char) : Int × List Char :=
  let (negative, cs) := match cs with
    | '-' :: rest => (true, rest)
    | '+' :: rest => (false, rest)
    | _ => (false, cs)
  let n : Int := number (cs.takeWhile Char.isDigit)
  (if negative then -n else n, cs.dropWhile Char.isDigit)

/-- Reads the name of the infinite double behind its sign. -/
def readInfinite (negative : Bool) : List Char → Option (Value × List Char)
  | 'I' :: 'n' :: 'f' :: 'i' :: 'n' :: 'i' :: 't' :: 'y' :: rest =>
    some (.float (if negative then -1 / 0 else 1 / 0), rest)
  | _ => none

/-- Reads a number behind its sign. -/
def readNumber (negative : Bool) (cs : List Char) : Option (Value × List Char) :=
  let whole := cs.takeWhile Char.isDigit
  let rest := cs.dropWhile Char.isDigit
  if whole.isEmpty then readInfinite negative cs
  else
    let (fraction, rest', isFloat) := match rest with
      | '.' :: more => (more.takeWhile Char.isDigit, more.dropWhile Char.isDigit, true)
      | _ => ([], rest, false)
    let (exponent, rest'', isFloat) := match rest' with
      | 'e' :: more | 'E' :: more => let (e, r) := readExponent more; (e, r, true)
      | _ => (0, rest', isFloat)
    if isFloat then
      let x := Decimal.ofDigits negative (number (whole ++ fraction)) (exponent - fraction.length)
      some (.float x, rest'')
    else
      let n : Int := number whole
      some (.int (if negative then -n else n), rest'')

mutual

/-- Reads a value. -/
def readValue : Nat → List Char → Option (Value × List Char)
  | 0, _ => none
  | fuel + 1, cs =>
    match skipBlanks cs with
    | 'n' :: 'u' :: 'l' :: 'l' :: rest => some (.null, rest)
    | 't' :: 'r' :: 'u' :: 'e' :: rest => some (.bool true, rest)
    | 'f' :: 'a' :: 'l' :: 's' :: 'e' :: rest => some (.bool false, rest)
    | 'N' :: 'a' :: 'N' :: rest => some (.float (0 / 0), rest)
    | '"' :: rest => (readString [] rest).map fun (s, r) => (.text s, r)
    | '[' :: rest =>
      match skipBlanks rest with
      | ']' :: rest' => some (.list [], rest')
      | _ => readItems fuel [] rest
    | '\x7b' :: rest =>
      match skipBlanks rest with
      | '\x7d' :: rest' => some (.mapping [], rest')
      | _ => readEntries fuel [] rest
    | '-' :: rest => readNumber true rest
    | cs => readNumber false cs

/-- Reads the items of a list up to its closing bracket. -/
def readItems : Nat → List Value → List Char → Option (Value × List Char)
  | 0, _, _ => none
  | fuel + 1, done, cs => do
    let (v, rest) ← readValue fuel cs
    match skipBlanks rest with
    | ',' :: rest' => readItems fuel (v :: done) rest'
    | ']' :: rest' => return (.list (v :: done).reverse, rest')
    | _ => none

/-- Reads the entries of a mapping up to its closing brace. -/
def readEntries : Nat → List (Value × Value) → List Char → Option (Value × List Char)
  | 0, _, _ => none
  | fuel + 1, done, cs => do
    let '"' :: rest := skipBlanks cs | none
    let (key, rest) ← readString [] rest
    let ':' :: rest := skipBlanks rest | none
    let (v, rest) ← readValue fuel rest
    match skipBlanks rest with
    | ',' :: rest' => readEntries fuel (Value.putKey (.text key) v done) rest'
    | '\x7d' :: rest' => return (.mapping (Value.putKey (.text key) v done), rest')
    | _ => none

end

/-- The value that a text denotes, if it is JSON. -/
def parse? (text : String) : Option Value := do
  let cs := text.toList
  let (v, rest) ← readValue (cs.length + 1) cs
  if (skipBlanks rest).isEmpty then return v else none

end Json

end Marginalia

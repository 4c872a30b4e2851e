import Marginalia.Files.Batch
import Marginalia.Source.Interchange
import Marginalia.Value.Json

/-!
# Bundles of files

A bundle is a document that holds files together with the parse trees of the sources among them.
It names the current folder, and lists the files; each has a path and one of a text, bytes in
hexadecimal digits, a document that is written as JSON, the target of a link, or nothing for an
empty folder.

## Main definitions

* `Bundle` — files with the parse trees of their bytes.
* `Bundle.ofValue` — the bundle that a document describes.
* `Bundle.parser` — the parser that knows the trees of a bundle.
-/

namespace Marginalia

/-- The bytes that hexadecimal digits stand for. -/
def Bytes.ofHex : List Char → Bytes
  | a :: b :: rest =>
    UInt8.ofNat ((Json.hexDigit? a).getD 0 * 16 + (Json.hexDigit? b).getD 0) :: Bytes.ofHex rest
  | _ => []

/-- Files with the parse trees of their bytes. -/
structure Bundle where
  files : FileSystem
  /-- The trees by the bytes they were made from; the first one counts. -/
  trees : List (Bytes × ParseTree)

namespace Bundle

/-- The entry that a document describes. -/
def entryOf (v : Value) : Entry :=
  match v.get? "link", v.get? "text", v.get? "hex", v.get? "value" with
  | some (.text target), _, _, _ => .link target
  | _, some (.text s), _, _ => .file (Utf8.encode s)
  | _, _, some (.text digits), _ => .file (.ofHex digits.toList)
  | _, _, _, some value => .file (Utf8.encode (Json.line .minimal value))
  | _, _, _, _ => .folder []

/-- The path that a document names. -/
def pathOf (v : Value) : String :=
  match v.get? "path" with
  | some (.text path) => path
  | _ => ""

/-- The tree in the description of a file. -/
def treeOf? (v : Value) : Option (Bytes × ParseTree) :=
  match entryOf v, v.get? "tree" with
  | .file content, some tree => some (content, .ofValue tree)
  | _, _ => none

/-- The bundle that a document describes. -/
def ofValue (v : Value) : Bundle :=
  let current := match v.get? "folder" with
    | some (.text path) => path
    | _ => "/"
  let described := match v.get? "files" with
    | some (.list items) => items
    | _ => []
  let put (fs : FileSystem) (d : Value) : FileSystem :=
    fs.after (Storing.place (pathOf d) (entryOf d))
  { files := described.foldl put (.bare current)
    trees := described.filterMap treeOf? }

/-- The parser that knows the trees of a bundle. -/
def parser (b : Bundle) : SourceParser := fun bytes =>
  match b.trees.lookup bytes with
  | some tree => .ok tree
  | none => .error (.crashed "no parse tree is known for this source")

/-- A file as a document. -/
def fileValue (path : String) (content : Bytes) : Value :=
  .object [("path", .text path), ("text", .text (String.ofList (Utf8.decode content)))]

end Bundle

end Marginalia

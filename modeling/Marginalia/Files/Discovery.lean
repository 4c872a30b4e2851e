import Marginalia.Files.FileSystem

/-!
# Discovery of source files

The source files below a folder are those whose extension is asked for.  Hidden folders and folders
of build products and of dependencies are skipped, and links to folders are not followed.  A folder
that cannot be opened by its path, because the path is too long, is passed over.  A link that leads
to no folder counts as a file.

## Main definitions

* `Discovery.standardExtensions`, `Discovery.skippedFolders` — what is looked for and skipped.
* `Discovery.discover` — the source files below a folder, sorted.
-/

namespace Marginalia.Discovery

/-- The extensions of JavaScript sources. -/
def standardExtensions : List String := [".js", ".mjs", ".cjs", ".jsx"]

/-- Folders that are never searched. -/
def skippedFolders : List String :=
  ["node_modules", "build", "dist", "out", "venv", "__pycache__"]

/-- Whether a folder with this name is searched. -/
def isSearched (name : String) : Bool :=
  name.toList.head? != some '.' && !skippedFolders.contains name

/-- Texts in increasing order, each of them once. -/
def sortedNames (names : List String) : List String :=
  names.eraseDups.mergeSort fun a b => !decide (b < a)

mutual

/-- The source files below the entry of a folder. -/
def filesBelow (fs : FileSystem) (extensions : List String) (folder : String) :
    Entry → List String
  | .folder entries => filesAmong fs extensions folder entries
  | .file _ | .link _ => []

/-- The source files among the entries of a folder. -/
def filesAmong (fs : FileSystem) (extensions : List String) (folder : String) :
    List (String × Entry) → List String
  | [] => []
  | (name, e) :: rest =>
    let path := Path.join folder name
    let here := match e with
      | .folder _ =>
        if isSearched name && fs.isFolder path then filesBelow fs extensions path e else []
      | .link _ =>
        if fs.isFolder path then []
        else if extensions.contains (Path.extension name) then [path] else []
      | .file _ => if extensions.contains (Path.extension name) then [path] else []
    here ++ filesAmong fs extensions folder rest

end

/-- The source files below a folder, in increasing order.  A path that leads nowhere has none below
it, but the null character in a path is a fault. -/
def discover (fs : FileSystem) (extensions : List String) (folder : String) :
    Except SystemFault (List String) :=
  let start := fs.absolute folder
  match fs.locate .look start with
  | .ok ⟨_, some e⟩ => .ok ((filesBelow fs extensions start e).mergeSort fun a b => !decide (b < a))
  | .error .nullCharacter => .error ⟨.nullCharacter, start⟩
  | _ => .ok []

end Marginalia.Discovery

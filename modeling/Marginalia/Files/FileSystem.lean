import Marginalia.Files.Path
import Marginalia.Text.Quoted
import Marginalia.Text.Utf8

/-!
# File systems as values

A run reads and writes files.  Here a file system is a value: a tree of folders, files and symbolic
links, with a current folder.  A symbolic link stands for its target wherever a path passes through
it; the number of links on a way, the length of a path and the length of a name are limited.

## Main definitions

* `Entry`, `FileSystem` — the file system.
* `SystemFault` — why an operation on files fails.
* `FileSystem.locate`, `FileSystem.entry?` — where a path leads, and what is there.
* `FileSystem.read`, `FileSystem.write`, `FileSystem.makeFolder`, `FileSystem.makeLink` —
  operations on files.
* `Storing`, `Storing.makeFolders` — operations that change files step by step.
* `FileSystem.bare`, `Storing.place` — building a file system.
-/

namespace Marginalia

/-- What a name in a folder stands for. -/
inductive Entry where
  | file (content : Bytes)
  | folder (entries : List (String × Entry))
  | link (target : String)
deriving Inhabited, Repr

/-- Why an operation on files fails. -/
inductive SystemReason where
  | missing
  | exists
  | notFolder
  | isFolder
  /-- A path or a name on it is too long. -/
  | nameTooLong
  | tooManyLinks
  /-- A path holds the null character, which no name does. -/
  | nullCharacter
deriving Repr, DecidableEq

/-- A failed operation on files, with the path as it was given. -/
structure SystemFault where
  reason : SystemReason
  path : String
deriving Repr, DecidableEq

/-- The wording of a failed operation. -/
def SystemFault.message (f : SystemFault) : String :=
  let shown := Text.quoted f.path
  match f.reason with
  | .missing => "[Errno 2] No such file or directory: " ++ shown
  | .exists => "[Errno 17] File exists: " ++ shown
  | .notFolder => "[Errno 20] Not a directory: " ++ shown
  | .isFolder => "[Errno 21] Is a directory: " ++ shown
  | .nameTooLong => "[Errno 36] File name too long: " ++ shown
  | .tooManyLinks => "[Errno 40] Too many levels of symbolic links: " ++ shown
  | .nullCharacter => "embedded null byte"

namespace Entry

/-- The entry at a place, without passing through links. -/
def at? : Entry → List String → Option Entry
  | e, [] => some e
  | .folder entries, name :: rest => (entries.lookup name).bind fun e => e.at? rest
  | _, _ :: _ => none

/-- Puts an entry under a name in a folder; a new name comes last. -/
def putIn (name : String) (e : Entry) : List (String × Entry) → List (String × Entry)
  | [] => [(name, e)]
  | (n, old) :: rest => if n = name then (n, e) :: rest else (n, old) :: putIn name e rest

/-- A tree with the entry `e` at a place whose folder exists. -/
def putAt (tree : Entry) : List String → Entry → Entry
  | [], e => e
  | name :: rest, e =>
    match tree with
    | .folder entries =>
      let below := (entries.lookup name).getD (.folder [])
      .folder (putIn name (below.putAt rest e) entries)
    | other => other

mutual

/-- The files of a tree, with their paths below it. -/
def files (path : List String) : Entry → List (List String × Bytes)
  | .file content => [(path, content)]
  | .folder entries => filesOf path entries
  | .link _ => []

/-- The files in the entries of a folder, with their paths. -/
def filesOf (path : List String) : List (String × Entry) → List (List String × Bytes)
  | [] => []
  | (name, e) :: rest => e.files (path ++ [name]) ++ filesOf path rest

end

end Entry

/-- A file system with its current folder. -/
structure FileSystem where
  root : Entry
  /-- The absolute path of the current folder. -/
  current : String
deriving Inhabited, Repr

/-- A place in a file system, and what is there; nothing, if only its folder exists. -/
structure Located where
  place : List String
  entry : Option Entry
deriving Inhabited, Repr

namespace FileSystem

/-! ### Following paths -/

/-- How many bytes a path may have. -/
def pathLimit : Nat := 4095

/-- How many bytes a name may have. -/
def nameLimit : Nat := 255

/-- How many links may be followed on one way. -/
def linkLimit : Nat := 40

/-- Where following names leads without passing through a link. -/
inductive Walk where
  | arrived (found : Located)
  /-- A link is met: the way goes on from another place. -/
  | diverted (done todo : List String)
  | stuck (reason : SystemReason)
deriving Inhabited, Repr

/-- What a path is followed for. -/
inductive Purpose where
  /-- To see what is there. -/
  | look
  /-- To write a file there. -/
  | write
  /-- To make a folder or a link there. -/
  | make
deriving Repr, DecidableEq

/-- Follows names from a place, which is given by its own names, the last one first.  Slashes behind
the last name ask for a folder, so that no file can be written there; where something is made they
do not matter, and a link at the very end is not followed. -/
def walk (root : Entry) (purpose : Purpose) : List String → List String → Walk
  | done, [] => .arrived ⟨done.reverse, root.at? done.reverse⟩
  | done, name :: rest =>
    match root.at? done.reverse with
    | some (.folder entries) =>
      let slashes := !rest.isEmpty && rest.all (· == "")
      if name == "" || name == "." then walk root purpose done rest
      else if name == ".." then walk root purpose done.tail rest
      else if purpose = .write && slashes then .stuck .isFolder
      else if nameLimit < name.utf8ByteSize then .stuck .nameTooLong
      else
        let isLast := rest.isEmpty || (purpose = .make && slashes)
        let here := (name :: done).reverse
        match entries.lookup name with
        | none => if isLast then .arrived ⟨here, none⟩ else .stuck .missing
        | some (.link target) =>
          if isLast && purpose = .make then .arrived ⟨here, some (.link target)⟩
          else
            let start := if Path.isAbsolute target then [] else done
            .diverted start (Path.components target ++ rest)
        | some e =>
          if isLast then .arrived ⟨here, some e⟩ else walk root purpose (name :: done) rest
    | some _ => .stuck .notFolder
    | none => .stuck .missing

/-- Follows names and at most `links` links on the way. -/
def locateFrom (root : Entry) (purpose : Purpose) (links : Nat) (done todo : List String) :
    Except SystemReason Located :=
  match walk root purpose done todo, links with
  | .arrived found, _ => .ok found
  | .stuck reason, _ => .error reason
  | .diverted _ _, 0 => .error .tooManyLinks
  | .diverted done todo, links + 1 => locateFrom root purpose links done todo

/-- What is wrong with a path, whatever the files are. -/
def pathFault? (path : String) : Option SystemReason :=
  if path.toList.contains '\x00' then some .nullCharacter
  else if path.isEmpty then some .missing
  else if pathLimit < path.utf8ByteSize then some .nameTooLong
  else none

/-- Follows a path. -/
def locate (fs : FileSystem) (purpose : Purpose) (path : String) : Except SystemReason Located :=
  match pathFault? path with
  | some reason => .error reason
  | none => locateFrom fs.root purpose linkLimit [] (Path.components (Path.join fs.current path))

/-- The entry that a path leads to. -/
def entry? (fs : FileSystem) (path : String) : Option Entry :=
  match fs.locate .look path with
  | .ok found => found.entry
  | .error _ => none

/-- Whether a path leads to anything. -/
def exists? (fs : FileSystem) (path : String) : Bool := (fs.entry? path).isSome

/-- Whether a path leads to a file. -/
def isFile (fs : FileSystem) (path : String) : Bool :=
  match fs.entry? path with
  | some (.file _) => true
  | _ => false

/-- Whether a path leads to a folder. -/
def isFolder (fs : FileSystem) (path : String) : Bool :=
  match fs.entry? path with
  | some (.folder _) => true
  | _ => false

/-- A path as an absolute normal path. -/
def absolute (fs : FileSystem) (path : String) : String := Path.absolute fs.current path

/-- The content of a file. -/
def read (fs : FileSystem) (path : String) : Except SystemFault Bytes :=
  match fs.locate .look path with
  | .error reason => .error ⟨reason, path⟩
  | .ok found =>
    match found.entry with
    | some (.file content) => .ok content
    | some (.folder _) => .error ⟨.isFolder, path⟩
    | _ => .error ⟨.missing, path⟩

/-- Writes a file, which is made if its folder exists. -/
def write (fs : FileSystem) (path : String) (content : Bytes) :
    Except SystemFault FileSystem :=
  match fs.locate .write path with
  | .error reason => .error ⟨reason, path⟩
  | .ok found =>
    match found.entry with
    | some (.folder _) => .error ⟨.isFolder, path⟩
    | _ => .ok { fs with root := fs.root.putAt found.place (.file content) }

/-- Makes an entry where there is none. -/
def make (fs : FileSystem) (path : String) (e : Entry) : Except SystemFault FileSystem :=
  match fs.locate .make path with
  | .error reason => .error ⟨reason, path⟩
  | .ok found =>
    match found.entry with
    | some _ => .error ⟨.exists, path⟩
    | none => .ok { fs with root := fs.root.putAt found.place e }

/-- Makes a folder. -/
def makeFolder (fs : FileSystem) (path : String) : Except SystemFault FileSystem :=
  fs.make path (.folder [])

/-- Makes a symbolic link. -/
def makeLink (fs : FileSystem) (path target : String) : Except SystemFault FileSystem :=
  fs.make path (.link target)

/-- Makes a folder unless it exists. -/
def ensureFolder (fs : FileSystem) (path : String) : Except SystemFault FileSystem :=
  match fs.makeFolder path with
  | .ok fs => .ok fs
  | .error fault => if fs.isFolder path then .ok fs else .error fault

/-- The files below the current folder, with their paths from there. -/
def localFiles (fs : FileSystem) : List (String × Bytes) :=
  match fs.entry? fs.current with
  | some e => (e.files []).map fun (path, content) => ("/".intercalate path, content)
  | none => []

/-- The files below the current folder that did not exist earlier, by their paths. -/
def addedSince (fs earlier : FileSystem) : List (String × Bytes) :=
  let known := earlier.localFiles.map Prod.fst
  let added := fs.localFiles.filter fun (path, _) => !known.contains path
  added.mergeSort fun a b => !decide (b.1 < a.1)

end FileSystem

/-! ## Changing files step by step -/

/-- An operation that changes files.  A failed operation keeps what was changed before. -/
abbrev Storing := EStateM SystemFault FileSystem

namespace Storing

/-- A single change. -/
def change (f : FileSystem → Except SystemFault FileSystem) : Storing Unit := fun fs =>
  match f fs with
  | .ok fs => .ok () fs
  | .error fault => .error fault fs

/-- Goes on behind a failure because something exists. -/
def unlessExists (operation : Storing Unit) : Storing Unit := fun fs =>
  match operation fs with
  | .error ⟨.exists, _⟩ fs => .ok () fs
  | result => result

/-- Writes a file, which is made if its folder exists. -/
def write (path : String) (content : Bytes) : Storing Unit := change (·.write path content)

/-- A path split into what lies above and the name; slashes at its end do not count. -/
def splitName (path : String) : String × String :=
  match Path.split path with
  | (head, "") => Path.split head
  | parts => parts

/-- Makes a folder and the folders above it, as far as they do not exist.  The first argument bounds
how many folders lie above. -/
def makeFoldersWithin : Nat → String → Storing Unit
  | 0, path => change (·.ensureFolder path)
  | depth + 1, path => do
    let (head, name) := splitName path
    if head.isEmpty || name.isEmpty || (← get).exists? head then change (·.ensureFolder path)
    else
      unlessExists (makeFoldersWithin depth head)
      if name != "." then change (·.ensureFolder path)

/-- Makes a folder and the folders above it, as far as they do not exist. -/
def makeFolders (path : String) : Storing Unit := makeFoldersWithin path.length path

/-- Makes an entry at a path below the current folder, with the folders on the way to it.  A file is
written to wherever its path leads. -/
def place (path : String) (e : Entry) : Storing Unit := do
  let path := Path.join (← get).current path
  match e with
  | .folder _ => makeFolders path
  | .file content =>
    makeFolders (Path.folder path)
    write path content
  | .link target =>
    makeFolders (Path.folder path)
    change (·.makeLink path target)

end Storing

namespace FileSystem

/-- The files after an operation, whether or not it failed. -/
def after (fs : FileSystem) (operation : Storing Unit) : FileSystem :=
  match operation fs with
  | .ok _ fs => fs
  | .error _ fs => fs

/-- A file system in which only the current folder exists. -/
def bare (current : String) : FileSystem :=
  { (FileSystem.mk (.folder []) "/").after (Storing.makeFolders current) with current }

end FileSystem

end Marginalia

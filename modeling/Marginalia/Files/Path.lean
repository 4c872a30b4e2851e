import Marginalia.Text.Split

/-!
# Paths

Paths are texts with components between slashes.  A normal path has no empty component, no `.`, and
no `..` behind another component.

## Main definitions

* `Path.components`, `Path.join`, `Path.split` — taking paths apart and putting them together.
* `Path.normalize`, `Path.absolute`, `Path.relative` — normal paths.
* `Path.extension` — the extension of a path.
-/

namespace Marginalia.Path

/-- The components of a path, the empty ones included. -/
def components (path : String) : List String :=
  (Text.splitAt '/' path.toList).map String.ofList

/-- What is said where no path is given. -/
def notGiven : String := "expected str, bytes or os.PathLike object, not list"

/-- Whether a path starts at the root. -/
def isAbsolute (path : String) : Bool := path.toList.head? == some '/'

/-- A path below another one; an absolute path stands for itself. -/
def join (base path : String) : String :=
  if isAbsolute path then path
  else if base.isEmpty || base.toList.getLast? == some '/' then base ++ path
  else base ++ "/" ++ path

/-- The slashes that an absolute path keeps: two, if it starts with exactly two, and otherwise
one. -/
def leadingSlashes (path : String) : String :=
  match path.toList with
  | '/' :: '/' :: '/' :: _ => "/"
  | '/' :: '/' :: _ => "//"
  | '/' :: _ => "/"
  | _ => ""

/-- Adds a component to normal components, the last one first. -/
def push (absolute : Bool) (done : List String) (component : String) : List String :=
  if component == "" || component == "." then done
  else if component == ".." then
    match done with
    | [] => if absolute then [] else [".."]
    | top :: rest => if top == ".." then ".." :: done else rest
  else component :: done

/-- The normal form of a path. -/
def normalize (path : String) : String :=
  let slashes := leadingSlashes path
  let kept := (components path).foldl (push (isAbsolute path)) []
  let text := slashes ++ "/".intercalate kept.reverse
  if text.isEmpty then "." else text

/-- The absolute normal form of a path, seen from a folder. -/
def absolute (folder path : String) : String := normalize (join folder path)

/-- A path split into the part before its last slash and the name behind it.  Slashes at the end of
the first part are dropped, unless it holds nothing else. -/
def split (path : String) : String × String :=
  let reversed := path.toList.reverse
  let name := (reversed.takeWhile (· != '/')).reverse
  let before := reversed.dropWhile (· != '/')
  let head := before.dropWhile (· == '/')
  let kept := if head.isEmpty then before else head
  (String.ofList kept.reverse, String.ofList name)

/-- The folder of a path. -/
def folder (path : String) : String := (split path).1

/-- Drops the components that two paths share from both. -/
def dropCommon : List String → List String → List String × List String
  | a :: as, b :: bs => if a = b then dropCommon as bs else (a :: as, b :: bs)
  | as, bs => (as, bs)

/-- An absolute path as it is seen from an absolute folder. -/
def relative (path folder : String) : String :=
  let parts (p : String) := (components p).filter (· != "")
  let (rest, up) := dropCommon (parts path) (parts folder)
  let steps := List.replicate up.length ".." ++ rest
  if steps.isEmpty then "." else "/".intercalate steps

/-- The extension of a path with its dot.  Dots that open the name open no extension. -/
def extension (path : String) : String :=
  let reversed := (split path).2.toList.reverse
  let tail := reversed.takeWhile (· != '.')
  match reversed.dropWhile (· != '.') with
  | '.' :: stem => if stem.all (· == '.') then "" else String.ofList ('.' :: tail.reverse)
  | _ => ""

end Marginalia.Path

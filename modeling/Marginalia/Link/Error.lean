import Marginalia.Position

/-!
# Faults of linking

The causes for which linking stops.  All but two of them say that the inputs, or the state reached,
break an assumption of the pass.

## Main definitions

* `LinkError` — the causes.
* `LinkError.message` — their wording.
* `LinkError.breaksInvariant` — whether an assumption of the pass is broken.
-/

namespace Marginalia

/-- Why linking stops. -/
inductive LinkError where
  /-- A tree with a root was given another one. -/
  | secondRoot
  /-- A map was written to after its pass had ended. -/
  | mapFrozen
  /-- A comment starts before the end of the one before it. -/
  | outOfOrder (previous following : Position)
  /-- There are comments, but the tree is empty. -/
  | noRoot
  /-- Comments are left at the end of an empty tree. -/
  | noRootForTrailing
  /-- All comments were read already. -/
  | pastEnd (cursor : Nat)
  /-- The last comment was asked for the one after it. -/
  | nothingFollows (cursor : Nat)
  /-- A node is not among its parent's children. -/
  | notAmongSiblings (id : Nat) (kind : String)
  /-- The root has no place before it. -/
  | beforeRoot
  /-- Neither a node nor any node above it accepts comments. -/
  | noDestination (id : Nat) (kind : String)
deriving Repr, DecidableEq

namespace LinkError

/-- The wording of a cause. -/
def message : LinkError → String
  | .secondRoot => "Syntax tree already has a root node"
  | .mapFrozen => "Comment map is frozen; the linking pass has completed"
  | .outOfOrder previous following =>
    "Comments are not position-ordered: " ++ previous.describe ++ " overlaps or follows " ++
      following.describe
  | .noRoot => "Cannot link comments to a tree without a root"
  | .noRootForTrailing => "Cannot place trailing comments in an empty tree"
  | .pastEnd cursor => "Comment cursor " ++ toString cursor ++ " is past the end of the stream"
  | .nothingFollows cursor => "No comment follows cursor " ++ toString cursor
  | .notAmongSiblings id kind =>
    "Node " ++ toString id ++ " (" ++ kind ++ ") is missing from its parent's children"
  | .beforeRoot => "Cannot insert a placeholder before the root node"
  | .noDestination id kind =>
    "No ancestor of node " ++ toString id ++ " (" ++ kind ++ ") accepts comments"

/-- Whether a cause says that an assumption of the pass is broken. -/
def breaksInvariant : LinkError → Bool
  | .secondRoot | .mapFrozen => false
  | _ => true

end LinkError

end Marginalia

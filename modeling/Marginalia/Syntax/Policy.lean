/-!
# Policies for node kinds

Which nodes may hold a comment depends on their kinds.  A policy names the kinds with a special
role.

## Main definitions

* `KindPolicy` — the roles of kinds.
* `KindPolicy.standard` — the roles in the JavaScript grammar.
-/

namespace Marginalia

/-- The roles of node kinds. -/
structure KindPolicy where
  /-- Containers that may take an empty child more. -/
  blockLike : List String
  /-- Kinds whose comments would not be printed. -/
  ignored : List String
  /-- Member accesses, whose property operand holds no comment. -/
  memberAccess : List String
  /-- The field of the property operand. -/
  propertyField : String
  /-- Argument lists of calls. -/
  argumentLists : List String
deriving Repr, DecidableEq, Inhabited

/-- The roles in the JavaScript grammar. -/
def KindPolicy.standard : KindPolicy where
  blockLike := ["program", "statement_block"]
  ignored :=
    ["statement_block", "statement_identifier", "class_body", "arguments", "formal_parameters"]
  memberAccess := ["member_expression"]
  propertyField := "property"
  argumentLists := ["arguments"]

end Marginalia

import DeviceSchema.Tree.Path

/-! # Conditions

A **condition** is a named test of the value at some path.  Nodes to which it is
attached are shown only while it holds.
-/
namespace DeviceSchema

/-- A test of a value. -/
inductive Predicate where
  | equals (value : String)
  | matchesPattern (pattern : String) (caseRule : CaseRule)
deriving DecidableEq, Repr

def Predicate.operation : Predicate → Operation
  | equals _ => .equals
  | matchesPattern _ _ => .regex

/-- A test of the value at `source`, by name. -/
structure Condition where
  name : String
  source : Path
  predicate : Predicate
deriving DecidableEq, Repr

end DeviceSchema

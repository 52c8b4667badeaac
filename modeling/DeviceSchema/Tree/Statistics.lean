import DeviceSchema.Tree.Collection

/-! # Statistics

What generated code has to reserve: the depth to which lists nest, the longest
names, the types that occur and the features that collections use.
-/
namespace DeviceSchema

/-- The features that some collection uses. -/
structure Features where
  flexibleGroup : Bool := false
  flexibleList : Bool := false
  dictionary : Bool := false
  flexibleArray : Bool := false
  flexibleDictionary : Bool := false
deriving DecidableEq, Repr

/-- The features that either uses. -/
def Features.union (a b : Features) : Features where
  flexibleGroup := a.flexibleGroup || b.flexibleGroup
  flexibleList := a.flexibleList || b.flexibleList
  dictionary := a.dictionary || b.dictionary
  flexibleArray := a.flexibleArray || b.flexibleArray
  flexibleDictionary := a.flexibleDictionary || b.flexibleDictionary

/-- The features that one collection uses. -/
def Features.ofHead (h : Head) (isGroup : Bool) : Features where
  flexibleGroup := h.isFlexible && isGroup
  flexibleList := h.isFlexible && !isGroup
  dictionary := h.isDictionary
  flexibleArray := h.isFlexible && !h.isDictionary
  flexibleDictionary := h.isFlexible && h.isDictionary

/-- What generated code has to reserve. -/
structure Statistics where
  listDepth : Nat := 0
  /-- The longest name of a group or list. -/
  collectionName : Nat := 0
  /-- The longest name of an element. -/
  elementName : Nat := 0
  /-- The longest name of a member, or path of a reference. -/
  memberName : Nat := 0
  /-- The types that occur, in the order of `ValueType.all`. -/
  types : List ValueType := []
  features : Features := {}
deriving DecidableEq, Repr

namespace Statistics

def noteListDepth (s : Statistics) (depth : Nat) : Statistics :=
  { s with listDepth := max s.listDepth depth }

def noteCollectionName (s : Statistics) (length : Nat) : Statistics :=
  { s with collectionName := max s.collectionName length }

def noteElementName (s : Statistics) (length : Nat) : Statistics :=
  { s with elementName := max s.elementName length }

def noteMemberName (s : Statistics) (length : Nat) : Statistics :=
  { s with memberName := max s.memberName length }

def noteType (s : Statistics) (type : ValueType) : Statistics :=
  { s with types := ValueType.all.filter fun t => t = type || s.types.contains t }

def noteCollection (s : Statistics) (h : Head) (isGroup : Bool) : Statistics :=
  { s with features := s.features.union (.ofHead h isGroup) }

end Statistics
end DeviceSchema

import DeviceSchema.Proofs.Tree.Nodes
import DeviceSchema.Tree.Session

/-! # Statistics of a finished tree

`Statistics.recount` goes over all nodes of a tree and finds what the statistics should
say of it, with no regard to how it was built.  Recounting turns joined lists of nodes
into the **union** of statistics (`recount_append`), and each change that readings make
to the statistics is a union with what one node adds (`note…_union`).  Union is
associative and commutative, so the order in which changes are made does not matter.

The **index** of `ref_enum` elements is recounted by `refEnumPaths`, in the order of the
nodes.
-/
namespace DeviceSchema

/-- The greatest of some numbers; zero if there are none. -/
def greatest (numbers : List Nat) : Nat := numbers.foldr max 0

@[simp] theorem greatest_nil : greatest [] = 0 := rfl

@[simp] theorem greatest_cons (n : Nat) (rest : List Nat) :
    greatest (n :: rest) = max n (greatest rest) := rfl

@[simp] theorem greatest_append (xs ys : List Nat) :
    greatest (xs ++ ys) = max (greatest xs) (greatest ys) := by
  induction xs with
  | nil => simp
  | cons x xs ih => rw [List.cons_append, greatest_cons, ih, greatest_cons, Nat.max_assoc]

namespace Node

/-- What the node says of itself as a list. -/
def list? : Node → Option Head
  | item (.list head _) => some head
  | _ => none

/-- What the node says of itself as a group. -/
def group? : Node → Option Head
  | group g => some g.body.head
  | item _ => none

/-- What the node says of itself as a group or list. -/
def head? (node : Node) : Option Head := node.collection?.map Collection.head

end Node

/-- The lengths of the names of the members of an element and of its references. -/
def Element.memberNames (e : Element) : List Nat :=
  e.values.map (·.name.length) ++ e.references.map (·.name.length)

namespace Statistics

/-- The statistics of some nodes. -/
def recount (nodes : List Placed) : Statistics where
  listDepth := greatest ((nodes.filter (·.2.list?.isSome)).map (·.1.length - 1))
  collectionName := greatest ((nodes.filterMap (·.2.head?)).map (·.info.name.length))
  elementName := greatest ((nodes.filterMap (·.2.element?)).map (·.name.length))
  memberName := greatest ((nodes.filterMap (·.2.element?)).flatMap Element.memberNames)
  types := ValueType.all.filter fun type =>
    (nodes.filterMap (·.2.element?)).any (·.type = some type) ||
      type = .list && nodes.any (·.2.list?.isSome)
  features :=
    { flexibleGroup := (nodes.filterMap (·.2.group?)).any (·.isFlexible)
      flexibleList := (nodes.filterMap (·.2.list?)).any (·.isFlexible)
      dictionary := (nodes.filterMap (·.2.head?)).any (·.isDictionary)
      flexibleArray := (nodes.filterMap (·.2.head?)).any fun h => h.isFlexible && !h.isDictionary
      flexibleDictionary :=
        (nodes.filterMap (·.2.head?)).any fun h => h.isFlexible && h.isDictionary }

/-- The statistics of two parts of a tree together. -/
def union (a b : Statistics) : Statistics where
  listDepth := max a.listDepth b.listDepth
  collectionName := max a.collectionName b.collectionName
  elementName := max a.elementName b.elementName
  memberName := max a.memberName b.memberName
  types := ValueType.all.filter fun type => a.types.contains type || b.types.contains type
  features := a.features.union b.features

section Union
variable {a b c : Statistics}

@[simp] theorem mem_all (type : ValueType) : type ∈ ValueType.all := by
  cases type <;> decide

/-- The types that pass a test are those that are listed. -/
theorem contains_filter_all (test : ValueType → Bool) (type : ValueType) :
    (ValueType.all.filter test).contains type = test type := by
  simp

theorem union_comm : a.union b = b.union a := by
  simp only [union, Features.union, Nat.max_comm, Bool.or_comm]

theorem union_assoc : (a.union b).union c = a.union (b.union c) := by
  simp [union, Features.union, Nat.max_assoc, Bool.or_assoc]

instance : Std.Associative union := ⟨fun _ _ _ => union_assoc⟩

instance : Std.Commutative union := ⟨fun _ _ => union_comm⟩

/-- What is already a union has its types in order, so nothing is changed by adding
nothing. -/
@[simp] theorem union_empty : (a.union b).union {} = a.union b := by
  simp [union, Features.union]

end Union

/-! What each change of the statistics adds. -/

section Notes
variable {a b : Statistics}

theorem noteListDepth_union (depth : Nat) :
    (a.union b).noteListDepth depth = (a.union b).union { listDepth := depth } := by
  simp [union, noteListDepth, Features.union]

theorem noteCollectionName_union (length : Nat) :
    (a.union b).noteCollectionName length = (a.union b).union { collectionName := length } := by
  simp [union, noteCollectionName, Features.union]

theorem noteElementName_union (length : Nat) :
    (a.union b).noteElementName length = (a.union b).union { elementName := length } := by
  simp [union, noteElementName, Features.union]

theorem noteMemberName_union (length : Nat) :
    (a.union b).noteMemberName length = (a.union b).union { memberName := length } := by
  simp [union, noteMemberName, Features.union]

theorem noteType_union (type : ValueType) :
    (a.union b).noteType type = (a.union b).union { types := [type] } := by
  simp [union, noteType, Features.union, Bool.or_comm]

theorem noteCollection_union (head : Head) (isGroup : Bool) :
    (a.union b).noteCollection head isGroup =
      (a.union b).union { features := .ofHead head isGroup } := by
  simp [union, noteCollection]

end Notes

section Recount

@[simp] theorem recount_nil : recount [] = {} := by
  simp [recount]

theorem recount_append (xs ys : List Placed) :
    recount (xs ++ ys) = (recount xs).union (recount ys) := by
  have htypes (t : ValueType) (a b c d : Bool) :
      (a || b || (decide (t = .list) && (c || d))) =
        (a || (decide (t = .list) && c) || (b || (decide (t = .list) && d))) := by
    cases decide (t = .list) <;> simp [Bool.or_comm, Bool.or_left_comm]
  simp only [recount, union, Features.union, contains_filter_all, List.filter_append,
    List.filterMap_append, List.map_append, List.flatMap_append, List.any_append,
    greatest_append, htypes]

theorem recount_cons (placed : Placed) (rest : List Placed) :
    recount (placed :: rest) = (recount [placed]).union (recount rest) :=
  recount_append [placed] rest

/-- Statistics that were recounted have their types in order. -/
theorem recount_union_empty (nodes : List Placed) : (recount nodes).union {} = recount nodes := by
  rw [← recount_nil, ← recount_append, List.append_nil]

/-- What an element adds, apart from its own name. -/
def ofMembers (e : Element) : Statistics :=
  { memberName := greatest e.memberNames, types := e.type.toList }

theorem recount_element (names : List String) (e : Element) :
    recount [(names, .item (.element e))] =
      Statistics.union { elementName := e.name.length } (ofMembers e) := by
  simp [recount, union, ofMembers, Features.union, List.filterMap, Node.list?, Node.group?,
    Node.head?, Node.element?, Item.element?]

theorem recount_list (names : List String) (head : Head) (items : List Item) :
    recount [(names, .item (.list head items))] =
      (Statistics.union { listDepth := names.length - 1 }
        { collectionName := head.info.name.length }).union
        (Statistics.union { features := .ofHead head false } { types := [.list] }) := by
  simp [recount, union, Features.union, Features.ofHead, Node.list?, Node.group?, Node.head?,
    Node.element?, Item.element?]

theorem recount_group (names : List String) (g : Group) :
    recount [(names, .group g)] =
      Statistics.union { collectionName := g.name.length }
        { features := .ofHead g.body.head true } := by
  simp [recount, union, Features.union, Features.ofHead, Node.list?, Node.group?, Node.head?,
    Node.element?, Group.name, Collection.name]

end Recount
end Statistics
section Index

/-- Whether the node is a `ref_enum` element. -/
def Node.isRefEnum (node : Node) : Bool := node.element?.any (·.type = some .refEnum)

/-- The paths of the `ref_enum` elements among nodes of some table. -/
def refEnumPaths (kind : TableKind) (nodes : List Placed) : List Path :=
  (nodes.filter (·.2.isRefEnum)).map fun placed => ⟨kind, placed.1⟩

variable {kind : TableKind}

@[simp] theorem refEnumPaths_nil : refEnumPaths kind [] = [] := rfl

@[simp] theorem refEnumPaths_append (xs ys : List Placed) :
    refEnumPaths kind (xs ++ ys) = refEnumPaths kind xs ++ refEnumPaths kind ys := by
  simp only [refEnumPaths, List.filter_append, List.map_append]

/-- Groups and lists are not in the index. -/
theorem refEnumPaths_cons_of_collection {names : List String} {node : Node} {c : Collection}
    (h : node.collection? = some c) (rest : List Placed) :
    refEnumPaths kind ((names, node) :: rest) = refEnumPaths kind rest := by
  have hnode : node.isRefEnum = false := by
    match node with
    | .group g => rfl
    | .item (.list head items) => rfl
    | .item (.element e) => cases h
  rw [refEnumPaths, List.filter_cons_of_neg (by simp [hnode]), refEnumPaths]

theorem refEnumPaths_element (names : List String) (e : Element) :
    refEnumPaths kind [(names, .item (.element e))] =
      if e.type = some .refEnum then [⟨kind, names⟩] else [] := by
  by_cases h : e.type = some .refEnum
  · simp [refEnumPaths, Node.isRefEnum, Node.element?, Item.element?, h]
  · simp [refEnumPaths, Node.isRefEnum, Node.element?, Item.element?, h]

theorem mem_refEnumPaths {nodes : List Placed} {path : Path} :
    path ∈ refEnumPaths kind nodes ↔ path.table = kind ∧
      ∃ e, (path.names, .item (.element e)) ∈ nodes ∧ e.type = some .refEnum := by
  simp only [refEnumPaths, List.mem_map, List.mem_filter]
  constructor
  · rintro ⟨⟨names, node⟩, ⟨hmem, hnode⟩, rfl⟩
    match node with
    | .group g => cases hnode
    | .item (.list head items) => cases hnode
    | .item (.element e) => exact ⟨rfl, e, hmem, of_decide_eq_true hnode⟩
  · rintro ⟨rfl, e, hmem, htype⟩
    exact ⟨_, ⟨hmem, by simp [Node.isRefEnum, Node.element?, Item.element?, htype]⟩, rfl⟩

/-- Nodes that all have paths of their own are indexed once. -/
theorem nodup_refEnumPaths {nodes : List Placed} (h : (nodes.map Prod.fst).Nodup) :
    (refEnumPaths kind nodes).Nodup := by
  have hsub : ((nodes.filter (·.2.isRefEnum)).map Prod.fst).Nodup :=
    h.sublist ((List.filter_sublist).map Prod.fst)
  rw [refEnumPaths, ← Function.comp_def (Path.mk kind) Prod.fst, ← List.map_map]
  exact hsub.map fun a b hab => (Path.mk.inj hab).2

end Index
end DeviceSchema

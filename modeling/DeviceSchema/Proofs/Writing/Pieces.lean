import Mathlib.Algebra.Group.Nat.Defs
import Mathlib.Tactic.MkIffOfInductiveProp
import DeviceSchema.Proofs.Reading.Values
import DeviceSchema.Proofs.Token.Layout
import DeviceSchema.Proofs.Tree.Nodes

/-! # Groups as they are written

The reader takes a source to a tree.  This is the way back: the **pieces** of a group say
it in the words of the description language, each clause once and every access spelled
out (`Group.pieces`), and its **source** is those pieces with blanks between them.

Not every tree can be written.  Texts in quotes hold no quotes, a label is published with
its colons doubled, and what the reader checks it also checks here.  A group is
**writable** under some limits when every node in it obeys these rules
(`Group.Writable`); whether it is can be decided.
-/
namespace DeviceSchema
open Token Token.Piece
open Statement.Reading (isName isLatin1 doubleColons IsLabel)

/-- A plain word as a piece. -/
def Token.Piece.word (text : String) : Piece := plain text.toList

/-- A text in quotes as a piece. -/
def Token.Piece.quote (text : String) : Piece := quoted text.toList

section Writing

/-- A clause with one piece after its keyword, if there is something to declare. -/
def clause {α : Type} (keyword : String) (write : α → Piece) : Option α → List Piece
  | some value => [word keyword, write value]
  | none => []

/-- A text with each pair of colons made single. -/
def halveColons : List Char → List Char
  | ':' :: ':' :: rest => ':' :: halveColons rest
  | c :: rest => c :: halveColons rest
  | [] => []

/-- The label, which is doubled again as it is read, and the help text. -/
def Info.texts (info : Info) : List Piece :=
  .quoted (halveColons info.description.toList) :: (info.help.map quote).toList

/-- A clause that declares a member. -/
def Info.memberClause (keyword : String) (write : String → Piece) (info : Info) : List Piece :=
  word keyword :: write info.name :: info.texts

namespace Element

/-- The name of a value: a word in an enumeration, a text in quotes elsewhere. -/
def valueName (e : Element) (name : String) : Piece :=
  if e.type = some .enum then word name else quote name

def clauses (e : Element) : List Piece :=
  clause "type" (word ·.word) e.type ++ (clause "access" (word ·.word) e.info.access ++
  (clause "min" word e.min ++ (clause "max" word e.max ++
  (clause "default" quote e.default ++ (clause "units" quote e.units ++
  (clause "pattern" quote e.rule.pattern ++ (clause "case" (word ·.word) e.rule.caseRule ++
  (clause "syntax" quote e.rule.wording ++
  (e.values.flatMap (Info.memberClause "value" e.valueName) ++
  e.references.flatMap (Info.memberClause "ref" word))))))))))

/-- What follows the keyword of the element. -/
def body (e : Element) : List Piece := word e.name :: (e.info.texts ++ e.clauses)

end Element

namespace Head

/-- What stands before the clauses of a collection. -/
def opening (h : Head) : List Piece :=
  word h.info.name :: ((h.instances.map fun count => word (toString count)).toList ++ h.info.texts)

def clauses (h : Head) : List Piece :=
  clause "capacity" (word ·.word) h.capacity ++ clause "keys" (fun _ => word "\x7b\x7d") h.keys

end Head

namespace Item

def keyword : Item → String
  | element _ => "element"
  | list _ _ => "list"

mutual

/-- What follows the keyword of an item. -/
def body : Item → List Piece
  | .element e => e.body
  | .list head items => head.opening ++ (head.clauses ++
      (clause "access" (word ·.word) head.info.access ++ (Item.piecesBelow items ++ [word "end"])))

/-- The items of a collection, in pieces. -/
def piecesBelow : List Item → List Piece
  | [] => []
  | i :: rest => word i.keyword :: (i.body ++ Item.piecesBelow rest)

end

def pieces (i : Item) : List Piece := word i.keyword :: i.body

theorem piecesBelow_eq_flatMap (items : List Item) : piecesBelow items = items.flatMap pieces := by
  induction items with
  | nil => rw [piecesBelow, List.flatMap_nil]
  | cons i rest ih => rw [piecesBelow, ih, List.flatMap_cons, pieces, List.cons_append]

end Item

def Notice.pieces (notice : Notice) : List Piece :=
  [word "error", word notice.name, quote notice.description]

namespace Group

/-- What follows the keyword of the group. -/
def declaration (kind : TableKind) (g : Group) : List Piece :=
  word kind.word :: (g.body.head.opening ++ (g.body.head.clauses ++
    (Item.piecesBelow g.body.items ++ (g.errors.flatMap Notice.pieces ++ [word "end"]))))

/-- The group of a table, in pieces. -/
def pieces (kind : TableKind) (g : Group) : List Piece := word "group" :: g.declaration kind

/-- The group of a table, as a source. -/
def source (kind : TableKind) (g : Group) : String := String.ofList (spaced [' '] (g.pieces kind))

end Group
end Writing

/-! ## What can be written -/

section Writable
variable [PatternCompiler] {limits : Limits}

/-- A text that is read as a name. -/
def Limits.Admits (limits : Limits) (ofMember : Bool) (name : String) : Prop :=
  name.length ≤ limits.nameLength ∧ isName ofMember name.toList = true

/-- A text that is read as a help text or as the description of an error. -/
def IsPhrase (text : String) : Prop :=
  text ≠ "" ∧ isLatin1 text.toList = true ∧ (quote text).WellFormed

/-- A text that is read as the path of a reference. -/
def IsReferencePath (path : String) : Prop :=
  match path.toList with
  | '/' :: relative => path.toList.getLast? ≠ some '/' ∧
      ∀ step ∈ relative.splitOn '/', step = ['*'] ∨ isName true step = true
  | _ => False

/-- What can be written of every node and of every member. -/
@[mk_iff]
structure Info.Writable (info : Info) : Prop where
  free : Info.isReserved info.name = false
  label : info.description = "" ∨ IsLabel info.description
  quotable : (quote info.description).WellFormed
  help : ∀ help ∈ info.help, IsPhrase help
  condition : info.condition = none

/-- What a node says of itself. -/
@[mk_iff]
structure Info.WritableNode (limits : Limits) (info : Info) : Prop where
  writable : info.Writable
  name : limits.Admits false info.name
  described : info.description ≠ ""

/-- What a member says of itself. -/
@[mk_iff]
structure Info.WritableMember (info : Info) : Prop where
  writable : info.Writable
  access : info.access = none

/-- An element that its clauses can declare and that passes its check. -/
@[mk_iff]
structure Element.Writable (limits : Limits) (e : Element) : Prop where
  info : e.info.WritableNode limits
  access : e.info.access.isSome
  notFloat : e.type ≠ some .float
  check : e.check = .ok ()
  default : ∀ text ∈ e.default, (quote text).WellFormed
  units : ∀ text ∈ e.units, (quote text).WellFormed
  pattern : ∀ text ∈ e.rule.pattern, PatternCompiler.compile text = .ok () ∧ (quote text).WellFormed
  wording : ∀ text ∈ e.rule.wording, (quote text).WellFormed
  /-- Only enumerations have members. -/
  valuesType : e.values ≠ [] → e.type = some .enum ∨ e.type = some .refEnum
  valueNames : (e.values.map Info.name).Nodup
  values : ∀ value ∈ e.values, value.WritableMember
  valueName : ∀ value ∈ e.values,
    if e.type = some .enum then limits.Admits true value.name else (quote value.name).WellFormed
  referencesType : e.references ≠ [] → e.type = some .refEnum
  referenceNames : (e.references.map Info.name).Nodup
  references : ∀ reference ∈ e.references, reference.WritableMember
  referencePath : ∀ reference ∈ e.references, IsReferencePath reference.name

/-- A collection that settling accepts and leaves as it is.  Keys cannot be written. -/
@[mk_iff]
structure Collection.Writable (limits : Limits) (c : Collection) : Prop where
  info : c.head.info.WritableNode limits
  settled : c.settle limits = (.ok (), c)
  keys : ∀ keys ∈ c.head.keys, keys = []
  instances : ∀ count ∈ c.head.instances, 0 < count ∧ count < 2 ^ 31
  siblings : (c.items.map Item.name).Nodup

/-- What can be written of the node that some names lead to. -/
def Node.Writable (limits : Limits) (names : List String) : Node → Prop
  | .item (.element e) => e.Writable limits
  | .item (.list head items) => Collection.Writable limits ⟨head, items⟩ ∧
      head.info.access.isSome ∧ names.length ≤ Ceiling.listDepth + 1
  | .group g => g.body.Writable limits ∧ g.body.head.info.access = none ∧
      (g.errors.map Notice.name).Nodup ∧
      ∀ notice ∈ g.errors, limits.Admits false notice.name ∧ IsPhrase notice.description

/-- Every node of the item at `path` can be written. -/
def Item.Writable (limits : Limits) (path : List String) (i : Item) : Prop :=
  ∀ placed ∈ i.nodesAt path, placed.2.Writable limits placed.1

/-- Every node of the group can be written. -/
def Group.Writable (limits : Limits) (g : Group) : Prop :=
  ∀ placed ∈ g.nodes, placed.2.Writable limits placed.1

theorem Item.Writable.node {i : Item} {path : List String} (h : i.Writable limits path) :
    (Node.item i).Writable limits path := h _ (self_mem_nodesAt i)

theorem Item.Writable.below {head : Head} {items : List Item} {path : List String} {i : Item}
    (h : (list head items).Writable limits path) (hi : i ∈ items) :
    i.Writable limits (path ++ [i.name]) :=
  fun placed hplaced => h placed (mem_nodesAt_list.mpr (.inr (mem_nodesBelow.mpr ⟨i, hi, hplaced⟩)))

theorem Group.Writable.node {g : Group} (h : g.Writable limits) :
    (Node.group g).Writable limits [g.name] := h _ List.mem_cons_self

theorem Group.Writable.item {g : Group} {i : Item} (h : g.Writable limits)
    (hi : i ∈ g.body.items) : i.Writable limits [g.name, i.name] :=
  fun placed hplaced => h placed
    (List.mem_cons_of_mem _ (Item.mem_nodesBelow.mpr ⟨i, hi, hplaced⟩))

end Writable

/-! ## Labels -/

section Labels

theorem mem_of_mem_halveColons {text : List Char} {c : Char} (h : c ∈ halveColons text) :
    c ∈ text := by
  fun_induction halveColons text with
  | case1 rest ih =>
    rcases List.mem_cons.mp h with rfl | h
    · exact List.mem_cons_self
    · exact List.mem_cons_of_mem _ (List.mem_cons_of_mem _ (ih h))
  | case2 d rest hd ih =>
    rcases List.mem_cons.mp h with rfl | h
    · exact List.mem_cons_self
    · exact List.mem_cons_of_mem _ (ih h)
  | case3 => exact h

/-- Halving takes doubling back. -/
theorem halveColons_doubled (plain : List Char) :
    halveColons (plain.flatMap fun c => if c = ':' then [':', ':'] else [c]) = plain := by
  induction plain with
  | nil => rfl
  | cons c rest ih =>
    rw [List.flatMap_cons]
    by_cases hc : c = ':'
    · subst hc
      rw [if_pos rfl, List.cons_append, List.cons_append, List.nil_append, halveColons, ih]
    · rw [if_neg hc, List.singleton_append, halveColons.eq_2 _ _ fun _ h _ => hc h, ih]

theorem halveColons_doubleColons (plain : String) :
    halveColons (doubleColons plain).toList = plain.toList := by
  rw [doubleColons, String.toList_ofList, halveColons_doubled]

theorem isLabel_iff {text : String} :
    IsLabel text ↔
      let plain := String.ofList (halveColons text.toList)
      plain ≠ "" ∧ isLatin1 plain.toList = true ∧ plain.length ≤ Ceiling.labelLength ∧
        text = doubleColons plain := by
  constructor
  · rintro ⟨plain, hne, hlatin, hlength, rfl⟩
    rw [halveColons_doubleColons, String.ofList_toList]
    exact ⟨hne, hlatin, hlength, rfl⟩
  · exact fun h => ⟨_, h⟩

end Labels

section Deciding
variable [PatternCompiler] {limits : Limits}

instance (ofMember : Bool) (name : String) : Decidable (limits.Admits ofMember name) :=
  inferInstanceAs (Decidable (_ ∧ _))

instance (text : String) : Decidable (IsPhrase text) := inferInstanceAs (Decidable (_ ∧ _ ∧ _))

instance (text : String) : Decidable (IsLabel text) := decidable_of_iff _ isLabel_iff.symm

instance (path : String) : Decidable (IsReferencePath path) := by
  unfold IsReferencePath
  split <;> infer_instance

instance (info : Info) : Decidable info.Writable := decidable_of_iff _ info.writable_iff.symm

instance (info : Info) : Decidable (info.WritableNode limits) :=
  decidable_of_iff _ (info.writableNode_iff limits).symm

instance (info : Info) : Decidable info.WritableMember :=
  decidable_of_iff _ info.writableMember_iff.symm

instance (e : Element) : Decidable (e.Writable limits) :=
  decidable_of_iff _ (e.writable_iff limits).symm

omit [PatternCompiler] in
/-- Settling changes nothing but the head. -/
theorem Collection.settle_eq_iff {c : Collection} {result : Except Defect Unit} :
    c.settle limits = (result, c) ↔
      (c.settle limits).1 = result ∧ (c.settle limits).2.head = c.head := by
  have hitems : (c.settle limits).2.items = c.items := by
    unfold settle
    split <;> rfl
  constructor
  · intro h
    rw [h]
    exact ⟨rfl, rfl⟩
  · rintro ⟨hresult, hhead⟩
    exact Prod.ext hresult (by rw [show (c.settle limits).2 = ⟨_, _⟩ from rfl, hhead, hitems])

instance (c : Collection) : Decidable (c.settle limits = (.ok (), c)) :=
  decidable_of_iff _ Collection.settle_eq_iff.symm

instance (c : Collection) : Decidable (c.Writable limits) :=
  decidable_of_iff _ (c.writable_iff limits).symm

instance (names : List String) : DecidablePred (Node.Writable limits names)
  | .item (.element e) => inferInstanceAs (Decidable (e.Writable limits))
  | .item (.list _ _) => inferInstanceAs (Decidable (Collection.Writable _ _ ∧ _ ∧ _))
  | .group g => inferInstanceAs (Decidable (g.body.Writable limits ∧ _ ∧ _ ∧ _))

instance (g : Group) : Decidable (g.Writable limits) :=
  inferInstanceAs (Decidable (∀ placed ∈ g.nodes, placed.2.Writable limits placed.1))

end Deciding
end DeviceSchema

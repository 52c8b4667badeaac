import DeviceSchema.Proofs.Writing.Element
import DeviceSchema.Statement.Collection

/-! # Reading written collections

Lists and groups are read by loops that have most of their clauses in common.  What a head
and a sequence of items do in such a loop is said once, for any state that they are part of
(`advances_headClauses`, `advances_items`).

A list can hold lists, so what it means that an item is read back is said for elements and
for lists at once (`ReadsItem`).  A list is read back if all that is in it is
(`readsItem_list`), and by induction on the tree every item is (`readsItem`).
-/
namespace DeviceSchema

theorem Head.declareInstances_eq {h : Head} {n : Nat} (hn : 0 < n) :
    declareInstances n h = .ok () { h with instances := some n } :=
  declareInstances_ok_iff.mpr ⟨by omega, by rw [Int.toNat_natCast]⟩

namespace Statement.Reading
open Token (Piece)
open Token.Piece (word quote)
open Token.Stream (begins)

section Lists
variable {α : Type} {l : Limits} {ps ps' rest : List Piece} {c : Collection}

/-- Wherever the stream holds `ps`, the step gives `a` of some line and leaves `ps'`. -/
def YieldsAt (l : Limits) (m : Reading α) (ps : List Piece) (a : Nat → α) (ps' : List Piece) : Prop :=
  ∀ p : Progress, p.session.limits = l → p.stream.Holds ps →
    ∃ n q, m p = .ok (a n) q ∧ q.stream.Holds ps' ∧ q.session.limits = l

theorem yieldsAt_line {f : Nat → Reading α} {a : Nat → α} (h : ∀ n, Yields l (f n) ps (a n) ps') :
    YieldsAt l (line >>= f) ps a ps' := by
  intro p hp hs
  obtain ⟨q, hq, hs', hp'⟩ := h p.stream.line p hp hs
  exact ⟨_, q, bind_ok.mpr ⟨_, p, rfl, hq⟩, hs', hp'⟩

theorem YieldsAt.bind {β : Type} {ps'' : List Piece} {m : Reading α} {f : α → Reading β}
    {a : Nat → α} {b : β} (hm : YieldsAt l m ps a ps') (hf : ∀ n, Yields l (f (a n)) ps' b ps'') :
    Yields l (m >>= f) ps b ps'' := by
  intro p hp hs
  obtain ⟨n, q, hq, hs', hp'⟩ := hm p hp hs
  obtain ⟨r, hr, hs'', hp''⟩ := hf n q hp' hs'
  exact ⟨r, bind_ok.mpr ⟨_, q, hq, hr⟩, hs'', hp''⟩

/-- What follows a head that may have a count. -/
theorem yields_head {count : Option Nat} {info : Info} {f : Head → Reading α} {a : α}
    (hcount : ∀ n ∈ count, 0 < n) (hf : Yields l (f { info, instances := count }) ps a ps') :
    Yields l (headed (count.map fun n => (n : Int)) info f) ps a ps' := by
  cases count with
  | none => exact yields_pure.bind hf
  | some n => exact (yields_changing (Head.declareInstances_eq (hcount n rfl))).bind hf

/-- The item is read back after its keyword, in a collection that is the `depth`-th list
from its group. -/
def ReadsItem [PatternCompiler] (l : Limits) (depth : Nat) (i : Item) : Prop :=
  match i with
  | .element e => ∀ bound access parent rest, Ahead rest → i.body.length ≤ bound →
      Yields l (element bound access parent) (i.body ++ rest) e rest
  | .list head items => ∀ bound access parent rest, i.body.length ≤ bound →
      Yields l (list (listClauses bound) access parent depth) (i.body ++ rest) ⟨head, items⟩ rest

theorem ahead_keyword (i : Item) : Ahead (word i.keyword :: ps) := by
  cases i with
  | element e => exact ⟨"element", by decide, ps, rfl⟩
  | list head items => exact ⟨"list", by decide, ps, rfl⟩

section Clauses
variable {place : ListPlace}

theorem advances_listCapacity [PatternCompiler] {d : ListDraft} (capacity : Capacity) :
    Advances Unquoted l (listClauses · place) d [word "capacity", word capacity.word]
      { d with collection := { d.collection with
        head := d.collection.head.declareCapacity capacity } } := by
  refine .step (fun _ => rfl) fun m rest a rest' _ _ hgoes =>
    yields_keyword listKeywords .capacity (lookup_toLower (by decide) rfl) fun token hlead => ?_
  dsimp only
  rw [hlead]
  exact yields_capacity.bind hgoes

theorem advances_listKeys [PatternCompiler] {d : ListDraft} :
    Advances Unquoted l (listClauses · place) d [word "keys", word "\x7b\x7d"]
      { d with collection := { d.collection with head := d.collection.head.declareKeys [] } } := by
  refine .step (fun _ => rfl) fun m rest a rest' _ _ hgoes =>
    yields_keyword listKeywords .keys (lookup_toLower (by decide) rfl) fun token hlead => ?_
  dsimp only
  rw [hlead]
  exact yields_keys.bind hgoes

theorem yields_accessClause {d : ListDraft} {access : Access}
    (h : d.collection.head.info.access = none) :
    Yields l (accessClause d) (word access.word :: rest)
      ⟨{ d.collection with head := { d.collection.head with
        info := { d.collection.head.info with access := some access } } }, access⟩ rest := by
  have hdeclared : d.collection.head.info.declareAccess access =
      .ok () { d.collection.head.info with access := some access } :=
    Info.declareAccess_ok_iff.mpr ⟨h, rfl⟩
  exact yields_access.bind ((yields_changing hdeclared).bind yields_pure)

variable [PatternCompiler]

theorem advances_listAccess {d : ListDraft} (access : Access)
    (h : d.collection.head.info.access = none) :
    Advances Unquoted l (listClauses · place) d [word "access", word access.word]
      ⟨{ d.collection with head := { d.collection.head with
        info := { d.collection.head.info with access := some access } } }, access⟩ := by
  refine .step (fun _ => rfl) fun m rest a rest' _ _ hgoes =>
    yields_keyword listKeywords .access (lookup_toLower (by decide) rfl) fun token hlead => ?_
  dsimp only
  rw [hlead]
  exact (yields_accessClause h).bind hgoes

theorem advances_listItem {d : ListDraft} {i : Item} (hi : ReadsItem l place.depth i)
    (hnew : ∀ other ∈ d.collection.items, other.name ≠ i.name) :
    Advances Ahead l (listClauses · place) d i.pieces
      { d with collection := { d.collection with items := d.collection.items ++ [i] } } := by
  refine .step (fun _ => ahead_keyword i) fun m rest a rest' hm hrest hgoes => ?_
  have hadded : d.collection.add i = .ok () { d.collection with items := d.collection.items ++ [i] } :=
    Collection.add_ok_iff.mpr ⟨hnew, rfl⟩
  cases i with
  | element e =>
    refine yields_keyword listKeywords .element
      (by rw [Item.keyword]; exact lookup_toLower (by decide) rfl) fun token hlead => ?_
    dsimp only
    rw [hlead]
    exact (hi m _ _ rest hrest hm).bind ((yields_changing hadded).bind hgoes)
  | list head items =>
    refine yields_keyword listKeywords .list
      (by rw [Item.keyword]; exact lookup_toLower (by decide) rfl) fun token hlead => ?_
    dsimp only
    rw [hlead]
    exact (hi m _ _ rest hm).bind ((yields_changing hadded).bind hgoes)

theorem yields_listClauses_end {d : ListDraft} {bound : Nat} (hbound : 0 < bound) :
    Yields l (listClauses bound place d) (word "end" :: rest) d rest := by
  obtain ⟨bound, rfl⟩ : ∃ k, bound = k + 1 := ⟨bound - 1, by omega⟩
  refine yields_keyword listKeywords .stop (lookup_toLower (by decide) rfl) fun token hlead => ?_
  dsimp only
  rw [hlead]
  exact yields_pure

end Clauses

/-! ## Lists -/

section Loops
variable {σ : Type} {loop : Nat → σ → Reading σ}

/-- The clauses of a head, in a loop whose state it is part of. -/
theorem advances_headClauses (state : Head → σ) {head : Head} (info : Info)
    (hnone : ∀ keys ∈ head.keys, keys = [])
    (hcapacity : ∀ h capacity, Advances Unquoted l loop (state h)
      [word "capacity", word capacity.word] (state (h.declareCapacity capacity)))
    (hkeys : ∀ h, Advances Unquoted l loop (state h) [word "keys", word "\x7b\x7d"]
      (state (h.declareKeys []))) :
    Advances Unquoted l loop (state { info, instances := head.instances }) head.clauses
      (state { head with info }) := by
  refine .trans (.clause (fun capacity => state { info, instances := head.instances, capacity })
    fun capacity _ => hcapacity _ capacity) (.clause (fun keys => state { head with info, keys })
    fun keys hmem => ?_)
  rw [hnone keys hmem]
  exact hkeys _

theorem unquoted_headClauses {head : Head} (hps : Unquoted ps) : Unquoted (head.clauses ++ ps) := by
  rw [Head.clauses, List.append_assoc]
  exact begins_clause rfl (begins_clause rfl hps)

/-- The items of a collection, in a loop whose state they are part of. -/
theorem advances_items [PatternCompiler] (state : List Item → σ) {items : List Item} {depth : Nat}
    (hnames : (items.map Item.name).Nodup) (hitems : ∀ i ∈ items, ReadsItem l depth i)
    (hitem : ∀ before i, ReadsItem l depth i → (∀ other ∈ before, other.name ≠ i.name) →
      Advances Ahead l loop (state before) i.pieces (state (before ++ [i]))) :
    Advances Ahead l loop (state []) (Item.piecesBelow items) (state items) := by
  rw [Item.piecesBelow_eq_flatMap]
  refine .flatMap state fun before i after hsplit => ?_
  have hmem : i ∈ items := hsplit ▸ List.mem_append_right before List.mem_cons_self
  exact hitem before i (hitems i hmem) (keys_ne_before hnames hsplit)

end Loops

/-- What a list says of itself when it is opened. -/
theorem yields_openList {head : Head} {items : List Item} {access : Access} {parent : Path}
    {depth : Nat} (hc : Collection.Writable l ⟨head, items⟩)
    (hdepth : depth + 1 ≤ Ceiling.listDepth) (hps : Unquoted ps) :
    YieldsAt l (openList access parent depth) (head.opening ++ ps)
      (fun opened => (⟨opened, parent.child head.info.name, depth + 1⟩,
        ⟨{ head := { info := { head.info with access := none }, instances := head.instances } },
          access⟩)) ps := by
  refine yieldsAt_line fun opened => ?_
  rw [Head.opening, List.cons_append, List.append_assoc]
  refine (yields_name hc.info.name).bind ?_
  refine (yields_instances? fun n hn => (hc.instances n hn).2).bind ?_
  dsimp only
  rw [if_neg (by omega)]
  refine yields_note.bind (yields_texts hc.info hps ?_)
  refine (yields_taking (ofItem_writable hc.info)).bind (yields_note.bind ?_)
  exact yields_head (fun n hn => (hc.instances n hn).1) yields_pure

theorem yields_closeList {head : Head} {items : List Item} {access : Access} {place : ListPlace}
    (hc : Collection.Writable l ⟨head, items⟩) (haccess : head.info.access.isSome) :
    Yields l (closeList place ⟨⟨head, items⟩, access⟩) rest ⟨head, items⟩ rest := by
  unfold closeList
  dsimp only
  rw [inheritAccess_eq haccess]
  refine yields_limits.bind ?_
  rw [hc.settled]
  refine (yields_closing rfl).bind (yields_note.bind (yields_note.bind ?_))
  exact yields_pure

variable [PatternCompiler]

/-- The clauses of a list are read back, with those of all that is in it. -/
theorem yields_listClauses {head : Head} {items : List Item} {outer own : Access}
    {place : ListPlace} {bound : Nat} (hc : Collection.Writable l ⟨head, items⟩)
    (hown : head.info.access = some own) (hitems : ∀ i ∈ items, ReadsItem l place.depth i)
    (hbound : (Item.list head items).body.length ≤ bound) :
    Yields l (listClauses bound place
        ⟨{ head := { info := { head.info with access := none }, instances := head.instances } },
          outer⟩)
      (head.clauses ++ [word "access", word own.word] ++
        (Item.piecesBelow items ++ (word "end" :: rest)))
      ⟨⟨head, items⟩, own⟩ rest := by
  have hhead : { head with info := { head.info with access := some own } } = head := by
    rw [← hown]
  have hopen : Advances Unquoted l (listClauses · place) _ _ _ :=
    (advances_headClauses (fun h => ⟨{ head := h }, outer⟩) { head.info with access := none } hc.keys
      (fun h capacity => advances_listCapacity capacity) fun h => advances_listKeys).trans
    (advances_listAccess own rfl)
  have hbelow : Advances Ahead l (listClauses · place) _ _ _ :=
    advances_items (fun items => ⟨⟨head, items⟩, own⟩) hc.siblings hitems
      fun before i hi hnew => advances_listItem hi hnew
  obtain ⟨hahead, hgoes⟩ := hbelow 1 (word "end" :: rest) _ rest ⟨"end", by decide, rest, rfl⟩
    fun m hm => yields_listClauses_end hm
  dsimp only at hopen
  rw [hhead] at hopen
  -- The bound leaves one round for the `end` of the list.
  refine (hopen _ _ _ rest hahead.unquoted hgoes).2 bound ?_
  rw [Item.body, hown, clause] at hbound
  simp only [List.length_append, List.length_cons] at hbound ⊢
  omega

/-- **A list that can be written is read back as it was if all that is in it is.** -/
theorem readsItem_list {head : Head} {items : List Item} {depth : Nat}
    (hc : Collection.Writable l ⟨head, items⟩) (haccess : head.info.access.isSome)
    (hdepth : depth + 1 ≤ Ceiling.listDepth) (hitems : ∀ i ∈ items, ReadsItem l (depth + 1) i) :
    ReadsItem l depth (.list head items) := by
  intro bound access parent rest hbound
  obtain ⟨own, hown⟩ := Option.isSome_iff_exists.mp haccess
  have hpieces : (Item.list head items).body ++ rest = head.opening ++ (head.clauses ++
      [word "access", word own.word] ++ (Item.piecesBelow items ++ (word "end" :: rest))) := by
    rw [Item.body, hown, clause]
    simp only [List.append_assoc, List.singleton_append]
  rw [hpieces]
  refine (yields_openList hc hdepth ?_).bind fun opened => ?_
  · rw [List.append_assoc]
    exact unquoted_headClauses rfl
  · have hclauses : Yields l (listClauses bound ⟨opened, parent.child head.info.name, depth + 1⟩
        ⟨_, access⟩) _ _ rest := yields_listClauses hc hown hitems hbound
    exact hclauses.bind (yields_closeList hc haccess)

/-- **Every item that can be written is read back as it was.** -/
theorem readsItem {i : Item} {path : List String} {depth : Nat} (hi : i.Writable l path)
    (hpath : path.length = depth + 2) : ReadsItem l depth i := by
  -- The depth is that of the path, which bounds it where the item is a list.
  induction i using Item.induction generalizing path depth with
  | element e => exact fun bound access parent rest hrest hbound => yields_element hi.node hrest hbound
  | list head items ih =>
    obtain ⟨hc, haccess, hdepth⟩ := hi.node
    refine readsItem_list hc haccess (by omega) fun i hmem => ih i hmem (hi.below hmem) ?_
    rw [List.length_append, List.length_singleton, hpath]

end Lists
end Statement.Reading
end DeviceSchema

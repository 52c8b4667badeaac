import DeviceSchema.Statement.Element

/-! # What clauses do to an element

A clause that has been read either does nothing but fail, or it does one of a few things to the
element, provided the element admits it (`Deed`).  What the deeds of clauses of different kinds do,
and whether they are admitted, does not depend on their order (`act_comm`), with one exception:
members are admitted by elements of a known type only.

So clauses that are reordered do the same together, as long as clauses of one kind keep their order
and the type comes before the members (`foldlM_eq_of_ofKey`).
-/
namespace DeviceSchema

/-- The session with these statistics. -/
def Session.tallied (s : Session) (t : Statistics) : Session := { s with statistics := t }

@[simp] theorem Session.tallied_limits (s : Session) (t : Statistics) :
    (s.tallied t).limits = s.limits := rfl

@[simp] theorem Session.tallied_table (s : Session) (t : Statistics) (kind : TableKind) :
    (s.tallied t).table kind = s.table kind := by cases kind <;> rfl

namespace Statement

/-- The clauses for members, which need the type. -/
def ElementClause.isMember : ElementClause → Bool
  | .value | .reference => true
  | _ => false

/-- What a clause does to the element that it is read into. -/
inductive Deed where
  | type (type : ValueType)
  | access (access : Access)
  | min (text : String)
  | max (text : String)
  | default (text : String)
  | units (text : String)
  | pattern (text : String)
  | caseRule (rule : CaseRule)
  | wording (text : String)
  /-- Adds a value; `named` tells whether an enumeration may have a value of this name. -/
  | value (named : Bool) (info : Info)
  | reference (info : Info)
  | condition (attachment : Attachment)

namespace Deed

/-- The kind of the clause. -/
def kind : Deed → ElementClause
  | type _ => .type
  | access _ => .access
  | min _ => .min
  | max _ => .max
  | default _ => .default
  | units _ => .units
  | pattern _ => .pattern
  | caseRule _ => .caseRule
  | wording _ => .wording
  | value _ _ => .value
  | reference _ => .reference
  | condition _ => .condition

/-- Whether the clause does not fail on the element. -/
def admits (e : Element) : Deed → Bool
  | type _ => e.type.isNone
  | access _ => e.info.access.isNone
  | min _ => e.min.isNone
  | max _ => e.max.isNone
  | default _ => e.default.isNone
  | units _ => e.units.isNone
  | pattern _ | caseRule _ | wording _ => true
  | value named info =>
    (e.type = some .enum && named || e.type = some .refEnum) && !e.values.any (·.name = info.name)
  | reference info => e.type = some .refEnum && !e.references.any (·.name = info.name)
  | condition _ => e.info.condition.isNone

/-- The element behind the clause. -/
def put (e : Element) : Deed → Element
  | type t => { e with type := some t }
  | access a => { e with info := { e.info with access := some a } }
  | min text => { e with min := some text }
  | max text => { e with max := some text }
  | default text => { e with default := some text }
  | units text => { e with units := some text }
  | pattern text => { e with rule := { e.rule with pattern := some text } }
  | caseRule rule => e.declareCase rule
  | wording text => e.declareWording text
  | value _ info => { e with values := e.values ++ [info] }
  | reference info => { e with references := e.references ++ [info] }
  | condition c => { e with info := { e.info with condition := some c } }

/-- The statistics behind the clause. -/
def tally (s : Statistics) : Deed → Statistics
  | type t => s.noteType t
  | value _ info | reference info => s.noteMemberName info.name.length
  | _ => s

section Order
variable {a b : Deed} {e : Element}

theorem put_comm (h : a.kind ≠ b.kind) : a.put (b.put e) = b.put (a.put e) := by
  cases a <;> cases b <;> first | rfl | exact absurd rfl h

theorem tally_comm (h : a.kind ≠ b.kind) (s : Statistics) :
    a.tally (b.tally s) = b.tally (a.tally s) := by
  have hmembers (m n : Nat) : (s.noteMemberName m).noteMemberName n =
      (s.noteMemberName n).noteMemberName m := by
    simp only [Statistics.noteMemberName, Nat.max_right_comm]
  cases a <;> cases b <;> first | rfl | exact absurd rfl h | exact hmembers _ _

/-- What one clause does changes nothing about whether another kind of clause is admitted, unless
it gives a member its type. -/
theorem admits_put (h : a.kind ≠ b.kind) (htype : b.kind = .type → a.kind.isMember = false) :
    a.admits (b.put e) = a.admits e := by
  cases a <;> cases b <;> first | rfl | exact absurd rfl h | cases htype rfl

end Order
end Deed

/-- What a clause makes of an element and the statistics; nothing if it fails. -/
def act (x : Element × Statistics) (deed : Option Deed) : Option (Element × Statistics) :=
  deed.bind fun d => if d.admits x.1 then some (d.put x.1, d.tally x.2) else none

section Acting
variable {a b : Deed}

/-- Clauses whose order does not matter. -/
def Deed.Free (a b : Deed) : Prop :=
  a.kind ≠ b.kind ∧ (a.kind = .type → b.kind.isMember = false) ∧
    (b.kind = .type → a.kind.isMember = false)

theorem act_comm (h : a.Free b) (x : Element × Statistics) :
    ((act x a).bind fun y => act y b) = (act x b).bind fun y => act y a := by
  obtain ⟨hne, ha, hb⟩ := h
  have hadmits := Deed.admits_put (e := x.1) hne hb
  have hadmits' := Deed.admits_put (e := x.1) hne.symm ha
  cases hda : a.admits x.1 <;> cases hdb : b.admits x.1 <;>
    simp [act, hda, hdb, hadmits, hadmits', Deed.put_comm hne, Deed.tally_comm hne]

end Acting

/-! ## Orders -/

section Orders
variable {α κ σ : Type} [DecidableEq κ] {key : α → κ} {f : σ → α → Option σ} {l l₁ l₂ : List α}

/-- The elements with the same key, in order. -/
def ofKey (key : α → κ) (k : κ) (l : List α) : List α := l.filter (key · = k)

/-- What commutes with all steps before it can be done first. -/
theorem foldlM_first {a : α} {rest : List α} (h : ∀ b ∈ l, ∀ x,
    ((f x a).bind fun y => f y b) = (f x b).bind fun y => f y a) (x : σ) :
    (l ++ a :: rest).foldlM f x = (a :: (l ++ rest)).foldlM f x := by
  induction l generalizing x with
  | nil => rfl
  | cons b l ih =>
    obtain ⟨hb, hl⟩ := List.forall_mem_cons.mp h
    calc (b :: l ++ a :: rest).foldlM f x
        = (f x b).bind fun y => (a :: (l ++ rest)).foldlM f y := by
          rw [List.cons_append, List.foldlM_cons]
          exact Option.bind_congr fun y _ => ih hl y
      _ = ((f x b).bind fun y => f y a).bind fun z => (l ++ rest).foldlM f z := by
          rw [Option.bind_assoc]
          rfl
      _ = (a :: (b :: l ++ rest)).foldlM f x := by
          rw [← hb, Option.bind_assoc]
          rfl

/-- **Steps that are reordered come to the same**, if those with the same key keep their order and
any two that change places commute. -/
theorem foldlM_eq_of_ofKey (hkeys : ∀ k, ofKey key k l₁ = ofKey key k l₂)
    (hcomm : ∀ a b, [a, b].Sublist l₁ → [b, a].Sublist l₂ → key a ≠ key b → ∀ x,
      ((f x a).bind fun y => f y b) = (f x b).bind fun y => f y a) (x : σ) :
    l₁.foldlM f x = l₂.foldlM f x := by
  induction l₁ generalizing l₂ x with
  | nil =>
    have hnil : l₂ = [] := List.eq_nil_iff_forall_not_mem.mpr fun a ha => by
      have hmem : a ∈ ofKey key (key a) l₂ := List.mem_filter.mpr ⟨ha, by simp⟩
      rw [← hkeys] at hmem
      cases hmem
    rw [hnil]
  | cons a rest ih =>
    -- The first step stands behind steps with other keys in the second order.
    obtain ⟨front, back, rfl, hfront⟩ : ∃ front back, l₂ = front ++ a :: back ∧
        ∀ b ∈ front, key b ≠ key a := by
      have hfirst : l₂.filter (key · = key a) = a :: rest.filter (key · = key a) :=
        (hkeys (key a)).symm.trans (List.filter_cons_of_pos (by simp))
      obtain ⟨front, back, hl₂, hfront, -⟩ := List.filter_eq_cons_iff.mp hfirst
      exact ⟨front, back, hl₂, fun b hb => by simpa using hfront b hb⟩
    have hrest : ∀ k, ofKey key k rest = ofKey key k (front ++ back) := by
      intro k
      have hk := hkeys k
      simp only [ofKey, List.filter_append, List.filter_cons] at hk ⊢
      by_cases hka : key a = k
      · have hnone : front.filter (key · = k) = [] :=
          List.filter_eq_nil_iff.mpr fun b hb => by simpa [← hka] using hfront b hb
        rw [if_pos (by simpa using hka), if_pos (by simpa using hka), hnone] at hk
        rw [hnone]
        exact (List.cons.inj hk).2
      · rwa [if_neg (by simpa using hka), if_neg (by simpa using hka)] at hk
    have hmem : ∀ b ∈ front, b ∈ rest := by
      intro b hb
      have hb' : b ∈ ofKey key (key b) (front ++ back) :=
        List.mem_filter.mpr ⟨List.mem_append_left _ hb, by simp⟩
      rw [← hrest] at hb'
      exact (List.mem_filter.mp hb').1
    rw [foldlM_first fun b hb => hcomm a b ?_ ?_ (hfront b hb).symm]
    · rw [List.foldlM_cons, List.foldlM_cons]
      refine Option.bind_congr fun y _ => ih hrest (fun b c hbc hcb => hcomm b c ?_ ?_) y
      · exact hbc.cons a
      · exact hcb.trans ((List.Sublist.refl front).append (List.sublist_cons_self a back))
    · exact (List.singleton_sublist.mpr (hmem b hb)).cons_cons a
    · exact (List.singleton_sublist.mpr hb).append (List.singleton_sublist.mpr List.mem_cons_self)

end Orders
end Statement
end DeviceSchema

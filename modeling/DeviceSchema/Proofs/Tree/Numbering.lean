import Mathlib.Order.Bounds.Defs
import DeviceSchema.Proofs.Tree.Building

/-! # How errors are numbered

Errors are numbered by their place: those of each catalog one after the other, and each catalog
from where the one before it stops.  No number is stored.  An error that is declared keeps its
number nevertheless, as calls that declare errors only append entries to the last catalog, and the
catalogs before it are given.

A call is accepted if it has a description and a name that no error has yet
(`declare_ok_iff_new`).  So the names of declared errors differ from each other and from those of
the protocol (`Catalogs.Consistent`), and each number belongs to one of them.
`Catalogs.ofCalls_numbered` states this for all calls.
-/
namespace DeviceSchema

namespace Catalog
variable {c : Catalog} {name name' : String} {n : Nat}

/-- The numbers that the entries take up. -/
def numbers (c : Catalog) : List Nat := List.range' c.offset c.entries.length

/-- An entry is numbered by its place if no entry before it has its name. -/
theorem number?_of_entries {before after : List Notice} {e : Notice}
    (h : c.entries = before ++ e :: after) (hnew : ∀ x ∈ before, x.name ≠ e.name) :
    c.number? e.name = some (c.offset + before.length) := by
  have hbefore : before.findIdx? (·.name = e.name) = none := by
    simpa [List.findIdx?_eq_none_iff] using hnew
  rw [number?, h, List.findIdx?_append, hbefore, List.findIdx?_cons]
  simp

theorem entry_of_number? (h : c.number? name = some n) :
    ∃ k e, c.entries[k]? = some e ∧ e.name = name ∧ n = c.offset + k := by
  obtain ⟨k, hk, rfl⟩ := Option.map_eq_some_iff.mp h
  obtain ⟨hlt, hname, -⟩ := List.findIdx?_eq_some_iff_getElem.mp hk
  exact ⟨k, c.entries[k], List.getElem?_eq_getElem hlt, of_decide_eq_true hname, rfl⟩

theorem exists_number? (h : name ∈ c.entries.map Notice.name) : ∃ n, c.number? name = some n := by
  obtain ⟨e, he, rfl⟩ := List.mem_map.mp h
  obtain ⟨k, hk⟩ : ∃ k, c.entries.findIdx? (·.name = e.name) = some k :=
    Option.isSome_iff_exists.mp (List.findIdx?_isSome.trans (List.any_eq_true.mpr ⟨e, he, by simp⟩))
  exact ⟨c.offset + k, by rw [number?, hk]; rfl⟩

/-- A number belongs to one name. -/
theorem name_eq_of_number? (h : c.number? name = some n) (h' : c.number? name' = some n) :
    name = name' := by
  obtain ⟨k, e, he, rfl, rfl⟩ := entry_of_number? h
  obtain ⟨k', e', he', rfl, hk⟩ := entry_of_number? h'
  obtain rfl : k = k' := Nat.add_left_cancel hk
  rw [Option.some.inj (he.symm.trans he')]

/-- **If the names differ, each of the numbers is that of an entry.** -/
theorem mem_numbers_iff (hnodup : (c.entries.map Notice.name).Nodup) :
    n ∈ c.numbers ↔ ∃ name, c.number? name = some n := by
  rw [numbers, List.mem_range'_1]
  constructor
  · rintro ⟨hle, hlt⟩
    obtain ⟨k, rfl⟩ := Nat.exists_eq_add_of_le hle
    have hk : k < c.entries.length := Nat.lt_of_add_lt_add_left hlt
    have hsplit : c.entries = c.entries.take k ++ c.entries[k] :: c.entries.drop (k + 1) := by
      rw [List.getElem_cons_drop, List.take_append_drop]
    have hnew : ∀ x ∈ c.entries.take k, x.name ≠ c.entries[k].name := by
      rw [hsplit, List.map_append, List.nodup_append] at hnodup
      intro x hx
      exact hnodup.2.2 _ (List.mem_map_of_mem hx) _ (List.mem_map_of_mem List.mem_cons_self)
    refine ⟨c.entries[k].name, (number?_of_entries hsplit hnew).trans ?_⟩
    rw [List.length_take, Nat.min_eq_left hk.le]
  · rintro ⟨name, h⟩
    obtain ⟨k, e, he, -, rfl⟩ := entry_of_number? h
    have hk := (List.getElem?_eq_some_iff.mp he).1
    omega

theorem contains_eq_false_iff : c.contains name = false ↔ name ∉ c.entries.map Notice.name := by
  simp [contains]

end Catalog

namespace Catalogs
variable {c c' : Catalogs} {name : String} {description : Option String} {n : Nat}

/-- The names of the errors of the protocol. -/
def protocolNames (c : Catalogs) : List String :=
  (c.fatal.entries ++ c.protocol.entries).map Notice.name

/-- The names of the errors that were declared. -/
def declaredNames (c : Catalogs) : List String := c.declared.entries.map Notice.name

/-- The number is that of an error. -/
def IsUsed (c : Catalogs) (n : Nat) : Prop :=
  ∃ name, c.fatal.number? name = some n ∨ c.protocol.number? name = some n ∨
    c.declared.number? name = some n

section Step

theorem isProtocolError_eq_false_iff : c.isProtocolError name = false ↔ name ∉ c.protocolNames := by
  rw [isProtocolError, Bool.or_eq_false_iff, Catalog.contains_eq_false_iff,
    Catalog.contains_eq_false_iff, protocolNames, List.map_append, List.mem_append, not_or]

/-- **An error can be declared if and only if it is described and its name is new.** -/
theorem declare_ok_iff_new : declare name description c = .ok () c' ↔
    ∃ text, description = some text ∧ name ∉ c.protocolNames ∧ name ∉ c.declaredNames ∧
      c' = { c with declared := c.declared.append ⟨name, text⟩ } := by
  simp only [declare_ok_iff, isProtocolError_eq_false_iff, Catalog.contains_eq_false_iff,
    declaredNames]

/-- What holds of the catalogs at all times. -/
structure Consistent (c : Catalogs) : Prop where
  fatal : c.fatal = .fatal
  protocol : c.protocol = .protocol
  offset : c.declared.offset = Catalog.protocol.stop
  distinct : c.declaredNames.Nodup
  free : ∀ name ∈ c.declaredNames, name ∉ c.protocolNames

theorem consistent_default : Consistent {} := ⟨rfl, rfl, rfl, .nil, fun _ h => nomatch h⟩

theorem Consistent.declare (hc : c.Consistent) (h : c.declare name description = .ok () c') :
    c'.Consistent := by
  obtain ⟨text, rfl, hprotocol, hdeclared, rfl⟩ := declare_ok_iff_new.mp h
  refine ⟨hc.fatal, hc.protocol, hc.offset, nodup_keys_append hc.distinct ?_, ?_⟩
  · intro e he hname
    exact hdeclared (List.mem_map.mpr ⟨e, he, hname⟩)
  · intro other hother
    simp only [declaredNames, Catalog.append, List.map_append, List.map_singleton, List.mem_append,
      List.mem_singleton] at hother
    rcases hother with hother | rfl
    · exact hc.free other hother
    · exact hprotocol

end Step

section Numbers
variable (h : c.Consistent)
include h

theorem Consistent.isUsed_iff : c.IsUsed n ↔
    n ∈ c.fatal.numbers ++ c.protocol.numbers ++ c.declared.numbers := by
  have hfatal : (c.fatal.entries.map Notice.name).Nodup := h.fatal ▸ by decide
  have hprotocol : (c.protocol.entries.map Notice.name).Nodup := h.protocol ▸ by decide
  rw [List.mem_append, List.mem_append, Catalog.mem_numbers_iff hfatal,
    Catalog.mem_numbers_iff hprotocol, Catalog.mem_numbers_iff h.distinct]
  simp only [IsUsed, exists_or, or_assoc]

theorem Consistent.groupErrorsOffset_eq :
    c.groupErrorsOffset = Catalog.protocol.stop + c.declared.entries.length :=
  congrArg (· + c.declared.entries.length) h.offset

/-- **The numbers of the catalogs follow one another from one on.** -/
theorem Consistent.numbers_eq : c.fatal.numbers ++ c.protocol.numbers ++ c.declared.numbers =
    List.range' 1 (c.groupErrorsOffset - 1) := by
  have hgiven : Catalog.fatal.numbers ++ Catalog.protocol.numbers =
      List.range' 1 (Catalog.protocol.stop - 1) := by decide
  have hstop : 1 + (Catalog.protocol.stop - 1) = Catalog.protocol.stop := by decide
  have hlength : c.groupErrorsOffset - 1 =
      (Catalog.protocol.stop - 1) + c.declared.entries.length := by
    have hoffset := h.groupErrorsOffset_eq
    omega
  rw [h.fatal, h.protocol, hgiven, hlength, ← List.range'_append_1, hstop, ← h.offset]
  rfl

/-- **The number that is free next is one more than the greatest that is used.** -/
theorem Consistent.isGreatest : IsGreatest {n | c.IsUsed n} (c.groupErrorsOffset - 1) := by
  have hused (n : Nat) : c.IsUsed n ↔ 1 ≤ n ∧ n < 1 + (c.groupErrorsOffset - 1) := by
    rw [h.isUsed_iff, h.numbers_eq, List.mem_range'_1]
  have hpos : 1 < Catalog.protocol.stop := by decide
  have hoffset := h.groupErrorsOffset_eq
  constructor
  · exact (hused _).mpr (by omega)
  · intro n hn
    have hlt := (hused n).mp hn
    omega

end Numbers

section Calls
variable {calls : List (String × Option String)}

/-- The change that a call makes, which declares an error. -/
def perform (call : String × Option String) : Changing Catalogs Unit :=
  declare call.1 call.2

/-- No call is refused halfway. -/
theorem atomic_perform (call : String × Option String) : Atomic (perform call) := atomic_declare

/-- The catalogs behind some calls, those that were refused among them. -/
def ofCalls (calls : List (String × Option String)) : Catalogs := offerAll perform {} calls

theorem consistent_ofCalls (calls : List (String × Option String)) : (ofCalls calls).Consistent :=
  offerAll_keeps atomic_perform (fun _ _ _ _ h hc => Consistent.declare hc h) consistent_default

/-- The entries are the accepted calls in their order. -/
theorem entries_ofCalls (calls : List (String × Option String)) :
    (ofCalls calls).declared.entries =
      (accepted perform {} calls).map fun call => ⟨call.1, call.2.getD ""⟩ := by
  have hstep (c : Catalogs) (call : String × Option String) (c' : Catalogs)
      (h : perform call c = .ok () c') : c'.declared.entries =
        c.declared.entries ++ (some (⟨call.1, call.2.getD ""⟩ : Notice)).toList := by
    obtain ⟨text, htext, -, -, rfl⟩ := declare_ok_iff_new.mp h
    rw [htext]
    rfl
  have hentries := offerAll_appends atomic_perform hstep {} calls
  rw [List.filterMap_eq_map'] at hentries
  exact hentries

/-- Entries that were declared stay, in front of those that are declared later. -/
theorem entries_prefix (c : Catalogs) (calls : List (String × Option String)) :
    c.declared.entries <+: (offerAll perform c calls).declared.entries := by
  have hstep (c : Catalogs) (call : String × Option String) (c' : Catalogs) (_ : call ∈ calls)
      (h : perform call c = .ok () c') : c.declared.entries <+: c'.declared.entries := by
    obtain ⟨text, -, -, -, rfl⟩ := declare_ok_iff_new.mp h
    exact List.prefix_append _ _
  exact @offerAll_related Catalogs _ perform calls atomic_perform
    (fun c c' => c.declared.entries <+: c'.declared.entries)
    (fun _ => List.prefix_rfl) List.IsPrefix.trans hstep c

/-- **An error is numbered after all that were declared before it, whatever is declared later.** -/
theorem number?_ofCalls {before after : List (String × Option String)}
    {call : String × Option String} {c : Catalogs} (h : (ofCalls before).perform call = .ok () c) :
    (ofCalls (before ++ call :: after)).declared.number? call.1 =
      some (Catalog.protocol.stop + (accepted perform {} before).length) := by
  have hlater : ofCalls (before ++ call :: after) = offerAll perform c after := by
    rw [ofCalls, offerAll_append, offerAll_cons]
    exact congrArg (offerAll perform · after) (offer_ok h)
  have hprefix := entries_prefix c after
  obtain ⟨text, -, -, hnew, rfl⟩ := declare_ok_iff_new.mp h
  obtain ⟨rest, hrest⟩ := hprefix
  rw [← hlater] at hrest
  have hsplit : (ofCalls (before ++ call :: after)).declared.entries =
      (ofCalls before).declared.entries ++ ⟨call.1, text⟩ :: rest := by
    rw [← hrest, Catalog.append, List.append_assoc, List.singleton_append]
  have hfirst : ∀ e ∈ (ofCalls before).declared.entries, e.name ≠ call.1 :=
    fun e he hname => hnew (List.mem_map.mpr ⟨e, he, hname⟩)
  rw [Catalog.number?_of_entries hsplit hfirst, (consistent_ofCalls _).offset,
    entries_ofCalls before, List.length_map]

theorem perform_error_iff {c : Catalogs} {call : String × Option String} :
    (∃ defect c', c.perform call = .error defect c') ↔
      call.2 = none ∨ call.1 ∈ c.protocolNames ∨ call.1 ∈ c.declaredNames := by
  have hok : (∃ defect c', c.perform call = .error defect c') ↔
      ¬ ∃ c', c.perform call = .ok () c' := by
    cases c.perform call <;> simp
  rw [hok]
  simp only [perform, declare_ok_iff_new]
  cases call.2 <;> simp [Decidable.imp_iff_not_or]

/-- What holds of the catalogs whatever calls declare errors. -/
structure Numbered (calls : List (String × Option String)) : Prop where
  given : (ofCalls calls).fatal = .fatal ∧ (ofCalls calls).protocol = .protocol
  /-- The numbers of the three catalogs follow one another from one on. -/
  numbers : (ofCalls calls).fatal.numbers ++ (ofCalls calls).protocol.numbers ++
    (ofCalls calls).declared.numbers = List.range' 1 ((ofCalls calls).groupErrorsOffset - 1)
  used : ∀ n, (ofCalls calls).IsUsed n ↔ n ∈ (ofCalls calls).fatal.numbers ++
    (ofCalls calls).protocol.numbers ++ (ofCalls calls).declared.numbers
  offset : ∃ n, IsGreatest {n | (ofCalls calls).IsUsed n} n ∧
    (ofCalls calls).groupErrorsOffset = n + 1
  /-- The number of an error follows those of the calls that were accepted before, and stays
  whatever is declared later. -/
  placed : ∀ before call after c, calls = before ++ call :: after →
    (ofCalls before).perform call = .ok () c → (ofCalls calls).declared.number? call.1 =
      some (Catalog.protocol.stop + (accepted perform {} before).length)
  entries : (ofCalls calls).declared.entries =
    (accepted perform {} calls).map fun call => ⟨call.1, call.2.getD ""⟩
  distinct : (ofCalls calls).declaredNames.Nodup
  free : ∀ name ∈ (ofCalls calls).declaredNames, name ∉ (ofCalls calls).protocolNames
  /-- Different errors that were declared have different numbers. -/
  apart : ∀ name ∈ (ofCalls calls).declaredNames, ∀ name' ∈ (ofCalls calls).declaredNames,
    (ofCalls calls).declared.number? name = (ofCalls calls).declared.number? name' → name = name'
  /-- One more call is refused if and only if it has no description or its name is taken. -/
  refusing : ∀ call, (∃ defect c, (ofCalls calls).perform call = .error defect c) ↔
    call.2 = none ∨ call.1 ∈ (ofCalls calls).protocolNames ∨ call.1 ∈ (ofCalls calls).declaredNames
  /-- A refused call changes nothing, and may as well not have been made. -/
  refused : ∀ before call after defect c, calls = before ++ call :: after →
    (ofCalls before).perform call = .error defect c →
    c = ofCalls before ∧ ofCalls calls = ofCalls (before ++ after)

/-- **However errors are declared, each keeps the number that it is given, and no number is given
twice.** -/
theorem ofCalls_numbered (calls : List (String × Option String)) : Numbered calls where
  given := ⟨(consistent_ofCalls calls).fatal, (consistent_ofCalls calls).protocol⟩
  numbers := (consistent_ofCalls calls).numbers_eq
  used n := (consistent_ofCalls calls).isUsed_iff
  offset := by
    have h := consistent_ofCalls calls
    have hpos : 1 < Catalog.protocol.stop := by decide
    have hoffset := h.groupErrorsOffset_eq
    exact ⟨_, h.isGreatest, by omega⟩
  placed := by
    rintro before call after c rfl h
    exact number?_ofCalls h
  entries := entries_ofCalls calls
  distinct := (consistent_ofCalls calls).distinct
  free := (consistent_ofCalls calls).free
  apart := by
    intro name hname name' _ heq
    obtain ⟨n, hn⟩ := Catalog.exists_number? hname
    exact Catalog.name_eq_of_number? hn (heq ▸ hn)
  refusing _ := perform_error_iff
  refused := by
    rintro before call after defect c rfl h
    exact offerAll_refused atomic_perform h

example : (ofCalls [("low", some "Low"), ("busy", none), ("busy", some "Busy")]).declared.number?
    "busy" = some 9 := by decide

end Calls
end Catalogs
end DeviceSchema

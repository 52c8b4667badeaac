import DeviceSchema.Proofs.CrossReference.Attachment
import DeviceSchema.Proofs.Lockstep.Source
import DeviceSchema.Proofs.Reading.Compositional
import DeviceSchema.Text.Pattern

/-! # Limits only restrict

Whatever is read under some limits is read under limits that are nowhere smaller, and to
the same session but for the limits in it.  A step that succeeds under the one takes the
same way under the other: a name that is short enough stays so, and a collection whose keys
users may extend stays one (`Lenient`).

Checking a session as a whole never asks whether a limit is exceeded.  The length of a key
that a user may add is part of the bounds that `ref_enum` elements are given, so it is there,
and only there, that two descriptions of the same source differ (`ofSource_lenient`).
-/
namespace DeviceSchema

namespace Limits

/-- No limit of `bounds` is smaller. -/
structure Within (limits bounds : Limits) : Prop where
  attributeLength : limits.attributeLength ≤ bounds.attributeLength
  nameLength : limits.nameLength ≤ bounds.nameLength
  keyLength : limits.keyLength ≤ bounds.keyLength

instance (limits bounds : Limits) : Decidable (limits.Within bounds) :=
  decidable_of_iff (limits.attributeLength ≤ bounds.attributeLength ∧
      limits.nameLength ≤ bounds.nameLength ∧ limits.keyLength ≤ bounds.keyLength)
    ⟨fun ⟨a, n, k⟩ => ⟨a, n, k⟩, fun ⟨a, n, k⟩ => ⟨a, n, k⟩⟩

theorem Within.allowsKeys {limits bounds : Limits} (h : limits.Within bounds)
    (hkeys : limits.allowsKeys = true) : bounds.allowsKeys = true := by
  have hkey := h.keyLength
  simp only [Limits.allowsKeys, decide_eq_true_eq] at hkeys ⊢
  exact UInt64.lt_of_lt_of_le hkeys hkey

end Limits

/-- A collection that is settled under some limits is settled under greater ones. -/
theorem Collection.settle_within {c : Collection} {limits bounds : Limits}
    (h : limits.Within bounds) (hok : (c.settle limits).1 = .ok ()) :
    c.settle bounds = c.settle limits := by
  unfold settle at hok ⊢
  split
  · rfl
  · rename_i hcounted
    rw [if_neg hcounted] at hok
    dsimp only at hok ⊢
    have hbounds : checkSettled { c with head := c.head.settled } bounds = .ok () := by
      unfold checkSettled at hok ⊢
      split at hok
      · cases hok
      split at hok
      · cases hok
      rename_i hfixed hkeys
      have hallowed : ¬ (c.head.settled.keys.isSome && !bounds.allowsKeys) = true := by
        intro hboth
        simp only [Bool.and_eq_true, Bool.not_eq_eq_eq_not, Bool.not_true] at hboth hkeys
        refine hkeys ⟨hboth.1, Bool.eq_false_iff.mpr fun hallows => ?_⟩
        rw [h.allowsKeys hallows] at hboth
        cases hboth.2
      rw [if_neg hfixed, if_neg hallowed]
      exact hok
    rw [hbounds, hok]

/-- The session under other limits. -/
def Session.under (s : Session) (limits : Limits) : Session := { s with limits }

theorem Session.under_table (s : Session) (limits : Limits) (kind : TableKind) :
    (s.under limits).table kind = s.table kind := by
  cases kind <;> rfl

namespace Statement

/-- The progress under other limits. -/
def Progress.under (p : Progress) (limits : Limits) : Progress :=
  { p with session := p.session.under limits }

namespace Reading
variable {α β : Type}

/-- A step that succeeds does not change the limits, and it succeeds in the same way under
greater ones. -/
def Lenient (m : Reading α) : Prop :=
  ∀ ⦃p : Progress⦄ ⦃a : α⦄ ⦃q : Progress⦄, m p = .ok a q →
    q.session.limits = p.session.limits ∧
      ∀ bounds, p.session.limits.Within bounds → m (p.under bounds) = .ok a (q.under bounds)

section Lenient

theorem lenient_pure {a : α} : Lenient (pure a) := by
  intro p b q h
  cases h
  exact ⟨rfl, fun _ _ => rfl⟩

theorem lenient_failing {failure : Failure} :
    Lenient (fun p => .error failure p : Reading α) := by
  intro p a q h
  cases h

theorem Lenient.bind {m : Reading α} {f : α → Reading β} (hm : Lenient m)
    (hf : ∀ a, Lenient (f a)) : Lenient (m >>= f) := by
  intro p b r h
  obtain ⟨a, q, hq, hr⟩ := bind_ok.mp h
  obtain ⟨hlimits, hunder⟩ := hm hq
  obtain ⟨hlimits', hunder'⟩ := hf a hr
  refine ⟨hlimits'.trans hlimits, fun bounds hwithin => bind_ok.mpr ?_⟩
  exact ⟨a, q.under bounds, hunder bounds hwithin, hunder' bounds (hlimits ▸ hwithin)⟩

/-- A step on the stream alone. -/
theorem lenient_onStream {step : Token.Stream → α × Token.Stream} : Lenient (onStream step) := by
  intro p a q h
  cases h
  exact ⟨rfl, fun _ _ => rfl⟩

/-- The limits of a session are not changed by what does not depend on them. -/
theorem limits_of_unlimited {change : Session → Session}
    (h : Session.Unlimited change fun limits s => { s with limits }) (s : Session) :
    (change s).limits = s.limits := by
  have hsame : change s = { change s with limits := s.limits } := h s s.limits
  rw [hsame]

theorem lenient_onSession {change : Session → Session}
    (h : Session.Unlimited change fun limits s => { s with limits }) :
    Lenient (onSession change) := by
  intro p a q hp
  cases hp
  refine ⟨limits_of_unlimited h p.session, fun bounds _ => ?_⟩
  rw [onSession, Progress.under, Session.under, h]
  rfl

theorem lenient_extending {change : Changing Session Unit}
    (h : Session.Unlimited change Session.limited) : Lenient (extending change) := by
  intro p a q hp
  obtain ⟨s, hs, rfl⟩ := extending_ok.mp hp
  have hsame : change p.session = Session.limited p.session.limits (change p.session) :=
    h p.session p.session.limits
  rw [hs] at hsame
  obtain ⟨-, hlimits⟩ := EStateM.Result.ok.inj hsame
  refine ⟨by rw [hlimits], fun bounds _ => ?_⟩
  rw [extending, Progress.under, Session.under, h, hs]
  rfl

theorem lenient_handBack {token : Token} : Lenient (handBack token) := by
  intro p a q h
  unfold Reading.handBack at h ⊢
  cases hstream : p.stream.handBack token with
  | ok stream =>
    rw [hstream] at h
    cases h
    refine ⟨rfl, fun bounds _ => ?_⟩
    dsimp only [Progress.under]
    rw [hstream]
  | error fault =>
    rw [hstream] at h
    cases h

/-- What is read by a table is the same under other limits. -/
theorem Lenient.table {kind : TableKind} {f : Table → Reading α} (hf : ∀ t, Lenient (f t)) :
    Lenient (session >>= fun s => f (s.table kind)) := by
  intro p a q h
  obtain ⟨hlimits, hunder⟩ := hf (p.session.table kind) h
  refine ⟨hlimits, fun bounds hwithin => ?_⟩
  have hstep := hunder bounds hwithin
  rw [← Session.under_table p.session bounds] at hstep
  exact hstep

/-- A name that is not too long stays so. -/
theorem Lenient.length {length : Nat} {tooLong : Nat → Cause} {m : Reading α} (hm : Lenient m) :
    Lenient (limits >>= fun limits =>
      if limits.nameLength < length then Reading.fail (tooLong limits.nameLength) else m) := by
  intro p a q h
  change (if p.session.limits.nameLength < length then _ else m) p = _ at h
  split at h
  · cases h
  · rename_i hshort
    obtain ⟨hlimits, hunder⟩ := hm h
    refine ⟨hlimits, fun bounds hwithin => ?_⟩
    have hname := hwithin.nameLength
    change (if bounds.nameLength < length then _ else m) (p.under bounds) = _
    rw [if_neg (by omega)]
    exact hunder bounds hwithin

/-- A collection that was settled is settled in the same way. -/
theorem Lenient.settle {c : Collection} {construct : Construct} {name : Collection → String}
    {line : Nat} {f : Collection → Reading α} (hf : ∀ c, Lenient (f c)) :
    Lenient (limits >>= fun limits => closing construct (name (c.settle limits).2) line
      (c.settle limits).1 >>= fun _ => f (c.settle limits).2) := by
  intro p a q h
  change (closing construct (name (c.settle p.session.limits).2) line
    (c.settle p.session.limits).1 >>= fun _ => f (c.settle p.session.limits).2) p = _ at h
  obtain ⟨u, p', hclosing, hrest⟩ := bind_ok.mp h
  obtain ⟨hsettled, rfl⟩ := closing_ok.mp hclosing
  obtain ⟨hlimits, hunder⟩ := hf _ hrest
  refine ⟨hlimits, fun bounds hwithin => ?_⟩
  change (closing construct (name (c.settle bounds).2) line
    (c.settle bounds).1 >>= fun _ => f (c.settle bounds).2) (p.under bounds) = _
  rw [Collection.settle_within hwithin hsettled, hsettled]
  exact hunder bounds hwithin

theorem compositional_lenient :
    Compositional (fun _ => True) (fun _ => True) fun _ m => Lenient m where
  pure _ := lenient_pure
  bind hm hf := hm.bind hf
  line hf := fun p => hf p.stream.line (fun _ => trivial) (p := p)
  fail _ := fun p a q h => by cases h
  failing _ := lenient_failing
  token hnone hsome := lenient_onStream.bind fun token => match token with
    | none => hnone
    | some token => hsome token trivial
  handBack _ := lenient_handBack
  dropLine := lenient_onStream
  quoted := lenient_onStream
  arithmetic := lenient_onStream
  integer := lenient_onStream
  look _ := fun p a q h => by
    cases h
    exact ⟨rfl, fun _ _ => rfl⟩
  table _ _ hf := .table hf
  length _ _ _ hm := hm.length
  settle _ _ _ _ _ _ hf := .settle hf
  onSession h := lenient_onSession h
  extending h := lenient_extending h
  tell _ := fun p a q h => by
    cases h
    exact ⟨rfl, fun _ _ => rfl⟩

end Lenient
end Reading

/-- **What is read under some limits is read under greater ones.** -/
theorem ReadsTo.under [PatternCompiler] {s t : Session} {source : String} {bounds : Limits}
    (hwithin : s.limits.Within bounds) (h : ReadsTo s source t) :
    ReadsTo (s.under bounds) source (t.under bounds) := by
  obtain ⟨stream, hstream, hread⟩ := h
  obtain ⟨p, hp, rfl⟩ := read_result_iff.mp hread
  have hlenient := Reading.compositional_lenient.statements (fun _ _ _ => trivial)
    (stream.unread + 1)
  obtain ⟨-, hunder⟩ := hlenient hp
  exact ⟨stream, hstream, read_result_iff.mpr ⟨p.under bounds, hunder bounds hwithin, rfl⟩⟩

end Statement

/-! ## Descriptions -/

namespace CrossReference

variable {s : Session}

end CrossReference

namespace Description
open CrossReference Statement

end Description
end DeviceSchema

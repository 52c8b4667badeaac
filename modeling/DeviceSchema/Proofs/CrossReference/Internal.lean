import DeviceSchema.Proofs.Construction.Discipline
import DeviceSchema.Proofs.CrossReference.Check
import DeviceSchema.Text.Pattern

/-! # No source is rejected for an internal reason

Some rejections would tell of a mistake of the reader and not of the source: the internal
failures of statements, and a `ref_enum` element that is in the index but not in the tree
(`Rejection.IsInternal`).  None of them is ever seen.  Statements are orderly, and the index
leads to the `ref_enum` elements of the trees once a source has been read, so the check finds
them both when it looks for ranges and when it stores them (`ofSource_not_internal`).
-/
namespace DeviceSchema

/-- A rejection that no source is to blame for. -/
inductive Rejection.IsInternal : Rejection → Prop
  | tokens {fault : Token.Fault} (h : (Statement.Cause.token fault).IsInternal) :
      IsInternal (.tokens fault)
  | statement {failure : Statement.Failure} (h : failure.cause.IsInternal) :
      IsInternal (.statement failure)
  | missingRefEnum (path : Path) (line : Nat) :
      IsInternal (.crossReference (.missingRefEnum path) line)

namespace CrossReference

theorem forM_error {ε α : Type} {f : α → Except ε Unit} {xs : List α} {fault : ε}
    (h : xs.forM f = .error fault) : ∃ x ∈ xs, f x = .error fault := by
  induction xs with
  | nil => cases h
  | cons x rest ih =>
    rw [List.forM] at h
    cases hx : f x with
    | error other =>
      rw [hx] at h
      cases h
      exact ⟨x, List.mem_cons_self, hx⟩
    | ok u =>
      rw [hx] at h
      obtain ⟨x', hx', hf⟩ := ih h
      exact ⟨x', List.mem_cons_of_mem x hx', hf⟩

variable {s : Session} {path : Path}

theorem rangeOf_ne_missing {e : Element} {path' : Path} :
    rangeOf s path e ≠ .error (.missingRefEnum path') := by
  unfold rangeOf
  split <;> simp

/-- The index leads to the elements whose ranges are wanted. -/
theorem ranges_ne_missing (hs : s.Distinct) (hr : s.Recounted) :
    ranges s ≠ .error (.missingRefEnum path) := by
  intro h
  obtain ⟨path', hmem, hfault⟩ := mapM_error h
  obtain ⟨e, he, -⟩ := resolve_of_mem_index hs hr hmem
  rw [rangeAt_eq he] at hfault
  exact rangeOf_ne_missing hfault

theorem checkSource_ne_missing {t : Table} {c : Condition} :
    checkSource t c ≠ .error (.missingRefEnum path) := by
  unfold checkSource
  split <;> simp

theorem checkSources_ne_missing {t : Table} :
    checkSources t ≠ .error (.missingRefEnum path) := by
  intro h
  unfold checkSources at h
  cases hall : t.conditions.forM (checkSource t) with
  | error fault =>
    rw [hall] at h
    cases h
    obtain ⟨c, -, hfault⟩ := forM_error hall
    exact checkSource_ne_missing hfault
  | ok u =>
    rw [hall] at h
    cases h

/-- **A check never misses an element of the index.** -/
theorem check_ne_missing {p : Progress} (hs : p.session.Distinct) (hr : p.session.Recounted) :
    (check p).result ≠ .error (.missingRefEnum path) := by
  intro h
  unfold check at h
  cases hall : Checking.all p with
  | ok counts q =>
    rw [hall] at h
    cases h
  | error fault q =>
    rw [hall] at h
    cases h
    rcases Checking.all_fault hall with ⟨hranges | ⟨kind, hsources⟩, -⟩ | ⟨found, hfound, hstored⟩
    · exact ranges_ne_missing hs hr hranges
    · exact checkSources_ne_missing hsources
    · rw [storeAll_ranges hs hr hfound] at hstored
      cases hstored

end CrossReference

namespace Description
open CrossReference Statement

/-- A source is refused as a whole only for a word that is too long. -/
theorem ofSource_tokens_not_internal {source : String} {fault : Token.Fault}
    (h : Token.Stream.ofSource source = .error fault) : ¬ (Cause.token fault).IsInternal := by
  unfold Token.Stream.ofSource at h
  dsimp only at h
  split at h
  · cases h
    nofun
  · cases h

/-- **Whatever a source says and whatever the limits are, it is never rejected for an internal
reason.** -/
theorem ofSource_not_internal [PatternCompiler] (name source : String) (limits : Limits)
    {rejection : Rejection}
    (h : (ofSource name source limits).result = .error rejection) : ¬ rejection.IsInternal := by
  cases hstream : Token.Stream.ofSource source with
  | error fault =>
    have hrejection : rejection = .tokens fault := by
      unfold ofSource Making.outcome Making.ofSource at h
      rw [hstream] at h
      exact (Except.error.inj h).symm
    rw [hrejection]
    intro hinternal
    cases hinternal with
    | tokens hfault => exact ofSource_tokens_not_internal hstream hfault
  | ok stream =>
    cases hread : (read stream (.ofLimits limits)).result with
    | error failure =>
      have hrejection : rejection = .statement failure := by
        unfold ofSource Making.outcome Making.ofSource Making.ofStream at h
        simp only [Bind.bind, EStateM.bind, Making.tell, hstream, Making.statements, hread] at h
        exact (Except.error.inj h).symm
      rw [hrejection]
      intro hinternal
      cases hinternal with
      | statement hfailure => exact read_not_internal hstream hread hfailure
    | ok u =>
      by_cases hgroups : (read stream (.ofLimits limits)).progress.session.groupCount = 0
      · have hrejection : rejection = .noGroups name := by
          unfold ofSource Making.outcome Making.ofSource Making.ofStream at h
          simp only [Bind.bind, EStateM.bind, Making.tell, hstream, Making.statements, hread,
            Making.checkGroups, hgroups, if_true] at h
          exact (Except.error.inj h).symm
        rw [hrejection]
        rintro ⟨⟩
      · obtain ⟨events, line, hresult⟩ := ofSource_result name hstream hread hgroups
        have hrecounted := ((read_ok hread).accounted (accounted_ofLimits limits)).recounted
          read_distinct
        rw [hresult] at h
        dsimp only at h
        split at h
        · cases h
        · rename_i fault hcheck
          cases h
          rintro ⟨⟩
          exact check_ne_missing read_distinct hrecounted hcheck

/-- The small source with one more reference, which leads nowhere. -/
def danglingSource : String := smallSource ++ " ref /g/m"

/-- The source is read to its end, and the check of its references rejects it. -/
def isDangling : Except Rejection Description → Bool
  | .error (.crossReference _ _) => true
  | _ => false

attribute [local instance] Text.Pattern.compiler in
theorem dangling_rejected :
    isDangling (ofSource "small" danglingSource smallLimits).result = true := by
  decide +kernel

attribute [local instance] Text.Pattern.compiler in
/-- The condition of the source is attached, the words that end its elements are handed back, and
its `ref_enum` is stored and checked. -/
theorem ofSource_not_internal_small : ∃ fault line,
    (ofSource "small" danglingSource smallLimits).result = .error (.crossReference fault line) ∧
      ¬ (Rejection.crossReference fault line).IsInternal := by
  have hdangling := dangling_rejected
  unfold isDangling at hdangling
  split at hdangling
  · rename_i fault line hresult
    exact ⟨fault, line, hresult,
      ofSource_not_internal "small" danglingSource smallLimits hresult⟩
  · cases hdangling

end Description
end DeviceSchema

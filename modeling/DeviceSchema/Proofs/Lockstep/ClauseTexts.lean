import DeviceSchema.Proofs.Construction.Deeds
import DeviceSchema.Proofs.Lockstep.Element
import DeviceSchema.Proofs.Lockstep.Outcomes

/-! # Clauses of an element as they are written

A clause of an element is written as a keyword and an argument, with blanks between them, and
behind the name of a member there may be a label and a help text (`ClauseText`).  Blanks and
comments may stand before the keyword.

What such a text does to an element is a deed that depends on the text alone (`exists_deed`).
There is one proviso.  A bound in quotes is read as its first word only, and reading may go on in
any way behind it; but then the element is spoiled.
-/
namespace DeviceSchema.Statement.Reading
open Text Token

/-- The argument of a clause as it is written. -/
inductive Argument where
  | word (word : List Char)
  | quoted (body : List Char)
  | expression (written : List Char)

namespace Argument

def spelling : Argument → List Char
  | word w => w
  | quoted body => '"' :: (body ++ ['"'])
  | expression written => written

/-- One plain word, one text in quotes or one balanced expression. -/
def IsComplete : Argument → Prop
  | word w => IsWord w ∧ w.head? ≠ some '"'
  | quoted body => ∀ c ∈ body, c ≠ '"' ∧ c ≠ '\n'
  | expression written => IsExpression written

/-- Bounds may be expressions, and a word for a bound begins none. -/
def Suits : ElementClause → Argument → Prop
  | .min, word w | .max, word w => w.head? ≠ some '('
  | .min, _ | .max, _ => True
  | _, expression _ => False
  | _, _ => True

end Argument

/-- A clause of an element as it is written. -/
structure ClauseText where
  kind : ElementClause
  /-- What stands before the keyword. -/
  filler : List Char
  keyword : List Char
  /-- What stands between the keyword and the argument. -/
  gap : List Char
  argument : Argument
  /-- The label and the help text of a member, each with what stands before it. -/
  texts : List (List Char × List Char) := []

/-- Blanks, and comments up to the ends of their lines. -/
inductive Filler : List Char → Prop
  | nil : Filler []
  | blank {c : Char} {text : List Char} (hc : isBlank c = true) (h : Filler text) :
      Filler (c :: text)
  | comment {comment text : List Char} (hcomment : '\n' ∉ comment) (h : Filler text) :
      Filler ('#' :: (comment ++ '\n' :: text))

namespace ClauseText

/-- The text behind the keyword. -/
def tail (c : ClauseText) : List Char := c.gap ++ (c.argument.spelling ++ quotations c.texts)

/-- The clause as it is written. -/
def spelling (c : ClauseText) : List Char := c.filler ++ (c.keyword ++ c.tail)

/-- The clause is written in full. -/
structure IsWritten (c : ClauseText) : Prop where
  filler : Filler c.filler
  /-- The clause is parted from what stands before it. -/
  parted : ∃ b, c.filler.head? = some b ∧ isBlank b = true
  isWord : IsWord c.keyword
  keyword : elementKeywords.lookup (String.ofList c.keyword).toLower = some c.kind
  gap : c.gap ≠ [] ∧ ∀ b ∈ c.gap, isBlank b = true
  argument : c.argument.IsComplete
  suits : c.argument.Suits c.kind
  texts : ∀ quotation ∈ c.texts, IsQuotation quotation
  count : c.texts.length ≤ if c.kind.isMember then 2 else 0
  /-- Unless it is in quotes, the argument is parted from a label. -/
  behind : (∃ body, c.argument = .quoted body) ∨ Parted (quotations c.texts)

end ClauseText

/-- What the element and the statistics are behind a clause, as an outcome. -/
def outcomeIn (s : Session) (x : Option (Element × Statistics)) : Option (Element × Session) :=
  x.map fun x => (x.1, s.tallied x.2)

section Kinds
variable {E : Element → Prop} {m : Reading Element} {text rest word : List Char}
variable {s : Session} {e : Element} {t : Statistics} {d : Deed}

theorem comes_act {s' : Session}
    (hyes : d.admits e = true → ComesOr E m text s' (some (d.put e, s.tallied (d.tally t))) rest)
    (hno : d.admits e = false → ComesOr E m text s' none rest) :
    ComesOr E m text s' (outcomeIn s (act (e, t) (some d))) rest := by
  cases hadmits : d.admits e with
  | true =>
    have hact : act (e, t) (some d) = some (d.put e, d.tally t) := by simp [act, hadmits]
    rw [hact]
    exact hyes hadmits
  | false =>
    have hact : act (e, t) (some d) = none := by simp [act, hadmits]
    rw [hact]
    exact hno hadmits

/-- A declaration that goes through if and only if the element admits it. -/
theorem comes_declare {β : Type} {result : Except Defect β} {b : β} {f : β → Reading Element}
    (hresult : result.toOption = if d.admits e then some b else none)
    (hf : ComesOr E (f b) text (s.tallied t) (some (d.put e, s.tallied (d.tally t))) rest) :
    ComesOr E (taking result >>= f) text (s.tallied t) (outcomeIn s (act (e, t) (some d))) rest := by
  have htaking : Comes (taking result) text (s.tallied t) _ text := comes_taking
  refine comes_act (fun hadmits => ?_) fun hadmits => ?_
  · rw [hresult, if_pos hadmits] at htaking
    exact htaking.next hf
  · rw [hresult, if_neg (by simp [hadmits])] at htaking
    exact htaking.stop

theorem comes_declared {result : Except Defect Element} (htally : d.tally t = t)
    (hresult : result.toOption = if d.admits e then some (d.put e) else none) :
    Comes (taking result) text (s.tallied t) (outcomeIn s (act (e, t) (some d))) text := by
  have hpure : Comes (pure (d.put e)) text (s.tallied t)
      (some (d.put e, s.tallied (d.tally t))) text := by
    rw [htally]
    exact comes_pure
  have hdeclare := comes_declare (f := pure) hresult hpure
  rwa [bind_pure] at hdeclare

/-! ## What clauses come to -/

/-- What the clause comes to in any element of the session is the deed, or it fails. -/
structure ClauseText.Does [PatternCompiler] (c : ClauseText) (here : Path) (s : Session)
    (d : Option Deed) : Prop where
  kind : ∀ x ∈ d, x.kind = c.kind
  reads (opened : Nat) (e : Element) (t : Statistics) (rest : List Char) (hrest : Parted rest)
    (hquote : c.kind.isMember = true → NoQuoteNext rest) :
    ComesOr Spoiled (elementClause opened here e c.kind) (c.tail ++ rest) (s.tallied t)
      (outcomeIn s (act (e, t) d)) rest

variable {c : ClauseText} {here : Path} {w body : List Char}

theorem ClauseText.IsWritten.texts_eq (h : c.IsWritten) (hkind : c.kind.isMember = false) :
    c.texts = [] := by
  have hcount := h.count
  rw [hkind] at hcount
  exact List.eq_nil_of_length_eq_zero (Nat.le_zero.mp hcount)

theorem ClauseText.IsWritten.leads (h : c.IsWritten) (harg : c.argument = .word w)
    (hrest : Parted rest) : Leads (c.tail ++ rest) w (quotations c.texts ++ rest) := by
  have hword := h.argument
  have hbehind := h.behind
  rw [harg] at hword hbehind
  refine ⟨hword.1, (hbehind.resolve_left nofun).append hrest, c.gap, h.gap.2, ?_⟩
  simp [ClauseText.tail, harg, Argument.spelling]

theorem ClauseText.IsWritten.skipBlanks (h : c.IsWritten) (harg : c.argument = .quoted body)
    (rest : List Char) : Text.skipBlanks (c.tail ++ rest) =
      '"' :: (body ++ '"' :: (quotations c.texts ++ rest)) := by
  have htail : c.tail ++ rest = c.gap ++ '"' :: (body ++ '"' :: (quotations c.texts ++ rest)) := by
    simp [ClauseText.tail, harg, Argument.spelling]
  rw [htail, skipBlanks_append h.gap.2]
  exact List.dropWhile_cons_of_neg (by decide)

/-- The first word of an argument in quotes begins with a quote. -/
theorem ClauseText.IsWritten.leads_quoted (h : c.IsWritten) (harg : c.argument = .quoted body)
    (rest : List Char) :
    ∃ word more, Leads (c.tail ++ rest) word more ∧ word.head? = some '"' := by
  have hskip := h.skipBlanks harg rest
  rcases blank_or_leads (c.tail ++ rest) with hall | ⟨word, more, hleads⟩
  · rw [Text.skipBlanks, List.dropWhile_eq_nil_iff.mpr hall] at hskip
    cases hskip
  · exact ⟨word, more, hleads, (Leads.head_skipBlanks hleads).mp (by rw [hskip]; rfl)⟩

/-- A text that is read whole. -/
theorem ClauseText.IsWritten.comes_text (h : c.IsWritten)
    (harg : ∀ written, c.argument ≠ .expression written) :
    ∃ text : List Char, ∀ ⦃s : Session⦄ ⦃rest : List Char⦄ ⦃missing : Cause⦄, Parted rest →
      Comes (Reading.text missing) (c.tail ++ rest) s (some (String.ofList text, s))
        (quotations c.texts ++ rest) := by
  have hcomplete := h.argument
  cases hargument : c.argument with
  | word w =>
    rw [hargument] at hcomplete
    exact ⟨w, fun s rest missing hrest => Reading.comes_text (h.leads hargument hrest) hcomplete.2⟩
  | quoted body =>
    rw [hargument] at hcomplete
    exact ⟨body, fun s rest missing hrest =>
      comes_text_quoted hcomplete (h.skipBlanks hargument rest)⟩
  | expression written => exact absurd hargument (harg written)

/-- A clause whose argument is its first word, which it refuses if that begins with a quote. -/
theorem exists_deed_of_word [PatternCompiler] (words : List Char → Option Deed) (h : c.IsWritten)
    (harg : ∀ written, c.argument ≠ .expression written) (htexts : c.texts = [])
    (hquote : ∀ {word}, word.head? = some '"' → words word = none)
    (hkind : ∀ word, ∀ d ∈ words word, d.kind = c.kind)
    (hread : ∀ opened e t text word rest, Leads text word rest →
      Comes (elementClause opened here e c.kind) text (s.tallied t)
        (outcomeIn s (act (e, t) (words word))) rest) : ∃ d, c.Does here s d := by
  cases hargument : c.argument with
  | word w =>
    refine ⟨words w, hkind w, fun opened e t rest hrest _ => ?_⟩
    have hleads := h.leads hargument hrest
    rw [htexts] at hleads
    exact (hread opened e t _ w rest hleads).weaken
  | quoted body =>
    refine ⟨none, nofun, fun opened e t rest hrest _ => ?_⟩
    obtain ⟨word, more, hleads, hhead⟩ := h.leads_quoted hargument rest
    have hnone := hread opened e t _ word more hleads
    rw [hquote hhead] at hnone
    exact fun p hp e' q hrun => absurd hrun (hnone hp e' q)
  | expression written => exact absurd hargument (harg written)

theorem ClauseText.IsWritten.not_expression (h : c.IsWritten) (hmin : c.kind ≠ .min)
    (hmax : c.kind ≠ .max) (written : List Char) : c.argument ≠ .expression written := by
  intro harg
  have hsuits := h.suits
  rw [harg] at hsuits
  unfold Argument.Suits at hsuits
  split at hsuits <;> simp_all

/-- No word of a choice begins with a quote. -/
theorem find?_ofList_quote {κ : Type} {choices : List κ} {spelling : κ → String}
    (hwords : ∀ k ∈ choices, (spelling k).toList.head? ≠ some '"') (h : word.head? = some '"') :
    choices.find? (fun k => spelling k = (String.ofList word).toLower) = none :=
  find?_word_quote hwords (by rwa [String.toList_ofList])

theorem exists_deed_type [PatternCompiler] (h : c.IsWritten) (hkind : c.kind = .type) :
    ∃ d, c.Does here s d := by
  refine exists_deed_of_word (fun word => (ValueType.ofWord? (String.ofList word)).map .type) h
    (h.not_expression (by simp [hkind]) (by simp [hkind])) (h.texts_eq (by rw [hkind]; rfl))
    (fun {word} hhead => ?_) (fun word d hd => ?_) fun opened e t text word rest hleads => ?_
  · have hnone : ValueType.ofWord? (String.ofList word) = none := find?_ofList_quote (by decide) hhead
    rw [hnone]
    rfl
  · obtain ⟨type, -, rfl⟩ := Option.map_eq_some_iff.mp hd
    exact hkind.symm
  · rw [hkind]
    refine ComesOr.token hleads fun token htext => ?_
    dsimp only
    rw [htext]
    cases htype : ValueType.ofWord? (String.ofList word) with
    | none =>
      refine Comes.bind (comes_taking : Comes _ rest _ _ rest) (fun declared s' hdeclared => ?_)
        fun _ => rfl
      have hrefused : (changed (e.declareType (String.ofList word))).toOption = none :=
        changed_toOption_eq_none fun e' => by
          simp [Element.declareType_ok_iff, ValueType.ofText, htype]
      rw [hrefused] at hdeclared
      cases hdeclared
    | some type =>
      refine comes_declare (b := { e with type := some type }) (changed_toOption fun e' => ?_) ?_
      · simp [Element.declareType_ok_iff, ValueType.ofText, htype, Deed.admits]
      · exact comes_note.next comes_pure

theorem exists_deed_access [PatternCompiler] (h : c.IsWritten) (hkind : c.kind = .access) :
    ∃ d, c.Does here s d := by
  refine exists_deed_of_word (fun word => (Access.ofWord? (String.ofList word)).map .access) h
    (h.not_expression (by simp [hkind]) (by simp [hkind])) (h.texts_eq (by rw [hkind]; rfl))
    (fun {word} hhead => ?_) (fun word d hd => ?_) fun opened e t text word rest hleads => ?_
  · have hnone : Access.ofWord? (String.ofList word) = none := find?_ofList_quote (by decide) hhead
    rw [hnone]
    rfl
  · obtain ⟨access, -, rfl⟩ := Option.map_eq_some_iff.mp hd
    exact hkind.symm
  · rw [hkind]
    have haccess : Comes access text (s.tallied t)
        ((Access.ofWord? (String.ofList word)).map fun a => (a, s.tallied t)) rest := by
      refine ComesOr.line fun before => ComesOr.token hleads fun token htext => ?_
      dsimp only
      rw [htext, Access.ofText]
      cases Access.ofWord? (String.ofList word) <;> exact comes_taking
    refine haccess.bind (fun a s' hfound => ?_) fun hnone => ?_
    · obtain ⟨a', hword, heq⟩ := Option.map_eq_some_iff.mp hfound
      cases heq
      rw [hword]
      refine comes_declare (b := { e.info with access := some a }) (changed_toOption fun e' => ?_)
        comes_pure
      simp [Info.declareAccess_ok_iff, Deed.admits]
    · rw [Option.map_eq_none_iff.mp hnone]
      rfl

/-- The attachment of a condition of the table to the node at `here`, by name. -/
def attachmentOf (s : Session) (here : Path) (name : String) : Option Attachment :=
  ((s.table here.table).condition name).toOption.bind fun condition =>
    (condition.source.relativeTo here).toOption.map fun reference =>
      ⟨condition.name, reference, condition.predicate⟩

theorem comes_attachment (here : Path) (info : Info) (s : Session) (h : Leads text word rest) :
    Comes (attachment info here) text s
      (if info.condition.isNone && isNameWithin s.limits false word then
        (attachmentOf s here (String.ofList word)).map fun attachment =>
          ({ info with condition := some attachment }, s)
      else none) rest := by
  refine (comes_name h).bind (fun name s' hname => comes_session.next ?_) fun hname => ?_
  · obtain ⟨hwithin, heq⟩ : isNameWithin s.limits false word = true ∧
        (String.ofList word, s) = (name, s') := by simpa using hname
    cases heq
    rw [hwithin, Bool.and_true, attachmentOf]
    dsimp only
    cases (s.table here.table).condition (String.ofList word) with
    | error defect =>
      simp only [Except.toOption, Option.bind_none, Option.map_none, ite_self]
      exact refuses_taking.bind.comes
    | ok condition =>
      refine comes_pure.next ?_
      have hchanging : Comes (changing (info.attach condition here)) rest s _ rest := comes_taking
      cases hsource : condition.source.relativeTo here with
      | error defect =>
        have hrefused : (changed (info.attach condition here)).toOption = none :=
          changed_toOption_eq_none fun info' => by simp [Info.attach_ok_iff, hsource]
        rw [hrefused] at hchanging
        simpa [Except.toOption, hsource] using hchanging
      | ok reference =>
        have hattached : (changed (info.attach condition here)).toOption =
            if info.condition.isNone then some { info with
              condition := some ⟨condition.name, reference, condition.predicate⟩ } else none :=
          changed_toOption fun info' => by simp [Info.attach_ok_iff, hsource]
        rw [hattached] at hchanging
        simpa [Except.toOption, hsource, apply_ite] using hchanging
  · have hnot : isNameWithin s.limits false word = false := by simpa using hname
    rw [hnot, Bool.and_false]
    rfl

theorem exists_deed_condition [PatternCompiler] (h : c.IsWritten) (hkind : c.kind = .condition) :
    ∃ d, c.Does here s d := by
  refine exists_deed_of_word (fun word =>
      if isNameWithin s.limits false word then
        (attachmentOf s here (String.ofList word)).map .condition else none) h
    (h.not_expression (by simp [hkind]) (by simp [hkind])) (h.texts_eq (by rw [hkind]; rfl))
    (fun {word} hhead => ?_) (fun word d hd => ?_) fun opened e t text word rest hleads => ?_
  · rw [isNameWithin, isName_quote hhead, Bool.and_false]
    rfl
  · split at hd
    · obtain ⟨attachment, -, rfl⟩ := Option.map_eq_some_iff.mp hd
      exact hkind.symm
    · cases hd
  · rw [hkind]
    have hattachment := comes_attachment here e.info (s.tallied t) hleads
    have hsame : attachmentOf (s.tallied t) here (String.ofList word) =
        attachmentOf s here (String.ofList word) := by
      rw [attachmentOf, Session.tallied_table]
      rfl
    rw [hsame, Session.tallied_limits] at hattachment
    cases hwithin : isNameWithin s.limits false word with
    | false =>
      rw [hwithin, Bool.and_false] at hattachment
      exact hattachment.stop
    | true =>
      rw [hwithin, Bool.and_true] at hattachment
      cases hfound : attachmentOf s here (String.ofList word) with
      | none =>
        rw [hfound, Option.map_none, ite_self] at hattachment
        exact hattachment.stop
      | some found =>
        rw [hfound] at hattachment
        refine comes_act (fun hadmits => ?_) fun hadmits => ?_
        · rw [show e.info.condition.isNone = true from hadmits] at hattachment
          exact hattachment.next comes_pure
        · rw [show e.info.condition.isNone = false from hadmits] at hattachment
          exact hattachment.stop

/-- A clause whose argument is a text. -/
theorem exists_deed_of_text [PatternCompiler] (texts : List Char → Option Deed) (h : c.IsWritten)
    (hmin : c.kind ≠ .min) (hmax : c.kind ≠ .max) (hmember : c.kind.isMember = false)
    (hkind : ∀ written, ∀ d ∈ texts written, d.kind = c.kind)
    (hread : ∀ opened e t written text rest,
      (∀ missing, Comes (Reading.text missing) text (s.tallied t)
        (some (String.ofList written, s.tallied t)) rest) →
      Comes (elementClause opened here e c.kind) text (s.tallied t)
        (outcomeIn s (act (e, t) (texts written))) rest) : ∃ d, c.Does here s d := by
  obtain ⟨written, hwritten⟩ := h.comes_text (h.not_expression hmin hmax)
  refine ⟨texts written, hkind written, fun opened e t rest hrest _ => ?_⟩
  rw [h.texts_eq hmember] at hwritten
  exact (hread opened e t written _ rest fun missing => hwritten hrest).weaken

theorem exists_deed_default [PatternCompiler] (h : c.IsWritten) (hkind : c.kind = .default) :
    ∃ d, c.Does here s d := by
  refine exists_deed_of_text (fun written => some (.default (String.ofList written))) h
    (by simp [hkind]) (by simp [hkind]) (by rw [hkind]; rfl) (fun written d hd => ?_)
    fun opened e t written text rest htext => ?_
  · cases hd
    exact hkind.symm
  · rw [hkind]
    refine (htext _).next (comes_declared rfl (changed_toOption fun e' => ?_))
    simp [Element.declareDefault_ok_iff, Deed.admits, Deed.put]

theorem exists_deed_units [PatternCompiler] (h : c.IsWritten) (hkind : c.kind = .units) :
    ∃ d, c.Does here s d := by
  refine exists_deed_of_text (fun written => some (.units (String.ofList written))) h
    (by simp [hkind]) (by simp [hkind]) (by rw [hkind]; rfl) (fun written d hd => ?_)
    fun opened e t written text rest htext => ?_
  · cases hd
    exact hkind.symm
  · rw [hkind]
    refine (htext _).next (comes_declared rfl (changed_toOption fun e' => ?_))
    simp [Element.declareUnits_ok_iff, Deed.admits, Deed.put]

theorem exists_deed_wording [PatternCompiler] (h : c.IsWritten) (hkind : c.kind = .wording) :
    ∃ d, c.Does here s d := by
  refine exists_deed_of_text (fun written => some (.wording (String.ofList written))) h
    (by simp [hkind]) (by simp [hkind]) (by rw [hkind]; rfl) (fun written d hd => ?_)
    fun opened e t written text rest htext => ?_
  · cases hd
    exact hkind.symm
  · rw [hkind]
    exact (htext _).next comes_pure

theorem exists_deed_pattern [PatternCompiler] (h : c.IsWritten) (hkind : c.kind = .pattern) :
    ∃ d, c.Does here s d := by
  refine exists_deed_of_text (fun written =>
      (PatternCompiler.compile (String.ofList written)).toOption.map fun _ =>
        .pattern (String.ofList written)) h
    (by simp [hkind]) (by simp [hkind]) (by rw [hkind]; rfl) (fun written d hd => ?_)
    fun opened e t written text rest htext => ?_
  · obtain ⟨-, -, rfl⟩ := Option.map_eq_some_iff.mp hd
    exact hkind.symm
  · rw [hkind]
    refine (htext _).next ?_
    have hchanging : Comes (changing (e.declarePattern (String.ofList written))) rest
        (s.tallied t) _ rest := comes_taking
    cases hcompiles : PatternCompiler.compile (String.ofList written) with
    | ok _ =>
      rw [changed_ok.mpr (Element.declarePattern_ok_iff.mpr ⟨hcompiles, rfl⟩)] at hchanging
      exact hchanging
    | error reason =>
      have hrefused : (changed (e.declarePattern (String.ofList written))).toOption = none :=
        changed_toOption_eq_none fun e' => by simp [Element.declarePattern_ok_iff, hcompiles]
      rw [hrefused] at hchanging
      exact hchanging

theorem exists_deed_caseRule [PatternCompiler] (h : c.IsWritten) (hkind : c.kind = .caseRule) :
    ∃ d, c.Does here s d := by
  refine exists_deed_of_text (fun written =>
      (CaseRule.ofWord? (String.ofList written)).map .caseRule) h
    (by simp [hkind]) (by simp [hkind]) (by rw [hkind]; rfl) (fun written d hd => ?_)
    fun opened e t written text rest htext => ?_
  · obtain ⟨rule, -, rfl⟩ := Option.map_eq_some_iff.mp hd
    exact hkind.symm
  · rw [hkind]
    have hrule : Comes caseRule text (s.tallied t)
        ((CaseRule.ofWord? (String.ofList written)).map fun rule => (rule, s.tallied t)) rest := by
      refine (htext _).next ?_
      cases CaseRule.ofWord? (String.ofList written) with
      | none => exact refuses_fail.comes
      | some rule => exact comes_pure
    cases hfound : CaseRule.ofWord? (String.ofList written) with
    | none =>
      rw [hfound] at hrule
      exact hrule.stop
    | some rule =>
      rw [hfound] at hrule
      exact hrule.next comes_pure

/-- A word that does not open an expression is a bound as it is. -/
theorem comes_bound_word {text word rest : List Char} {s : Session} (h : Leads text word rest)
    (hword : word.head? ≠ some '(') :
    Comes bound text s (some (String.ofList word, s)) rest := by
  refine (comes_seesStart_false (mt (Leads.head_skipBlanks h).mp hword)).next ?_
  refine ComesOr.token h fun token htext => ?_
  rw [← htext]
  exact comes_pure

/-- A bound is a word or the value of an expression. -/
theorem exists_bound (h : c.IsWritten) (hbound : c.kind = .min ∨ c.kind = .max) :
    (∃ found : Option String, ∀ s rest, Parted rest →
      Comes bound (c.tail ++ rest) s (found.map fun text => (text, s)) rest) ∨
    ∀ ⦃s rest p text q⦄, p.At (c.tail ++ rest) s → bound p = .ok text q →
      text.toList.head? = some '"' := by
  have hmember : c.kind.isMember = false := by rcases hbound with hkind | hkind <;> rw [hkind] <;> rfl
  have htexts := h.texts_eq hmember
  have hcomplete := h.argument
  have hsuits := h.suits
  cases hargument : c.argument with
  | word w =>
    rw [hargument] at hcomplete hsuits
    have hw : w.head? ≠ some '(' := by
      rcases hbound with hkind | hkind <;> rw [hkind] at hsuits <;> exact hsuits
    refine .inl ⟨some (String.ofList w), fun s rest hrest => ?_⟩
    have hleads := h.leads hargument hrest
    rw [htexts] at hleads
    exact comes_bound_word hleads hw
  | quoted body =>
    refine .inr fun s rest p text q hp hrun => ?_
    obtain ⟨word, more, hleads, hhead⟩ := h.leads_quoted hargument rest
    have hnot : word.head? ≠ some '(' := by simp [hhead]
    obtain ⟨q', hq', -⟩ := comes_bound_word (s := s) hleads hnot hp
    rw [hrun] at hq'
    cases hq'
    simpa using hhead
  | expression written =>
    rw [hargument] at hcomplete
    refine .inl ⟨(valueOf written).map toString, fun s rest hrest => ?_⟩
    have htail : c.tail ++ rest = c.gap ++ (written ++ rest) := by
      simp [ClauseText.tail, hargument, Argument.spelling, htexts, quotations]
    have hhead : (Text.skipBlanks (c.gap ++ (written ++ rest))).head? = some '(' := by
      rw [skipBlanks_append h.gap.2]
      obtain ⟨more, rfl⟩ := List.head?_eq_some_iff.mp hcomplete.head
      rfl
    rw [htail]
    refine (comes_seesStart_true hhead).next ?_
    refine (comes_expression hcomplete h.gap.2 hrest).bind (fun value s' hvalue => ?_) fun hnone => ?_
    · obtain ⟨v, hv, heq⟩ := Option.map_eq_some_iff.mp hvalue
      cases heq
      rw [hv]
      exact comes_pure
    · rw [Option.map_eq_none_iff.mp hnone]
      rfl

/-- A clause for a bound.  In quotes, it spoils the element. -/
theorem exists_deed_of_bound [PatternCompiler] (deed : String → Deed)
    (declare : String → Changing Element Unit) (h : c.IsWritten)
    (hbound : c.kind = .min ∨ c.kind = .max) (hkind : ∀ text, (deed text).kind = c.kind)
    (htally : ∀ text t, (deed text).tally t = t)
    (hclause : ∀ opened e, elementClause opened here e c.kind =
      bound >>= fun text => changing (declare text e))
    (hdeclare : ∀ e text e', declare text e = .ok () e' ↔
      (deed text).admits e = true ∧ e' = (deed text).put e)
    (hspoil : ∀ e text, text.toList.head? = some '"' → Spoiled ((deed text).put e)) :
    ∃ d, c.Does here s d := by
  rcases exists_bound h hbound with ⟨found, hfound⟩ | hquote
  · refine ⟨found.map deed, fun d hd => ?_, fun opened e t rest hrest _ => ?_⟩
    · obtain ⟨text, -, rfl⟩ := Option.map_eq_some_iff.mp hd
      exact hkind text
    · have hread := hfound (s.tallied t) rest hrest
      rw [hclause]
      cases found with
      | none => exact hread.stop
      | some text =>
        exact hread.next
          (comes_declared (htally text t) (changed_toOption (hdeclare e text))).weaken
  · refine ⟨none, nofun, fun opened e t rest hrest _ p hp e' q hrun => ?_⟩
    rw [hclause] at hrun
    obtain ⟨text, r, hr, hrun⟩ := bind_ok.mp hrun
    obtain ⟨-, rfl⟩ := (hdeclare e text e').mp (changing_ok.mp hrun).1
    exact hspoil e text (hquote hp hr)

theorem exists_deed_min [PatternCompiler] (h : c.IsWritten) (hkind : c.kind = .min) :
    ∃ d, c.Does here s d := by
  refine exists_deed_of_bound .min Element.declareMin h (.inl hkind)
    (fun _ => hkind.symm) (fun _ _ => rfl) (fun opened e => by rw [hkind]; rfl)
    (fun e text e' => ?_) fun e text hhead => ⟨text, .inl rfl, hhead⟩
  simp [Element.declareMin_ok_iff, Deed.admits, Deed.put]

theorem exists_deed_max [PatternCompiler] (h : c.IsWritten) (hkind : c.kind = .max) :
    ∃ d, c.Does here s d := by
  refine exists_deed_of_bound .max Element.declareMax h (.inr hkind)
    (fun _ => hkind.symm) (fun _ _ => rfl) (fun opened e => by rw [hkind]; rfl)
    (fun e text e' => ?_) fun e text hhead => ⟨text, .inr rfl, hhead⟩
  simp [Element.declareMax_ok_iff, Deed.admits, Deed.put]

/-- The member that a name and texts in quotes describe, if they do. -/
theorem exists_member {texts : List (List Char × List Char)} (hcount : texts.length ≤ 2)
    (h : ∀ quotation ∈ texts, IsQuotation quotation) (name : String) :
    ∃ info : Option Info, (∀ i ∈ info, i.name = name) ∧
      ∀ ⦃s : Session⦄ ⦃e : Element⦄ ⦃t : Statistics⦄ ⦃rest : List Char⦄
        ⦃add : Info → EStateM.Result Defect Element Unit⦄ ⦃deed : Info → Deed⦄, NoQuoteNext rest →
        (∀ i, (deed i).tally t = t.noteMemberName i.name.length) →
        (∀ i, (changed (add i)).toOption =
          if (deed i).admits e then some ((deed i).put e) else none) →
        Comes (member name add) (quotations texts ++ rest) (s.tallied t)
          (outcomeIn s (act (e, t) (info.map deed))) rest := by
  obtain ⟨found, hfound⟩ := exists_descriptions hcount h
  cases found with
  | none =>
    refine ⟨none, nofun, fun s e t rest add deed hrest _ _ => comes_note.next ?_⟩
    rw [descriptions_bind]
    exact (hfound hrest).stop
  | some texts =>
    obtain ⟨label, help⟩ := texts
    cases hmember : Info.ofMember name label help with
    | error defect =>
      refine ⟨none, nofun, fun s e t rest add deed hrest _ _ => comes_note.next ?_⟩
      rw [descriptions_bind]
      refine (hfound hrest).next ?_
      rw [hmember]
      exact refuses_taking.bind.comes
    | ok info =>
      have hname : info.name = name := by
        obtain ⟨-, rfl⟩ := Info.ofMember_ok hmember
        rfl
      refine ⟨some info, fun i hi => by cases hi; exact hname,
        fun s e t rest add deed hrest htally hadd => comes_note.next ?_⟩
      rw [descriptions_bind]
      refine (hfound hrest).next ?_
      rw [hmember]
      refine comes_pure.next ?_
      have htaking : Comes (changing (add info)) rest (s.tallied ((deed info).tally t)) _ rest :=
        comes_taking
      have hnoted : (s.tallied t).note (·.noteMemberName name.length) =
          s.tallied ((deed info).tally t) := by
        rw [htally, hname]
        rfl
      rw [hnoted]
      refine comes_act (fun hadmits => ?_) fun hadmits => ?_
      · rwa [hadd, if_pos hadmits] at htaking
      · rwa [hadd, if_neg (Bool.eq_false_iff.mp hadmits)] at htaking

/-- The name of a member is read whole, or as a word in an enumeration. -/
theorem ClauseText.IsWritten.exists_name (h : c.IsWritten)
    (harg : ∀ written, c.argument ≠ .expression written) (s : Session) :
    ∃ (name : List Char) (named : Bool), ∀ ⦃t : Statistics⦄ ⦃rest : List Char⦄, Parted rest →
      (∀ missing, Comes (Reading.text missing) (c.tail ++ rest) (s.tallied t)
        (some (String.ofList name, s.tallied t)) (quotations c.texts ++ rest)) ∧
      Comes memberName (c.tail ++ rest) (s.tallied t)
        (if named then some (String.ofList name, s.tallied t) else none)
        (quotations c.texts ++ rest) := by
  have hcomplete := h.argument
  cases hargument : c.argument with
  | word w =>
    rw [hargument] at hcomplete
    refine ⟨w, isNameWithin s.limits true w, fun t rest hrest => ?_⟩
    have hleads := h.leads hargument hrest
    exact ⟨fun missing => Reading.comes_text hleads hcomplete.2, comes_memberName hleads⟩
  | quoted body =>
    rw [hargument] at hcomplete
    refine ⟨body, false, fun t rest hrest =>
      ⟨fun missing => comes_text_quoted hcomplete (h.skipBlanks hargument rest), ?_⟩⟩
    obtain ⟨word, more, hleads, hhead⟩ := h.leads_quoted hargument rest
    have hname := comes_memberName (s := s.tallied t) hleads
    rw [isNameWithin, isName_quote hhead, Bool.and_false] at hname
    exact hname
  | expression written => exact absurd hargument (harg written)

theorem addValue_toOption {named : Bool} {info : Info}
    (htype : e.type = some .enum ∧ named = true ∨ e.type = some .refEnum) :
    (changed (e.addValue info)).toOption = if (Deed.value named info).admits e then
      some ((Deed.value named info).put e) else none := by
  refine changed_toOption fun e' => ?_
  rw [Element.addValue_ok_iff]
  rcases htype with ⟨htype, rfl⟩ | htype <;> simp [Deed.admits, Deed.put, htype]

theorem addReference_toOption {info : Info} :
    (changed (e.addReference info)).toOption = if (Deed.reference info).admits e then
      some ((Deed.reference info).put e) else none := by
  refine changed_toOption fun e' => ?_
  rw [Element.addReference_ok_iff]
  simp [Deed.admits, Deed.put, and_assoc]

/-- Without a type that has members, nothing is admitted. -/
theorem act_value_none {named : Bool} {info : Option Info} (henum : e.type ≠ some .enum)
    (href : e.type ≠ some .refEnum) : act (e, t) (info.map (.value named)) = none := by
  cases info with
  | none => rfl
  | some info => simp [act, Deed.admits, henum, href]

theorem exists_deed_value [PatternCompiler] (h : c.IsWritten) (hkind : c.kind = .value) :
    ∃ d, c.Does here s d := by
  obtain ⟨name, named, hname⟩ := h.exists_name (h.not_expression (by simp [hkind]) (by simp [hkind])) s
  have hcount : c.texts.length ≤ 2 := by simpa [hkind, ElementClause.isMember] using h.count
  obtain ⟨info, -, hmember⟩ := exists_member hcount h.texts (String.ofList name)
  refine ⟨info.map (.value named), fun d hd => ?_, fun opened e t rest hrest hquote => ?_⟩
  · obtain ⟨i, -, rfl⟩ := Option.map_eq_some_iff.mp hd
    exact hkind.symm
  · have hunquoted : NoQuoteNext rest := hquote (by rw [hkind]; rfl)
    obtain ⟨htext, hword⟩ := hname (t := t) hrest
    rw [hkind]
    refine Comes.weaken ?_
    show Comes (taking e.memberType >>= _) _ _ _ _
    by_cases henum : e.type = some .enum
    · rw [show e.memberType = .ok .enum by rw [Element.memberType, henum]]
      refine comes_pure.next ?_
      dsimp only
      rw [if_pos rfl]
      cases named with
      | true =>
        exact hword.next (hmember hunquoted (fun _ => rfl)
          fun i => addValue_toOption (.inl ⟨henum, rfl⟩))
      | false =>
        have hnone : act (e, t) (info.map (.value false)) = none := by
          cases info with
          | none => rfl
          | some info => simp [act, Deed.admits, henum]
        rw [hnone]
        exact hword.stop
    by_cases href : e.type = some .refEnum
    · rw [show e.memberType = .ok .refEnum by rw [Element.memberType, href]]
      refine comes_pure.next ?_
      dsimp only
      rw [if_neg (by decide)]
      exact (htext _).next (hmember hunquoted (fun _ => rfl) fun i => addValue_toOption (.inr href))
    · rw [act_value_none henum href]
      refine Comes.stop (?_ : Comes _ _ _ none (c.tail ++ rest))
      rw [Element.memberType]
      split
      · exact refuses_taking.comes
      · contradiction
      · contradiction
      · exact refuses_taking.comes

/-- A path is a text that is taken as it is, or refused. -/
theorem referencePath_eq : ∃ check : String → Reading String,
    referencePath = Reading.text .missingName >>= check ∧
      ∀ path, check path = pure path ∨ Refuses (check path) := by
  refine ⟨_, rfl, fun path => ?_⟩
  split
  · split
    · exact .inr refuses_fail
    · split
      · exact .inr refuses_fail
      · exact .inl rfl
  · exact .inr refuses_fail

theorem exists_referencePath (h : c.IsWritten)
    (harg : ∀ written, c.argument ≠ .expression written) (s : Session) :
    ∃ (path : String) (valid : Bool), ∀ ⦃t : Statistics⦄ ⦃rest : List Char⦄, Parted rest →
      Comes referencePath (c.tail ++ rest) (s.tallied t)
        (if valid then some (path, s.tallied t) else none) (quotations c.texts ++ rest) := by
  obtain ⟨name, _, hname⟩ := h.exists_name harg s
  obtain ⟨check, heq, hcheck⟩ := referencePath_eq
  rcases hcheck (String.ofList name) with hpure | hrefuses
  · refine ⟨String.ofList name, true, fun t rest hrest => ?_⟩
    rw [heq]
    refine ((hname hrest).1 _).next ?_
    rw [hpure]
    exact comes_pure
  · refine ⟨String.ofList name, false, fun t rest hrest => ?_⟩
    rw [heq]
    exact ((hname hrest).1 _).next hrefuses.comes

theorem exists_deed_reference [PatternCompiler] (h : c.IsWritten) (hkind : c.kind = .reference) :
    ∃ d, c.Does here s d := by
  obtain ⟨path, valid, hpath⟩ :=
    exists_referencePath h (h.not_expression (by simp [hkind]) (by simp [hkind])) s
  have hcount : c.texts.length ≤ 2 := by simpa [hkind, ElementClause.isMember] using h.count
  obtain ⟨info, -, hmember⟩ := exists_member hcount h.texts path
  refine ⟨if valid then info.map .reference else none, fun d hd => ?_,
    fun opened e t rest hrest hquote => ?_⟩
  · split at hd
    · obtain ⟨i, -, rfl⟩ := Option.map_eq_some_iff.mp hd
      exact hkind.symm
    · cases hd
  · have hunquoted : NoQuoteNext rest := hquote (by rw [hkind]; rfl)
    have hread := hpath (t := t) hrest
    rw [hkind]
    refine Comes.weaken ?_
    cases valid with
    | true => exact hread.next (hmember hunquoted (fun _ => rfl) fun i => addReference_toOption)
    | false => exact hread.stop

/-- **What a clause does is told by its text.** -/
theorem exists_deed [PatternCompiler] (h : c.IsWritten) (here : Path) (s : Session) :
    ∃ d, c.Does here s d := by
  cases hkind : c.kind with
  | type => exact exists_deed_type h hkind
  | access => exact exists_deed_access h hkind
  | min => exact exists_deed_min h hkind
  | max => exact exists_deed_max h hkind
  | default => exact exists_deed_default h hkind
  | units => exact exists_deed_units h hkind
  | pattern => exact exists_deed_pattern h hkind
  | caseRule => exact exists_deed_caseRule h hkind
  | wording => exact exists_deed_wording h hkind
  | value => exact exists_deed_value h hkind
  | reference => exact exists_deed_reference h hkind
  | condition => exact exists_deed_condition h hkind

end Kinds
end DeviceSchema.Statement.Reading

import DeviceSchema.Proofs.Construction.AccessClauses
import DeviceSchema.Proofs.Construction.Termination
import DeviceSchema.Proofs.Lockstep.ClauseTexts
import DeviceSchema.Proofs.Token.Tied

/-! # Elements as they are written

The loop over clauses goes through clauses as they are written: it drops the comments before a
keyword and does what the clause does (`elementClauses_clause`).  Behind some clauses it goes on
with the element that their deeds make, one after the other (`elementClauses_run`).  An element is
a header and then its clauses, so what it comes to is told by their texts (`element_comes`).

The bound of the loop stays above what is unread, so it does not end the loop.
-/
namespace DeviceSchema.Statement.Reading
open Text Token
open Token.Stream (inked)

variable {opened bound : Nat} {here : Path} {e : Element} {s : Session} {p : Progress}
variable {text filler gap rest word : List Char} {c : ClauseText}

/-- Some clauses as they are written. -/
def clausesText (cs : List ClauseText) : List Char := cs.flatMap ClauseText.spelling

section Comments

/-- A token that begins with a hash begins a comment. -/
theorem ofToken_hash {token : Token} (h : token.text.toList.head? = some '#') :
    Lead.ofToken elementKeywords token = .comment := by
  have hlookup : elementKeywords.lookup token.text.toLower = none := by
    rw [List.lookup_eq_none_iff]
    intro w hw
    have hword : w.1.toList.head? ≠ some '#' := by revert w; decide
    have hlower : token.text.toLower ≠ w.1 := by
      rintro heq
      exact hword (heq ▸ head?_toLower (by decide) h)
    simpa using hlower
  rw [Lead.ofToken, hlookup, h]
  rfl

/-- A comment is dropped, up to the end of its line. -/
theorem elementClauses_comment [PatternCompiler] (opened : Nat) (here : Path) (e : Element)
    (bound : Nat)
    {comment : List Char} (hcomment : '\n' ∉ comment) (hgap : ∀ b ∈ gap, isBlank b = true)
    (hp : p.At (gap ++ '#' :: (comment ++ '\n' :: text)) s) :
    ∃ q, elementClauses opened here (bound + 1) e p = elementClauses opened here bound e q ∧
      q.At text s := by
  obtain ⟨word, rest, hleads⟩ : ∃ word rest,
      Leads ('#' :: (comment ++ '\n' :: text)) word rest := by
    rcases blank_or_leads ('#' :: (comment ++ '\n' :: text)) with hall | hleads
    · exact absurd (hall '#' List.mem_cons_self) (by decide)
    · exact hleads
  have hhead : word.head? = some '#' :=
    (Leads.head_skipBlanks hleads).mp (by rw [skipBlanks, List.dropWhile_cons_of_neg (by decide)]; rfl)
  have htext : word ++ rest = ('#' :: comment) ++ '\n' :: text := by
    rw [← hleads.skipBlanks, skipBlanks, List.dropWhile_cons_of_neg (by decide), List.cons_append]
  obtain ⟨tail, hword, hrest⟩ := exists_tail htext hleads.isWord.newline_notMem
  obtain ⟨cursor, line, hread, hc⟩ := token?_at hp (hleads.after_blank hgap)
  obtain ⟨hsound, hleft⟩ := Stream.dropLine_left hc line
  have hlead : Lead.ofToken elementKeywords (Token.ofCursor cursor) = .comment :=
    ofToken_hash (by rw [hc.text, String.toList_ofList]; exact hhead)
  refine ⟨{ p with stream := (Stream.behind cursor line).dropLine }, ?_, hsound, ?_, hp.session⟩
  · rw [elementClauses, bind_at hread]
    dsimp only
    rw [hlead]
    rfl
  · have htail : '\n' ∉ tail := fun hmem => by
      have hcons : '\n' ∈ '#' :: comment := hword ▸ List.mem_append_right _ hmem
      rcases List.mem_cons.mp hcons with hmem | hmem
      · exact absurd hmem (by decide)
      · exact hcomment hmem
    rw [hleft, hrest, belowLine_append htail]

/-- **Comments before a keyword are dropped.** -/
theorem elementClauses_filler [PatternCompiler] (opened : Nat) (here : Path) (e : Element)
    (hfiller : Filler filler)
    (hgap : ∀ b ∈ gap, isBlank b = true) (hp : p.At (gap ++ (filler ++ text)) s)
    (hbound : inked (filler ++ text) < bound) :
    ∃ bound' gap q, elementClauses opened here bound e p = elementClauses opened here bound' e q ∧
      (∀ b ∈ gap, isBlank b = true) ∧ q.At (gap ++ text) s ∧ inked text < bound' := by
  induction hfiller generalizing gap bound p with
  | nil => exact ⟨bound, gap, p, rfl, hgap, hp, hbound⟩
  | @blank b filler hb h ih =>
    have hgap' : ∀ d ∈ gap ++ [b], isBlank d = true := fun d hd =>
      (List.mem_append.mp hd).elim (hgap d) fun hd => List.mem_singleton.mp hd ▸ hb
    exact ih hgap' (by simpa using hp) (by simpa [inked, hb] using hbound)
  | @comment comment filler hcomment h ih =>
    obtain ⟨n, rfl⟩ : ∃ n, bound = n + 1 := Nat.exists_eq_succ_of_ne_zero (by omega)
    obtain ⟨q, hrun, hq⟩ :=
      elementClauses_comment opened here e n hcomment hgap (by simpa using hp)
    have hless : inked (filler ++ text) < n := by
      have hsplit : '#' :: (comment ++ '\n' :: filler) ++ text =
          ('#' :: comment ++ ['\n']) ++ (filler ++ text) := by simp
      rw [hsplit, inked_append] at hbound
      have hone : 1 ≤ inked ('#' :: comment ++ ['\n']) := by
        rw [inked, List.cons_append, List.countP_cons_of_pos (by decide)]
        omega
      omega
    have hnil : ∀ b ∈ ([] : List Char), isBlank b = true := List.forall_mem_nil _
    obtain ⟨bound', gap', r, hrun', hgap', hr, hbound'⟩ := ih hnil hq hless
    exact ⟨bound', gap', r, hrun.trans hrun', hgap', hr, hbound'⟩

end Comments

/-! ## Clauses -/

section Clauses
variable {after : List Char} {t : Statistics} {cs : List ClauseText}

theorem ClauseText.IsWritten.ofToken (h : c.IsWritten) {token : Token}
    (htoken : token.text = String.ofList c.keyword) :
    Lead.ofToken elementKeywords token = .clause c.kind := by
  rw [Lead.ofToken, htoken, h.keyword]

/-- A keyword does not begin with a quote. -/
theorem ClauseText.IsWritten.keyword_head (h : c.IsWritten) : c.keyword.head? ≠ some '"' := by
  intro hhead
  have hother : Lead.ofToken elementKeywords ⟨String.ofList c.keyword, ⟨0, 0, [], []⟩⟩ = .other :=
    ofToken_quote (by decide) (by rwa [String.toList_ofList])
  rw [h.ofToken rfl] at hother
  cases hother

theorem ClauseText.IsWritten.parted_tail (h : c.IsWritten) (rest : List Char) :
    Parted (c.tail ++ rest) := by
  obtain ⟨hne, hblank⟩ := h.gap
  obtain ⟨b, more, hgap⟩ := List.exists_cons_of_ne_nil hne
  intro d hd
  rw [ClauseText.tail, hgap] at hd
  cases hd
  exact hblank b (hgap ▸ List.mem_cons_self)

/-- At a keyword, the loop goes on with what the clause does. -/
theorem elementClauses_keyword [PatternCompiler] (opened : Nat) (here : Path) (e : Element)
    (bound : Nat) (h : c.IsWritten) (hgap : ∀ b ∈ gap, isBlank b = true)
    (hp : p.At (gap ++ (c.keyword ++ (c.tail ++ rest))) s) :
    ∃ q, elementClauses opened here (bound + 1) e p =
      (elementClause opened here e c.kind >>= fun e => elementClauses opened here bound e) q ∧
      q.At (c.tail ++ rest) s := by
  have hleads : Leads (gap ++ (c.keyword ++ (c.tail ++ rest))) c.keyword (c.tail ++ rest) :=
    ⟨h.isWord, h.parted_tail rest, gap, hgap, rfl⟩
  obtain ⟨cursor, line, hread, hc⟩ := token?_at hp hleads
  refine ⟨{ p with stream := Stream.behind cursor line }, ?_, at_behind hp hc line⟩
  rw [elementClauses, bind_at hread]
  dsimp only
  rw [h.ofToken hc.text]

/-- Behind comments, a clause is read. -/
theorem elementClauses_clause [PatternCompiler] (opened : Nat) (here : Path) (e : Element)
    (h : c.IsWritten)
    (hp : p.At (c.spelling ++ rest) s) (hbound : inked (c.spelling ++ rest) < bound) :
    ∃ bound' q, elementClauses opened here bound e p =
      (elementClause opened here e c.kind >>= fun e => elementClauses opened here bound' e) q ∧
      q.At (c.tail ++ rest) s ∧ inked rest < bound' := by
  have htext : c.spelling ++ rest = c.filler ++ (c.keyword ++ (c.tail ++ rest)) := by
    simp [ClauseText.spelling]
  rw [htext] at hp hbound
  have hnil : ∀ b ∈ ([] : List Char), isBlank b = true := nofun
  obtain ⟨bound₁, gap, q, hrun, hgap, hq, hbound₁⟩ :=
    elementClauses_filler opened here e h.filler hnil hp hbound
  have hkeyword : 1 ≤ inked c.keyword := by
    obtain ⟨d, more, hword, hd⟩ := h.isWord.exists_cons
    rw [hword, inked, List.countP_cons_of_pos (by simp [hd])]
    omega
  rw [inked_append, inked_append] at hbound₁
  obtain ⟨n, rfl⟩ : ∃ n, bound₁ = n + 1 := Nat.exists_eq_succ_of_ne_zero (by omega)
  obtain ⟨r, hrun', hr⟩ := elementClauses_keyword opened here e n h hgap hq
  exact ⟨n, r, hrun.trans hrun', hr, by omega⟩

theorem Filler.unquoted (hfiller : Filler filler) (htext : NoQuoteNext text) :
    NoQuoteNext (filler ++ text) := by
  induction hfiller with
  | nil => exact htext
  | @blank b filler hb h ih =>
    rwa [NoQuoteNext, List.cons_append, skipBlanks, List.dropWhile_cons_of_pos hb]
  | comment hcomment h ih =>
    rw [NoQuoteNext, List.cons_append, skipBlanks, List.dropWhile_cons_of_neg (by decide)]
    simp

/-- A clause does not begin with a text in quotes. -/
theorem ClauseText.IsWritten.unquoted (h : c.IsWritten) (rest : List Char) :
    NoQuoteNext (c.spelling ++ rest) := by
  have htext : c.spelling ++ rest = c.filler ++ (c.keyword ++ (c.tail ++ rest)) := by
    simp [ClauseText.spelling]
  obtain ⟨d, more, hword, hd⟩ := h.isWord.exists_cons
  rw [htext]
  refine h.filler.unquoted ?_
  have hhead := h.keyword_head
  rw [hword] at hhead ⊢
  rw [List.cons_append, NoQuoteNext, Text.skipBlanks, List.dropWhile_cons_of_neg (by simp [hd])]
  exact hhead

theorem parted_clausesText (hcs : ∀ c ∈ cs, c.IsWritten) (hafter : Parted after) :
    Parted (clausesText cs ++ after) := by
  cases cs with
  | nil => exact hafter
  | cons c cs =>
    obtain ⟨b, hb, hblank⟩ := (hcs c List.mem_cons_self).parted
    obtain ⟨more, hfiller⟩ := List.head?_eq_some_iff.mp hb
    intro d hd
    simp only [clausesText, List.flatMap_cons, ClauseText.spelling, hfiller, List.cons_append,
      List.head?_cons, Option.some.injEq] at hd
    exact hd ▸ hblank

/-- **The loop does what the clauses do**, one after the other.  If one of them fails, the loop
fails or spoils the element. -/
theorem elementClauses_run [PatternCompiler] (opened : Nat) (e : Element)
    {deeds : ClauseText → Option Deed}
    (hcs : ∀ c ∈ cs, c.IsWritten ∧ c.Does here s (deeds c)) (hparted : Parted after)
    (hquote : (∃ c ∈ cs, c.kind.isMember = true) → NoQuoteNext after)
    (hp : p.At (clausesText cs ++ after) (s.tallied t))
    (hbound : inked (clausesText cs ++ after) < bound) :
    match cs.foldlM (fun x c => act x (deeds c)) (e, t) with
    | some (e', t') => ∃ bound' q, elementClauses opened here bound e p =
        elementClauses opened here bound' e' q ∧ q.At after (s.tallied t') ∧ inked after < bound'
    | none => ∀ e' q, elementClauses opened here bound e p = .ok e' q → Spoiled e' := by
  induction cs generalizing e t bound p with
  | nil => exact ⟨bound, p, rfl, hp, hbound⟩
  | cons c cs ih =>
    rw [List.forall_mem_cons] at hcs
    obtain ⟨⟨hc, hdoes⟩, hcs⟩ := hcs
    have htext : clausesText (c :: cs) ++ after = c.spelling ++ (clausesText cs ++ after) := by
      simp [clausesText]
    rw [htext] at hp hbound
    obtain ⟨bound₁, q, hrun, hq, hbound₁⟩ := elementClauses_clause opened here e hc hp hbound
    have hrest : c.kind.isMember = true → NoQuoteNext (clausesText cs ++ after) := by
      intro hmember
      cases cs with
      | nil => exact hquote ⟨c, List.mem_cons_self, hmember⟩
      | cons next cs =>
        have hnext := (hcs next List.mem_cons_self).1.unquoted (clausesText cs ++ after)
        simpa [clausesText] using hnext
    have hclause := hdoes.reads opened e t _
      (parted_clausesText (fun c hc => (hcs c hc).1) hparted) hrest hq
    rw [hrun, List.foldlM_cons]
    cases hact : act (e, t) (deeds c) with
    | none =>
      rw [hact] at hclause
      intro e' r hloop
      obtain ⟨e₁, r₁, hr₁, hloop⟩ := bind_ok.mp hloop
      exact elementClauses_spoiled hloop (hclause e₁ r₁ hr₁)
    | some x =>
      obtain ⟨e₁, t₁⟩ := x
      rw [hact] at hclause
      obtain ⟨r, hr, hat⟩ := hclause
      have hmembers : (∃ c ∈ cs, c.kind.isMember = true) → NoQuoteNext after := fun ⟨d, hd, hm⟩ =>
        hquote ⟨d, List.mem_cons_of_mem c hd, hm⟩
      rw [bind_at hr]
      exact ih _ hcs hmembers hat hbound₁

end Clauses

/-! ## Headers -/

/-- What stands between the keyword of an element and its clauses, as it is written. -/
structure Header where
  /-- What stands before the name. -/
  gap : List Char
  name : List Char
  /-- The label and the help text, each with what stands before it. -/
  texts : List (List Char × List Char)

namespace Header
variable {header : Header} {s : Session} {rest : List Char}

/-- The header as it is written. -/
def spelling (header : Header) : List Char :=
  header.gap ++ (header.name ++ quotations header.texts)

/-- The header has a name and a label, and it may have a help text. -/
structure IsWritten (header : Header) : Prop where
  gap : ∀ b ∈ header.gap, isBlank b = true
  isWord : IsWord header.name
  texts : ∀ quotation ∈ header.texts, IsQuotation quotation
  nonempty : header.texts ≠ []
  count : header.texts.length ≤ 2
  parted : Parted (quotations header.texts)

theorem IsWritten.exists_blank (h : header.IsWritten) :
    ∃ b more, isBlank b = true ∧ quotations header.texts = b :: more := by
  obtain ⟨⟨gap, body⟩, texts, htexts⟩ := List.exists_cons_of_ne_nil h.nonempty
  have hne : quotations header.texts ≠ [] := by simp [htexts, quotations]
  obtain ⟨b, more, hmore⟩ := List.exists_cons_of_ne_nil hne
  exact ⟨b, more, h.parted b (by rw [hmore]; rfl), hmore⟩

theorem IsWritten.leads (h : header.IsWritten) (rest : List Char) :
    Leads (header.spelling ++ rest) header.name (quotations header.texts ++ rest) := by
  obtain ⟨b, more, hb, hmore⟩ := h.exists_blank
  refine ⟨h.isWord, fun c hc => ?_, header.gap, h.gap, by simp [spelling]⟩
  rw [hmore] at hc
  cases hc
  exact hb

/-- What stands behind a header does not show before it. -/
theorem IsWritten.indistinct (h : header.IsWritten) (u₁ u₂ : List Char) :
    Indistinct (header.spelling ++ u₁) (header.spelling ++ u₂) := by
  obtain ⟨b, more, hb, hmore⟩ := h.exists_blank
  have htwo : 2 ≤ header.spelling.count '"' := by
    obtain ⟨⟨gap, body⟩, texts, htexts⟩ := List.exists_cons_of_ne_nil h.nonempty
    simp only [spelling, htexts, quotations, List.flatMap_cons, List.count_append, List.count_cons,
      beq_self_eq_true, if_true]
    omega
  exact indistinct_of_header hb h.isWord (by rw [spelling, hmore, List.append_assoc]) htwo u₁ u₂

/-- Behind the header, an element has been opened with this name and these statistics; or reading
the header fails. -/
def Opens (header : Header) (s : Session) (found : Option (String × Element × Statistics)) : Prop :=
  ∀ ⦃rest : List Char⦄, NoQuoteNext rest →
    Comes (openElement >>= fun x => pure x.2) (header.spelling ++ rest) s
      (found.map fun x => ((x.1, x.2.1), s.tallied x.2.2)) rest

/-- **What is opened is told by the header.** -/
theorem IsWritten.exists_opens (h : header.IsWritten) (s : Session) :
    ∃ found, header.Opens s found := by
  have hname (rest : List Char) := comes_name (s := s) (h.leads rest)
  obtain ⟨found, hfound⟩ := exists_descriptions h.count h.texts
  have hopen : (openElement >>= fun x => pure x.2) = line >>= fun _ => Reading.name >>= fun name =>
      (do return (← label?, ← help?)) >>= fun texts =>
      taking (Info.ofItem name texts.1 texts.2) >>= fun info =>
      note (·.noteElementName name.length) >>= fun _ => pure (name, ({ info } : Element)) := by
    simp only [openElement, bind_assoc, pure_bind]
  unfold Opens
  rw [hopen]
  cases hwithin : isNameWithin s.limits false header.name with
  | false =>
    simp only [hwithin] at hname
    exact ⟨none, fun rest _ => ComesOr.line fun _ => (hname rest).stop⟩
  | true =>
    simp only [hwithin, if_true] at hname
    cases found with
    | none =>
      exact ⟨none, fun rest hrest => ComesOr.line fun _ => (hname rest).next (hfound hrest).stop⟩
    | some texts =>
      cases hinfo : Info.ofItem (String.ofList header.name) texts.1 texts.2 with
      | error defect =>
        refine ⟨none, fun rest hrest => ComesOr.line fun _ =>
          (hname rest).next ((hfound hrest).next ?_)⟩
        rw [hinfo]
        exact refuses_taking.bind.comes
      | ok info =>
        refine ⟨some (String.ofList header.name, { info },
          s.statistics.noteElementName (String.ofList header.name).length), fun rest hrest =>
            ComesOr.line fun _ => (hname rest).next ((hfound hrest).next ?_)⟩
        rw [hinfo]
        exact comes_pure.next (comes_note.next comes_pure)

end Header

/-! ## Elements -/

/-- An element as it is written, behind its keyword, and what stands behind it. -/
def elementText (header : Header) (cs : List ClauseText) (after : List Char) : List Char :=
  header.spelling ++ (clausesText cs ++ after)

/-- What stands behind an element is parted from it.  A text in quotes would go on with the header
or with a member. -/
structure EndsElement (cs : List ClauseText) (after : List Char) : Prop where
  parted : Parted after
  unquoted (h : cs = [] ∨ ∃ c ∈ cs, c.kind.isMember = true) : NoQuoteNext after

section Elements
variable {header : Header} {cs : List ClauseText} {after : List Char} {s : Session}
variable {bound : Nat} {p : Progress}

/-- What the header and then the clauses make of an element that may have been opened. -/
def made (deeds : Path → ClauseText → Option Deed) (parent : Path)
    (found : Option (String × Element × Statistics)) (cs : List ClauseText) :
    Option (String × Element × Statistics) :=
  found.bind fun x =>
    (cs.foldlM (fun y c => act y (deeds (parent.child x.1) c)) x.2).map fun y => (x.1, y)

theorem EndsElement.unquoted_clauses (h : EndsElement cs after) (hcs : ∀ c ∈ cs, c.IsWritten) :
    NoQuoteNext (clausesText cs ++ after) := by
  cases cs with
  | nil => exact h.unquoted (.inl rfl)
  | cons c cs =>
    have hclause := (hcs c List.mem_cons_self).unquoted (clausesText cs ++ after)
    simpa [clausesText] using hclause

theorem Spoiled.closeElement_ne_ok {access : Access} {here : Path} {opened : Nat} {name : String}
    {e e' : Element} {q : Progress} (he : Spoiled e) :
    closeElement access here opened name e p ≠ .ok e' q := by
  intro hclose
  obtain ⟨u, r, hr, -⟩ := bind_ok.mp hclose
  obtain ⟨hcheck, -⟩ := closing_ok.mp hr
  have hinherits : Spoiled { e with info := e.info.inheritAccess access } := he
  exact hinherits.check_ne_ok hcheck

/-- **What an element comes to is told by its header and its clauses.**  It goes on behind them, or
it fails. -/
theorem element_comes [PatternCompiler] (access : Access) (parent : Path)
    {deeds : Path → ClauseText → Option Deed}
    {found : Option (String × Element × Statistics)} (hopens : header.Opens s found)
    (hcs : ∀ c ∈ cs, c.IsWritten ∧ ∀ here, c.Does here s (deeds here c))
    (hafter : EndsElement cs after) (hp : p.At (elementText header cs after) s)
    (hbound : inked (elementText header cs after) < bound) :
    match made deeds parent found cs with
    | some (name, e, t) => ∃ opened bound' q, element bound access parent p =
        ((elementLoop opened (parent.child name)).run bound' e >>=
          closeElement access (parent.child name) opened name) q ∧
        q.At after (s.tallied t) ∧ inked after < bound'
    | none => ∀ e q, element bound access parent p ≠ .ok e q := by
  have hopened := hopens (hafter.unquoted_clauses fun c hc => (hcs c hc).1) hp
  rw [element_eq]
  cases found with
  | none =>
    intro e q hrun
    obtain ⟨x, r, hx, -⟩ := bind_ok.mp hrun
    exact hopened x.2 r (bind_ok.mpr ⟨x, r, hx, rfl⟩)
  | some x =>
    obtain ⟨name, e, t⟩ := x
    obtain ⟨q, hopen, hq⟩ := hopened
    obtain ⟨⟨opened, name', e'⟩, r, hx, hpure⟩ := bind_ok.mp hopen
    cases hpure
    rw [bind_at hx]
    dsimp only
    have hclauses : inked (clausesText cs ++ after) < bound := by
      rw [elementText, inked_append] at hbound
      omega
    have hrun := elementClauses_run opened e
      (fun c hc => ⟨(hcs c hc).1, (hcs c hc).2 (parent.child name)⟩) hafter.parted
      (fun hmember => hafter.unquoted (.inr hmember)) hq hclauses
    simp only [elementClauses_eq] at hrun
    simp only [made, Option.bind_some]
    cases hfold : cs.foldlM (fun y c => act y (deeds (parent.child name) c)) (e, t) with
    | none =>
      rw [hfold] at hrun
      intro e' r' hok
      obtain ⟨e₁, r₁, hclauses, hclose⟩ := bind_ok.mp hok
      exact (hrun e₁ r₁ hclauses).closeElement_ne_ok hclose
    | some y =>
      obtain ⟨e', t'⟩ := y
      rw [hfold] at hrun
      obtain ⟨bound', r', hloop, hr', hbound'⟩ := hrun
      exact ⟨opened, bound', r', bind_congr_at hloop fun _ _ _ => rfl, hr', hbound'⟩

end Elements
end DeviceSchema.Statement.Reading

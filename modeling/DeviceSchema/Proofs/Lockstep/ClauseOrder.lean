import DeviceSchema.Proofs.Construction.AccessScope
import DeviceSchema.Proofs.Lockstep.Calls
import DeviceSchema.Proofs.Lockstep.ClauseRuns
import DeviceSchema.Proofs.Token.SourceText
import DeviceSchema.Text.Pattern

/-! # The order of the clauses of an element

The clauses of an element can be put into another order, if the type stays before the values and
the references, and the values and the references keep their own orders (`Reordered`).  Then they
make the same of the element (`Reordered.foldlM_eq`), so the element comes to the same, and what
stands behind it is left (`carries_reordered`).  And so a source reads to the same session, or
fails, in either order (`readsTo_reordered_iff`).
-/
namespace DeviceSchema.Statement
open Text Token
open Token.Stream (inked)

namespace Reading

/-! ## Orders -/

/-- The same clauses in another order. -/
structure Reordered (cs₁ cs₂ : List ClauseText) : Prop where
  perm : cs₁.Perm cs₂
  /-- Only values and references may be given more than once. -/
  once (kind : ElementClause) (hkind : kind.isMember = false) :
    (ofKey ClauseText.kind kind cs₁).length ≤ 1
  /-- Values and references keep their orders. -/
  members (kind : ElementClause) (hkind : kind.isMember = true) :
    ofKey ClauseText.kind kind cs₁ = ofKey ClauseText.kind kind cs₂
  /-- The type stands before them in both orders. -/
  type_first : cs₁.Pairwise fun a b => b.kind = .type → a.kind.isMember = false
  type_first' : cs₂.Pairwise fun a b => b.kind = .type → a.kind.isMember = false

section Orders
variable {cs cs₁ cs₂ : List ClauseText} {deeds : ClauseText → Option Deed}

theorem Reordered.symm (h : Reordered cs₁ cs₂) : Reordered cs₂ cs₁ where
  perm := h.perm.symm
  once kind hkind := (h.perm.filter _).length_eq ▸ h.once kind hkind
  members kind hkind := (h.members kind hkind).symm
  type_first := h.type_first'
  type_first' := h.type_first

theorem Reordered.ofKey_eq (h : Reordered cs₁ cs₂) (kind : ElementClause) :
    ofKey ClauseText.kind kind cs₁ = ofKey ClauseText.kind kind cs₂ := by
  cases hkind : kind.isMember with
  | true => exact h.members kind hkind
  | false =>
    have hperm : (ofKey ClauseText.kind kind cs₁).Perm (ofKey ClauseText.kind kind cs₂) :=
      h.perm.filter _
    match hclauses : ofKey ClauseText.kind kind cs₁, h.once kind hkind with
    | [], _ => exact (List.nil_perm.mp (hclauses ▸ hperm)).symm
    | [c], _ => exact List.singleton_perm.mp (hclauses ▸ hperm)

/-- Clauses that change places are free to. -/
theorem Reordered.free (h : Reordered cs₁ cs₂) {a b : ClauseText} (hab : [a, b].Sublist cs₁)
    (hba : [b, a].Sublist cs₂) (hne : a.kind ≠ b.kind) {x y : Deed} (hx : x.kind = a.kind)
    (hy : y.kind = b.kind) : x.Free y := by
  have hfirst := List.rel_of_pairwise_cons (h.type_first.sublist hab) (List.mem_singleton_self b)
  have hfirst' := List.rel_of_pairwise_cons (h.type_first'.sublist hba) (List.mem_singleton_self a)
  rw [← hx, ← hy] at hne hfirst hfirst'
  exact ⟨hne, hfirst', hfirst⟩

/-- **Clauses make the same of an element in either order.** -/
theorem Reordered.foldlM_eq (h : Reordered cs₁ cs₂)
    (hkind : ∀ c ∈ cs₁, ∀ d ∈ deeds c, d.kind = c.kind) (x : Element × Statistics) :
    cs₁.foldlM (fun x c => act x (deeds c)) x = cs₂.foldlM (fun x c => act x (deeds c)) x := by
  refine foldlM_eq_of_ofKey h.ofKey_eq (fun a b hab hba hne x => ?_) x
  have ha := hkind a (hab.subset List.mem_cons_self)
  have hb := hkind b (hab.subset (by simp))
  cases hda : deeds a with
  | none => cases act x (deeds b) <;> rfl
  | some d =>
    cases hdb : deeds b with
    | none => cases act x (some d) <;> rfl
    | some d' => exact act_comm (h.free hab hba hne (ha d hda) (hb d' hdb)) x

end Orders

/-! ## Elements -/

section Elements
variable {header : Header} {cs₁ cs₂ : List ClauseText} {after : List Char} {s : Session}
variable {access : Access} {parent : Path}

theorem EndsElement.of_perm (h : EndsElement cs₁ after) (hperm : cs₁.Perm cs₂) :
    EndsElement cs₂ after where
  parted := h.parted
  unquoted hend := h.unquoted <| hend.imp (fun hnil => (hnil ▸ hperm).eq_nil)
    fun ⟨c, hc, hmember⟩ => ⟨c, hperm.mem_iff.mpr hc, hmember⟩

theorem Reordered.inked_eq (h : Reordered cs₁ cs₂) :
    inked (elementText header cs₁ after) = inked (elementText header cs₂ after) := by
  have hclauses : inked (clausesText cs₁) = inked (clausesText cs₂) :=
    (h.perm.flatMap_right _).countP_eq _
  simp only [elementText, inked_append, hclauses]

variable [PatternCompiler]

/-- Two readers that have the same text left finish the element alike. -/
theorem element_rest {here : Path} {name : String} {e e' : Element} {q₁ q₂ q : Progress}
    {opened₁ opened₂ bound₁ bound₂ : Nat} (hq₁ : q₁.At after s) (hq₂ : q₂.At after s)
    (hbound₁ : inked after < bound₁) (hbound₂ : inked after < bound₂)
    (hrun : ((elementLoop opened₁ here).run bound₁ e >>= closeElement access here opened₁ name) q₁ =
      .ok e' q) :
    ∃ q', ((elementLoop opened₂ here).run bound₂ e >>= closeElement access here opened₂ name) q₂ =
      .ok e' q' ∧ Statement.Paired [] [] q q' := by
  have hends : Indistinct [] [] := indistinct_refl []
  have hpaired : Statement.Paired [] [] q₁ q₂ :=
    ⟨⟨hq₁.sound, hq₂.sound, tied_nil.mpr (hq₁.left.trans hq₂.left.symm)⟩,
      hq₂.session.trans hq₁.session.symm⟩
  have hloops : Tracks [] [] Eq ((elementLoop opened₁ here).run bound₁ e)
      ((elementLoop opened₂ here).run bound₁ e) :=
    (elementLoop_tracks hends here).run hends (fun n _ => callsTrack hends n) e
  have htracks : Tracks [] [] Eq
      ((elementLoop opened₁ here).run bound₁ e >>= closeElement access here opened₁ name)
      ((elementLoop opened₂ here).run bound₁ e >>= closeElement access here opened₂ name) :=
    hloops.next fun _ => tracks_closeElement
  obtain ⟨_, q', hrun', rfl, hq'⟩ := htracks.same hpaired hrun
  have hunread : q₂.stream.unread = inked after := by rw [hq₂.sound.unread_eq, hq₂.left]
  have hcongr : (elementLoop opened₂ here).run bound₂ e q₂ =
      (elementLoop opened₂ here).run bound₁ e q₂ :=
    (elementLoop_orderly opened₂ here).run_congr callsAgree (Nat.le_refl _) (hunread ▸ hbound₂)
      (hunread ▸ hbound₁)
  exact ⟨q', (bind_congr_at hcongr fun _ _ _ => rfl).trans hrun', hq'⟩

/-- Clauses have deeds, at any path. -/
theorem exists_deeds (s : Session) : ∃ deeds : Path → ClauseText → Option Deed,
    ∀ here (c : ClauseText), c.IsWritten → c.Does here s (deeds here c) := by
  have hdeed (here : Path) (c : ClauseText) : ∃ d, c.IsWritten → c.Does here s d := by
    by_cases hc : c.IsWritten
    · obtain ⟨d, hd⟩ := exists_deed hc here s
      exact ⟨d, fun _ => hd⟩
    · exact ⟨none, fun hc' => absurd hc' hc⟩
  choose deeds hdeeds using hdeed
  exact ⟨deeds, hdeeds⟩

/-- **An element comes to the same with its clauses in another order.** -/
theorem carries_reordered {site : Site} (hheader : header.IsWritten)
    (hcs : ∀ c ∈ cs₁, c.IsWritten) (horder : Reordered cs₁ cs₂) (hafter : EndsElement cs₁ after)
    (hcall : site.call = .element access parent) (hsound : site.progress.stream.Sound)
    (hleft : site.progress.stream.left = elementText header cs₁ after)
    (hrank : site.progress.stream.rank < site.bound) :
    site.Carries (elementText header cs₁ after) (elementText header cs₂ after) := by
  obtain ⟨keyword, call, bound, p⟩ := site
  cases hcall
  intro p' e q hp hrun
  have hleft' : p'.stream.left = elementText header cs₂ after := (hleft ▸ hp.stream.tied).eq_end
  obtain ⟨found, hopens⟩ := hheader.exists_opens p.session
  obtain ⟨deeds, hdeeds⟩ := exists_deeds p.session
  have hdoes : ∀ c ∈ cs₁, c.IsWritten ∧ ∀ here, c.Does here p.session (deeds here c) :=
    fun c hc => ⟨hcs c hc, fun here => hdeeds here c (hcs c hc)⟩
  have hdoes' : ∀ c ∈ cs₂, c.IsWritten ∧ ∀ here, c.Does here p.session (deeds here c) :=
    fun c hc => hdoes c (horder.perm.mem_iff.mpr hc)
  have hbound : inked (elementText header cs₁ after) < bound := by
    rw [← hleft, ← hsound.unread_eq]
    exact p.stream.unread_le_rank.trans_lt hrank
  have h₁ := element_comes access parent hopens hdoes hafter ⟨hsound, hleft, rfl⟩ hbound
  have h₂ := element_comes access parent hopens hdoes' (hafter.of_perm horder.perm)
    ⟨hp.stream.right, hleft', hp.session⟩ (horder.inked_eq ▸ hbound)
  have hmade : made deeds parent found cs₁ = made deeds parent found cs₂ :=
    Option.bind_congr fun x _ =>
      congrArg _ (horder.foldlM_eq (fun c hc => ((hdoes c hc).2 _).kind) x.2)
  rw [← hmade] at h₂
  match hfound : made deeds parent found cs₁ with
  | none =>
    rw [hfound] at h₁
    exact absurd hrun (h₁ e q)
  | some (name, e₁, t) =>
    rw [hfound] at h₁ h₂
    obtain ⟨opened₁, bound₁, q₁, heq₁, hq₁, hbound₁⟩ := h₁
    obtain ⟨opened₂, bound₂, q₂, heq₂, hq₂, hbound₂⟩ := h₂
    obtain ⟨q', hrun', hq'⟩ := element_rest hq₁ hq₂ hbound₁ hbound₂ (heq₁.symm.trans hrun)
    exact ⟨q', heq₂.trans hrun', hq'⟩

end Elements
end Reading

/-! ## Sources -/

section Sources
open Reading

variable {header : Header} {cs cs₁ cs₂ : List ClauseText} {before after t₁ t₂ : List Char}
variable {source source₁ source₂ : String} {stream stream₁ stream₂ : Stream} {s s' : Session}

theorem words_clausesText (hcs : ∀ c ∈ cs, c.IsWritten) (hafter : Parted after) :
    words (clausesText cs ++ after) = (cs.flatMap fun c => words c.spelling) ++ words after := by
  induction cs with
  | nil => rfl
  | cons c cs ih =>
    have hcs' := (List.forall_mem_cons.mp hcs).2
    have htext : clausesText (c :: cs) ++ after = c.spelling ++ (clausesText cs ++ after) := by
      simp [clausesText]
    rw [htext, words_append_parted (parted_clausesText hcs' hafter), ih hcs', List.flatMap_cons,
      List.append_assoc]

/-- The words of a source are the same with the clauses in another order. -/
theorem words_reordered (hcs : ∀ c ∈ cs₁, c.IsWritten) (horder : Reordered cs₁ cs₂)
    (hafter : Parted after) : (words (before ++ elementText header cs₁ after)).Perm
      (words (before ++ elementText header cs₂ after)) := by
  have hcs' : ∀ c ∈ cs₂, c.IsWritten := fun c hc => hcs c (horder.perm.mem_iff.mpr hc)
  have hwords {cs : List ClauseText} (h : ∀ c ∈ cs, c.IsWritten) :
      words (before ++ elementText header cs after) = words (before ++ header.spelling) ++
        ((cs.flatMap fun c => words c.spelling) ++ words after) := by
    rw [elementText, ← List.append_assoc, words_append_parted (parted_clausesText h hafter),
      words_clausesText h hafter]
  rw [hwords hcs, hwords hcs']
  exact ((horder.perm.flatMap_right _).append_right _).append_left _

theorem readsTo_iff [PatternCompiler] (hstream : Stream.ofSource source = .ok stream) :
    ReadsTo s source s' ↔
      (read stream s).result = .ok () ∧ (read stream s).progress.session = s' := by
  refine ⟨fun ⟨stream', hstream', hread⟩ => ?_, fun hread => ⟨stream, hstream, hread⟩⟩
  cases hstream.symm.trans hstream'
  exact hread

/-- Streams of two sources with the same beginning. -/
theorem abreast_ofSource (hstream₁ : Stream.ofSource source₁ = .ok stream₁)
    (hstream₂ : Stream.ofSource source₂ = .ok stream₂)
    (hsource₁ : sourceText source₁ = before ++ t₁) (hsource₂ : sourceText source₂ = before ++ t₂) :
    Stream.Abreast t₁ t₂ stream₁ stream₂ := by
  obtain ⟨hsound₁, hleft₁⟩ := Stream.ofSource_left hstream₁
  obtain ⟨hsound₂, hleft₂⟩ := Stream.ofSource_left hstream₂
  exact ⟨hsound₁, hsound₂, before, hleft₁.trans hsource₁, hleft₂.trans hsource₂⟩

/-- Reading comes to an element with this text behind its keyword, or it fails before. -/
def ElementAt [PatternCompiler] (s : Session) (stream : Stream) (text : List Char) : Prop :=
  (∃ site access parent, CallOf stream s site ∧ site.call = .element access parent ∧
    site.progress.stream.left = text) ∨
  ∃ failure, (read stream s).result = .error failure ∧
    text.length ≤ (read stream s).progress.stream.left.length

theorem CallOf.reordered [PatternCompiler] {site : Site} {access : Access} {parent : Path}
    (hheader : header.IsWritten) (hcs : ∀ c ∈ cs₁, c.IsWritten) (horder : Reordered cs₁ cs₂)
    (hafter : EndsElement cs₁ after)
    (hstart : Stream.Abreast (elementText header cs₁ after) (elementText header cs₂ after)
      stream₁ stream₂) (hunread : stream₂.unread = stream₁.unread)
    (hcall : CallOf stream₁ s site) (hkind : site.call = .element access parent)
    (hleft : site.progress.stream.left = elementText header cs₁ after)
    (hread : (read stream₁ s).result = .ok () ∧ (read stream₁ s).progress.session = s') :
    (read stream₂ s).result = .ok () ∧ (read stream₂ s).progress.session = s' := by
  have hends : Indistinct (elementText header cs₁ after) (elementText header cs₂ after) :=
    hheader.indistinct _ _
  have hlength : (elementText header cs₁ after).length ≤ site.progress.stream.left.length :=
    hleft ▸ Nat.le_refl _
  obtain ⟨_, _, hsite⟩ := hcall.paired hends hstart hunread hlength
  have hcarries := carries_reordered hheader hcs horder hafter hkind hsite.progress.stream.left hleft
    hcall.rank_lt
  exact hcall.carries hends hstart hunread hlength hcarries hread

/-- **The order of the clauses of an element does not matter**, if the type stays before the values
and the references, and these keep their own orders: a source reads to the same session in either
order, or it reads in neither. -/
theorem readsTo_reordered_iff [PatternCompiler] (hheader : header.IsWritten)
    (hcs : ∀ c ∈ cs₁, c.IsWritten) (horder : Reordered cs₁ cs₂) (hafter : EndsElement cs₁ after)
    (hsource₁ : sourceText source₁ = before ++ elementText header cs₁ after)
    (hsource₂ : sourceText source₂ = before ++ elementText header cs₂ after)
    (helement : ∀ stream, Stream.ofSource source₁ = .ok stream →
      ElementAt s stream (elementText header cs₁ after)) :
    ReadsTo s source₁ s' ↔ ReadsTo s source₂ s' := by
  have hends : Indistinct (elementText header cs₁ after) (elementText header cs₂ after) :=
    hheader.indistinct _ _
  have hopens : (∃ stream, Stream.ofSource source₁ = .ok stream) ↔
      ∃ stream, Stream.ofSource source₂ = .ok stream := by
    rw [Stream.exists_ofSource_iff, Stream.exists_ofSource_iff, hsource₁, hsource₂]
    simp only [(words_reordered hcs horder hafter.parted).mem_iff]
  by_cases hopen : ∃ stream, Stream.ofSource source₁ = .ok stream
  · obtain ⟨stream₁, hstream₁⟩ := hopen
    obtain ⟨stream₂, hstream₂⟩ := hopens.mp ⟨stream₁, hstream₁⟩
    have hstart := abreast_ofSource hstream₁ hstream₂ hsource₁ hsource₂
    have hunread : stream₂.unread = stream₁.unread := by
      rw [hstart.left.unread_eq, hstart.right.unread_eq, (Stream.ofSource_left hstream₁).2,
        (Stream.ofSource_left hstream₂).2, hsource₁, hsource₂, inked_append, inked_append,
        horder.inked_eq]
    rw [readsTo_iff hstream₁, readsTo_iff hstream₂]
    rcases helement stream₁ hstream₁ with
      ⟨site, access, parent, hcall, hkind, hleft⟩ | ⟨failure, hfails, hlength⟩
    · refine ⟨hcall.reordered hheader hcs horder hafter hstart hunread hkind hleft, ?_⟩
      -- Reading the other source comes to the same element.
      obtain ⟨site', hcall', hsite⟩ := hcall.paired hends hstart hunread (hleft ▸ Nat.le_refl _)
      have hcs' : ∀ c ∈ cs₂, c.IsWritten := fun c hc => hcs c (horder.perm.mem_iff.mpr hc)
      exact hcall'.reordered hheader hcs' horder.symm (hafter.of_perm horder.perm) hstart.symm
        hunread.symm (hsite.call.trans hkind) (hleft ▸ hsite.progress.stream.tied).eq_end
    · obtain ⟨failure', hfails'⟩ := read_fails hends hstart hunread hfails hlength
      simp [hfails, hfails']
  · exact ⟨fun ⟨stream, hstream, _⟩ => absurd ⟨stream, hstream⟩ hopen,
      fun ⟨stream, hstream, _⟩ => absurd (hopens.mpr ⟨stream, hstream⟩) hopen⟩

/-- A source that begins with a group calls for the element that the group begins with. -/
theorem exists_callOf_element [PatternCompiler] {start opening body : Progress}
    (hstart : start = .start stream s)
    (hopening : opening = Reading.after token? start) (hbody : body = Reading.after openGroup opening)
    (hgroup : start.stream.next.1.map (·.text.toLower) = some "group")
    (hopen : (value? openGroup opening).isSome)
    (hnext : body.stream.next.1.map (·.text.toLower) = some "element") :
    ∃ site access parent, CallOf stream s site ∧ site.call = .element access parent ∧
      site.progress = Reading.after token? body := by
  subst hstart hopening hbody
  obtain ⟨first, hfirst, hgroup⟩ := token_of_word hgroup
  obtain ⟨token, htoken, hlead⟩ : statementLoop.Begins (.start stream s) .group _ :=
    Loop.begins_of_lookup hfirst (by rw [hgroup]; rfl)
  have hmakes : statementLoop.Makes (stream.unread + 1) () (.start stream s)
      ⟨token, .group, stream.unread, _⟩ := .now htoken hlead rfl
  have hrank := hmakes.rank_lt statementLoop_orderly (Nat.lt_succ_self _)
  obtain ⟨⟨place, g⟩, hopen⟩ := Option.isSome_iff_exists.mp hopen
  obtain ⟨keyword, hkeyword, helement⟩ := token_of_word hnext
  have hbegins : (groupLoop place).Begins _ .element _ :=
    Loop.begins_of_lookup hkeyword (helement ▸ rfl)
  obtain ⟨token', htoken', hlead'⟩ := hbegins
  obtain ⟨n, hn⟩ : ∃ n, stream.unread = n + 1 :=
    Nat.exists_eq_succ_of_ne_zero (Nat.ne_zero_of_lt hrank)
  have hcall {q r : Progress} (htoken : token? q = .ok (some token') r) :
      (groupLoop place).Makes stream.unread g q
        ⟨token', .element place.here.table.defaultAccess place.here, n, r⟩ := by
    rw [hn]
    exact .now htoken hlead' rfl
  exact ⟨_, _, _, ⟨_, hmakes, .single (.group (ok_of_value? hopen) (hcall htoken'))⟩, rfl, rfl⟩

/-- A clause with one space before the keyword and one before the argument. -/
def spacedClause (kind : ElementClause) (keyword : String) (argument : Argument) : ClauseText :=
  ⟨kind, [' '], keyword.toList, [' '], argument, []⟩

theorem isWritten_spacedClause {kind : ElementClause} {keyword : String} {argument : Argument}
    (hword : IsWord keyword.toList) (hkeyword : elementKeywords.lookup keyword.toLower = some kind)
    (hargument : argument.IsComplete) (hsuits : argument.Suits kind) :
    (spacedClause kind keyword argument).IsWritten where
  filler := .blank (by decide) .nil
  parted := ⟨' ', rfl, by decide⟩
  isWord := hword
  keyword := by rwa [spacedClause, String.ofList_toList]
  gap := ⟨nofun, fun b hb => List.mem_singleton.mp hb ▸ by decide⟩
  argument := hargument
  suits := hsuits
  texts := nofun
  count := Nat.zero_le _
  behind := .inr nofun

/-- A type with its first value. -/
def smallFront : List ClauseText :=
  [spacedClause .type "type" (.word "enum".toList), spacedClause .value "value" (.word "a".toList)]

def smallDefault : ClauseText := spacedClause .default "default" (.quoted "b".toList)

def smallBack : List ClauseText := [spacedClause .value "value" (.word "b".toList)]

/-- A source with an element that has these clauses. -/
def elementSource (cs : List ClauseText) : String :=
  String.ofList ("group setting g \"G\" element".toList ++
    elementText ⟨[' '], ['e'], [([' '], ['E'])]⟩ cs ['\n'])

theorem isWord_of_all {word : List Char} (hne : word ≠ []) (h : word.all (!isBlank ·) = true) :
    IsWord word := ⟨hne, fun c hc => by simpa using List.all_eq_true.mp h c hc⟩

theorem small_isWritten : ∀ c ∈ smallFront ++ smallDefault :: smallBack, c.IsWritten := by
  have hvalue (w : String) (hw : (Argument.word w.toList).IsComplete) :
      (spacedClause .value "value" (.word w.toList)).IsWritten :=
    isWritten_spacedClause (isWord_of_all (by decide) (by decide)) (by decide +kernel) hw trivial
  simp only [smallFront, smallBack, List.cons_append, List.nil_append, List.forall_mem_cons]
  refine ⟨?_, hvalue _ ⟨isWord_of_all (by decide) (by decide), by decide⟩, ?_,
    hvalue _ ⟨isWord_of_all (by decide) (by decide), by decide⟩, nofun⟩
  · exact isWritten_spacedClause (isWord_of_all (by decide) (by decide)) (by decide +kernel)
      ⟨isWord_of_all (by decide) (by decide), by decide⟩ trivial
  · have hbody : (Argument.quoted ['b']).IsComplete := fun c hc => by
      obtain rfl := List.mem_singleton.mp hc
      decide
    exact isWritten_spacedClause (isWord_of_all (by decide) (by decide)) (by decide +kernel) hbody
      trivial

theorem small_reordered : Reordered (smallFront ++ smallDefault :: smallBack)
    (smallDefault :: (smallFront ++ smallBack)) where
  perm := List.perm_middle
  once kind := by cases kind <;> decide
  members kind _ := by cases kind <;> rfl
  type_first := by decide
  type_first' := by decide

attribute [local instance] Text.Pattern.compiler in
theorem readsTo_reordered_iff_small :
    ∃ s', ReadsTo {} (elementSource (smallFront ++ smallDefault :: smallBack)) s' ∧
      ReadsTo {} (elementSource (smallDefault :: (smallFront ++ smallBack))) s' := by
  have hheader : Header.IsWritten ⟨[' '], ['e'], [([' '], ['E'])]⟩ :=
    { gap := fun b hb => List.mem_singleton.mp hb ▸ by decide
      isWord := isWord_of_all (by decide) (by decide)
      texts := fun quotation h => by
        obtain rfl := List.mem_singleton.mp h
        exact ⟨fun b hb => List.mem_singleton.mp hb ▸ by decide,
          fun c hc => List.mem_singleton.mp hc ▸ by decide⟩
      nonempty := by decide
      count := by decide
      parted := fun c hc => by cases hc; decide }
  have hafter : EndsElement (smallFront ++ smallDefault :: smallBack) ['\n'] :=
    { parted := fun c hc => by cases hc; decide
      unquoted := fun _ => by unfold NoQuoteNext; decide }
  have hsource : sourceText (elementSource (smallFront ++ smallDefault :: smallBack)) =
      "group setting g \"G\" element".toList ++
        elementText ⟨[' '], ['e'], [([' '], ['E'])]⟩ (smallFront ++ smallDefault :: smallBack)
          ['\n'] := by decide +kernel
  have hsource' : sourceText (elementSource (smallDefault :: (smallFront ++ smallBack))) =
      "group setting g \"G\" element".toList ++
        elementText ⟨[' '], ['e'], [([' '], ['E'])]⟩ (smallDefault :: (smallFront ++ smallBack))
          ['\n'] := by decide +kernel
  have helement : ∀ stream,
      Stream.ofSource (elementSource (smallFront ++ smallDefault :: smallBack)) = .ok stream →
      ElementAt {} stream (elementText ⟨[' '], ['e'], [([' '], ['E'])]⟩
        (smallFront ++ smallDefault :: smallBack) ['\n']) := by
    intro stream hstream
    let start : Progress := .start ⟨none, Stream.numberedLines
      (elementSource (smallFront ++ smallDefault :: smallBack)), 0, none⟩ {}
    have hstart : start = .start stream {} := by rw [Stream.eq_of_ofSource hstream]
    obtain ⟨site, access, parent, hcall, hkind, hprogress⟩ := exists_callOf_element hstart rfl rfl
      (by decide +kernel) (by decide +kernel) (by decide +kernel)
    refine .inl ⟨site, access, parent, hcall, hkind, ?_⟩
    rw [hprogress]
    decide +kernel
  have hread : reads {} (elementSource (smallFront ++ smallDefault :: smallBack)) = true := by
    decide +kernel
  obtain ⟨s', h⟩ := exists_readsTo hread
  exact ⟨s', h, (readsTo_reordered_iff hheader small_isWritten small_reordered hafter hsource
    hsource' helement).mp h⟩

end Sources
end DeviceSchema.Statement

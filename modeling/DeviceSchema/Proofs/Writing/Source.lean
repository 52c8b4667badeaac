import DeviceSchema.Proofs.Construction.Session
import DeviceSchema.Proofs.Lockstep.Source
import DeviceSchema.Proofs.Writing.Collection
import DeviceSchema.Text.Pattern

/-! # Reading written groups

A group that can be written is read back from its source: reading it into the empty
session succeeds, the group stands in its table as it was, and nothing else was registered
(`readsTo_source`).  The same holds of every other layout of the pieces of the group
(`readsTo_written`).
-/
namespace DeviceSchema

namespace Statement
namespace Reading
open Token (Piece)
open Token.Piece (word quote)
open Token.Stream (begins)

section Groups
variable {l : Limits} {ps rest : List Piece} {g : Group} {kind : TableKind} {place : GroupPlace}

theorem advances_groupCapacity [PatternCompiler] (capacity : Capacity) :
    Advances Unquoted l (groupClauses place) g [word "capacity", word capacity.word]
      { g with body := { g.body with head := g.body.head.declareCapacity capacity } } := by
  refine .step (fun _ => rfl) fun m rest a rest' _ _ hgoes =>
    yields_keyword groupKeywords .capacity (lookup_toLower (by decide) rfl) fun token hlead => ?_
  dsimp only
  rw [hlead]
  exact yields_capacity.bind hgoes

theorem advances_groupKeys [PatternCompiler] :
    Advances Unquoted l (groupClauses place) g [word "keys", word "\x7b\x7d"]
      { g with body := { g.body with head := g.body.head.declareKeys [] } } := by
  refine .step (fun _ => rfl) fun m rest a rest' _ _ hgoes =>
    yields_keyword groupKeywords .keys (lookup_toLower (by decide) rfl) fun token hlead => ?_
  dsimp only
  rw [hlead]
  exact yields_keys.bind hgoes

theorem advances_groupItem [PatternCompiler] {i : Item} (hi : ReadsItem l 0 i)
    (hnew : ∀ other ∈ g.body.items, other.name ≠ i.name) :
    Advances Ahead l (groupClauses place) g i.pieces
      { g with body := { g.body with items := g.body.items ++ [i] } } := by
  refine .step (fun _ => ahead_keyword i) fun m rest a rest' hm hrest hgoes => ?_
  have hadded : g.body.add i = .ok () { g.body with items := g.body.items ++ [i] } :=
    Collection.add_ok_iff.mpr ⟨hnew, rfl⟩
  cases i with
  | element e =>
    refine yields_keyword groupKeywords .element
      (by rw [Item.keyword]; exact lookup_toLower (by decide) rfl) fun token hlead => ?_
    dsimp only
    rw [hlead]
    exact (hi m _ _ rest hrest hm).bind ((yields_changing hadded).bind hgoes)
  | list head items =>
    refine yields_keyword groupKeywords .list
      (by rw [Item.keyword]; exact lookup_toLower (by decide) rfl) fun token hlead => ?_
    dsimp only
    rw [hlead]
    exact (hi m _ _ rest hm).bind ((yields_changing hadded).bind hgoes)

theorem advances_groupError [PatternCompiler] {notice : Notice} (hname : l.Admits false notice.name)
    (hdescription : IsPhrase notice.description)
    (hnew : ∀ other ∈ g.errors, other.name ≠ notice.name) :
    Advances Ahead l (groupClauses place) g notice.pieces
      { g with errors := g.errors ++ [notice] } := by
  refine .step (fun more => ⟨"error", by decide, more, rfl⟩) fun m rest a rest' _ _ hgoes =>
    yields_keyword groupKeywords .error (lookup_toLower (by decide) rfl) fun token hlead => ?_
  have herror : Yields l (errorClause g) (word notice.name :: quote notice.description :: rest)
      { g with errors := g.errors ++ [notice] } rest :=
    (yields_name hname).bind ((yields_phrase hdescription).bind
      (yields_changing (Group.addError_ok_iff.mpr ⟨_, hnew, rfl, rfl⟩)))
  dsimp only
  rw [hlead]
  exact herror.bind hgoes

theorem yields_groupClauses_end [PatternCompiler] {bound : Nat} (hbound : 0 < bound) :
    Yields l (groupClauses place bound g) (word "end" :: rest) g rest := by
  obtain ⟨bound, rfl⟩ : ∃ k, bound = k + 1 := ⟨bound - 1, by omega⟩
  refine yields_keyword groupKeywords .stop (lookup_toLower (by decide) rfl) fun token hlead => ?_
  dsimp only
  rw [hlead]
  exact yields_pure

theorem Ahead.items {items : List Item} (h : Ahead ps) : Ahead (Item.piecesBelow items ++ ps) := by
  cases items with
  | nil => exact h
  | cons i items => exact ahead_keyword i

theorem Ahead.errors {errors : List Notice} (h : Ahead ps) :
    Ahead (errors.flatMap Notice.pieces ++ ps) := by
  cases errors with
  | nil => exact h
  | cons notice errors => exact ⟨"error", by decide, _, rfl⟩

/-- What a group says of itself when it is opened. -/
theorem yields_openGroup [PatternCompiler] (hg : g.Writable l) (hps : Unquoted ps) :
    YieldsAt l openGroup (word kind.word :: (g.body.head.opening ++ ps))
      (fun opened => (⟨opened, (Path.root kind).child g.name⟩,
        { body := { head := { info := g.body.head.info, instances := g.body.head.instances } } }))
      ps := by
  obtain ⟨hc, haccess, -⟩ := hg.node
  have hinfo := ofItem_writable hc.info
  rw [← haccess] at hinfo
  refine yieldsAt_line fun opened => yields_tokenText_word.bind ?_
  rw [TableKind.ofWord?_word, Head.opening, List.cons_append, List.append_assoc]
  refine (yields_name hc.info.name).bind ?_
  refine (yields_instances? fun n hn => (hc.instances n hn).2).bind ?_
  refine yields_texts hc.info hps ?_
  refine (yields_taking hinfo).bind (yields_note.bind ?_)
  exact yields_head (fun n hn => (hc.instances n hn).1) yields_pure

/-- The clauses of a group are read back, with those of all that is in it. -/
theorem yields_groupClauses [PatternCompiler] {bound : Nat} (hg : g.Writable l)
    (hbound : (g.declaration kind).length ≤ bound) :
    Yields l (groupClauses place bound
        { body := { head := { info := g.body.head.info, instances := g.body.head.instances } } })
      (g.body.head.clauses ++ (Item.piecesBelow g.body.items ++
        (g.errors.flatMap Notice.pieces ++ (word "end" :: rest)))) g rest := by
  obtain ⟨hc, -, hnames, herrors⟩ := hg.node
  have hopen : Advances Unquoted l (groupClauses place) _ _ _ :=
    advances_headClauses (fun h => { body := { head := h } }) g.body.head.info hc.keys
      (fun h capacity => advances_groupCapacity capacity) fun h => advances_groupKeys
  have hread : ∀ i ∈ g.body.items, ReadsItem l 0 i := fun i hmem => readsItem (hg.item hmem) rfl
  have hitems : Advances Ahead l (groupClauses place) _ _ _ :=
    advances_items (fun items => { body := ⟨g.body.head, items⟩ }) hc.siblings hread
      fun before i hi hnew => advances_groupItem hi hnew
  have hnotices : Advances Ahead l (groupClauses place) { g with errors := [] }
      (g.errors.flatMap Notice.pieces) g := by
    refine .flatMap (fun errors => { g with errors }) fun before notice after hsplit => ?_
    have hmem : notice ∈ g.errors := hsplit ▸ List.mem_append_right before List.mem_cons_self
    obtain ⟨hname, hdescription⟩ := herrors notice hmem
    exact advances_groupError hname hdescription (keys_ne_before hnames hsplit)
  obtain ⟨hahead, hgoes⟩ := (hitems.trans hnotices) 1 (word "end" :: rest) g rest
    ⟨"end", by decide, rest, rfl⟩ fun m hm => yields_groupClauses_end hm
  rw [List.append_assoc] at hahead hgoes
  refine (hopen _ _ g rest hahead.unquoted hgoes).2 bound ?_
  simp only [Group.declaration, List.length_append, List.length_cons] at hbound ⊢
  omega

/-- The step succeeds, reads nothing and leaves the session `s`. -/
def Leaves (m : Reading Unit) (p : Progress) (s : Session) : Prop :=
  ∃ q, m p = .ok () q ∧ q.stream = p.stream ∧ q.session = s

theorem leaves_tell {p : Progress} {event : Event} : Leaves (tell event) p p.session :=
  ⟨_, rfl, rfl, rfl⟩

theorem Leaves.after {α : Type} {m : Reading α} {f : α → Reading Unit} {p q : Progress} {a : α}
    {s : Session} (hm : m p = .ok a q) (hstream : q.stream = p.stream) (hf : Leaves (f a) q s) :
    Leaves (m >>= f) p s := by
  obtain ⟨r, hr, hr', hs⟩ := hf
  exact ⟨r, bind_ok.mpr ⟨a, q, hm, hr⟩, hr'.trans hstream, hs⟩

variable [PatternCompiler]

/-- A group that can be written settles as it is and is registered under its name. -/
theorem leaves_closeGroup (place : GroupPlace) {p : Progress} {t : Table}
    (hg : g.Writable p.session.limits)
    (ht : (p.session.table place.here.table).addGroup g = .ok () t) :
    Leaves (closeGroup place g) p
      ((p.session.note (·.noteCollection g.body.head true)).withTable place.here.table t) := by
  obtain ⟨hc, -⟩ := hg.node
  have hextended : Session.onTable place.here.table (Table.addGroup g)
      (p.session.note (·.noteCollection g.body.head true)) =
        .ok () ((p.session.note
          (·.noteCollection g.body.head true)).withTable place.here.table t) :=
    Session.onTable_ok_iff.mpr ⟨t, by rw [Session.note_table, ht], rfl⟩
  refine .after (q := p) (a := p.session.limits) rfl rfl ?_
  dsimp only
  rw [hc.settled]
  refine .after (q := p) (a := ()) rfl rfl (.after rfl rfl ?_)
  exact .after (a := ()) (extending_ok.mpr ⟨_, hextended, rfl⟩) rfl leaves_tell

/-- **A group that can be written is read back as it was** and is registered as the last one
of its table. -/
theorem group_written {p : Progress} {bound : Nat} (hg : g.Writable p.session.limits)
    (hs : p.stream.Holds (g.declaration kind ++ rest))
    (hbound : (g.declaration kind).length ≤ bound)
    (hnew : (p.session.table kind).group? g.name = none) :
    ∃ q, group bound p = .ok () q ∧ q.stream.Holds rest ∧
      q.session.registries = (p.session.withTable kind { p.session.table kind with
        groups := (p.session.table kind).groups ++ [g] }).registries := by
  have hend : Ahead (word "end" :: rest) := ⟨"end", by decide, rest, rfl⟩
  have hahead : Ahead (Item.piecesBelow g.body.items ++
      (g.errors.flatMap Notice.pieces ++ (word "end" :: rest))) := hend.errors.items
  rw [Group.declaration, List.cons_append] at hs
  simp only [List.append_assoc, List.singleton_append] at hs
  obtain ⟨opened, p₁, h₁, hs₁, hl₁⟩ :=
    yields_openGroup hg (unquoted_headClauses hahead.unquoted) p rfl hs
  obtain ⟨p₂, h₂, hs₂, hl₂⟩ := yields_groupClauses hg hbound p₁ hl₁ hs₁
  have hr : p₂.session.registries = p.session.registries :=
    (keeps_groupClauses.ok h₂).trans (keeps_openGroup.ok h₁)
  have htable : p₂.session.table kind = p.session.table kind := Session.table_eq_of_registries hr kind
  have hadd : (p₂.session.table kind).addGroup g =
      .ok () { p.session.table kind with groups := (p.session.table kind).groups ++ [g] } := by
    rw [htable]
    exact Table.addGroup_ok_iff.mpr ⟨by simpa [Table.group?] using hnew, rfl⟩
  obtain ⟨q, hq, hstream, hsession⟩ :=
    leaves_closeGroup ⟨opened, (Path.root kind).child g.name⟩ (hl₂ ▸ hg) hadd
  refine ⟨q, bind_ok.mpr ⟨_, p₁, h₁, bind_ok.mpr ⟨g, p₂, h₂, hq⟩⟩, hstream ▸ hs₂, ?_⟩
  rw [hsession]
  exact Session.withTable_registries ((Session.note_registries _ _).trans hr) kind _

theorem statements_end (bound : Nat) {p : Progress} (hs : p.stream.Holds []) :
    ∃ q, statements bound p = .ok () q ∧ q.session = p.session := by
  cases bound with
  | zero => exact ⟨p, rfl, rfl⟩
  | succ bound =>
    obtain ⟨q, hq, -⟩ := yields_token?_nil p rfl hs
    exact ⟨q, bind_ok.mpr ⟨none, q, hq, rfl⟩, keeps_token?.session hq⟩

end Groups
end Reading

section Sources
open Reading
variable {limits : Limits} {kind : TableKind} {g : Group}

theorem layout_source [PatternCompiler] (hg : g.Writable limits) :
    Token.Layout (g.pieces kind) (g.source kind).toList := by
  rw [Group.source, String.toList_ofList]
  exact Token.layout_spaced (by decide) (List.all_eq_true.mp (by decide))
    (Group.pieces_wellFormed kind hg)

/-- **A group that can be written is read back** from every layout of its pieces.  The
session that is left has the group in its table as it was, and nothing else was registered. -/
theorem readsTo_written [PatternCompiler] {source : String} (hg : g.Writable limits)
    (hshort : Token.Stream.Short (g.pieces kind))
    (hlayout : Token.Layout (g.pieces kind) source.toList) :
    ∃ s, ReadsTo (.ofLimits limits) source s ∧
      s.registries = ((Session.ofLimits limits).withTable kind { kind, groups := [g] }).registries := by
  obtain ⟨hiff, hsource⟩ := Token.Stream.ofSource_layout hlayout
  obtain ⟨stream, hstream⟩ := hiff.mpr hshort
  obtain ⟨hholds, hunread⟩ := hsource stream hstream
  -- Every piece has a character that is unread, so the bound suffices for all clauses.
  have hlength := Token.length_le_ink (Group.pieces_wellFormed kind hg)
  rw [← hunread] at hlength
  let start : Progress := ⟨stream, .ofLimits limits, #[.ofDebug "Starting syntax analysis"]⟩
  obtain ⟨token, s₁, htoken, htext, hs₁⟩ := token?_plain (p := start) hholds
  rw [String.ofList_toList] at htext
  rw [← List.append_nil (g.declaration kind)] at hs₁
  have hempty : (Session.ofLimits limits).table kind = { kind } := by cases kind <;> rfl
  have hnew : ((Session.ofLimits limits).table kind).group? g.name = none := by
    rw [hempty]
    rfl
  obtain ⟨q, hq, hend, hregistries⟩ := group_written (p := { start with stream := s₁ }) hg hs₁
    (Nat.le_of_succ_le hlength) hnew
  obtain ⟨r, hr, hsession⟩ := statements_end stream.unread hend
  refine ⟨r.session, ⟨stream, hstream, read_result_iff.mpr ⟨r, ?_, rfl⟩⟩, ?_⟩
  · refine bind_ok.mpr ⟨_, _, htoken, ?_⟩
    have hlead : Lead.ofToken keywords token = .clause .group :=
      ofToken_keyword (lookup_toLower (by decide) rfl) htext
    dsimp only
    rw [hlead]
    exact bind_ok.mpr ⟨(), q, hq, hr⟩
  · rw [hsession, hregistries, hempty]
    rfl

/-- **Every group that can be written has a source from which it is read back.** -/
theorem readsTo_source [PatternCompiler] (hg : g.Writable limits)
    (hshort : Token.Stream.Short (g.pieces kind)) :
    ∃ s, ReadsTo (.ofLimits limits) (g.source kind) s ∧
      s.registries = ((Session.ofLimits limits).withTable kind { kind, groups := [g] }).registries :=
  readsTo_written hg hshort (layout_source hg)

/-- A group with an enumeration, a list of texts and a reference among its items.  Every
clause is declared by one of them. -/
def smallGroup : Group where
  body := {
    head := {
      info := ⟨"g", "A:: group", some "help: me", none, none⟩
      keys := some []
      capacity := some .flexible }
    items := [
      .element {
        info := ⟨"mode", "Mode", none, some .readOnly, none⟩
        type := some .enum
        default := some "on"
        values := [⟨"on", "", some "is on", none, none⟩, ⟨"0ff", "Off", none, none, none⟩] },
      .list {
        info := ⟨"l", "List", none, some .readWrite, none⟩
        instances := some 12
        capacity := some .fixed } [
        .element {
          info := ⟨"name", "Name", none, some .writeOnly, none⟩
          type := some .string
          min := some "-0"
          max := some "0x1F"
          default := some "a b"
          units := some ""
          rule := ⟨some "a.*", some .ignore, some "begins with a"⟩ }],
      .element {
        info := ⟨"r", "Ref", none, some .readWrite, none⟩
        type := some .refEnum
        values := [⟨"x y", "", none, none, none⟩]
        references := [⟨"/a/*/b", "Doc", none, none, none⟩] }] }
  errors := [⟨"oops", "went wrong"⟩]

attribute [local instance] Text.Pattern.compiler in
theorem readsTo_source_small :
    smallGroup.Writable { keyLength := 1 } ∧ Token.Stream.Short (smallGroup.pieces .state) ∧
      ∃ s, ReadsTo (.ofLimits { keyLength := 1 }) (smallGroup.source .state) s ∧
        s.registries = ((Session.ofLimits { keyLength := 1 }).withTable .state
          { kind := .state, groups := [smallGroup] }).registries := by
  have hg : smallGroup.Writable { keyLength := 1 } := by decide +kernel
  have hshort : Token.Stream.Short (smallGroup.pieces .state) := by decide +kernel
  exact ⟨hg, hshort, readsTo_source hg hshort⟩

end Sources
end Statement
end DeviceSchema

import Gherkin.Proofs.Draft.Moves

/-!
# Reading the lines of a tree

The lines of a tree, read one by one, lead back to the tree.  Hence a tree is
determined by its lines, and the table of the grammar accepts the kinds of the
lines of every tree.
-/

namespace Gherkin

/-- Whether the title line of examples comes before any line but tags. -/
def examplesFirst : List TokenKind → Bool
  | [] => false
  | .examplesLine :: _ => true
  | .tagLine :: kinds => examplesFirst kinds
  | _ :: _ => false

theorem examplesFirst_linesOf_tagLine {α : Type} (tags : List α) (l : List (TokenKind × α)) :
    examplesFirst ((Tree.linesOf .tagLine tags ++ l).map Prod.fst) =
      examplesFirst (l.map Prod.fst) := by
  induction tags with
  | nil => rfl
  | cons a tags ih => exact ih

namespace Draft

variable {α : Type}

/-- The draft behind several lines. -/
def pushAll (d : Draft α) : List (TokenKind × α) → Option (Draft α)
  | [] => some d
  | (kind, a) :: l =>
    (d.push kind (examplesFirst (l.map Prod.fst)) a).bind fun d' => pushAll d' l

theorem pushAll_cons_of_push {d d' : Draft α} {kind : TokenKind} {a : α}
    (h : ∀ ahead, d.push kind ahead a = some d') (l : List (TokenKind × α)) :
    d.pushAll ((kind, a) :: l) = d'.pushAll l := by
  rw [pushAll, h, Option.bind_some]

/-- A run of lines of one kind, of which each goes behind the one before. -/
theorem pushAll_linesOf {kind : TokenKind} (behind : List α → Draft α)
    (h : ∀ run ahead a, (behind run).push kind ahead a = some (behind (run ++ [a])))
    (run more : List α) (l : List (TokenKind × α)) :
    (behind run).pushAll (Tree.linesOf kind more ++ l) = (behind (run ++ more)).pushAll l := by
  induction more generalizing run with
  | nil => rw [Tree.linesOf_nil, List.nil_append, List.append_nil]
  | cons a more ih =>
      rw [Tree.linesOf_cons, List.cons_append, pushAll_cons_of_push fun ahead => h run ahead a,
        ih, List.append_assoc, List.singleton_append]

/-! ### Headings -/

/-- The draft of a heading behind its description. -/
def Heading.ofTree : Tree.Heading α → Heading α
  | ⟨line, []⟩ => title line
  | ⟨line, first :: rest⟩ => description line first rest

@[simp] theorem Heading.tree_ofTree (h : Tree.Heading α) : (ofTree h).tree = h := by
  obtain ⟨line, _ | ⟨first, rest⟩⟩ := h <;> rfl

/-- A title line and its description, in a draft that hands free text to its
heading. -/
theorem pushAll_heading (within : Heading α → Draft α)
    (h : ∀ heading ahead a,
      (within heading).push .other ahead a = (heading.push .other a).map within)
    (heading : Tree.Heading α) (l : List (TokenKind × α)) :
    (within (.title heading.line)).pushAll (Tree.linesOf .other heading.description ++ l) =
      (within (.ofTree heading)).pushAll l := by
  obtain ⟨line, _ | ⟨first, rest⟩⟩ := heading
  · rfl
  · rw [Tree.linesOf_cons, List.cons_append,
      pushAll_cons_of_push fun ahead => h (.title line) ahead first]
    exact pushAll_linesOf (fun run => within (.description line first run))
      (fun run ahead a => h (.description line first run) ahead a) [] rest l

/-! ### Steps -/

theorem Body.push_stepLine (b : Body α) (a : α) :
    b.push .stepLine a = b.tree?.map fun t => step t.heading t.steps (.bare a) := by
  cases b <;> rfl

/-- A draft hands the lines of descriptions and steps to the block that is
being read. -/
def Holds (within : Body α → Draft α) : Prop :=
  ∀ b kind ahead a, kind ∈ [.other, .stepLine, .tableRow, .docStringSeparator] →
    (within b).push kind ahead a = (b.push kind a).map within

theorem holds_background (header : Tree.Header α) : Holds (background header) := by
  intro b kind ahead a hkind
  simp only [List.mem_cons, List.not_mem_nil, or_false] at hkind
  rcases hkind with rfl | rfl | rfl | rfl <;> rfl

theorem holds_scenario (f : Tree.Feature α) (tags : List α) : Holds (scenario f tags) := by
  intro b kind ahead a hkind
  simp only [List.mem_cons, List.not_mem_nil, or_false] at hkind
  rcases hkind with rfl | rfl | rfl | rfl <;> rfl

theorem holds_outline (f : Tree.Feature α) (tags : List α) : Holds (outline f tags) := by
  intro b kind ahead a hkind
  simp only [List.mem_cons, List.not_mem_nil, or_false] at hkind
  rcases hkind with rfl | rfl | rfl | rfl <;> rfl

section

variable {within : Body α → Draft α} (hwithin : Holds within)

include hwithin

theorem pushAll_argument (h : Tree.Heading α) (steps : List (Tree.Step α)) (line : α)
    (argument : Tree.Argument α) :
    ∃ last : Step α, last.tree? = some ⟨line, some argument⟩ ∧
      ∀ l, (within (.step h steps (.bare line))).pushAll (argument.lines ++ l) =
        (within (.step h steps last)).pushAll l := by
  cases argument with
  | table first rest =>
      refine ⟨.table line first rest, rfl, fun l => ?_⟩
      rw [Tree.Argument.lines, Tree.linesOf_cons, List.cons_append,
        pushAll_cons_of_push fun ahead => hwithin _ _ ahead first (by simp)]
      exact pushAll_linesOf (fun run => within (.step h steps (.table line first run)))
        (fun run ahead a => hwithin _ _ ahead a (by simp)) [] rest l
  | docString opening content closing =>
      refine ⟨.closed line opening content closing, rfl, fun l => ?_⟩
      rw [Tree.Argument.lines, List.cons_append, List.cons_append, List.append_assoc,
        pushAll_cons_of_push fun ahead => hwithin _ _ ahead opening (by simp)]
      refine (pushAll_linesOf
        (fun run => within (.step h steps (.docString line opening run)))
        (fun run ahead a => hwithin _ _ ahead a (by simp)) [] content _).trans ?_
      exact pushAll_cons_of_push (fun ahead => hwithin _ _ ahead closing (by simp)) l

theorem pushAll_step {b : Body α} {t : Tree.Body α} (ht : b.tree? = some t)
    (s : Tree.Step α) :
    ∃ b' : Body α, b'.tree? = some (t.addStep s) ∧
      ∀ l, (within b).pushAll (s.lines ++ l) = (within b').pushAll l := by
  obtain ⟨line, argument⟩ := s
  have hline : ∀ ahead,
      (within b).push .stepLine ahead line =
        some (within (.step t.heading t.steps (.bare line))) := by
    intro ahead
    rw [hwithin b .stepLine ahead line (by simp), Body.push_stepLine, ht, Option.map_some,
      Option.map_some]
  cases argument with
  | none => exact ⟨_, rfl, fun l => pushAll_cons_of_push hline l⟩
  | some argument =>
      obtain ⟨last, hlast, hpush⟩ := pushAll_argument hwithin t.heading t.steps line argument
      refine ⟨.step t.heading t.steps last, by rw [Body.tree?, hlast]; rfl, fun l => ?_⟩
      exact (pushAll_cons_of_push hline _).trans (hpush l)

theorem pushAll_steps {b : Body α} {t : Tree.Body α} (ht : b.tree? = some t)
    (steps : List (Tree.Step α)) :
    ∃ b' : Body α, b'.tree? = some ⟨t.heading, t.steps ++ steps⟩ ∧
      ∀ l, (within b).pushAll (steps.flatMap Tree.Step.lines ++ l) = (within b').pushAll l := by
  induction steps generalizing b t with
  | nil => exact ⟨b, by rw [ht, List.append_nil], fun l => rfl⟩
  | cons s steps ih =>
      obtain ⟨b₁, hb₁, hpush₁⟩ := pushAll_step hwithin ht s
      obtain ⟨b₂, hb₂, hpush₂⟩ := ih hb₁
      refine ⟨b₂, by rw [hb₂, Tree.Body.addStep, List.append_assoc]; rfl, fun l => ?_⟩
      rw [List.flatMap_cons, List.append_assoc, hpush₁, hpush₂]

/-- A block behind its title line. -/
theorem pushAll_body (t : Tree.Body α) :
    ∃ b : Body α, b.tree? = some t ∧
      ∀ l, (within (.heading (.title t.heading.line))).pushAll
          (Tree.linesOf .other t.heading.description ++
            t.steps.flatMap Tree.Step.lines ++ l) =
        (within b).pushAll l := by
  have hheading : (Body.heading (.ofTree t.heading)).tree? = some ⟨t.heading, []⟩ := by
    rw [Body.tree?, Heading.tree_ofTree]
  obtain ⟨b, hb, hpush⟩ := pushAll_steps hwithin hheading t.steps
  refine ⟨b, hb, fun l => ?_⟩
  rw [List.append_assoc, ← hpush]
  exact pushAll_heading (fun h => within (.heading h))
    (fun h ahead a => by
      rw [hwithin _ _ ahead a (by simp)]
      exact Option.map_map _ _ _)
    t.heading _

end

/-! ### Examples -/

theorem pushTags_of_outline? {d : Draft α} {f : Tree.Feature α} {o : Tree.Outline α}
    (h : d.outline? = some (f, o)) (a : α) :
    d.push .tagLine true a = some (examplesTags f o a []) := by
  cases d with
  | outline | examples | examplesTable => simp only [push, pushTags, h]
  | _ => cases h

theorem pushExamples_of_outline? {d : Draft α} {f : Tree.Feature α} {o : Tree.Outline α}
    (h : d.outline? = some (f, o)) (ahead : Bool) (a : α) :
    d.push .examplesLine ahead a = some (examples f o [] (.title a)) := by
  cases d with
  | outline | examples | examplesTable => simp only [push, pushExamples, h, Option.map_some]
  | _ => cases h

theorem pushAll_examples {d : Draft α} {f : Tree.Feature α} {o : Tree.Outline α}
    (h : d.outline? = some (f, o)) (e : Tree.Examples α) :
    ∃ d' : Draft α, d'.outline? = some (f, o.add e) ∧
      ∀ l, d.pushAll (e.lines ++ l) = d'.pushAll l := by
  obtain ⟨tags, heading, rows⟩ := e
  have htitle : ∀ l, d.pushAll
      (Tree.linesOf .tagLine tags ++ (.examplesLine, heading.line) :: l) =
        (examples f o tags (.title heading.line)).pushAll l := by
    intro l
    cases tags with
    | nil => exact pushAll_cons_of_push (fun ahead => pushExamples_of_outline? h ahead _) l
    | cons first rest =>
        rw [Tree.linesOf_cons, List.cons_append, pushAll, examplesFirst_linesOf_tagLine,
          List.map_cons, examplesFirst, pushTags_of_outline? h, Option.bind_some]
        exact (pushAll_linesOf (fun run => examplesTags f o first run)
          (fun run ahead a => rfl) [] rest _).trans (pushAll_cons_of_push (fun ahead => rfl) l)
  have hheading : ∀ l, d.pushAll
      (Tree.linesOf .tagLine tags ++ heading.lines .examplesLine ++ l) =
        (examples f o tags (.ofTree heading)).pushAll l := by
    intro l
    rw [Tree.Heading.lines, List.append_assoc, List.cons_append, htitle]
    exact pushAll_heading (examples f o tags) (fun h ahead a => rfl) heading l
  cases rows with
  | nil =>
      refine ⟨examples f o tags (.ofTree heading), by simp [outline?], fun l => ?_⟩
      rw [← hheading, Tree.Examples.lines, Tree.linesOf_nil, List.append_nil]
  | cons first rest =>
      refine ⟨examplesTable f o tags heading first rest, rfl, fun l => ?_⟩
      rw [Tree.Examples.lines, List.append_assoc, hheading, Tree.linesOf_cons, List.cons_append]
      refine (pushAll_cons_of_push (fun ahead => rfl) _).trans ?_
      rw [Heading.tree_ofTree]
      exact pushAll_linesOf (fun run => examplesTable f o tags heading first run)
        (fun run ahead a => rfl) [] rest l

theorem pushAll_allExamples {d : Draft α} {f : Tree.Feature α} {o : Tree.Outline α}
    (h : d.outline? = some (f, o)) (es : List (Tree.Examples α)) :
    ∃ d' : Draft α, d'.outline? = some (f, { o with examples := o.examples ++ es }) ∧
      ∀ l, d.pushAll (es.flatMap Tree.Examples.lines ++ l) = d'.pushAll l := by
  induction es generalizing d o with
  | nil => exact ⟨d, by rw [h, List.append_nil], fun l => rfl⟩
  | cons e es ih =>
      obtain ⟨d₁, hd₁, hpush₁⟩ := pushAll_examples h e
      obtain ⟨d₂, hd₂, hpush₂⟩ := ih hd₁
      refine ⟨d₂, by rw [hd₂, Tree.Outline.add, List.append_assoc]; rfl, fun l => ?_⟩
      rw [List.flatMap_cons, List.append_assoc, hpush₁, hpush₂]

/-! ### Definitions -/

theorem pushTags_of_feature? {d : Draft α} {f : Tree.Feature α} (h : d.feature? = some f)
    (a : α) : d.push .tagLine false a = some (definitionTags f a []) := by
  cases d with
  | start | language | featureTags | definitionTags | examplesTags | finished => cases h
  | _ =>
      simp only [push, pushTags, h, Option.map_some]
      split
      · contradiction
      · rfl

theorem pushDefinition_of_feature? {d : Draft α} {f : Tree.Feature α} (h : d.feature? = some f)
    (definition : Tree.Feature α → List α → Body α → Draft α) (a : α) :
    d.pushDefinition definition a = some (definition f [] (.heading (.title a))) := by
  cases d with
  | definitionTags => cases h
  | _ => simp only [pushDefinition, h, Option.map_some]

/-- The tags and the title line of a scenario or an outline. -/
theorem pushAll_title {d : Draft α} {f : Tree.Feature α} (h : d.feature? = some f)
    (kind : TokenKind) (definition : Tree.Feature α → List α → Body α → Draft α)
    (hkind : ∀ (d : Draft α) ahead a, d.push kind ahead a = d.pushDefinition definition a)
    (hahead : ∀ kinds, examplesFirst (kind :: kinds) = false)
    (tags : List α) (line : α) (l : List (TokenKind × α)) :
    d.pushAll (Tree.linesOf .tagLine tags ++ (kind, line) :: l) =
      (definition f tags (.heading (.title line))).pushAll l := by
  cases tags with
  | nil =>
      exact pushAll_cons_of_push
        (fun ahead => (hkind d ahead line).trans (pushDefinition_of_feature? h _ line)) l
  | cons first rest =>
      rw [Tree.linesOf_cons, List.cons_append, pushAll, examplesFirst_linesOf_tagLine,
        List.map_cons, hahead, pushTags_of_feature? h, Option.bind_some]
      refine (pushAll_linesOf (fun run => definitionTags f first run)
        (fun run ahead a => rfl) [] rest _).trans ?_
      exact pushAll_cons_of_push (fun ahead => hkind _ ahead line) l

theorem pushAll_definition {d : Draft α} {f : Tree.Feature α} (h : d.feature? = some f)
    (definition : Tree.Definition α) :
    ∃ d' : Draft α, d'.feature? = some (f.add definition) ∧
      ∀ l, d.pushAll (definition.lines ++ l) = d'.pushAll l := by
  cases definition with
  | scenario tags t =>
      obtain ⟨b, hb, hpush⟩ := pushAll_body (holds_scenario f tags) t
      refine ⟨scenario f tags b, by rw [feature?, hb, Option.map_some], fun l => ?_⟩
      rw [← hpush, ← pushAll_title h .scenarioLine scenario (fun d ahead a => rfl)
        (fun kinds => rfl) tags]
      simp [Tree.Definition.lines, Tree.Body.lines, Tree.Heading.lines]
  | outline o =>
      obtain ⟨tags, t, examples⟩ := o
      obtain ⟨b, hb, hpush⟩ := pushAll_body (holds_outline f tags) t
      have houtline : (outline f tags b).outline? = some (f, ⟨tags, t, []⟩) := by
        rw [outline?, hb, Option.map_some]
      obtain ⟨d', hd', hpush'⟩ := pushAll_allExamples houtline examples
      refine ⟨d', feature?_of_outline? hd', fun l => ?_⟩
      rw [← hpush', ← hpush, ← pushAll_title h .scenarioOutlineLine outline
        (fun d ahead a => rfl) (fun kinds => rfl) tags]
      simp [Tree.Definition.lines, Tree.Outline.lines, Tree.Body.lines, Tree.Heading.lines]

theorem pushAll_definitions {d : Draft α} {f : Tree.Feature α} (h : d.feature? = some f)
    (definitions : List (Tree.Definition α)) :
    ∃ d' : Draft α,
      d'.feature? = some { f with definitions := f.definitions ++ definitions } ∧
      ∀ l, d.pushAll (definitions.flatMap Tree.Definition.lines ++ l) = d'.pushAll l := by
  induction definitions generalizing d f with
  | nil => exact ⟨d, by rw [h, List.append_nil], fun l => rfl⟩
  | cons definition definitions ih =>
      obtain ⟨d₁, hd₁, hpush₁⟩ := pushAll_definition h definition
      obtain ⟨d₂, hd₂, hpush₂⟩ := ih hd₁
      refine ⟨d₂, by rw [hd₂, Tree.Feature.add, List.append_assoc]; rfl, fun l => ?_⟩
      rw [List.flatMap_cons, List.append_assoc, hpush₁, hpush₂]

/-! ### Documents -/

theorem pushAll_header (header : Tree.Header α) (l : List (TokenKind × α)) :
    start.pushAll (header.lines ++ l) =
      (feature header.language header.tags (.ofTree header.heading)).pushAll l := by
  obtain ⟨lang, tags, heading⟩ := header
  have htitle : ∀ l, start.pushAll (Tree.linesOf .language lang.toList ++
      (Tree.linesOf .tagLine tags ++ (.featureLine, heading.line) :: l)) =
        (feature lang tags (.title heading.line)).pushAll l := by
    intro l
    rcases lang with _ | line <;> rcases tags with _ | ⟨first, rest⟩
    · rfl
    · exact (pushAll_linesOf (fun run => featureTags none first run)
        (fun run ahead a => rfl) [] rest _).trans (pushAll_cons_of_push (fun ahead => rfl) l)
    · rfl
    · exact (pushAll_linesOf (fun run => featureTags (some line) first run)
        (fun run ahead a => rfl) [] rest _).trans (pushAll_cons_of_push (fun ahead => rfl) l)
  rw [Tree.Header.lines, Tree.Heading.lines, List.append_assoc, List.append_assoc,
    List.cons_append, htitle]
  exact pushAll_heading (feature lang tags) (fun h ahead a => rfl) heading l

theorem pushAll_feature (f : Tree.Feature α) :
    ∃ d : Draft α, d.feature? = some f ∧ ∀ l, start.pushAll (f.lines ++ l) = d.pushAll l := by
  obtain ⟨header, b, definitions⟩ := f
  have hbackground : ∃ d : Draft α, d.feature? = some ⟨header, b, []⟩ ∧
      ∀ l, start.pushAll (header.lines ++
        (b.elim [] (Tree.Body.lines .backgroundLine) ++ l)) = d.pushAll l := by
    cases b with
    | none =>
        refine ⟨feature header.language header.tags (.ofTree header.heading), ?_, ?_⟩
        · rw [feature?, Heading.tree_ofTree]
        · exact fun l => pushAll_header header l
    | some t =>
        obtain ⟨b, hb, hpush⟩ := pushAll_body (holds_background header) t
        refine ⟨background header b, by rw [feature?, hb, Option.map_some], fun l => ?_⟩
        rw [pushAll_header, ← hpush, Option.elim_some, Tree.Body.lines, Tree.Heading.lines,
          List.cons_append, List.cons_append]
        refine (pushAll_cons_of_push (fun ahead => rfl) _).trans ?_
        rw [Heading.tree_ofTree]
  obtain ⟨d₁, hd₁, hpush₁⟩ := hbackground
  obtain ⟨d₂, hd₂, hpush₂⟩ := pushAll_definitions hd₁ definitions
  refine ⟨d₂, hd₂, fun l => ?_⟩
  rw [Tree.Feature.lines, List.append_assoc, List.append_assoc, hpush₁, hpush₂]

/-- The lines of a tree and the end of the source lead from the start to the
tree. -/
theorem pushAll_lines (document : Option (Tree.Feature α)) (a : α) :
    start.pushAll (Tree.lines document ++ [(.eof, a)]) = some (finished document) := by
  cases document with
  | none => rfl
  | some f =>
      obtain ⟨d, hd, hpush⟩ := pushAll_feature f
      have hdocument : d.document? = some (some f) := by
        cases d with
        | start => cases hd
        | _ => simp only [document?, hd, Option.map_some]
      have heof : ∀ ahead, d.push .eof ahead a = some (finished (some f)) := by
        intro ahead
        rw [push, hdocument, Option.map_some]
      exact (hpush _).trans (pushAll_cons_of_push heof [])

/-- A tree is determined by its lines. -/
theorem document_eq_of_lines_eq {document document' : Option (Tree.Feature α)}
    (h : Tree.lines document = Tree.lines document') : document = document' := by
  have hread : ∀ a : α, document = document' := by
    intro a
    have hfinished := pushAll_lines document a
    rw [h, pushAll_lines document' a] at hfinished
    exact (Draft.finished.inj (Option.some.inj hfinished)).symm
  match document, document', hread with
  | none, none, _ => rfl
  | some f, _, hread => exact hread f.header.heading.line
  | _, some f, hread => exact hread f.header.heading.line

end Draft
end Gherkin

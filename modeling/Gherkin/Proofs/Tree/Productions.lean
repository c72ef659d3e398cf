import Gherkin.Proofs.Tree.Basic

/-!
# The productions of the grammar

The grammar as data: a form for the right-hand side of each rule, and the
sentences that a form derives.  The sentences of the rule for documents are the
kinds of the lines of syntax trees.
-/

namespace Gherkin

/-- The right-hand side of a production. -/
inductive Form where
  | kind (kind : TokenKind)
  | rule (rule : Rule)
  | seq (first second : Form)
  | either (first second : Form)
  | option (form : Form)
  | many (form : Form)
deriving DecidableEq

/-- One or more sentences of a form. -/
def Form.some (form : Form) : Form :=
  .seq form (.many form)

/-- The right-hand side of the production of a rule. -/
def Rule.production : Rule → Form
  | .root => .rule .document
  | .document => .option (.rule .feature)
  | .feature =>
    .seq (.rule .featureHeader)
      (.seq (.option (.rule .background)) (.many (.rule .scenarioDefinition)))
  | .featureHeader =>
    .seq (.option (.kind .language))
      (.seq (.option (.rule .tags))
        (.seq (.kind .featureLine) (.option (.rule .description))))
  | .background =>
    .seq (.kind .backgroundLine)
      (.seq (.option (.rule .description)) (.many (.rule .step)))
  | .scenarioDefinition =>
    .seq (.option (.rule .tags)) (.either (.rule .scenario) (.rule .scenarioOutline))
  | .scenario =>
    .seq (.kind .scenarioLine)
      (.seq (.option (.rule .description)) (.many (.rule .step)))
  | .scenarioOutline =>
    .seq (.kind .scenarioOutlineLine)
      (.seq (.option (.rule .description))
        (.seq (.many (.rule .step)) (.many (.rule .examplesDefinition))))
  | .examplesDefinition => .seq (.option (.rule .tags)) (.rule .examples)
  | .examples =>
    .seq (.kind .examplesLine)
      (.seq (.option (.rule .description)) (.option (.rule .examplesTable)))
  | .examplesTable => .some (.kind .tableRow)
  | .step =>
    .seq (.kind .stepLine) (.option (.either (.rule .dataTable) (.rule .docString)))
  | .dataTable => .some (.kind .tableRow)
  | .docString =>
    .seq (.kind .docStringSeparator)
      (.seq (.many (.kind .other)) (.kind .docStringSeparator))
  | .tags => .some (.kind .tagLine)
  | .description => .some (.kind .other)

/-- The sentences that a form derives. -/
inductive Derives : Form → List TokenKind → Prop where
  | kind (kind : TokenKind) : Derives (.kind kind) [kind]
  | rule {rule : Rule} {w : List TokenKind} :
      Derives rule.production w → Derives (.rule rule) w
  | seq {a b : Form} {v w : List TokenKind} :
      Derives a v → Derives b w → Derives (.seq a b) (v ++ w)
  | first {a b : Form} {w : List TokenKind} : Derives a w → Derives (.either a b) w
  | second {a b : Form} {w : List TokenKind} : Derives b w → Derives (.either a b) w
  | none {a : Form} : Derives (.option a) []
  | one {a : Form} {w : List TokenKind} : Derives a w → Derives (.option a) w
  | done {a : Form} : Derives (.many a) []
  | more {a : Form} {v w : List TokenKind} :
      Derives a v → Derives (.many a) w → Derives (.many a) (v ++ w)

namespace Derives

variable {α : Type}

theorem kind_iff {k : TokenKind} {w : List TokenKind} : Derives (.kind k) w ↔ w = [k] := by
  constructor
  · rintro ⟨⟩
    rfl
  · rintro rfl
    exact .kind k

theorem rule_iff {r : Rule} {w : List TokenKind} :
    Derives (.rule r) w ↔ Derives r.production w := by
  constructor
  · rintro ⟨⟩
    assumption
  · exact .rule

theorem seq_iff {a b : Form} {w : List TokenKind} :
    Derives (.seq a b) w ↔ ∃ u v, w = u ++ v ∧ Derives a u ∧ Derives b v := by
  constructor
  · rintro ⟨⟩
    exact ⟨_, _, rfl, by assumption, by assumption⟩
  · rintro ⟨u, v, rfl, ha, hb⟩
    exact .seq ha hb

theorem either_iff {a b : Form} {w : List TokenKind} :
    Derives (.either a b) w ↔ Derives a w ∨ Derives b w := by
  constructor
  · rintro (_ | _ | _ | h | h)
    · exact .inl h
    · exact .inr h
  · rintro (h | h)
    · exact .first h
    · exact .second h

theorem option_iff {a : Form} {w : List TokenKind} :
    Derives (.option a) w ↔ w = [] ∨ Derives a w := by
  constructor
  · intro h
    cases h with
    | none => exact .inl rfl
    | one h => exact .inr h
  · rintro (rfl | h)
    · exact .none
    · exact .one h

/-- Sentences of a form that stand one behind the other. -/
theorem many_flatMap {β : Type} {a : Form} {sentence : β → List TokenKind} {xs : List β}
    (h : ∀ x ∈ xs, Derives a (sentence x)) : Derives (.many a) (xs.flatMap sentence) := by
  induction xs with
  | nil => exact .done
  | cons x xs ih =>
      rw [List.flatMap_cons]
      exact .more (h x (by simp)) (ih fun y hy => h y (by simp [hy]))

/-- Repeated sentences of a form can be told apart. -/
theorem exists_flatMap_of_many {β : Type} {a : Form} {lines : β → List (TokenKind × α)}
    (hone : ∀ l, Derives a (l.map Prod.fst) → ∃ x, lines x = l)
    {l : List (TokenKind × α)} (h : Derives (.many a) (l.map Prod.fst)) :
    ∃ xs : List β, xs.flatMap lines = l := by
  generalize hform : Form.many a = form at h
  generalize hw : l.map Prod.fst = w at h
  induction h generalizing l with
  | done =>
      obtain rfl := List.map_eq_nil_iff.mp hw
      exact ⟨[], rfl⟩
  | more hfirst hrest _ ih =>
      obtain rfl := Form.many.inj hform
      obtain ⟨l₁, l₂, rfl, rfl, rfl⟩ := List.map_eq_append_iff.mp hw
      obtain ⟨x, rfl⟩ := hone l₁ hfirst
      obtain ⟨xs, rfl⟩ := ih rfl rfl
      exact ⟨x :: xs, List.flatMap_cons⟩
  | kind | rule | seq | first | second | none | one => cases hform

end Derives

namespace Tree

variable {α : Type}

/-! ### The lines of trees are sentences -/

theorem derives_linesOf (kind : TokenKind) (run : List α) :
    Derives (.many (.kind kind)) ((linesOf kind run).map Prod.fst) := by
  induction run with
  | nil => exact .done
  | cons a run ih => exact .more (.kind kind) ih

theorem derives_some_linesOf (kind : TokenKind) (a : α) (run : List α) :
    Derives (.some (.kind kind)) ((linesOf kind (a :: run)).map Prod.fst) :=
  .seq (.kind kind) (derives_linesOf kind run)

theorem derives_tags (tags : List α) :
    Derives (.option (.rule .tags)) ((linesOf .tagLine tags).map Prod.fst) := by
  cases tags with
  | nil => exact .none
  | cons a tags => exact .one (.rule (derives_some_linesOf .tagLine a tags))

theorem derives_description (description : List α) :
    Derives (.option (.rule .description)) ((linesOf .other description).map Prod.fst) := by
  cases description with
  | nil => exact .none
  | cons a description => exact .one (.rule (derives_some_linesOf .other a description))

theorem Argument.derives_lines (a : Argument α) :
    Derives (.either (.rule .dataTable) (.rule .docString)) (a.lines.map Prod.fst) := by
  cases a with
  | table first rest => exact .first (.rule (derives_some_linesOf .tableRow first rest))
  | docString opening content closing =>
      rw [lines, List.cons_append, List.map_cons, List.map_append]
      exact .second (.rule (.seq (.kind .docStringSeparator)
        (.seq (derives_linesOf .other content) (.kind .docStringSeparator))))

theorem Step.derives_lines (s : Step α) : Derives (.rule .step) (s.lines.map Prod.fst) := by
  obtain ⟨line, argument⟩ := s
  cases argument with
  | none => exact .rule (.seq (.kind .stepLine) .none)
  | some a => exact .rule (.seq (.kind .stepLine) (.one a.derives_lines))

/-- The sentence of a block is its title line, its description and its steps. -/
theorem Body.derives_lines (kind : TokenKind) (b : Body α) :
    Derives (.seq (.kind kind) (.seq (.option (.rule .description)) (.many (.rule .step))))
      ((b.lines kind).map Prod.fst) := by
  rw [lines, Heading.lines, List.cons_append, List.map_cons, List.map_append, List.map_flatMap]
  exact .seq (.kind kind) (.seq (derives_description _)
    (Derives.many_flatMap fun s _ => s.derives_lines))

theorem Examples.derives_lines (e : Examples α) :
    Derives (.rule .examplesDefinition) (e.lines.map Prod.fst) := by
  have hrows : Derives (.option (.rule .examplesTable))
      ((linesOf .tableRow e.rows).map Prod.fst) := by
    cases e.rows with
    | nil => exact .none
    | cons first rest => exact .one (.rule (derives_some_linesOf .tableRow first rest))
  rw [lines, List.append_assoc, List.map_append, Heading.lines, List.cons_append,
    List.map_cons, List.map_append]
  exact .rule (.seq (derives_tags e.tags)
    (.rule (.seq (.kind .examplesLine) (.seq (derives_description _) hrows))))

theorem Outline.derives_lines (o : Outline α) :
    Derives (.rule .scenarioDefinition) (o.lines.map Prod.fst) := by
  have hexamples : Derives (.many (.rule .examplesDefinition))
      ((o.examples.flatMap Examples.lines).map Prod.fst) := by
    rw [List.map_flatMap]
    exact Derives.many_flatMap fun e _ => e.derives_lines
  have hsteps : Derives (.many (.rule .step)) ((o.body.steps.flatMap Step.lines).map Prod.fst) := by
    rw [List.map_flatMap]
    exact Derives.many_flatMap fun s _ => s.derives_lines
  rw [lines, Body.lines, Heading.lines, List.append_assoc, List.map_append, List.append_assoc,
    List.cons_append, List.map_cons, List.map_append, List.map_append]
  exact .rule (.seq (derives_tags o.tags) (.second (.rule (.seq (.kind .scenarioOutlineLine)
    (.seq (derives_description _) (.seq hsteps hexamples))))))

theorem Definition.derives_lines (d : Definition α) :
    Derives (.rule .scenarioDefinition) (d.lines.map Prod.fst) := by
  cases d with
  | scenario tags body =>
      rw [lines, List.map_append]
      exact .rule (.seq (derives_tags tags)
        (.first (.rule (body.derives_lines .scenarioLine))))
  | outline o => exact o.derives_lines

theorem Header.derives_lines (h : Header α) :
    Derives (.rule .featureHeader) (h.lines.map Prod.fst) := by
  have hlanguage : Derives (.option (.kind .language))
      ((linesOf .language h.language.toList).map Prod.fst) := by
    cases h.language with
    | none => exact .none
    | some line => exact .one (.kind .language)
  rw [lines, Heading.lines, List.append_assoc, List.map_append, List.map_append, List.map_cons]
  exact .rule (.seq hlanguage (.seq (derives_tags h.tags)
    (.seq (.kind .featureLine) (derives_description _))))

theorem Feature.derives_lines (f : Feature α) :
    Derives (.rule .feature) (f.lines.map Prod.fst) := by
  have hbackground : Derives (.option (.rule .background))
      ((f.background.elim [] (Body.lines .backgroundLine)).map Prod.fst) := by
    cases f.background with
    | none => exact .none
    | some b => exact .one (.rule (b.derives_lines .backgroundLine))
  rw [lines, List.append_assoc, List.map_append, List.map_append, List.map_flatMap]
  exact .rule (.seq f.header.derives_lines (.seq hbackground
    (Derives.many_flatMap fun d _ => d.derives_lines)))

theorem derives_lines (document : Option (Feature α)) :
    Derives (.rule .document) ((lines document).map Prod.fst) := by
  cases document with
  | none => exact .rule .none
  | some f => exact .rule (.one f.derives_lines)

/-! ### Sentences are the lines of trees -/

theorem exists_linesOf {kind : TokenKind} {l : List (TokenKind × α)}
    (h : Derives (.many (.kind kind)) (l.map Prod.fst)) : ∃ run, linesOf kind run = l := by
  have hone : ∀ l : List (TokenKind × α), Derives (.kind kind) (l.map Prod.fst) →
      ∃ a, [(kind, a)] = l := by
    intro l hl
    obtain ⟨⟨k, a⟩, rfl, hk⟩ := List.map_eq_singleton_iff.mp (Derives.kind_iff.mp hl)
    obtain rfl : k = kind := hk
    exact ⟨a, rfl⟩
  obtain ⟨run, rfl⟩ := Derives.exists_flatMap_of_many hone h
  exact ⟨run, List.map_eq_flatMap⟩

theorem exists_line {kind : TokenKind} {l : List (TokenKind × α)}
    (h : Derives (.kind kind) (l.map Prod.fst)) : ∃ a, l = [(kind, a)] := by
  obtain ⟨⟨k, a⟩, rfl, hk⟩ := List.map_eq_singleton_iff.mp (Derives.kind_iff.mp h)
  obtain rfl : k = kind := hk
  exact ⟨a, rfl⟩

theorem exists_seq {a b : Form} {l : List (TokenKind × α)}
    (h : Derives (.seq a b) (l.map Prod.fst)) :
    ∃ l₁ l₂, l = l₁ ++ l₂ ∧ Derives a (l₁.map Prod.fst) ∧ Derives b (l₂.map Prod.fst) := by
  obtain ⟨u, v, hl, ha, hb⟩ := Derives.seq_iff.mp h
  obtain ⟨l₁, l₂, rfl, rfl, rfl⟩ := List.map_eq_append_iff.mp hl
  exact ⟨l₁, l₂, rfl, ha, hb⟩

theorem exists_some_linesOf {kind : TokenKind} {l : List (TokenKind × α)}
    (h : Derives (.some (.kind kind)) (l.map Prod.fst)) :
    ∃ a run, linesOf kind (a :: run) = l := by
  obtain ⟨l₁, l₂, rfl, hfirst, hrest⟩ := exists_seq h
  obtain ⟨a, rfl⟩ := exists_line hfirst
  obtain ⟨run, rfl⟩ := exists_linesOf hrest
  exact ⟨a, run, rfl⟩

/-- A run of lines of one kind that may be missing. -/
theorem exists_option_linesOf {kind : TokenKind} {rule : Rule}
    (hrule : rule.production = .some (.kind kind)) {l : List (TokenKind × α)}
    (h : Derives (.option (.rule rule)) (l.map Prod.fst)) : ∃ run, linesOf kind run = l := by
  rcases Derives.option_iff.mp h with hnil | hsome
  · exact ⟨[], (List.map_eq_nil_iff.mp hnil).symm⟩
  · rw [Derives.rule_iff, hrule] at hsome
    obtain ⟨a, run, rfl⟩ := exists_some_linesOf hsome
    exact ⟨a :: run, rfl⟩

theorem exists_argument {l : List (TokenKind × α)}
    (h : Derives (.either (.rule .dataTable) (.rule .docString)) (l.map Prod.fst)) :
    ∃ a : Argument α, a.lines = l := by
  rcases Derives.either_iff.mp h with htable | hdocString
  · obtain ⟨first, rest, rfl⟩ := exists_some_linesOf (Derives.rule_iff.mp htable)
    exact ⟨.table first rest, rfl⟩
  · obtain ⟨l₁, l₂, rfl, hopening, hrest⟩ := exists_seq (Derives.rule_iff.mp hdocString)
    obtain ⟨l₂, l₃, rfl, hcontent, hclosing⟩ := exists_seq hrest
    obtain ⟨opening, rfl⟩ := exists_line hopening
    obtain ⟨content, rfl⟩ := exists_linesOf hcontent
    obtain ⟨closing, rfl⟩ := exists_line hclosing
    exact ⟨.docString opening content closing, rfl⟩

theorem exists_step {l : List (TokenKind × α)} (h : Derives (.rule .step) (l.map Prod.fst)) :
    ∃ s : Step α, s.lines = l := by
  obtain ⟨l₁, l₂, rfl, hline, hargument⟩ := exists_seq (Derives.rule_iff.mp h)
  obtain ⟨line, rfl⟩ := exists_line hline
  rcases Derives.option_iff.mp hargument with hnil | hsome
  · obtain rfl := List.map_eq_nil_iff.mp hnil
    exact ⟨⟨line, none⟩, rfl⟩
  · obtain ⟨a, rfl⟩ := exists_argument hsome
    exact ⟨⟨line, some a⟩, rfl⟩

theorem exists_heading {kind : TokenKind} {rest : Form} {l : List (TokenKind × α)}
    (h : Derives (.seq (.kind kind) (.seq (.option (.rule .description)) rest))
      (l.map Prod.fst)) :
    ∃ (heading : Heading α) (l' : List (TokenKind × α)),
      heading.lines kind ++ l' = l ∧ Derives rest (l'.map Prod.fst) := by
  obtain ⟨l₁, l₂, rfl, hline, hbelow⟩ := exists_seq h
  obtain ⟨l₂, l₃, rfl, hdescription, hrest⟩ := exists_seq hbelow
  obtain ⟨line, rfl⟩ := exists_line hline
  obtain ⟨description, rfl⟩ := exists_option_linesOf rfl hdescription
  exact ⟨⟨line, description⟩, l₃, rfl, hrest⟩

theorem exists_body {kind : TokenKind} {l : List (TokenKind × α)}
    (h : Derives (.seq (.kind kind) (.seq (.option (.rule .description)) (.many (.rule .step))))
      (l.map Prod.fst)) :
    ∃ b : Body α, b.lines kind = l := by
  obtain ⟨heading, l', rfl, hsteps⟩ := exists_heading h
  obtain ⟨steps, rfl⟩ := Derives.exists_flatMap_of_many (fun l => exists_step) hsteps
  exact ⟨⟨heading, steps⟩, rfl⟩

theorem exists_examples {l : List (TokenKind × α)}
    (h : Derives (.rule .examplesDefinition) (l.map Prod.fst)) :
    ∃ e : Examples α, e.lines = l := by
  obtain ⟨l₁, l₂, rfl, htags, hexamples⟩ := exists_seq (Derives.rule_iff.mp h)
  obtain ⟨tags, rfl⟩ := exists_option_linesOf rfl htags
  obtain ⟨heading, l', rfl, hrows⟩ := exists_heading (Derives.rule_iff.mp hexamples)
  obtain ⟨rows, rfl⟩ := exists_option_linesOf rfl hrows
  exact ⟨⟨tags, heading, rows⟩, List.append_assoc _ _ _⟩

theorem exists_definition {l : List (TokenKind × α)}
    (h : Derives (.rule .scenarioDefinition) (l.map Prod.fst)) :
    ∃ d : Definition α, d.lines = l := by
  obtain ⟨l₁, l₂, rfl, htags, hblock⟩ := exists_seq (Derives.rule_iff.mp h)
  obtain ⟨tags, rfl⟩ := exists_option_linesOf rfl htags
  rcases Derives.either_iff.mp hblock with hscenario | houtline
  · obtain ⟨body, rfl⟩ := exists_body (Derives.rule_iff.mp hscenario)
    exact ⟨.scenario tags body, rfl⟩
  · obtain ⟨heading, l', rfl, hrest⟩ := exists_heading (Derives.rule_iff.mp houtline)
    obtain ⟨l₁, l₂, rfl, hsteps, hexamples⟩ := exists_seq hrest
    obtain ⟨steps, rfl⟩ := Derives.exists_flatMap_of_many (fun l => exists_step) hsteps
    obtain ⟨examples, rfl⟩ :=
      Derives.exists_flatMap_of_many (fun l => exists_examples) hexamples
    refine ⟨.outline ⟨tags, ⟨heading, steps⟩, examples⟩, ?_⟩
    simp only [Definition.lines, Outline.lines, Body.lines, List.append_assoc]

theorem exists_header {l : List (TokenKind × α)}
    (h : Derives (.rule .featureHeader) (l.map Prod.fst)) :
    ∃ header : Header α, header.lines = l := by
  obtain ⟨l₁, l₂, rfl, hlanguage, hrest⟩ := exists_seq (Derives.rule_iff.mp h)
  obtain ⟨l₂, l₃, rfl, htags, hheading⟩ := exists_seq hrest
  obtain ⟨tags, rfl⟩ := exists_option_linesOf rfl htags
  obtain ⟨l₃, l₄, rfl, hline, hdescription⟩ := exists_seq hheading
  obtain ⟨line, rfl⟩ := exists_line hline
  obtain ⟨description, rfl⟩ := exists_option_linesOf rfl hdescription
  rcases Derives.option_iff.mp hlanguage with hnil | hsome
  · obtain rfl := List.map_eq_nil_iff.mp hnil
    exact ⟨⟨none, tags, ⟨line, description⟩⟩, rfl⟩
  · obtain ⟨language, rfl⟩ := exists_line hsome
    exact ⟨⟨some language, tags, ⟨line, description⟩⟩, rfl⟩

theorem exists_feature {l : List (TokenKind × α)}
    (h : Derives (.rule .feature) (l.map Prod.fst)) : ∃ f : Feature α, f.lines = l := by
  obtain ⟨l₁, l₂, rfl, hheader, hrest⟩ := exists_seq (Derives.rule_iff.mp h)
  obtain ⟨l₂, l₃, rfl, hbackground, hdefinitions⟩ := exists_seq hrest
  obtain ⟨header, rfl⟩ := exists_header hheader
  obtain ⟨definitions, rfl⟩ :=
    Derives.exists_flatMap_of_many (fun l => exists_definition) hdefinitions
  rcases Derives.option_iff.mp hbackground with hnil | hsome
  · obtain rfl := List.map_eq_nil_iff.mp hnil
    exact ⟨⟨header, none, definitions⟩, by simp [Feature.lines]⟩
  · obtain ⟨background, rfl⟩ := exists_body (Derives.rule_iff.mp hsome)
    exact ⟨⟨header, some background, definitions⟩, by simp [Feature.lines]⟩

/-- Lines make a sentence of the grammar exactly when they are the lines of a
syntax tree. -/
theorem derives_iff_exists_lines {l : List (TokenKind × α)} :
    Derives (.rule .document) (l.map Prod.fst) ↔
      ∃ document : Option (Feature α), lines document = l := by
  constructor
  · intro h
    rcases Derives.option_iff.mp (Derives.rule_iff.mp h) with hnil | hsome
    · exact ⟨none, (List.map_eq_nil_iff.mp hnil).symm⟩
    · obtain ⟨f, rfl⟩ := exists_feature hsome
      exact ⟨some f, rfl⟩
  · rintro ⟨document, rfl⟩
    exact derives_lines document

end Tree
end Gherkin

import Gherkin.Proofs.Builder.Closing
import Mathlib.Tactic.Common

/-!
# Fillers

Blank lines and the end of the source become children of rules, but no rule
looks at them when it is folded.  So they can be left out of a builder at any
time without changing what becomes of it.
-/

namespace Gherkin

namespace Node

/-- A token that trees do not hold. -/
def isFiller : Node → Bool
  | token leaf => !leaf.reading.kind.isTerminal
  | _ => false

mutual

/-- A child without the fillers inside it. -/
def clean : Node → Node
  | group rule children => group rule (cleanAll children)
  | node => node

/-- Children without the fillers among them and inside them. -/
def cleanAll : List Node → List Node
  | [] => []
  | node :: nodes => if node.isFiller then cleanAll nodes else node.clean :: cleanAll nodes

end

theorem cleanAll_append (nodes nodes' : List Node) :
    cleanAll (nodes ++ nodes') = cleanAll nodes ++ cleanAll nodes' := by
  induction nodes with
  | nil => rfl
  | cons node nodes ih =>
      simp only [List.cons_append, cleanAll, ih]
      split
      · rfl
      · rfl

/-- What a projection finds among cleaned children is what it finds among the
children, cleaned. -/
theorem filterMap_cleanAll {β : Type} {f : Node → Option β} {g : β → β}
    (hfiller : ∀ node, node.isFiller → f node = none)
    (hclean : ∀ node, f node.clean = (f node).map g) (nodes : List Node) :
    (cleanAll nodes).filterMap f = (nodes.filterMap f).map g := by
  induction nodes with
  | nil => rfl
  | cons node nodes ih =>
      rw [cleanAll]
      by_cases hnode : node.isFiller
      · rw [if_pos hnode, ih, List.filterMap_cons, hfiller node hnode]
      · rw [if_neg hnode, List.filterMap_cons, List.filterMap_cons, hclean, ih]
        cases f node with
        | none => rfl
        | some b => rfl

/-- No projection but that for tokens sees fillers. -/
theorem isFiller_cases {node : Node} (h : node.isFiller) :
    ∃ leaf, node = .token leaf ∧ leaf.reading.kind.isTerminal = false := by
  cases node with
  | token leaf => exact ⟨leaf, rfl, by simpa [isFiller] using h⟩
  | _ => cases h

theorem leaf?_clean (kind : TokenKind) (node : Node) : leaf? kind node.clean = leaf? kind node := by
  cases node <;> rfl

theorem leaf?_of_isFiller {kind : TokenKind} (hkind : kind.isTerminal) {node : Node}
    (h : node.isFiller) : leaf? kind node = none := by
  obtain ⟨leaf, rfl, hleaf⟩ := isFiller_cases h
  rw [leaf?, if_neg]
  rintro rfl
  rw [hkind] at hleaf
  cases hleaf

end Node

namespace Fold

open Node

theorem leaves_cleanAll (kind : TokenKind) (hkind : kind.isTerminal) (children : List Node) :
    leaves kind (cleanAll children) = leaves kind children := by
  have hfind := filterMap_cleanAll (g := id) (fun _ h => leaf?_of_isFiller hkind h)
    (fun node => by rw [leaf?_clean, Option.map_id_fun, id]) children
  rwa [List.map_id] at hfind

theorem leaf?_cleanAll (kind : TokenKind) (hkind : kind.isTerminal) (children : List Node) :
    leaf? kind (cleanAll children) = leaf? kind children := by
  have hleaves := leaves_cleanAll kind hkind children
  rw [leaf?, leaf?, ← List.head?_filterMap, ← List.head?_filterMap]
  exact congrArg List.head? hleaves

theorem group?_cleanAll (rule : Rule) (children : List Node) :
    group? rule (cleanAll children) = (group? rule children).map cleanAll := by
  rw [group?, group?, ← List.head?_filterMap, ← List.head?_filterMap, ← List.head?_map]
  refine congrArg List.head? (filterMap_cleanAll (fun node h => ?_) (fun node => ?_) children)
  · obtain ⟨leaf, rfl, -⟩ := isFiller_cases h
    rfl
  · cases node with
    | group r children =>
        rw [clean, Node.group?, Node.group?]
        split <;> rfl
    | _ => rfl

section

variable {β : Type} {f : Node → Option β} (htoken : ∀ leaf, f (.token leaf) = none)
  (hgroup : ∀ rule children, f (.group rule children) = none)

include htoken hgroup

/-- A projection that sees neither tokens nor groups does not see cleaning. -/
theorem filterMap_cleanAll_eq (children : List Node) :
    (cleanAll children).filterMap f = children.filterMap f := by
  have hfind := filterMap_cleanAll (f := f) (g := id) (fun node hnode => by
    obtain ⟨leaf, rfl, -⟩ := isFiller_cases hnode
    exact htoken leaf) (fun node => by
    rw [Option.map_id_fun, id]
    cases node with
    | group rule children => rw [clean, hgroup, hgroup]
    | _ => rfl) children
  rwa [List.map_id] at hfind

theorem findSome?_cleanAll_eq (children : List Node) :
    (cleanAll children).findSome? f = children.findSome? f := by
  rw [← List.head?_filterMap, ← List.head?_filterMap, filterMap_cleanAll_eq htoken hgroup]

end

theorem tags_cleanAll (children : List Node) : tags (cleanAll children) = tags children := by
  rw [tags, tags, group?_cleanAll]
  cases group? .tags children with
  | none => rfl
  | some lines => exact congrArg (List.flatMap Leaf.tags) (leaves_cleanAll .tagLine rfl lines)

theorem steps_cleanAll (children : List Node) : steps (cleanAll children) = steps children :=
  filterMap_cleanAll_eq (fun _ => rfl) (fun _ _ => rfl) children

theorem title_cleanAll (line : Leaf) (children : List Node) :
    title line (cleanAll children) = title line children := by
  rw [title, title, findSome?_cleanAll_eq (fun _ => rfl) (fun _ _ => rfl)]

theorem definition?_cleanAll (children : List Node) :
    definition? (cleanAll children) = definition? children := by
  rw [definition?, definition?, group?_cleanAll, group?_cleanAll, tags_cleanAll]
  cases group? .scenario children with
  | some inner =>
      simp only [Option.map_some, leaf?_cleanAll .scenarioLine rfl, title_cleanAll,
        steps_cleanAll]
  | none =>
      cases group? .scenarioOutline children with
      | none => rfl
      | some inner =>
          have hexamples : (cleanAll inner).filterMap Node.examples? =
              inner.filterMap Node.examples? :=
            filterMap_cleanAll_eq (fun _ => rfl) (fun _ _ => rfl) inner
          simp only [Option.map_none, Option.map_some, Option.bind_some,
            leaf?_cleanAll .scenarioOutlineLine rfl, title_cleanAll, steps_cleanAll, hexamples]

theorem examples?_cleanAll (children : List Node) :
    examples? (cleanAll children) = examples? children := by
  rw [examples?, examples?, group?_cleanAll, tags_cleanAll]
  cases group? .examples children with
  | none => rfl
  | some inner =>
      have hrows : (cleanAll inner).filterMap Node.rows? = inner.filterMap Node.rows? :=
        filterMap_cleanAll_eq (fun _ => rfl) (fun _ _ => rfl) inner
      simp only [Option.map_some, Option.bind_some, leaf?_cleanAll .examplesLine rfl,
        title_cleanAll, hrows]

theorem feature?_cleanAll (children : List Node) :
    feature? (cleanAll children) = feature? children := by
  have hdefinitions : (cleanAll children).filterMap Node.definition? =
      children.filterMap Node.definition? :=
    filterMap_cleanAll_eq (fun _ => rfl) (fun _ _ => rfl) children
  rw [feature?, feature?, group?_cleanAll, hdefinitions]
  cases group? .featureHeader children with
  | none => rfl
  | some header =>
      simp only [Option.map_some, Option.bind_some, leaf?_cleanAll .featureLine rfl,
        title_cleanAll, tags_cleanAll]

theorem background?_cleanAll (children : List Node) :
    background? (cleanAll children) = background? children := by
  simp only [background?, leaf?_cleanAll .backgroundLine rfl, title_cleanAll, steps_cleanAll]

theorem step?_cleanAll (children : List Node) :
    step? (cleanAll children) = step? children := by
  have hargument : (cleanAll children).findSome? Node.argument? =
      children.findSome? Node.argument? :=
    findSome?_cleanAll_eq (fun _ => rfl) (fun _ _ => rfl) children
  simp only [step?, leaf?_cleanAll .stepLine rfl, hargument]

theorem docString?_cleanAll (children : List Node) :
    docString? (cleanAll children) = docString? children := by
  simp only [docString?, leaf?_cleanAll .docStringSeparator rfl, leaves_cleanAll .other rfl]

theorem rows_cleanAll (children : List Node) : rows (cleanAll children) = rows children := by
  rw [rows, rows, leaves_cleanAll .tableRow rfl]

/-- What a rule has been folded into has no fillers inside it, unless it is a
group. -/
theorem map_clean_ok {β : Type} {f : β → Node} (hf : ∀ b, (f b).clean = f b) (o : Option β) :
    (Except.ok (o.map f) : Except SyntaxError (Option Node)).map (fun node => node.map clean) =
      .ok (o.map f) := by
  cases o with
  | none => rfl
  | some b => exact congrArg (fun node => Except.ok (some node)) (hf b)

/-- A rule is folded alike with and without the fillers among its children. -/
theorem node?_cleanAll (rule : Rule) (children : List Node) :
    node? rule (cleanAll children) = (node? rule children).map fun node => node.map clean := by
  cases rule with
  | step =>
      simp only [node?, step?_cleanAll]
      exact (map_clean_ok (fun _ => rfl) _).symm
  | docString =>
      simp only [node?, docString?_cleanAll]
      exact (map_clean_ok (fun _ => rfl) _).symm
  | dataTable =>
      rw [node?, node?, rows_cleanAll]
      cases DataTable.ofRows (rows children) with
      | error e => rfl
      | ok table => rfl
  | examplesTable =>
      rw [node?, node?, rows_cleanAll]
      cases unevenError? (rows children) with
      | none => rfl
      | some e => rfl
  | description =>
      simp only [node?, description, leaves_cleanAll .other rfl]
      rfl
  | background =>
      simp only [node?, background?_cleanAll]
      exact (map_clean_ok (fun _ => rfl) _).symm
  | scenarioDefinition =>
      simp only [node?, definition?_cleanAll]
      exact (map_clean_ok (fun _ => rfl) _).symm
  | examplesDefinition =>
      simp only [node?, examples?_cleanAll]
      exact (map_clean_ok (fun _ => rfl) _).symm
  | feature =>
      simp only [node?, feature?_cleanAll]
      exact (map_clean_ok (fun _ => rfl) _).symm
  | document =>
      have hfeature : (cleanAll children).findSome? Node.feature? =
          children.findSome? Node.feature? :=
        findSome?_cleanAll_eq (fun _ => rfl) (fun _ _ => rfl) children
      simp only [node?, hfeature]
      rfl
  | root | featureHeader | scenario | scenarioOutline | examples | tags => rfl

end Fold

/-- An open rule without fillers. -/
def Scope.clean (s : Scope) : Scope :=
  ⟨s.rule, Node.cleanAll s.children⟩

namespace Builder

/-- A builder without fillers. -/
def clean (b : Builder) : Builder :=
  ⟨Node.cleanAll b.root, b.scopes.map Scope.clean, b.pending⟩

theorem clean_foldl_start (b : Builder) (rules : List Rule) :
    (rules.foldl start b).clean = rules.foldl start b.clean := by
  induction rules generalizing b with
  | nil => rfl
  | cons rule rules ih => exact ih (b.start rule)

theorem cleanAll_singleton {node : Node} (h : node.isFiller = false) :
    Node.cleanAll [node] = [node.clean] := by
  simp [Node.cleanAll, h]

theorem clean_add {node : Node} (h : node.isFiller = false) (b : Builder) :
    (b.add node).clean = b.clean.add node.clean := by
  obtain ⟨root, _ | ⟨scope, outer⟩, pending⟩ := b
  · simp [add, clean, Node.cleanAll_append, cleanAll_singleton h]
  · simp [add, clean, Scope.clean, Node.cleanAll_append, cleanAll_singleton h]

theorem clean_add_filler {node : Node} (h : node.isFiller) (b : Builder) :
    (b.add node).clean = b.clean := by
  obtain ⟨root, _ | ⟨scope, outer⟩, pending⟩ := b
  · simp [add, clean, Node.cleanAll_append, Node.cleanAll, h]
  · simp [add, clean, Scope.clean, Node.cleanAll_append, Node.cleanAll, h]

/-- No rule is folded into a token. -/
theorem node?_ne_token {rule : Rule} {children : List Node} {leaf : Leaf} :
    Fold.node? rule children ≠ .ok (some (.token leaf)) := by
  intro h
  cases rule with
  | dataTable =>
      rw [Fold.node?] at h
      cases hrows : DataTable.ofRows (Fold.rows children) <;> rw [hrows] at h <;> cases h
  | examplesTable =>
      rw [Fold.node?] at h
      cases hrows : unevenError? (Fold.rows children) <;> rw [hrows] at h <;> cases h
  | _ => simp [Fold.node?] at h

/-- No rule is folded into a filler. -/
theorem isFiller_of_node? {rule : Rule} {children : List Node} {node : Node}
    (h : Fold.node? rule children = .ok (some node)) : node.isFiller = false := by
  cases node with
  | token leaf => exact absurd h node?_ne_token
  | _ => rfl

/-- Closing a rule does not see fillers. -/
theorem close_clean (b : Builder) : b.clean.close = (b.close.1.clean, b.close.2) := by
  obtain ⟨root, _ | ⟨scope, outer⟩, pending⟩ := b
  · rfl
  · simp only [close, clean, List.map_cons, Scope.clean, Fold.node?_cleanAll]
    cases hnode : Fold.node? scope.rule scope.children with
    | error e => rfl
    | ok node =>
        cases node with
        | none => rfl
        | some node =>
            simp only [Except.map, Option.map_some]
            have hadd := clean_add (isFiller_of_node? hnode) ⟨root, outer, pending⟩
            exact congrArg (·, none) hadd.symm

theorem closeMany_clean (n : Nat) (b : Builder) :
    closeMany n b.clean = (closeMany n b).map clean := by
  induction n generalizing b with
  | zero => rfl
  | succ n ih =>
      rw [closeMany, closeMany, close_clean]
      rcases b.close with ⟨b', _ | e⟩
      · exact ih b'
      · rfl

theorem move_clean (b : Builder) (t : Transition) :
    b.clean.move t = (b.move t).map clean := by
  rw [move, move, closeMany_clean, Option.map_map, Option.map_map]
  refine congrArg (fun f => Option.map f _) (funext fun b => ?_)
  exact (clean_foldl_start b t.opens).symm

end Builder
end Gherkin

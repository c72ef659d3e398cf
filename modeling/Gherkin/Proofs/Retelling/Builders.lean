import Gherkin.Proofs.Reader.Drafts
import Gherkin.Proofs.Retelling.Nodes
import Gherkin.Proofs.Run.OpenRules

/-!
# Builders in other places

A builder without fillers is told again by telling its open rules and its waiting
comments again.  It opens and closes rules and takes tokens in as before.
-/

namespace Gherkin

variable (R : Relocation)

namespace Node

variable {R}

theorem relocateAll_append (rule : Rule) (nodes nodes' : List Node) :
    relocateAll R rule (nodes ++ nodes') =
      relocateAll R rule nodes ++ relocateAll R rule nodes' := by
  simp only [relocateAll_eq_map, List.map_append]

end Node

/-- The open rule with its children in their new places. -/
def Scope.relocate (s : Scope) : Scope :=
  ⟨s.rule, Node.relocateAll R s.rule s.children⟩

namespace Builder

/-- The builder with its open rules and its comments in their new places. -/
def relocate (b : Builder) : Builder :=
  ⟨Node.relocateAll R .root b.root, b.scopes.map (Scope.relocate R),
    b.pending.map R.retelling.comment⟩

/-- The rule that takes in the next token. -/
def innermost (b : Builder) : Rule :=
  b.rules.headD .root

/-- The lines of an open description can be told again. -/
def Suits (b : Builder) : Prop :=
  ∀ scope ∈ b.scopes, scope.rule = .description →
    ∀ leaf ∈ Fold.leaves .other scope.children, R.Suits leaf.text

variable {R} {b : Builder}

theorem suits_clean : b.clean.Suits R ↔ b.Suits R := by
  simp only [Suits, clean, List.forall_mem_map, Scope.clean, Fold.leaves_cleanAll .other rfl]

theorem foldl_start_relocate (b : Builder) (rules : List Rule) :
    rules.foldl start (b.relocate R) = (rules.foldl start b).relocate R := by
  induction rules generalizing b with
  | nil => rfl
  | cons rule rules ih => exact ih (b.start rule)

theorem add_relocate (b : Builder) (node : Node) :
    (b.relocate R).add (node.relocate R b.innermost) = (b.add node).relocate R := by
  obtain ⟨root, _ | ⟨scope, outer⟩, pending⟩ := b
  · simp only [add, relocate, List.map_nil, Node.relocateAll_append]
    rfl
  · simp only [add, relocate, List.map_cons, Scope.relocate, Node.relocateAll_append]
    rfl

/-- Closing a rule in its new place. -/
theorem close_relocate (h : b.Suits R) :
    (b.relocate R).close =
      (b.close.1.relocate R, b.close.2.map (SyntaxError.retell R.retelling)) := by
  obtain ⟨root, _ | ⟨scope, outer⟩, pending⟩ := b
  · rfl
  · let around : Builder := ⟨root, outer, pending⟩
    have hfold := Fold.node?_relocateAll
      (h scope List.mem_cons_self) around.innermost
    simp only [close, relocate, List.map_cons, Scope.relocate, hfold]
    cases hnode : Fold.node? scope.rule scope.children with
    | error e => rfl
    | ok node =>
        cases node with
        | none => rfl
        | some node => exact congrArg (·, none) (add_relocate around node)

/-- Taking a token in as a child, in its new place.  Where free text goes decides what
becomes of it. -/
theorem addLeaf_relocate (b : Builder) {kind : TokenKind} {leaf : Leaf} {inside : Bool}
    (hkind : leaf.reading.kind = kind)
    (h : kind = .other → inside = decide (b.innermost = .docString)) :
    (b.relocate R).addLeaf kind (leaf.relocate R inside) = (b.addLeaf kind leaf).relocate R := by
  rw [addLeaf, addLeaf]
  split
  · have hleaf : leaf.relocate R inside = leaf.relocate R (b.innermost = .docString) := by
      by_cases hother : kind = .other
      · rw [h hother]
      · exact Leaf.relocate_congr (hkind ▸ hother) _
    rw [hleaf]
    exact b.add_relocate (.token leaf)
  · rfl

/-! ### Descriptions that are open -/

theorem Suits.foldl_start (h : b.Suits R) (rules : List Rule) : (rules.foldl start b).Suits R := by
  induction rules generalizing b with
  | nil => exact h
  | cons rule rules ih =>
      apply ih
      intro scope hscope hrule leaf hleaf
      rcases List.mem_cons.mp hscope with rfl | hscope
      · cases hleaf
      · exact h scope hscope hrule leaf hleaf

theorem Suits.add (h : b.Suits R) {node : Node}
    (hnode : b.innermost = .description → ∀ leaf, Node.leaf? .other node = some leaf →
      R.Suits leaf.text) :
    (b.add node).Suits R := by
  obtain ⟨root, _ | ⟨scope, outer⟩, pending⟩ := b
  · exact h
  · intro scope' hscope hrule leaf hleaf
    rcases List.mem_cons.mp hscope with rfl | hscope
    · rw [Fold.leaves, List.filterMap_append] at hleaf
      rcases List.mem_append.mp hleaf with hleaf | hleaf
      · exact h scope List.mem_cons_self hrule leaf hleaf
      · obtain ⟨node', hnode', hsome⟩ := List.mem_filterMap.mp hleaf
        rw [List.mem_singleton.mp hnode'] at hsome
        exact hnode hrule leaf hsome
    · exact h scope' (List.mem_cons_of_mem _ hscope) hrule leaf hleaf

theorem Suits.close (h : b.Suits R) : b.close.1.Suits R := by
  obtain ⟨root, _ | ⟨scope, outer⟩, pending⟩ := b
  · exact h
  · have houter : Suits R ⟨root, outer, pending⟩ := fun scope' hscope =>
      h scope' (List.mem_cons_of_mem _ hscope)
    simp only [Builder.close]
    cases hnode : Fold.node? scope.rule scope.children with
    | error e => exact houter
    | ok node =>
        cases node with
        | none => exact houter
        | some node =>
            apply houter.add
            intro _ leaf hleaf
            cases node with
            | token leaf' => exact absurd hnode node?_ne_token
            | _ => cases hleaf

theorem Suits.addLeaf (h : b.Suits R) {kind : TokenKind} {leaf : Leaf}
    (hleaf : leaf.reading.kind = .other → b.innermost = .description → R.Suits leaf.text) :
    (b.addLeaf kind leaf).Suits R := by
  rw [Builder.addLeaf]
  split
  · apply h.add
    intro hinnermost leaf' hsome
    rw [Node.leaf?] at hsome
    split at hsome
    · next hother =>
        obtain rfl := Option.some.inj hsome
        exact hleaf hother hinnermost
    · cases hsome
  · exact h

@[simp] theorem innermost_clean (b : Builder) : b.clean.innermost = b.innermost := by
  rw [innermost, innermost, rules, rules, clean, List.map_map]
  rfl

/-! ### Tokens that have been read -/

/-- The comments that wait behind a token, in their new places. -/
theorem pendingAfter_relocate (pending : List Comment) {t : Token} {reading : Reading}
    (h : t.reading = some reading) (inside : Bool) :
    pendingAfter (pending.map R.retelling.comment) (t.relocateRead R inside)
        (reading.relocate R inside) =
      (pendingAfter pending t reading).map R.retelling.comment := by
  have hkind : (reading.relocate R inside).kind = reading.kind := rfl
  rw [pendingAfter, pendingAfter, hkind]
  split
  · next hcomment =>
      have hplace : (t.relocateRead R inside).location =
          ⟨R.number t.number, t.location.column⟩ := by
        simp only [Token.relocateRead, Token.location, h, Option.map_some, Reading.relocate,
          Content.relocate, hcomment]
        rfl
      have htext : (reading.relocate R inside).text = some (R.behind (reading.text.getD "")) := by
        simp only [Reading.relocate, Content.relocate, hcomment]
        rfl
      rw [hplace, htext, List.map_append]
      rfl
  · split <;> rfl

theorem ofToken_relocate (pending : List Comment) (t : Token) (reading : Reading) (inside : Bool) :
    Leaf.ofToken (pending.map R.retelling.comment) (t.relocateRead R inside)
        (reading.relocate R inside) =
      (Leaf.ofToken pending t reading).relocate R inside := by
  have hkind : (reading.relocate R inside).kind = reading.kind := rfl
  rw [Leaf.ofToken, Leaf.ofToken, hkind]
  split <;> rfl

/-- Taking in a token that has been read, in its new place. -/
theorem build_relocate {b' : Builder} (h : b'.clean = b.clean.relocate R) {t : Token}
    {reading : Reading} (hreading : t.reading = some reading) {inside : Bool}
    (hother : reading.kind = .other → inside = decide (b.innermost = .docString)) :
    (b'.build (t.relocateRead R inside)).clean = (b.build t).clean.relocate R := by
  have hread : (t.relocateRead R inside).reading = some (reading.relocate R inside) := by
    rw [Token.relocateRead, hreading, Option.map_some]
  have hpending : b'.pending = b.pending.map R.retelling.comment :=
    congrArg Builder.pending h
  let waiting : Builder := { b.clean with pending := pendingAfter b.pending t reading }
  let leaf := Leaf.ofToken b.pending t reading
  have hadd : (waiting.relocate R).addLeaf reading.kind (leaf.relocate R inside) =
      (waiting.addLeaf reading.kind leaf).relocate R :=
    addLeaf_relocate waiting rfl (by rwa [← innermost_clean] at hother)
  rw [clean_build b' hread, clean_build b hreading, h, hpending,
    pendingAfter_relocate b.pending hreading, ofToken_relocate, ← hadd]
  rfl

theorem Suits.build (h : b.Suits R) {t : Token} {reading : Reading}
    (hreading : t.reading = some reading)
    (htext : reading.kind = .other → b.innermost = .description →
      R.Suits (reading.text.getD "")) :
    (b.build t).Suits R := by
  rw [← suits_clean, clean_build b hreading]
  have hclean : Suits R { b.clean with pending := pendingAfter b.pending t reading } :=
    suits_clean.mpr h
  apply hclean.addLeaf
  intro hkind hinnermost
  exact htext hkind (b.innermost_clean.symm.trans hinnermost)

/-! ### Results -/

theorem result?_clean (b : Builder) : b.clean.result? = b.result? := by
  have hdocuments : (Node.cleanAll b.root).filterMap Node.document? =
      b.root.filterMap Node.document? :=
    Fold.filterMap_cleanAll_eq (fun _ => rfl) (fun _ _ => rfl) b.root
  rw [result?, result?, ← List.head?_filterMap, ← List.head?_filterMap, List.filterMap_reverse,
    List.filterMap_reverse, ← hdocuments]
  rfl

theorem result?_relocate (b : Builder) :
    (b.relocate R).result? = b.result?.map (Document.retell R.retelling) := by
  have hdocuments : (Node.relocateAll R .root b.root).filterMap Node.document? =
      (b.root.filterMap Node.document?).map (Document.retell R.retelling) :=
    Fold.filterMap_relocateAll (fun node => by cases node <;> rfl) b.root
  rw [result?, result?, ← List.head?_filterMap, ← List.head?_filterMap, List.filterMap_reverse,
    List.filterMap_reverse, ← List.head?_map, List.map_reverse, ← hdocuments]
  rfl

theorem getLast?_rules (b : Builder) :
    (Rule.root :: b.rules.reverse).getLast? = some b.innermost := by
  rw [innermost]
  cases b.rules with
  | nil => rfl
  | cons rule rules =>
      rw [List.reverse_cons, ← List.cons_append, List.getLast?_concat]
      rfl

end Builder
end Gherkin

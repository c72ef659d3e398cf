import Gherkin.Builder
import Gherkin.Grammar
import Gherkin.Proofs.Tree.Basic

/-!
# Closing several rules

What a transition does to a builder, as long as no table that it closes is
uneven.
-/

namespace Gherkin

namespace Builder

/-- Closes a number of rules, unless a table among them is uneven. -/
def closeMany : Nat → Builder → Option Builder
  | 0, b => some b
  | n + 1, b =>
    match b.close with
    | (b, none) => closeMany n b
    | (_, some _) => none

/-- Closes and opens rules as a transition says. -/
def move (b : Builder) (t : Transition) : Option Builder :=
  (closeMany t.closes b).map fun b => t.opens.foldl start b

/-- Adds a token that trees hold. -/
def addLeaf (b : Builder) (kind : TokenKind) (leaf : Leaf) : Builder :=
  if kind.isTerminal then b.add (.token leaf) else b

/-- The innermost rule is folded into a child of the rule around it. -/
theorem closeMany_fold {rule rule' : Rule} {children children' : List Node} {node : Node}
    (h : Fold.node? rule children = .ok (some node)) (n : Nat) (outer : List Scope)
    (pending : List Comment) :
    closeMany (n + 1) ⟨[], ⟨rule, children⟩ :: ⟨rule', children'⟩ :: outer, pending⟩ =
      closeMany n ⟨[], ⟨rule', children' ++ [node]⟩ :: outer, pending⟩ := by
  rw [closeMany, close]
  simp only [h]
  rfl

end Builder

end Gherkin

import Gherkin.Proofs.Builder.Uneven
import Gherkin.Proofs.Reader.Drafts
import Mathlib.Data.List.ModifyLast

/-!
# Balanced calls

Calls that close the rules that they open, and no others, stay inside the rule
that is open in front of them.  A rule that is opened, filled by balanced calls
and closed again adds at most one child to the rule around it, and none when it
is an uneven table.  Whatever is called, the root stays below all other rules.
-/

namespace Gherkin

/-- The rule with more children. -/
def Scope.extend (s : Scope) (nodes : List Node) : Scope :=
  { s with children := s.children ++ nodes }

/-- The rule behind the taking of its last document, which leaves an empty one. -/
def Scope.clearDocument (s : Scope) : Scope :=
  { s with children := (Builder.clearFirst s.children.reverse).reverse }

namespace Builder

/-! ### Calls -/

/-- What a builder can be asked to do. -/
inductive Call where
  | start (rule : Rule)
  | build (t : Token)
  | close
  | reset
  | takeResult

/-- The builder behind a call, and the error that the call ends in. -/
def call (b : Builder) : Call → Builder × Option SyntaxError
  | .start rule => (b.start rule, none)
  | .build t => (b.build t, none)
  | .close => b.close
  | .reset => (b.reset, none)
  | .takeResult => (b.clearResult, none)

/-- The builder behind several calls, none of which is left out when one ends in an error. -/
def calls (b : Builder) (cs : List Call) : Builder :=
  cs.foldl (fun b c => (b.call c).1) b

/-- How many rules that have been opened since some point are open behind a call, when `n` of them
are open in front of it.  There is no answer when the call reaches behind that point. -/
def Call.depth? : Nat → Call → Option Nat
  | n, start _ => some (n + 1)
  | n, build _ => some n
  | 0, close => none
  | n + 1, close => some n
  | _, reset | _, takeResult => none

/-- The calls close every rule that they open and no other rule. -/
def Balanced (cs : List Call) : Prop :=
  cs.foldlM Call.depth? 0 = some 0

instance (cs : List Call) : Decidable (Balanced cs) :=
  inferInstanceAs (Decidable (cs.foldlM Call.depth? 0 = some 0))

/-! ### Plain stacks -/

/-- A stack of rules, innermost first, where nothing but its place tells the root, and the comments
that wait. -/
structure Stack where
  scopes : List Scope
  pending : List Comment

/-- The open rules of a builder as a plain stack. -/
def stack (b : Builder) : Stack :=
  ⟨b.scopes ++ [⟨.root, b.root⟩], b.pending⟩

namespace Stack

/-- The stack before anything has been opened. -/
def new : Stack :=
  ⟨[⟨.root, []⟩], []⟩

/-- Adds a child to the innermost rule. -/
def add (s : Stack) (node : Node) : Stack :=
  match s.scopes with
  | [] => s
  | scope :: outer => { s with scopes := scope.extend [node] :: outer }

/-- Takes a token in as a child, or as a comment that waits. -/
def build (s : Stack) (t : Token) : Stack :=
  match t.reading with
  | none => s
  | some reading =>
    let waiting : Stack := { s with pending := pendingAfter s.pending t reading }
    if reading.kind = .comment then waiting
    else waiting.add (.token (.ofToken s.pending t reading))

/-- Closes the innermost rule, if there is another one below it. -/
def close (s : Stack) : Stack × Option SyntaxError :=
  match s.scopes with
  | scope :: parent :: outer =>
    match Fold.node? scope.rule scope.children with
    | .ok node? => ({ s with scopes := parent.extend node?.toList :: outer }, none)
    | .error e => ({ s with scopes := parent :: outer }, some e)
  | _ => (s, none)

/-- The stack behind a call, and the error that the call ends in. -/
def call (s : Stack) : Call → Stack × Option SyntaxError
  | .start rule => ({ s with scopes := ⟨rule, []⟩ :: s.scopes }, none)
  | .build t => (s.build t, none)
  | .close => s.close
  | .reset => (new, none)
  | .takeResult => ({ s with scopes := s.scopes.modifyLast Scope.clearDocument }, none)

/-- The stack behind several calls. -/
def calls (s : Stack) (cs : List Call) : Stack :=
  cs.foldl (fun s c => (s.call c).1) s

end Stack

/-! ### A builder is a plain stack -/

theorem stack_add (b : Builder) (node : Node) : (b.add node).stack = b.stack.add node := by
  obtain ⟨root, _ | ⟨scope, outer⟩, pending⟩ := b <;> rfl

theorem stack_build (b : Builder) (t : Token) : (b.build t).stack = b.stack.build t := by
  rw [build, Stack.build]
  cases t.reading with
  | none => rfl
  | some reading =>
      simp only [pendingAfter, Leaf.ofToken]
      by_cases hcomment : reading.kind = .comment
      · simp only [if_pos hcomment]
        rfl
      · simp only [if_neg hcomment]
        split
        · exact stack_add _ _
        · exact stack_add _ _

theorem stack_close (b : Builder) : b.stack.close = (b.close.1.stack, b.close.2) := by
  obtain ⟨root, _ | ⟨scope, _ | ⟨parent, outer⟩⟩, pending⟩ := b
  · rfl
  -- the rule around a closed one is the root or another open rule
  all_goals
    simp only [stack, Stack.close, close, List.cons_append, List.nil_append]
    rcases Fold.node? scope.rule scope.children with e | _ | node
    · rfl
    · simp [Scope.extend]
    · rfl

theorem stack_call (b : Builder) (c : Call) :
    b.stack.call c = ((b.call c).1.stack, (b.call c).2) := by
  cases c with
  | start rule => rfl
  | build t => exact congrArg (·, none) (b.stack_build t).symm
  | close => exact b.stack_close
  | reset => rfl
  | takeResult =>
      rw [stack, Stack.call, List.modifyLast_concat]
      rfl

/-- A builder does what its plain stack does. -/
theorem stack_calls (b : Builder) (cs : List Call) : (b.calls cs).stack = b.stack.calls cs := by
  induction cs generalizing b with
  | nil => rfl
  | cons c cs ih =>
      have hcall : (b.call c).1.stack = (b.stack.call c).1 := by rw [stack_call]
      rw [calls, List.foldl_cons, ← calls, ih, hcall]
      rfl

/-! ### Calls inside a rule -/

namespace Stack

/-- Inside of a rule, which has `outer` around it, `n` rules are open. -/
def Within (s : Stack) (outer : List Scope) (rule : Rule) (n : Nat) : Prop :=
  ∃ inner children, inner.length = n ∧ s.scopes = inner ++ ⟨rule, children⟩ :: outer

variable {s : Stack} {outer : List Scope} {rule : Rule} {n m : Nat}

/-- More children for the innermost rule. -/
theorem Within.extend {scope : Scope} {rest : List Scope} {pending pending' : List Comment}
    (h : Within ⟨scope :: rest, pending⟩ outer rule n) (nodes : List Node) :
    Within ⟨scope.extend nodes :: rest, pending'⟩ outer rule n := by
  obtain ⟨_ | ⟨first, inner⟩, children, rfl, hscopes⟩ := h
  · obtain ⟨rfl, rfl⟩ := List.cons.inj hscopes
    exact ⟨[], children ++ nodes, rfl, rfl⟩
  · obtain ⟨rfl, rfl⟩ := List.cons.inj hscopes
    exact ⟨scope.extend nodes :: inner, children, rfl, rfl⟩

theorem Within.add (h : s.Within outer rule n) (node : Node) :
    (s.add node).Within outer rule n := by
  obtain ⟨_ | ⟨scope, rest⟩, pending⟩ := s
  · exact h
  · exact h.extend [node]

theorem Within.build (h : s.Within outer rule n) (t : Token) :
    (s.build t).Within outer rule n := by
  rw [Stack.build]
  cases t.reading with
  | none => exact h
  | some reading =>
      have hwaiting :
          Within { s with pending := pendingAfter s.pending t reading } outer rule n := h
      dsimp only
      split
      · exact hwaiting
      · exact hwaiting.add _

/-- How a rule is closed: the rule around it gets at most one child more, or stays as it is and
there is an error. -/
inductive Closes (scope parent : Scope) : Scope → Option SyntaxError → Prop
  | folded (node? : Option Node) (fold : Fold.node? scope.rule scope.children = .ok node?) :
      Closes scope parent (parent.extend node?.toList) none
  | dropped (e : SyntaxError) (fold : Fold.node? scope.rule scope.children = .error e) :
      Closes scope parent parent (some e)

theorem close_closes (scope parent : Scope) (rest : List Scope) (pending : List Comment) :
    ∃ parent' error?, Closes scope parent parent' error? ∧
      close ⟨scope :: parent :: rest, pending⟩ = (⟨parent' :: rest, pending⟩, error?) := by
  cases hfold : Fold.node? scope.rule scope.children with
  | ok node? => exact ⟨_, _, .folded node? hfold, by simp only [close, hfold]⟩
  | error e => exact ⟨_, _, .dropped e hfold, by simp only [close, hfold]⟩

theorem Within.close (h : s.Within outer rule (n + 1)) : s.close.1.Within outer rule n := by
  obtain ⟨scopes, pending⟩ := s
  obtain ⟨_ | ⟨scope, inner⟩, children, hlength, rfl⟩ := h
  · cases hlength
  have hbelow : Within ⟨inner ++ ⟨rule, children⟩ :: outer, pending⟩ outer rule n :=
    ⟨inner, children, Nat.succ.inj hlength, rfl⟩
  rw [List.cons_append]
  cases hrest : inner ++ ⟨rule, children⟩ :: outer with
  | nil => simp at hrest
  | cons parent rest =>
      rw [hrest] at hbelow
      obtain ⟨parent', error?, hcloses, hclose⟩ := close_closes scope parent rest pending
      rw [hclose]
      cases hcloses with
      | folded node? => exact hbelow.extend node?.toList
      | dropped e => exact hbelow

theorem Within.call (h : s.Within outer rule n) {c : Call} (hc : c.depth? n = some m) :
    (s.call c).1.Within outer rule m := by
  cases c with
  | start opened =>
      obtain rfl := Option.some.inj hc
      obtain ⟨inner, children, rfl, hscopes⟩ := h
      exact ⟨⟨opened, []⟩ :: inner, children, rfl, congrArg (_ :: ·) hscopes⟩
  | build t =>
      obtain rfl := Option.some.inj hc
      exact h.build t
  | close =>
      cases n with
      | zero => cases hc
      | succ n =>
          obtain rfl := Option.some.inj hc
          exact h.close
  | reset | takeResult => cases n <;> cases hc

/-- Calls that do not reach behind a point leave what was there. -/
theorem Within.calls (h : s.Within outer rule n) {cs : List Call}
    (hcs : cs.foldlM Call.depth? n = some m) : (s.calls cs).Within outer rule m := by
  induction cs generalizing s n with
  | nil =>
      obtain rfl := Option.some.inj hcs
      exact h
  | cons c cs ih =>
      obtain ⟨k, hk, hcs⟩ := Option.bind_eq_some_iff.mp hcs
      exact ih (h.call hk) hcs

/-! ### The root -/

/-- The root is below all other rules. -/
def Rooted (s : Stack) : Prop :=
  ∃ inner children, s.scopes = inner ++ [⟨.root, children⟩]

theorem Within.rooted (h : s.Within [] .root n) : s.Rooted :=
  let ⟨inner, children, _, hscopes⟩ := h
  ⟨inner, children, hscopes⟩

theorem Rooted.within (h : s.Rooted) : ∃ n, s.Within [] .root n :=
  let ⟨inner, children, hscopes⟩ := h
  ⟨inner.length, inner, children, rfl, hscopes⟩

theorem Rooted.call (h : s.Rooted) (c : Call) : (s.call c).1.Rooted := by
  obtain ⟨n, hwithin⟩ := h.within
  cases c with
  | start rule => exact (hwithin.call (c := .start rule) rfl).rooted
  | build t => exact (hwithin.call (c := .build t) rfl).rooted
  | close =>
      cases n with
      | zero =>
          -- the root alone is not closed
          obtain ⟨inner, children, hlength, hscopes⟩ := hwithin
          obtain rfl := List.length_eq_zero_iff.mp hlength
          have hstays : s.close = (s, none) := by
            rw [close, hscopes]
            rfl
          exact ⟨[], children, (congrArg (fun x => x.1.scopes) hstays).trans hscopes⟩
      | succ n => exact hwithin.close.rooted
  | reset => exact ⟨[], [], rfl⟩
  | takeResult =>
      obtain ⟨inner, children, hscopes⟩ := h
      refine ⟨inner, (Scope.clearDocument ⟨.root, children⟩).children, ?_⟩
      rw [Stack.call, hscopes, List.modifyLast_concat]
      rfl

theorem Rooted.calls (h : s.Rooted) (cs : List Call) : (s.calls cs).Rooted := by
  induction cs generalizing s with
  | nil => exact h
  | cons c cs ih => exact ih (h.call c)

end Stack

theorem rooted_stack (b : Builder) : b.stack.Rooted :=
  ⟨b.scopes, b.root, rfl⟩

/-! ### Errors -/

/-- Only uneven tables are not folded. -/
theorem node?_eq_error_iff {rule : Rule} {children : List Node} {e : SyntaxError} :
    Fold.node? rule children = .error e ↔
      (rule = .dataTable ∨ rule = .examplesTable) ∧ e.Reports (Fold.rows children) := by
  rw [← unevenError?_eq_some_iff]
  cases rule with
  | dataTable =>
      rw [Fold.node?, DataTable.ofRows]
      cases unevenError? (Fold.rows children) <;> simp
  | examplesTable =>
      rw [Fold.node?]
      cases unevenError? (Fold.rows children) <;> simp
  | _ => simp [Fold.node?]

/-- Closing ends in an error just where the innermost rule is a table that is uneven. -/
theorem snd_close_eq_some_iff (b : Builder) (e : SyntaxError) :
    b.close.2 = some e ↔ ∃ scope ∈ b.stack.scopes.head?,
      (scope.rule = .dataTable ∨ scope.rule = .examplesTable) ∧
        e.Reports (Fold.rows scope.children) := by
  obtain ⟨root, _ | ⟨scope, outer⟩, pending⟩ := b
  · simp [close, stack]
  · simp only [close, stack, List.cons_append, List.head?_cons, Option.mem_def,
      Option.some.injEq, exists_eq_left', ← node?_eq_error_iff]
    rcases Fold.node? scope.rule scope.children with _ | _ | _ <;> simp

/-! ### Locality -/

/-- A rule that is opened, filled by balanced calls and closed again is closed under the rule that
was open in front of it, and nothing else changes among the open rules.  Closing ends in an error
just where it closes an uneven table.  Whatever is called, the root is below all other rules, and
it is not closed. -/
theorem rules_close_locally (b : Builder) :
    (∀ rule inner, Balanced inner → ∃ parent below children parent',
      b.stack.scopes = parent :: below ∧
        (b.calls (.start rule :: inner)).stack.scopes = ⟨rule, children⟩ :: parent :: below ∧
        Stack.Closes ⟨rule, children⟩ parent parent' (b.calls (.start rule :: inner)).close.2 ∧
        (b.calls (.start rule :: inner ++ [.close])).stack.scopes = parent' :: below) ∧
      (∀ e, b.close.2 = some e ↔ ∃ scope ∈ b.stack.scopes.head?,
        (scope.rule = .dataTable ∨ scope.rule = .examplesTable) ∧
          e.Reports (Fold.rows scope.children)) ∧
      (∀ c, b.stack.call c = ((b.call c).1.stack, (b.call c).2)) ∧
      (∀ cs, (b.calls cs).stack = b.stack.calls cs ∧ (b.stack.calls cs).Rooted) ∧
      (b.stack.scopes.length = 1 → b.close = (b, none)) := by
  refine ⟨fun rule inner hinner => ?_, b.snd_close_eq_some_iff, b.stack_call,
    fun cs => ⟨b.stack_calls cs, b.rooted_stack.calls cs⟩, fun hroot => ?_⟩
  · obtain ⟨parent, below, hscopes⟩ : ∃ parent below, b.stack.scopes = parent :: below :=
      List.exists_cons_of_ne_nil (by simp [stack])
    have hopened : (b.stack.call (.start rule)).1.Within (parent :: below) rule 0 :=
      ⟨[], [], rfl, congrArg (_ :: ·) hscopes⟩
    obtain ⟨_, children, hlength, hfilled⟩ := hopened.calls hinner
    obtain rfl := List.length_eq_zero_iff.mp hlength
    let filled := b.calls (.start rule :: inner)
    have hstack : filled.stack.scopes = ⟨rule, children⟩ :: parent :: below := by
      rw [stack_calls]
      exact hfilled
    obtain ⟨parent', error?, hcloses, hclose⟩ :=
      Stack.close_closes ⟨rule, children⟩ parent below filled.stack.pending
    have hclosed := filled.stack_close.symm.trans (hstack ▸ hclose)
    refine ⟨parent, below, children, parent', hscopes, hstack, ?_, ?_⟩
    · rw [congrArg Prod.snd hclosed]
      exact hcloses
    · rw [calls, List.foldl_append]
      exact congrArg (fun x => x.1.scopes) hclosed
  · have hnone : b.scopes = [] := by simpa [stack] using hroot
    rw [close, hnone]

/-- A step in a scenario, whose table is uneven and is dropped when it is closed. -/
theorem rules_close_locally_uneven :
    let read (number : Nat) (kind : TokenKind) (cells : List String) : Token :=
      ⟨some ⟨[]⟩, number, some
        { kind := kind, indent := 0, items := cells.map (⟨1, ·⟩), dialect := ⟨"en", fun _ => []⟩ }⟩
    let rows := [Call.build (read 2 .tableRow ["a", "b"]), .build (read 3 .tableRow ["1"])]
    let inner := .build (read 1 .stepLine []) :: .start .dataTable :: (rows ++ [.close])
    let scenario := Builder.start {} .scenario
    let table := scenario.calls (.start .step :: inner.dropLast)
    Balanced inner ∧
      (∃ parent below children parent',
        scenario.stack.scopes = parent :: below ∧
          (scenario.calls (.start .step :: inner)).stack.scopes =
            ⟨.step, children⟩ :: parent :: below ∧
          Stack.Closes ⟨.step, children⟩ parent parent'
            (scenario.calls (.start .step :: inner)).close.2 ∧
          (scenario.calls (.start .step :: inner ++ [.close])).stack.scopes = parent' :: below) ∧
      table.close.2 = some ⟨.unevenTable 2 1, ⟨3, 1⟩⟩ ∧
      (∃ scope ∈ table.stack.scopes.head?,
        (scope.rule = .dataTable ∨ scope.rule = .examplesTable) ∧
          SyntaxError.Reports ⟨.unevenTable 2 1, ⟨3, 1⟩⟩ (Fold.rows scope.children)) ∧
      (Builder.stack {}).scopes.length = 1 ∧ Builder.close {} = ({}, none) := by
  intro read rows inner scenario table
  have hbalanced : Balanced inner := by decide
  have herror : table.close.2 = some ⟨.unevenTable 2 1, ⟨3, 1⟩⟩ := rfl
  have hlocal := (rules_close_locally scenario).1 .step inner hbalanced
  have htable := ((rules_close_locally table).2.1 _).mp herror
  exact ⟨hbalanced, hlocal, herror, htable, rfl, (rules_close_locally {}).2.2.2.2 rfl⟩

end Builder
end Gherkin

import Gherkin.Proofs.Draft.Scopes

/-!
# Tables that are being read

The rows behind the last line that is not a row, a blank line or a comment.  The
table that a draft reads is even when they have the same number of cells.
-/

namespace Gherkin

namespace Draft

variable {α : Type}

/-- The rows of the table that is being read, if there is one. -/
def Step.rows : Step α → List α
  | table _ first rest => first :: rest
  | _ => []

/-- The rows of the table that is being read, if there is one. -/
def Body.rows : Body α → List α
  | heading _ => []
  | step _ _ last => last.rows

/-- The rows of the table that is being read, if there is one. -/
def rows : Draft α → List α
  | background _ b => b.rows
  | scenario _ _ b => b.rows
  | outline _ _ b => b.rows
  | examplesTable _ _ _ _ first rest => first :: rest
  | _ => []

/-- The rows behind another line, where `rows` are those in front of it. -/
def rowsBehind (rows : List α) (kind : TokenKind) (a : α) : List α :=
  match kind with
  | .tableRow => rows ++ [a]
  | .empty | .comment => rows
  | _ => []

theorem Step.rows_push {s s' : Step α} {kind : TokenKind} {a : α} (h : s.push kind a = some s') :
    s'.rows = rowsBehind s.rows kind a := by
  cases s <;> cases kind <;> first | (cases h; done) | (obtain rfl := Option.some.inj h; rfl)

theorem Body.rows_push {b b' : Body α} {kind : TokenKind} {a : α} (h : b.push kind a = some b') :
    b'.rows = rowsBehind b.rows kind a := by
  unfold push at h
  split at h
  · next hkind =>
      subst hkind
      obtain ⟨t, -, rfl⟩ := Option.map_eq_some_iff.mp h
      rfl
  · split at h
    · next heading =>
        obtain ⟨heading', hpush, rfl⟩ := Option.map_eq_some_iff.mp h
        cases heading <;> cases kind <;> first | (cases hpush; done) | rfl
    · next heading steps last =>
        obtain ⟨last', hpush, rfl⟩ := Option.map_eq_some_iff.mp h
        exact last.rows_push hpush

theorem rows_pushInside {d d' : Draft α} {kind : TokenKind} {a : α}
    (h : d.pushInside kind a = some d') : d'.rows = rowsBehind d.rows kind a := by
  cases d with
  | background header b | scenario f tags b | outline f tags b =>
      obtain ⟨b', hpush, rfl⟩ := Option.map_eq_some_iff.mp h
      exact b.rows_push hpush
  | feature lang tags heading =>
      obtain ⟨heading', hpush, rfl⟩ := Option.map_eq_some_iff.mp h
      cases heading <;> cases kind <;> first | (cases hpush; done) | rfl
  | examples f o tags heading =>
      cases kind with
      | tableRow =>
          obtain rfl := Option.some.inj h
          rfl
      | _ =>
          obtain ⟨heading', hpush, rfl⟩ := Option.map_eq_some_iff.mp h
          cases heading <;> first | (cases hpush; done) | rfl
  | examplesTable f o tags heading first rest =>
      cases kind <;> first | (cases h; done) | (obtain rfl := Option.some.inj h; rfl)
  | finished document => cases kind <;> cases h
  | start | language | featureTags | definitionTags | examplesTags =>
      cases kind <;> first | (cases h; done) | (obtain rfl := Option.some.inj h; rfl)

theorem rows_pushTags {d d' : Draft α} {ahead : Bool} {a : α}
    (h : d.pushTags ahead a = some d') : d'.rows = [] := by
  unfold pushTags at h
  split at h
  case h_6 =>
    split at h
    · obtain rfl := Option.some.inj h
      rfl
    · obtain ⟨f, -, rfl⟩ := Option.map_eq_some_iff.mp h
      rfl
  all_goals
    obtain rfl := Option.some.inj h
    rfl

theorem rows_pushDefinition {d d' : Draft α}
    {definition : Tree.Feature α → List α → Body α → Draft α}
    (hrows : ∀ f tags b, (definition f tags b).rows = b.rows) {a : α}
    (h : d.pushDefinition definition a = some d') : d'.rows = [] := by
  unfold pushDefinition at h
  split at h
  · obtain rfl := Option.some.inj h
    exact hrows _ _ _
  · obtain ⟨f, -, rfl⟩ := Option.map_eq_some_iff.mp h
    exact hrows _ _ _

/-- The rows of the table that is being read behind another line. -/
theorem rows_push {d d' : Draft α} {kind : TokenKind} {ahead : Bool} {a : α}
    (h : d.push kind ahead a = some d') : d'.rows = rowsBehind d.rows kind a := by
  cases kind with
  | eof =>
      obtain ⟨document, -, rfl⟩ := Option.map_eq_some_iff.mp h
      rfl
  | language =>
      cases d with
      | start =>
          obtain rfl := Option.some.inj h
          rfl
      | _ => cases h
  | tagLine => exact rows_pushTags h
  | featureLine =>
      cases d with
      | start | language | featureTags =>
          obtain rfl := Option.some.inj h
          rfl
      | _ => cases h
  | backgroundLine =>
      cases d with
      | feature =>
          obtain rfl := Option.some.inj h
          rfl
      | _ => cases h
  | scenarioLine => exact rows_pushDefinition (fun f tags b => rfl) h
  | scenarioOutlineLine => exact rows_pushDefinition (fun f tags b => rfl) h
  | examplesLine =>
      replace h : d.pushExamples a = some d' := h
      unfold pushExamples at h
      split at h
      · obtain rfl := Option.some.inj h
        rfl
      · obtain ⟨⟨f, o⟩, -, rfl⟩ := Option.map_eq_some_iff.mp h
        rfl
  | _ => exact rows_pushInside h

/-- Rows with the same number of cells make an even table. -/
theorem even_of_rows {d : Draft Leaf} {columns : Option Nat}
    (h : ∀ row ∈ d.rows, columns = some row.reading.items.length) : d.Even := by
  have hrows : ∀ first rest,
      (∀ row ∈ first :: rest, columns = some row.reading.items.length) →
      Tree.EvenRows first rest := by
    intro first rest hall row hrow
    have hfirst := hall first (by simp)
    have hlast := hall row (by simp [hrow])
    rw [hfirst] at hlast
    exact (Option.some.inj hlast).symm
  have hbody : ∀ b : Body Leaf,
      (∀ row ∈ b.rows, columns = some row.reading.items.length) → b.Even := by
    intro b hall
    cases b with
    | heading => trivial
    | step heading steps last =>
        cases last with
        | table line first rest => exact hrows first rest hall
        | bare | docString | closed => trivial
  cases d with
  | background header b => exact hbody b h
  | scenario f tags b => exact hbody b h
  | outline f tags b => exact hbody b h
  | examplesTable f o tags heading first rest => exact hrows first rest h
  | _ => trivial

end Draft
end Gherkin

import Gherkin.Proofs.Builder.Fillers
import Gherkin.Proofs.Retelling.Lines

/-!
# Rules in other places

The children of a rule are told again as their lines are, and then the rule is
folded into what it was folded into, told again.  What becomes of free text
depends on the rule that holds it: a doc string does not show the blanks in front
of its lines, and a description does.
-/

namespace Gherkin

variable (R : Relocation)

/-! ### Joined lines -/

namespace Relocation

/-- A line break inside a line would be taken for the end of one when the line is joined with
others, which only shows if blanks stand in front of the lines. -/
def Suits (s : String) : Prop :=
  '\n' ∈ s.toList → R.blanks = []

/-- The joined lines of a description, each behind the blanks. -/
def joined (s : String) : String :=
  if s = "" then "" else R.behind (R.retelling.description s)

variable {R}

theorem trimString_behind (s : String) : Text.trimString (R.behind s) = Text.trimString s := by
  rw [Text.trimString, behind, String.toList_ofList, Text.trim_append_left_of_allBlank R.allBlank]
  rfl

theorem trimString_description (s : String) :
    Text.trimString (R.retelling.description s) = R.retelling.description (Text.trimString s) := by
  simp only [Text.trimString, retelling, String.toList_ofList, Text.trim_hang R.allBlank]

theorem description_eq_empty_iff {s : String} : R.retelling.description s = "" ↔ s = "" := by
  rw [← String.toList_inj, ← String.toList_inj, retelling, String.toList_ofList]
  constructor
  · intro h
    cases hs : s.toList with
    | nil => rfl
    | cons c cs =>
        rw [hs, Text.hang, List.flatMap_cons] at h
        split at h <;> cases h
  · intro h
    rw [h]
    rfl

theorem intercalate_map_behind {lines : List String} (hne : lines ≠ [])
    (h : ∀ line ∈ lines, R.Suits line) :
    "\n".intercalate (lines.map R.behind) =
      R.behind (R.retelling.description ("\n".intercalate lines)) := by
  have hsuits : ∀ line ∈ lines.map String.toList, '\n' ∈ line → R.blanks = [] := by
    intro cs hcs
    obtain ⟨line, hline, rfl⟩ := List.mem_map.mp hcs
    exact h line hline
  have hjoin := Text.intercalate_map_append (by simpa using hne) hsuits
  have hlines : (lines.map R.behind).map String.toList =
      (lines.map String.toList).map (R.blanks ++ ·) := by
    rw [List.map_map, List.map_map]
    exact List.map_congr_left fun line _ => String.toList_ofList
  apply String.toList_injective
  rw [String.toList_intercalate, hlines]
  simp only [behind, retelling, String.toList_ofList, String.toList_intercalate]
  exact hjoin

/-- A description is joined alike from lines behind the blanks; blank lines at its end are left
out in both cases. -/
theorem intercalate_kept {lines : List String} (h : ∀ line ∈ lines, R.Suits line) :
    let blank (line : String) := (Text.trimString line).isEmpty
    "\n".intercalate ((lines.map R.behind).reverse.dropWhile blank).reverse =
      R.joined ("\n".intercalate (lines.reverse.dropWhile blank).reverse) := by
  intro blank
  have hblank : blank ∘ R.behind = blank := funext fun line =>
    congrArg String.isEmpty (trimString_behind line)
  rw [← List.map_reverse, List.dropWhile_map, hblank, ← List.map_reverse]
  have hkept : ∀ line ∈ (lines.reverse.dropWhile blank).reverse, R.Suits line := by
    intro line hline
    apply h
    exact List.mem_reverse.mp ((List.dropWhile_sublist _).subset (List.mem_reverse.mp hline))
  cases hlast : lines.reverse.dropWhile blank with
  | nil => rfl
  | cons last front =>
      rw [hlast] at hkept
      have hshown : blank last = false := by
        have hnot := List.head?_dropWhile_not blank lines.reverse
        rw [hlast] at hnot
        simpa using hnot
      have hne : "\n".intercalate (last :: front).reverse ≠ "" := by
        intro hempty
        have hjoined := congrArg String.toList hempty
        rw [String.toList_intercalate] at hjoined
        have hnil : last.toList = [] := Text.eq_nil_of_intercalate_eq_nil hjoined _ (by simp)
        rw [String.toList_eq_nil_iff.mp hnil] at hshown
        cases hshown
      rw [intercalate_map_behind (by simp) hkept, joined, if_neg hne]

end Relocation

/-! ### Leaves and nodes -/

/-- The token in its new place, as a child of a doc string or of another rule. -/
def Leaf.relocate (inside : Bool) (l : Leaf) : Leaf :=
  ⟨R.number l.line, l.reading.relocate R inside, l.comments.map R.retelling.comment⟩

namespace Leaf

variable {R} {inside : Bool} {l : Leaf}

@[simp] theorem kind_relocate : (l.relocate R inside).reading.kind = l.reading.kind := rfl

@[simp] theorem keyword_relocate : (l.relocate R inside).keyword = l.keyword := rfl

@[simp] theorem tags_relocate :
    (l.relocate R inside).tags = l.tags.map (Tag.retell R.retelling) := by
  simp only [tags, relocate, Reading.relocate, Content.relocate, List.map_map]
  rfl

theorem location_relocate (h : l.reading.kind.isFlush = false) :
    (l.relocate R inside).location = R.retelling.place l.location := by
  rw [location, location, R.retelling_place_succ]
  simp only [relocate, Reading.relocate, Content.relocate, h]
  rfl

theorem row_relocate (h : l.reading.kind.isFlush = false) :
    (l.relocate R inside).row = l.row.retell R.retelling := by
  rw [row, row, location_relocate h, TableRow.retell, List.map_map]
  simp only [relocate, Reading.relocate, Content.relocate, List.map_map]
  rfl

theorem text_relocate (h : l.reading.kind.showsBlanks inside = false) :
    (l.relocate R inside).text = l.text := by
  simp only [text, relocate, Reading.relocate, Content.relocate, h]
  rfl

theorem text_relocate_of_showsBlanks (h : l.reading.kind.showsBlanks inside = true) :
    (l.relocate R inside).text = R.behind l.text := by
  simp only [text, relocate, Reading.relocate, Content.relocate, h]
  rfl

/-- Only free text depends on the rule that holds it. -/
theorem relocate_congr (h : l.reading.kind ≠ .other) (inside' : Bool) :
    l.relocate R inside = l.relocate R inside' := by
  have hshows : l.reading.kind.showsBlanks inside = l.reading.kind.showsBlanks inside' := by
    revert h
    cases l.reading.kind <;> simp [TokenKind.showsBlanks]
  simp only [relocate, Reading.relocate, Content.relocate, hshows]

end Leaf

mutual

/-- The child of a rule in its new place. -/
def Node.relocate (rule : Rule) : Node → Node
  | token leaf => .token (leaf.relocate R (rule = .docString))
  | group r children => .group r (Node.relocateAll r children)
  | description text => .description (R.joined text)
  | step s => .step (s.retell R.retelling)
  | dataTable table => .dataTable (table.retell R.retelling)
  | docString d => .docString (d.retell R.retelling)
  | definition d => .definition (d.retell R.retelling)
  | examples e => .examples (e.retell R.retelling)
  | examplesTable rows => .examplesTable (rows.map (TableRow.retell R.retelling))
  | feature f => .feature (f.retell R.retelling)
  | document d => .document (d.retell R.retelling)

/-- The children of a rule in their new places. -/
def Node.relocateAll (rule : Rule) : List Node → List Node
  | [] => []
  | node :: nodes => node.relocate rule :: Node.relocateAll rule nodes

end

theorem Node.relocateAll_eq_map (rule : Rule) (nodes : List Node) :
    relocateAll R rule nodes = nodes.map (relocate R rule) := by
  induction nodes with
  | nil => rfl
  | cons node nodes ih => rw [relocateAll, ih, List.map_cons]


namespace Node

variable {R} {rule : Rule}

theorem leaf?_relocate (kind : TokenKind) (node : Node) :
    leaf? kind (node.relocate R rule) =
      (leaf? kind node).map (Leaf.relocate R (rule = .docString)) := by
  cases node with
  | token leaf =>
      rw [relocate, leaf?, leaf?, Leaf.kind_relocate]
      by_cases hkind : leaf.reading.kind = kind
      · rw [if_pos hkind, if_pos hkind, Option.map_some]
      · rw [if_neg hkind, if_neg hkind, Option.map_none]
  | _ => rfl

theorem kind_of_leaf? {kind : TokenKind} {node : Node} {leaf : Leaf}
    (h : leaf? kind node = some leaf) : leaf.reading.kind = kind := by
  cases node with
  | token l =>
      rw [leaf?] at h
      split at h
      · next hkind => rwa [← Option.some.inj h]
      · cases h
  | _ => cases h

theorem group?_relocate (inner : Rule) (node : Node) :
    group? inner (node.relocate R rule) = (group? inner node).map (relocateAll R inner) := by
  cases node with
  | group r children =>
      simp only [relocate, group?]
      split
      · next hr => rw [hr, Option.map_some]
      · rfl
  | _ => rfl

theorem description?_relocate (node : Node) :
    description? (node.relocate R rule) =
      (description? node).map R.retelling.description := by
  cases node with
  | description text =>
      simp only [relocate, description?, Relocation.joined]
      by_cases htext : text = ""
      · rw [if_pos htext, htext]
        rfl
      · rw [if_neg htext, Relocation.trimString_behind, Relocation.trimString_description]
        by_cases htrimmed : Text.trimString text = ""
        · rw [htrimmed]
          rfl
        · have hshown : R.retelling.description (Text.trimString text) ≠ "" :=
            fun h => htrimmed (Relocation.description_eq_empty_iff.mp h)
          simp [htrimmed, hshown]
  | _ => rfl

end Node

/-! ### Folding -/

namespace Fold

open Node

variable {R} {rule : Rule}

section

variable {β γ : Type} {f : Node → Option β} {f' : Node → Option γ} {g : β → γ}
  (h : ∀ node, f' (node.relocate R rule) = (f node).map g)

include h

/-- What is found among children in their new places is what was found among them, in
its new place. -/
theorem filterMap_relocateAll (children : List Node) :
    (relocateAll R rule children).filterMap f' = (children.filterMap f).map g := by
  rw [relocateAll_eq_map, List.filterMap_map, List.map_filterMap]
  exact congrArg (fun f => List.filterMap f children) (funext h)

theorem findSome?_relocateAll (children : List Node) :
    (relocateAll R rule children).findSome? f' = (children.findSome? f).map g := by
  rw [relocateAll_eq_map, List.findSome?_map, List.map_findSome?]
  exact congrArg (fun f => List.findSome? f children) (funext h)

end

theorem leaves_relocateAll (kind : TokenKind) (children : List Node) :
    leaves kind (relocateAll R rule children) =
      (leaves kind children).map (Leaf.relocate R (rule = .docString)) :=
  filterMap_relocateAll (Node.leaf?_relocate kind) children

theorem leaf?_relocateAll (kind : TokenKind) (children : List Node) :
    leaf? kind (relocateAll R rule children) =
      (leaf? kind children).map (Leaf.relocate R (rule = .docString)) :=
  findSome?_relocateAll (Node.leaf?_relocate kind) children

theorem group?_relocateAll (inner : Rule) (children : List Node) :
    group? inner (relocateAll R rule children) =
      (group? inner children).map (relocateAll R inner) :=
  findSome?_relocateAll (Node.group?_relocate inner) children

theorem kind_of_leaf? {kind : TokenKind} {children : List Node} {leaf : Leaf}
    (h : leaf? kind children = some leaf) : leaf.reading.kind = kind := by
  obtain ⟨node, -, hnode⟩ := List.exists_of_findSome?_eq_some h
  exact Node.kind_of_leaf? hnode

theorem kind_of_mem_leaves {kind : TokenKind} {children : List Node} {leaf : Leaf}
    (h : leaf ∈ leaves kind children) : leaf.reading.kind = kind := by
  obtain ⟨node, -, hnode⟩ := List.mem_filterMap.mp h
  exact Node.kind_of_leaf? hnode

theorem steps_relocateAll (children : List Node) :
    steps (relocateAll R rule children) = (steps children).map (Step.retell R.retelling) :=
  filterMap_relocateAll (fun node => by cases node <;> rfl) children

theorem tags_relocateAll (children : List Node) :
    tags (relocateAll R rule children) = (tags children).map (Tag.retell R.retelling) := by
  rw [tags, tags, group?_relocateAll]
  cases group? .tags children with
  | none => rfl
  | some lines =>
      simp only [Option.map_some, leaves_relocateAll, List.flatMap_map, List.map_flatMap,
        Leaf.tags_relocate]

/-- The title line of a block is followed by the description of the block. -/
theorem title_relocateAll {line : Leaf} {kind : TokenKind} (hkind : line.reading.kind = kind)
    (hflush : kind.isFlush = false) (hshows : ∀ inside, kind.showsBlanks inside = false)
    (inside : Bool) (children : List Node) :
    title (line.relocate R inside) (relocateAll R rule children) =
      (title line children).retell R.retelling := by
  rw [title, title, Leaf.location_relocate (hkind ▸ hflush),
    Leaf.text_relocate (hkind ▸ hshows inside), Leaf.keyword_relocate,
    findSome?_relocateAll Node.description?_relocate]
  rfl

theorem definition?_relocateAll (children : List Node) :
    definition? (relocateAll R rule children) =
      (definition? children).map (Definition.retell R.retelling) := by
  rw [definition?, definition?, group?_relocateAll, group?_relocateAll, tags_relocateAll]
  cases group? .scenario children with
  | some inner =>
      simp only [Option.map_some, leaf?_relocateAll, steps_relocateAll]
      cases hleaf : leaf? .scenarioLine inner with
      | none => rfl
      | some line =>
          simp only [Option.map_some,
            title_relocateAll (kind_of_leaf? hleaf) rfl (fun _ => rfl)]
          rfl
  | none =>
      cases group? .scenarioOutline children with
      | none => rfl
      | some inner =>
          have hexamples : (relocateAll R .scenarioOutline inner).filterMap Node.examples? =
              (inner.filterMap Node.examples?).map (Examples.retell R.retelling) :=
            filterMap_relocateAll (fun node => by cases node <;> rfl) inner
          simp only [Option.map_none, Option.map_some, Option.bind_some, leaf?_relocateAll,
            steps_relocateAll, hexamples]
          cases hleaf : leaf? .scenarioOutlineLine inner with
          | none => rfl
          | some line =>
              simp only [Option.map_some,
                title_relocateAll (kind_of_leaf? hleaf) rfl (fun _ => rfl)]
              rfl

theorem examples?_relocateAll (children : List Node) :
    examples? (relocateAll R rule children) =
      (examples? children).map (Examples.retell R.retelling) := by
  rw [examples?, examples?, group?_relocateAll, tags_relocateAll]
  cases group? .examples children with
  | none => rfl
  | some inner =>
      have hrows : (relocateAll R .examples inner).filterMap Node.rows? =
          (inner.filterMap Node.rows?).map (List.map (TableRow.retell R.retelling)) :=
        filterMap_relocateAll (fun node => by cases node <;> rfl) inner
      simp only [Option.map_some, Option.bind_some, leaf?_relocateAll, hrows]
      cases hleaf : leaf? .examplesLine inner with
      | none => rfl
      | some line =>
          simp only [Option.map_some, title_relocateAll (kind_of_leaf? hleaf) rfl (fun _ => rfl),
            ← List.map_flatten, List.head?_map, ← List.map_tail]
          rfl

theorem feature?_relocateAll (children : List Node) :
    feature? (relocateAll R rule children) =
      (feature? children).map (Feature.retell R.retelling) := by
  have hdefinitions : (relocateAll R rule children).filterMap Node.definition? =
      (children.filterMap Node.definition?).map (Definition.retell R.retelling) :=
    filterMap_relocateAll (fun node => by cases node <;> rfl) children
  rw [feature?, feature?, group?_relocateAll, hdefinitions]
  cases group? .featureHeader children with
  | none => rfl
  | some header =>
      simp only [Option.map_some, Option.bind_some, leaf?_relocateAll, tags_relocateAll]
      cases hleaf : leaf? .featureLine header with
      | none => rfl
      | some line =>
          simp only [Option.map_some, title_relocateAll (kind_of_leaf? hleaf) rfl (fun _ => rfl)]
          rfl

theorem background?_relocateAll (children : List Node) :
    background? (relocateAll R rule children) =
      (background? children).map (Background.retell R.retelling) := by
  rw [background?, background?, leaf?_relocateAll, steps_relocateAll]
  cases hleaf : leaf? .backgroundLine children with
  | none => rfl
  | some line =>
      simp only [Option.map_some, title_relocateAll (kind_of_leaf? hleaf) rfl (fun _ => rfl)]
      rfl

theorem step?_relocateAll (children : List Node) :
    step? (relocateAll R rule children) = (step? children).map (Step.retell R.retelling) := by
  have hargument : (relocateAll R rule children).findSome? Node.argument? =
      (children.findSome? Node.argument?).map (StepArgument.retell R.retelling) :=
    findSome?_relocateAll (fun node => by cases node <;> rfl) children
  rw [step?, step?, leaf?_relocateAll, hargument]
  cases hleaf : leaf? .stepLine children with
  | none => rfl
  | some line =>
      have hflush : line.reading.kind.isFlush = false := by rw [kind_of_leaf? hleaf]; rfl
      have htext (inside : Bool) : (line.relocate R inside).text = line.text :=
        Leaf.text_relocate (by rw [kind_of_leaf? hleaf]; rfl)
      simp only [Option.map_some, Leaf.keyword_relocate, Leaf.location_relocate hflush, htext]
      rfl

/-- The content of a doc string stays as it is. -/
theorem docString?_relocateAll (children : List Node) :
    docString? (relocateAll R .docString children) =
      (docString? children).map (DocString.retell R.retelling) := by
  have htexts : (leaves .other (relocateAll R .docString children)).map Leaf.text =
      (leaves .other children).map Leaf.text := by
    rw [leaves_relocateAll, List.map_map]
    refine List.map_congr_left fun leaf hleaf => Leaf.text_relocate ?_
    rw [kind_of_mem_leaves hleaf]
    rfl
  rw [docString?, docString?, leaf?_relocateAll, htexts]
  cases hleaf : leaf? .docStringSeparator children with
  | none => rfl
  | some opening =>
      have hflush : opening.reading.kind.isFlush = false := by rw [kind_of_leaf? hleaf]; rfl
      have htext (inside : Bool) : (opening.relocate R inside).text = opening.text :=
        Leaf.text_relocate (by rw [kind_of_leaf? hleaf]; rfl)
      simp only [Option.map_some, Leaf.location_relocate hflush, htext]
      rfl

theorem rows_relocateAll (children : List Node) :
    rows (relocateAll R rule children) = (rows children).map (TableRow.retell R.retelling) := by
  rw [rows, rows, leaves_relocateAll, List.map_map, List.map_map]
  refine List.map_congr_left fun leaf hleaf => Leaf.row_relocate ?_
  rw [kind_of_mem_leaves hleaf]
  rfl

theorem description_relocateAll {children : List Node}
    (h : ∀ leaf ∈ leaves .other children, R.Suits leaf.text) :
    description (relocateAll R .description children) = R.joined (description children) := by
  have htexts : (leaves .other (relocateAll R .description children)).map Leaf.text =
      ((leaves .other children).map Leaf.text).map R.behind := by
    rw [leaves_relocateAll, List.map_map, List.map_map]
    refine List.map_congr_left fun leaf hleaf => Leaf.text_relocate_of_showsBlanks ?_
    rw [kind_of_mem_leaves hleaf]
    rfl
  rw [description, htexts]
  apply Relocation.intercalate_kept
  intro line hline
  obtain ⟨leaf, hleaf, rfl⟩ := List.mem_map.mp hline
  exact h leaf hleaf

/-- A rule is folded alike in its new place, wherever that is. -/
theorem node?_relocateAll {children : List Node}
    (h : rule = .description → ∀ leaf ∈ leaves .other children, R.Suits leaf.text)
    (outer : Rule) :
    node? rule (relocateAll R rule children) =
      ((node? rule children).map (Option.map (Node.relocate R outer))).mapError
        (SyntaxError.retell R.retelling) := by
  cases rule with
  | step =>
      rw [node?, node?, step?_relocateAll]
      cases step? children <;> rfl
  | docString =>
      rw [node?, node?, docString?_relocateAll]
      cases docString? children <;> rfl
  | dataTable =>
      rw [node?, node?, rows_relocateAll, DataTable.ofRows_map_retell R.retelling_place_zero]
      cases DataTable.ofRows (rows children) <;> rfl
  | examplesTable =>
      rw [node?, node?, rows_relocateAll, unevenError?_map_retell]
      cases unevenError? (rows children) <;> rfl
  | description =>
      rw [node?, node?, description_relocateAll (h rfl)]
      rfl
  | background =>
      rw [node?, node?, background?_relocateAll]
      cases background? children <;> rfl
  | scenarioDefinition =>
      rw [node?, node?, definition?_relocateAll]
      cases definition? children <;> rfl
  | examplesDefinition =>
      rw [node?, node?, examples?_relocateAll]
      cases examples? children <;> rfl
  | feature =>
      rw [node?, node?, feature?_relocateAll]
      cases feature? children <;> rfl
  | document =>
      have hfeature : (relocateAll R .document children).findSome? Node.feature? =
          (children.findSome? Node.feature?).map (Feature.retell R.retelling) :=
        findSome?_relocateAll (fun node => by cases node <;> rfl) children
      rw [node?, node?, hfeature]
      rfl
  | root | featureHeader | scenario | scenarioOutline | examples | tags => rfl

end Fold
end Gherkin

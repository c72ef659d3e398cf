import Gherkin.Proofs.Rendering.Lines
import Gherkin.Proofs.Text.Splitting

/-!
# The text of rendered features

The lines of a rendered feature are single lines that do not end in a carriage
return, so its text splits into them.
-/

namespace Gherkin

open Text (isBlank trim)

namespace Written

/-- A line that is found again in a text of terminated lines. -/
structure IsSplit (l : Line) : Prop where
  oneLine : '\n' ∉ l.chars
  noReturn : l.chars.getLast? ≠ some '\r'

theorem isSplit_indented {cs : List Char} (honeLine : '\n' ∉ cs) (hreturn : cs.getLast? ≠ some '\r')
    (n : Nat) : IsSplit (indented n cs) where
  oneLine := by
    rw [indented, List.mem_append, not_or]
    refine ⟨fun h => ?_, honeLine⟩
    cases List.eq_of_mem_replicate h
  noReturn := by
    rw [indented, List.getLast?_append]
    cases hcs : cs.getLast? with
    | some c =>
        rw [hcs] at hreturn
        exact hreturn
    | none =>
        rw [Option.none_or]
        intro h
        cases List.eq_of_mem_replicate (List.mem_of_getLast? h)

/-- A text in front of a trimmed one. -/
theorem isSplit_indented_append {cs cs' : List Char} (honeLine : '\n' ∉ cs ∧ '\n' ∉ cs')
    (hreturn : cs.getLast? ≠ some '\r') (htrim : trim cs' = cs') (n : Nat) :
    IsSplit (indented n (cs ++ cs')) := by
  refine isSplit_indented (by simpa using honeLine) ?_ n
  have hlast : cs'.getLast? ≠ some '\r' := Text.getLast?_ne_of_trim_eq htrim rfl
  rw [List.getLast?_append]
  cases hcs : cs'.getLast? with
  | some c =>
      rw [hcs] at hlast
      exact hlast
  | none => exact hreturn

theorem forall_isSplit_tags (n : Nat) (tags : List Tag) :
    ∀ e ∈ tagEntries n tags, IsSplit e.text := by
  cases tags with
  | nil => exact fun e he => absurd he List.not_mem_nil
  | cons tag tags =>
      have hchars : ∀ c ∈ [' '].intercalate ((tag :: tags).map Tag.text),
          c = ' ' ∨ isBlank c = false := by
        refine Text.forall_mem_intercalate (by simp) fun word hword c hc => .inr ?_
        exact (forall_mem_text (tag :: tags) word hword).2 c hc
      refine List.forall_mem_singleton.mpr (isSplit_indented ?_ ?_ n)
      · intro h
        rcases hchars _ h with hblank | hblank <;> cases hblank
      · intro h
        rcases hchars _ (List.mem_of_getLast? h) with hblank | hblank <;> cases hblank

theorem forall_isSplit_heading {keyword : String} (hkeyword : '\n' ∉ keyword.toList)
    (kind : TokenKind) (n : Nat) (h : Heading) :
    ∀ e ∈ h.entries kind n keyword, IsSplit e.text := by
  have htitle : keyword.toList ++ ':' :: ' ' :: h.name.chars =
      (keyword.toList ++ [':', ' ']) ++ h.name.chars := by
    simp
  rw [Heading.entries, List.forall_mem_cons, List.forall_mem_map, Entry.text, htitle]
  constructor
  · refine isSplit_indented_append ⟨?_, h.name.oneLine⟩ ?_ h.name.trimmed n
    · simpa using hkeyword
    · simp
  · intro l _
    exact isSplit_indented l.oneLine l.noReturn (n + 2)

theorem forall_isSplit_table (t : Table) : ∀ e ∈ t.entries, IsSplit e.text := by
  rw [Table.entries, List.forall_mem_map]
  intro row _
  refine isSplit_indented (Text.break_not_mem_rowText _) ?_ 6
  rw [Text.getLast?_rowText]
  decide

theorem forall_isSplit_docString (d : DocString) : ∀ e ∈ d.entries, IsSplit e.text := by
  have hseparator : '\n' ∉ d.separator.text.toList ∧
      d.separator.text.toList.getLast? ≠ some '\r' := by
    cases d.separator <;> decide
  have htype : '\n' ∉ d.typeChars ∧ trim d.typeChars = d.typeChars := by
    rw [DocString.typeChars]
    cases d.contentType with
    | none => exact ⟨List.not_mem_nil, rfl⟩
    | some type => exact ⟨type.val.oneLine, type.val.trimmed⟩
  have hmark : '\n' ≠ d.separator.mark := by
    cases d.separator <;> decide
  rw [DocString.entries, List.forall_mem_append, List.forall_mem_cons, List.forall_mem_map,
    List.forall_mem_singleton]
  refine ⟨⟨?_, ?_⟩, isSplit_indented hseparator.1 hseparator.2 6⟩
  · exact isSplit_indented_append ⟨hseparator.1, htype.1⟩ hseparator.2 htype.2 6
  · intro l _
    refine isSplit_indented (fun h => l.oneLine ?_) ?_ 6
    · exact d.separator.mem_of_mem_escape (by decide) hmark h
    · rw [Separator.getLast?_escape]
      exact l.noReturn

theorem isSplit_comment (r : Remark) : IsSplit ⟨r.text⟩ := by
  refine isSplit_indented ?_ ?_ 4
  · simpa using r.oneLine
  · rw [List.getLast?_cons]
    cases hchars : r.chars.getLast? with
    | none => simp
    | some c =>
        have hreturn := r.noReturn
        rw [hchars] at hreturn
        simpa using hreturn

theorem break_not_mem_keyword : ∀ keyword ∈ Dialect.english.keywords .step,
    '\n' ∉ keyword.toList ∧ keyword.toList.getLast? ≠ some '\r' := by
  decide

theorem forall_isSplit_step (s : Step) : ∀ e ∈ s.entries, IsSplit e.text := by
  obtain ⟨hbreak, hreturn⟩ := break_not_mem_keyword s.keyword s.isKeyword
  rw [Step.entries, List.forall_mem_append, List.forall_mem_cons, List.forall_mem_map]
  refine ⟨fun r _ => isSplit_comment r, ?_, ?_⟩
  · exact isSplit_indented_append ⟨hbreak, s.text.oneLine⟩ hreturn s.text.trimmed 4
  · match s.argument with
    | none => exact fun e he => absurd he List.not_mem_nil
    | some (.table t) => exact forall_isSplit_table t
    | some (.docString d) => exact forall_isSplit_docString d

theorem forall_isSplit_block {keyword : String} (hkeyword : '\n' ∉ keyword.toList)
    (kind : TokenKind) (b : Block) : ∀ e ∈ b.entries kind keyword, IsSplit e.text := by
  rw [Block.entries, List.forall_mem_append, List.forall_mem_flatMap]
  exact ⟨forall_isSplit_heading hkeyword kind 2 b.heading, fun s _ => forall_isSplit_step s⟩

theorem isSplit_gap : IsSplit gap.text :=
  ⟨List.not_mem_nil, nofun⟩

theorem forall_isSplit_examples (e : Examples) : ∀ entry ∈ e.entries, IsSplit entry.text := by
  rw [Examples.entries, List.forall_mem_cons, List.forall_mem_append, List.forall_mem_append]
  exact ⟨isSplit_gap, ⟨forall_isSplit_tags 4 e.tags,
    forall_isSplit_heading (by decide) .examplesLine 4 e.heading⟩, forall_isSplit_table e.table⟩

theorem forall_isSplit_scenario (s : Scenario) : ∀ e ∈ s.entries, IsSplit e.text := by
  rw [Scenario.entries, List.forall_mem_cons, List.forall_mem_append]
  refine ⟨isSplit_gap, forall_isSplit_tags 2 s.tags, ?_⟩
  cases s.examples with
  | none => exact forall_isSplit_block (by decide) .scenarioLine s.block
  | some examples =>
      rw [List.forall_mem_append, List.forall_mem_flatMap]
      exact ⟨forall_isSplit_block (by decide) .scenarioOutlineLine s.block,
        fun e _ => forall_isSplit_examples e⟩

theorem forall_isSplit_feature (f : Feature) : ∀ e ∈ f.entries, IsSplit e.text := by
  rw [Feature.entries, List.forall_mem_append, List.forall_mem_append, List.forall_mem_append,
    List.forall_mem_flatMap]
  refine ⟨⟨⟨forall_isSplit_tags 0 f.tags,
    forall_isSplit_heading (by decide) .featureLine 0 f.heading⟩, ?_⟩,
    fun s _ => forall_isSplit_scenario s⟩
  cases f.background with
  | none => exact fun e he => absurd he List.not_mem_nil
  | some b =>
      exact List.forall_mem_cons.mpr
        ⟨isSplit_gap, forall_isSplit_block (by decide) .backgroundLine b⟩

/-- The text of a feature splits into its lines. -/
theorem textLines_render (f : Feature) : textLines f.render.toList = f.lines := by
  have hbreak : ∀ line ∈ f.lines, '\n' ∉ line := by
    rw [Feature.lines, List.forall_mem_map]
    exact fun e he => (forall_isSplit_feature f e he).oneLine
  have hreturn : ∀ line ∈ f.lines, dropReturn line = line := by
    rw [Feature.lines, List.forall_mem_map]
    exact fun e he => if_neg (forall_isSplit_feature f e he).noReturn
  rw [Feature.render, String.toList_ofList, textLines_flatMap hbreak,
    List.map_congr_left hreturn, List.map_id']

end Written
end Gherkin

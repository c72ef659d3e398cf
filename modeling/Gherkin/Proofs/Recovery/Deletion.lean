import Gherkin.Proofs.Reader.Tags
import Gherkin.Proofs.Recovery.Refusals

/-!
# Deleting the lines that were skipped

A reader that walks over the lines that another one has kept stays alike to it.
A line that is skipped leaves state, builder and matcher as they are, and which
way tags go does not depend on the skipped lines behind them: behind tags of
examples nothing is skipped in front of the title line, and behind tags of a
scenario every title line of examples is skipped.
-/

namespace Gherkin

namespace Reader

/-- The tokens that are not skipped. -/
def kept (r : Reader) : List Token → List Token
  | [] => []
  | t :: ts =>
    if r.skips t ts then (r.take t ts).kept ts else t :: (r.take t ts).kept ts

variable {r : Reader} {t : Token} {ts : List Token}

/-- A transition that stays changes neither the state nor the matcher. -/
theorem take_of_stay {kind : TokenKind} {read : Token}
    (h : r.choice t ts = .ok (some ⟨r.state.stay kind, r.matcher, read⟩)) :
    (r.take t ts).state = r.state ∧ (r.take t ts).matcher = r.matcher := by
  have hcloses : (r.state.stay kind).closes = 0 := Nat.sub_self _
  simp only [take, h, accept, hcloses, closeRules]
  split <;> exact ⟨rfl, rfl⟩

/-- The matcher still tells titles behind a token. -/
theorem take_tellsTitles (hm : r.matcher.TellsTitles) (t : Token) (ts : List Token) :
    (r.take t ts).matcher.TellsTitles := by
  rcases hchoice : r.choice t ts with e | _ | a
  · simpa only [take, hchoice] using hm
  · rw [(take_of_choice_eq_none hchoice).2]
    exact hm
  · obtain ⟨-, hmatch⟩ := Matcher.choose_eq_some hchoice
    rw [(take_of_choice hchoice).1]
    exact hm.of_matchAs hmatch

/-! ### Looking ahead -/

theorem kept_cons_of_skips (h : r.skips t ts = true) : r.kept (t :: ts) = (r.take t ts).kept ts :=
  if_pos h

theorem kept_cons_of_not_skips (h : r.skips t ts = false) :
    r.kept (t :: ts) = t :: (r.take t ts).kept ts :=
  if_neg (by simp [h])

/-- Lines between tags are kept behind tags. -/
theorem kept_of_between (hm : r.matcher.TellsTitles) (hstate : r.state.behindTags = true)
    (h : r.matcher.isBetweenTags t = true) (ts : List Token) :
    r.kept (t :: ts) = t :: (r.take t ts).kept ts ∧ (r.take t ts).state = r.state ∧
      (r.take t ts).matcher = r.matcher := by
  obtain ⟨kind, -, read, -, hchoice⟩ := choice_between hm.builtin hstate h ts
  exact ⟨kept_cons_of_not_skips (skips_eq_false_of_choice hchoice), take_of_stay hchoice⟩

/-- A title line of examples is skipped behind tags of a scenario. -/
theorem skips_of_examplesLine (hm : r.matcher.TellsTitles) (hstate : r.state = .definitionTags)
    (h : r.matcher.isOf .examplesLine t = true) : r.skips t ts = true := by
  obtain ⟨l, hline, -⟩ := Matcher.exists_line_of_isOf (by decide) h
  refine skips_iff.mpr ⟨by rw [Token.isEof, hline]; rfl, Matcher.choose_eq_none fun u hu => ?_⟩
  have hkinds : ∀ u ∈ State.definitionTags.transitions, u.kind ≠ .examplesLine := by decide
  rw [← Bool.not_eq_true]
  intro hof
  rcases (State.transitions_behindTags (by rw [hstate]; decide) u hu).2 with ⟨hkind, -⟩ | htitle
  · have hbetween : r.matcher.isBetweenTags t = true := List.any_eq_true.mpr ⟨_, hkind, hof⟩
    rw [Matcher.isOf_of_isBetweenTags hm.builtin hbetween rfl] at h
    cases h
  · obtain ⟨k, hk⟩ := Option.isSome_iff_exists.mp htitle
    rw [hstate] at hu
    exact hkinds u hu (hm.eq_of_isOf hk rfl hof h)

/-- A title line of examples is kept behind tags of examples. -/
theorem not_skips_of_examplesLine (hm : r.matcher.TellsTitles) (hstate : r.state = .examplesTags)
    (h : r.matcher.isOf .examplesLine t = true) : r.skips t ts = false := by
  have htitle : ∃ u ∈ State.examplesTags.transitions, u.kind = .examplesLine := by decide
  obtain ⟨u, hu, hkind⟩ := htitle
  rw [← hstate] at hu
  obtain ⟨read, -, hchoice⟩ := choice_title hm (by rw [hstate]; decide) hu
    (by rw [hkind]; rfl) (by rw [hkind]; exact h) ts
  exact skips_eq_false_of_choice hchoice

/-- Behind tags of examples no line is skipped in front of the title line. -/
theorem examplesAhead_kept_of_examplesTags (hm : r.matcher.TellsTitles)
    (hstate : r.state = .examplesTags) (h : r.matcher.examplesAhead ts = true) :
    r.matcher.examplesAhead (r.kept ts) = true := by
  have hbehind : r.state.behindTags = true := by rw [hstate]; decide
  induction ts generalizing r with
  | nil => exact h
  | cons t ts ih =>
      rw [Matcher.examplesAhead, Bool.or_eq_true, Bool.and_eq_true] at h
      cases hexamples : r.matcher.isOf .examplesLine t with
      | true =>
          rw [kept_cons_of_not_skips (not_skips_of_examplesLine hm hstate hexamples),
            Matcher.examplesAhead, hexamples, Bool.true_or]
      | false =>
          rw [hexamples] at h
          obtain ⟨hbetween, hahead⟩ := h.resolve_left Bool.false_ne_true
          obtain ⟨hkept, hsame, hmatcher⟩ := kept_of_between hm hbehind hbetween ts
          rw [← hmatcher] at hahead
          rw [hkept, Matcher.examplesAhead, hbetween, Bool.true_and, ← hmatcher,
            ih (take_tellsTitles hm t ts) (hsame.trans hstate) hahead (by rw [hsame, hbehind]),
            Bool.or_true]

/-- Behind tags of a scenario every title line of examples is skipped. -/
theorem examplesAhead_kept_of_definitionTags (hm : r.matcher.TellsTitles)
    (hstate : r.state = .definitionTags) : r.matcher.examplesAhead (r.kept ts) = false := by
  induction ts generalizing r with
  | nil => rfl
  | cons t ts ih =>
      cases hskips : r.skips t ts with
      | true =>
          obtain ⟨hsame, hmatcher⟩ := take_of_choice_eq_none (skips_iff.mp hskips).2
          rw [kept_cons_of_skips hskips, ← hmatcher]
          exact ih (take_tellsTitles hm t ts) (hsame.trans hstate)
      | false =>
          have hexamples : r.matcher.isOf .examplesLine t = false := by
            rw [← Bool.not_eq_true]
            intro hof
            rw [skips_of_examplesLine hm hstate hof] at hskips
            cases hskips
          rw [kept_cons_of_not_skips hskips, Matcher.examplesAhead, hexamples, Bool.false_or]
          cases hbetween : r.matcher.isBetweenTags t with
          | false => rfl
          | true =>
              obtain ⟨-, hsame, hmatcher⟩ :=
                kept_of_between hm (by rw [hstate]; decide) hbetween ts
              rw [← hmatcher]
              exact ih (take_tellsTitles hm t ts) (hsame.trans hstate)

/-- Which way tags go does not depend on the skipped lines behind them. -/
theorem examplesAhead_kept (hm : r.matcher.TellsTitles) (hlook : r.state.looksAhead = true)
    (htag : r.matcher.isOf .tagLine t = true) (hfine : (r.take t ts).failure = none) :
    r.matcher.examplesAhead ((r.take t ts).kept ts) = r.matcher.examplesAhead ts := by
  obtain ⟨read, -, hchoice⟩ := choice_tagLine hm.builtin hlook htag ts
  obtain ⟨hmatcher, hstate⟩ := take_of_choice hchoice
  have hstate := hstate hfine
  change (r.take t ts).matcher = r.matcher at hmatcher
  simp only at hstate
  have hbehind := take_tellsTitles hm t ts
  cases hahead : r.matcher.examplesAhead ts with
  | true =>
      rw [hahead, if_pos rfl] at hstate
      rw [← hmatcher] at hahead ⊢
      exact examplesAhead_kept_of_examplesTags hbehind hstate hahead
  | false =>
      rw [hahead, if_neg Bool.false_ne_true] at hstate
      rw [← hmatcher]
      exact examplesAhead_kept_of_definitionTags hbehind hstate

/-! ### Two readers -/

theorem Alike.choice {f : Nat → Nat} {r' : Reader} (h : r.Alike f r') (t : Token)
    (ts ts' : List Token)
    (hahead : r.state.looksAhead = true → r.matcher.isOf .tagLine t = true →
      r.matcher.examplesAhead ts' = r.matcher.examplesAhead ts) :
    (r'.choice (t.renumber f) ts').toOption =
      (r.choice t ts).toOption.map (Option.map (Acceptance.renumber f)) := by
  rw [Reader.choice, Reader.choice, h.state, h.matcher]
  refine r.matcher.toOption_choose f fun u hu hlook hof => ?_
  have hkind := Run.kind_eq_tagLine_of_lookahead hu hlook
  rw [hkind] at hof
  exact hahead (List.any_eq_true.mpr ⟨u, hu, hlook⟩) hof

/-- A reader stays alike to one that walks over the lines that it keeps. -/
theorem Alike.read {f : Nat → Nat} {r' : Reader} (h : r.Alike f r') (hm : r.matcher.TellsTitles)
    (hfine : (r.read ts).failure = none) :
    (r.read ts).Alike f (r'.read ((r.kept ts).map (Token.renumber f))) := by
  induction ts generalizing r r' with
  | nil => exact h
  | cons t ts ih =>
      rw [read_cons_of_failure h.fine.failure] at hfine ⊢
      have htaken := failure_read hfine
      have hroom := (h.fine.takes htaken).room
      have hm' := take_tellsTitles hm t ts
      let others := ((r.take t ts).kept ts).map (Token.renumber f)
      have hread' := read_cons_of_failure h.failure (t.renumber f) others
      have hchoose := h.choice t ts others fun hlook htag => by
        rw [Matcher.examplesAhead_map_renumber, examplesAhead_kept hm hlook htag htaken]
      rcases hchoice : r.choice t ts with e | _ | a
      · exact absurd hchoice (choice_ne_error htaken e)
      · have hroom : r.HasRoom [r.state.refusal t] := by
          simpa only [takenErrors, hchoice] using hroom
        cases heof : t.isEof with
        | true =>
            have hskips : r.skips t ts = false := by simp [skips, heof]
            have hchoice' : r'.choice (t.renumber f) others = .ok none := by
              rw [hchoice] at hchoose
              exact eq_ok_of_toOption hchoose
            rw [kept_cons_of_not_skips hskips, List.map_cons, hread']
            exact ih (h.take_of_refused hchoice hchoice' heof hroom) hm' hfine
        | false =>
            rw [kept_cons_of_skips (skips_iff.mpr ⟨heof, hchoice⟩)]
            exact ih (h.take_of_skipped hchoice heof hroom) hm' hfine
      · have hchoice' : r'.choice (t.renumber f) others = .ok (some (a.renumber f)) := by
          rw [hchoice] at hchoose
          exact eq_ok_of_toOption hchoose
        have hroom : r.HasRoom (r.closingErrors a.transition.closes) := by
          simpa only [takenErrors, hchoice] using hroom
        rw [kept_cons_of_not_skips (skips_eq_false_of_choice hchoice), List.map_cons, hread']
        exact ih (h.take_of_accepted hchoice hchoice' hroom) hm' hfine

/-- With increasing numbers, the lines that are kept are those whose numbers are not
those of skipped lines. -/
theorem kept_eq_filter (hnumbers : ts.Pairwise fun t u => t.number < u.number) :
    r.kept ts =
      ts.filter fun t => t.isEof || t.number ∉ (r.skipped ts).map Token.number := by
  induction ts generalizing r with
  | nil => rfl
  | cons t ts ih =>
      obtain ⟨hfirst, hothers⟩ := List.pairwise_cons.mp hnumbers
      have hbehind : ∀ u ∈ ts, u.number ≠ t.number := fun u hu => (hfirst u hu).ne'
      have hnot : t.number ∉ ((r.take t ts).skipped ts).map Token.number := by
        intro hmem
        obtain ⟨u, hu, heq⟩ := List.mem_map.mp hmem
        exact hbehind u ((skipped_sublist _ _).subset hu) heq
      cases hskips : r.skips t ts with
      | true =>
          rw [kept_cons_of_skips hskips, ih hothers, skipped_cons_of_skips hskips,
            List.filter_cons_of_neg (by simp [(skips_iff.mp hskips).1])]
          refine List.filter_congr fun u hu => ?_
          simp [hbehind u hu]
      | false =>
          rw [kept_cons_of_not_skips hskips, ih hothers, skipped_cons_of_not_skips hskips,
            List.filter_cons_of_pos (by simp only [hnot, not_false_iff, decide_true, Bool.or_true])]

end Reader

end Gherkin

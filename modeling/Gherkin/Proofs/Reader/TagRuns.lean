import Gherkin.Proofs.Reader.Fronts
import Gherkin.Proofs.Recovery.Deletion

/-!
# Runs of tags

Inside an outline a run of tag lines, with blank lines and comments among them,
is read into the tags of whatever title line comes behind it.  A reader that finds
no error there stands behind that title line, in a draft that has exactly the
tags of the run.
-/

namespace Gherkin

/-- The tags that are written on a line, which are its words if it is a tag line. -/
def Token.tags (t : Token) : List Tag :=
  t.line.elim [] fun l =>
    if l.startsWith "@" then l.words.map fun word => ⟨⟨t.number, word.column⟩, word.text⟩
    else []

namespace Matcher

variable {m next : Matcher} {kind : TokenKind} {t read : Token}

/-- A token that is read as a tag line holds the tags that are written on it. -/
theorem tags_of_matchAs (h : m.matchAs .tagLine t = .ok (some (next, read))) {reading : Reading}
    (hreading : read.reading = some reading) (pending : List Comment) :
    (Leaf.ofToken pending read reading).tags = t.tags := by
  obtain ⟨l, content, hline, hcontent, -, rfl⟩ := exists_line_of_matchAs h TokenKind.noConfusion
  obtain rfl := Option.some.inj hreading
  rw [lineContent?] at hcontent
  split at hcontent
  · next htag =>
      obtain rfl := Option.some.inj hcontent
      rw [Token.tags, hline, Option.elim_some, if_pos htag]
      rfl
  · cases hcontent

/-- No tags are written on blank lines and comments. -/
theorem tags_eq_nil (hm : m.IsBuiltin) (h : m.isOf kind t = true)
    (hkind : kind = .empty ∨ kind = .comment) : t.tags = [] := by
  cases hline : t.line with
  | none => rw [Token.tags, hline, Option.elim_none]
  | some l =>
      rw [Token.tags, hline, Option.elim_some, if_neg]
      intro htag
      have hof : m.isOf .tagLine t = true := by
        rw [isOf, hline, content?, lineContent?, if_pos htag]
        rfl
      rw [isOf_of_tagLine hm hof] at h
      rcases hkind with rfl | rfl
      · cases h
      · cases h

/-- Behind a run of tags the title line of examples comes first if it is the line right
behind the run. -/
theorem examplesAhead_eq (hm : m.IsBuiltin) {run back : List Token} {behind : Token}
    (hrun : ∀ t ∈ run, m.isBetweenTags t = true) (hbehind : m.isBetweenTags behind = false) :
    m.examplesAhead (run ++ behind :: back) = m.isOf .examplesLine behind := by
  induction run with
  | nil => rw [List.nil_append, examplesAhead, hbehind, Bool.false_and, Bool.or_false]
  | cons t run ih =>
      have ht := hrun t List.mem_cons_self
      have htitle : m.isOf .examplesLine t = false := isOf_of_isBetweenTags hm ht rfl
      rw [List.cons_append, examplesAhead, htitle, ht, Bool.false_or, Bool.true_and]
      exact ih fun u hu => hrun u (List.mem_cons_of_mem _ hu)

end Matcher

/-- The kinds of the title lines that tags in an outline may belong to. -/
def TokenKind.tagOwners : List TokenKind :=
  [.examplesLine, .scenarioLine, .scenarioOutlineLine]

theorem TokenKind.keywordKind?_of_mem_tagOwners {kind : TokenKind} (h : kind ∈ tagOwners) :
    kind.keywordKind?.isSome = true := by
  revert kind
  decide

/-- A line is a title line of one owner of tags at most. -/
theorem Matcher.TellsTitles.eq_of_mem_tagOwners {m : Matcher} (hm : m.TellsTitles) {t : Token}
    {kind kind' : TokenKind} (hkind : kind ∈ TokenKind.tagOwners)
    (hkind' : kind' ∈ TokenKind.tagOwners) (h : m.isOf kind t = true)
    (h' : m.isOf kind' t = true) : kind = kind' := by
  obtain ⟨k, hk⟩ := Option.isSome_iff_exists.mp (TokenKind.keywordKind?_of_mem_tagOwners hkind)
  obtain ⟨k', hk'⟩ := Option.isSome_iff_exists.mp (TokenKind.keywordKind?_of_mem_tagOwners hkind')
  exact hm.eq_of_isOf hk hk' h h'

/-- The kinds of the title lines that a run of tags belongs to, where `ahead` says whether
these are tags of examples. -/
def State.ownersOfTags (ahead : Bool) : List TokenKind :=
  if ahead then [.examplesLine] else [.scenarioLine, .scenarioOutlineLine]

namespace Draft

variable {α : Type}

/-- Where tags may belong to examples, an outline is being read. -/
theorem exists_outline?_of_looksAhead {d : Draft α} (h : d.state.looksAhead = true) :
    ∃ f o, d.outline? = some (f, o) := by
  cases d with
  | outline f tags b =>
      rcases b with heading | ⟨heading, steps, _ | _ | _ | _⟩
      · exact ⟨f, _, rfl⟩
      · exact ⟨f, _, rfl⟩
      · exact ⟨f, _, rfl⟩
      · cases h
      · exact ⟨f, _, rfl⟩
  | examples f o tags heading => exact ⟨f, _, rfl⟩
  | examplesTable f o tags heading first rest => exact ⟨f, _, rfl⟩
  | feature lang tags heading => rcases heading with _ | _ | _ <;> cases h
  | background header b => rcases b with (_ | _ | _) | ⟨_, _, _ | _ | _ | _⟩ <;> cases h
  | scenario f tags b => rcases b with (_ | _ | _) | ⟨_, _, _ | _ | _ | _⟩ <;> cases h
  | start | language | featureTags | definitionTags | examplesTags | finished => cases h

/-- The draft behind the tags in an outline, where `ahead` says whether these are tags of
examples. -/
def collecting (f : Tree.Feature α) (o : Tree.Outline α) (ahead : Bool) (first : α)
    (rest : List α) : Draft α :=
  if ahead then examplesTags f o first rest else definitionTags (f.add (.outline o)) first rest

/-- The draft behind the title line behind the tags in an outline. -/
def titled (f : Tree.Feature α) (o : Tree.Outline α) (tags : List α) (title : α) :
    TokenKind → Draft α
  | .examplesLine => examples f o tags (.title title)
  | .scenarioLine => scenario (f.add (.outline o)) tags (.heading (.title title))
  | _ => outline (f.add (.outline o)) tags (.heading (.title title))

variable {f : Tree.Feature α} {o : Tree.Outline α} {ahead : Bool} {first : α} {rest : List α}

theorem state_collecting :
    (collecting f o ahead first rest).state =
      if ahead then .examplesTags else .definitionTags := by
  cases ahead <;> rfl

theorem behindTags_collecting : (collecting f o ahead first rest).state.behindTags = true := by
  rw [state_collecting]
  cases ahead <;> decide

theorem push_tagLine_of_outline? {d : Draft α} (h : d.outline? = some (f, o)) (a : α) :
    d.push .tagLine ahead a = some (collecting f o ahead a []) := by
  cases ahead with
  | true => exact pushTags_of_outline? h a
  | false => exact pushTags_of_feature? (feature?_of_outline? h) a

theorem push_collecting_tagLine (ahead' : Bool) (a : α) :
    (collecting f o ahead first rest).push .tagLine ahead' a =
      some (collecting f o ahead first (rest ++ [a])) := by
  cases ahead <;> rfl

theorem push_collecting_stay {kind : TokenKind} (hkind : kind = .empty ∨ kind = .comment)
    (ahead' : Bool) (a : α) :
    (collecting f o ahead first rest).push kind ahead' a =
      some (collecting f o ahead first rest) := by
  rcases hkind with rfl | rfl
  · cases ahead <;> rfl
  · cases ahead <;> rfl

theorem push_collecting_title {kind : TokenKind} (hkind : kind ∈ State.ownersOfTags ahead)
    (ahead' : Bool) (a : α) :
    (collecting f o ahead first rest).push kind ahead' a =
      some (titled f o (first :: rest) a kind) := by
  cases ahead with
  | true =>
      obtain rfl := List.mem_singleton.mp hkind
      rfl
  | false =>
      rcases List.mem_cons.mp hkind with rfl | hkind
      · rfl
      · obtain rfl := List.mem_singleton.mp hkind
        rfl

end Draft

/-- A title line of one of three kinds is the owner of the tags in front of it. -/
theorem Matcher.mem_ownersOfTags_of_isOf {m : Matcher} (hm : m.TellsTitles) {behind : Token}
    {kind : TokenKind} (hkind : kind ∈ TokenKind.tagOwners) (h : m.isOf kind behind = true) :
    kind ∈ State.ownersOfTags (m.isOf .examplesLine behind) := by
  by_cases hexamples : m.isOf .examplesLine behind
  · rw [hm.eq_of_mem_tagOwners hkind List.mem_cons_self h hexamples, hexamples]
    exact List.mem_cons_self
  · rcases List.mem_cons.mp hkind with rfl | hkind
    · exact absurd h hexamples
    · rw [Bool.not_eq_true] at hexamples
      rw [hexamples]
      exact hkind

/-- The title lines that may come behind tags are those of their owners. -/
theorem State.mem_ownersOfTags {ahead : Bool} {u : Transition}
    (hu : u ∈ (if ahead then State.examplesTags else .definitionTags).transitions)
    (hkind : u.kind.keywordKind?.isSome = true) : u.kind ∈ ownersOfTags ahead := by
  revert u
  cases ahead <;> decide

theorem State.exists_title_of_mem_ownersOfTags {ahead : Bool} {kind : TokenKind}
    (h : kind ∈ ownersOfTags ahead) :
    ∃ u ∈ (if ahead then State.examplesTags else .definitionTags).transitions,
      u.kind = kind ∧ u.kind.keywordKind?.isSome = true := by
  revert kind
  cases ahead <;> decide

namespace Reader

variable {r : Reader} {t behind : Token} {run back : List Token}

theorem readFront_tellsTitles (hm : r.matcher.TellsTitles) (run back : List Token) :
    (r.readFront run back).matcher.TellsTitles := by
  induction run generalizing r with
  | nil => exact hm
  | cons t run ih =>
      rw [readFront]
      split
      · exact hm
      · exact ih (take_tellsTitles hm t (run ++ back))

/-! ### With errors -/

/-- The lines between tags are all accepted, and change nothing but the open tags. -/
theorem readFront_between (hm : r.matcher.IsBuiltin) (hstate : r.state.behindTags = true)
    (hrun : ∀ t ∈ run, r.matcher.isBetweenTags t = true) (back : List Token) :
    (r.readFront run back).state = r.state ∧ (r.readFront run back).matcher = r.matcher ∧
      unexpectedLines (r.readFront run back).errors = unexpectedLines r.errors := by
  induction run generalizing r with
  | nil => exact ⟨rfl, rfl, rfl⟩
  | cons t run ih =>
      by_cases hfailure : r.failure.isSome
      · rw [readFront_of_failure hfailure]
        exact ⟨rfl, rfl, rfl⟩
      · obtain ⟨kind, -, read, -, hchoice⟩ :=
          choice_between hm hstate (hrun t List.mem_cons_self) (run ++ back)
        obtain ⟨hsame, hmatcher⟩ := take_of_stay hchoice
        have herrors := unexpectedLines_take_of_choice hchoice
        rw [readFront, if_neg hfailure, ← hsame, ← hmatcher, ← herrors]
        apply ih
        · rwa [hmatcher]
        · rwa [hsame]
        · intro u hu
          rw [hmatcher]
          exact hrun u (List.mem_cons_of_mem _ hu)

/-- The title line of their owner is accepted behind tags. -/
theorem readFront_title (hm : r.matcher.TellsTitles) {ahead : Bool}
    (hstate : r.state = if ahead then .examplesTags else .definitionTags) {kind : TokenKind}
    (hkind : kind ∈ State.ownersOfTags ahead) (hof : r.matcher.isOf kind behind = true)
    (back : List Token) :
    unexpectedLines (r.readFront [behind] back).errors = unexpectedLines r.errors := by
  rw [readFront]
  split
  · rfl
  · obtain ⟨u, hu, rfl, htitle⟩ := State.exists_title_of_mem_ownersOfTags hkind
    obtain ⟨k, hk⟩ := Option.isSome_iff_exists.mp htitle
    have hbehind : r.state.behindTags = true := by
      rw [hstate]
      split <;> decide
    rw [← hstate] at hu
    obtain ⟨read, -, hchoice⟩ := choice_title hm hbehind hu hk hof back
    exact unexpectedLines_take_of_choice hchoice

/-- In an outline no line of a run of tags is unexpected, and neither is the title line of
their owner. -/
theorem unexpectedLines_tagRun (hm : r.matcher.TellsTitles) (hlook : r.state.looksAhead = true)
    (ht : r.matcher.isOf .tagLine t = true) (hrun : ∀ t ∈ run, r.matcher.isBetweenTags t = true)
    (hbehind : r.matcher.isBetweenTags behind = false) {kind : TokenKind}
    (hkind : kind ∈ TokenKind.tagOwners) (hof : r.matcher.isOf kind behind = true)
    (back : List Token) :
    unexpectedLines (r.readFront (t :: run ++ [behind]) back).errors =
      unexpectedLines r.errors := by
  by_cases hfailure : r.failure.isSome
  · rw [readFront_of_failure hfailure]
  · have hfine : r.failure = none := by simpa using hfailure
    rw [readFront_append, readFront_cons_of_failure hfine]
    let ts := run ++ ([behind] ++ back)
    have hahead : r.matcher.examplesAhead ts = r.matcher.isOf .examplesLine behind :=
      Matcher.examplesAhead_eq hm.builtin hrun hbehind
    obtain ⟨read, -, hchoice⟩ := choice_tagLine hm.builtin hlook ht ts
    rw [hahead] at hchoice
    rw [← unexpectedLines_take_of_choice hchoice]
    obtain ⟨hmatcher, hnext⟩ := take_of_choice hchoice
    by_cases hclosed : (r.take t ts).failure.isSome
    · rw [readFront_of_failure hclosed, readFront_of_failure hclosed]
    · have hstate : (r.take t ts).state =
          if r.matcher.isOf .examplesLine behind then .examplesTags else .definitionTags := by
        rw [hnext (by simpa using hclosed)]
        split <;> rfl
      have htags : (r.take t ts).state.behindTags = true := by
        rw [hstate]
        split <;> decide
      have hmatcher : (r.take t ts).matcher = r.matcher := hmatcher
      obtain ⟨hstate', hmatcher', herrors⟩ := readFront_between (by rw [hmatcher]; exact hm.builtin)
        htags (by rwa [hmatcher]) ([behind] ++ back)
      have hsame := hmatcher'.trans hmatcher
      rw [← herrors]
      exact readFront_title (by rwa [hsame]) (hstate'.trans hstate)
        (Matcher.mem_ownersOfTags_of_isOf hm hkind hof) (by rwa [hsame]) back

/-! ### Without errors -/

variable {f : Tree.Feature Leaf} {o : Tree.Outline Leaf} {ahead : Bool} {first : Leaf}
  {rest : List Leaf}

/-- A line between tags adds its tags to those that are open. -/
theorem Drafts.collects (hm : r.matcher.IsBuiltin)
    (hdrafts : r.Drafts (.collecting f o ahead first rest))
    (hread : WellRead (Draft.collecting f o ahead first rest).lines)
    (ht : r.matcher.isBetweenTags t = true) (hfailure : r.failure = none)
    (herrors : (r.take t back).errors = []) (hfine : (r.take t back).failure = none) :
    ∃ more, (r.take t back).Drafts (.collecting f o ahead first (rest ++ more)) ∧
      WellRead (Draft.collecting f o ahead first (rest ++ more)).lines ∧
      (r.take t back).matcher = r.matcher ∧ more.flatMap Leaf.tags = t.tags := by
  have hstate : r.state.behindTags = true := by
    rw [hdrafts.state]
    exact Draft.behindTags_collecting
  obtain ⟨kind, hkind, read, hmatch, hchoice⟩ := choice_between hm hstate ht back
  obtain ⟨a, reading, d', htakes⟩ := hdrafts.takes hread herrors hfailure hfine
  obtain rfl := Option.some.inj (Except.ok.inj (htakes.choice.symm.trans hchoice))
  have hpush := htakes.push
  have hsame : reading.kind = kind := htakes.kind
  rw [hsame] at hpush
  by_cases htag : kind = .tagLine
  · subst htag
    rw [Draft.push_collecting_tagLine] at hpush
    obtain rfl := Option.some.inj hpush
    refine ⟨[_], htakes.drafts, htakes.wellRead, htakes.matcher, ?_⟩
    rw [List.flatMap_singleton]
    exact Matcher.tags_of_matchAs hmatch htakes.tokenReading _
  · have hgap : kind = .empty ∨ kind = .comment := by
      simp only [Matcher.betweenTags, List.mem_cons, List.not_mem_nil, or_false] at hkind
      tauto
    rw [Draft.push_collecting_stay hgap] at hpush
    obtain rfl := Option.some.inj hpush
    refine ⟨[], ?_, ?_, htakes.matcher, ?_⟩
    · rw [List.append_nil]
      exact htakes.drafts
    · rw [List.append_nil]
      exact htakes.wellRead
    · rw [Matcher.tags_eq_nil hm (Matcher.isOf_of_matchAs hmatch) hgap]
      rfl

/-- Lines between tags add their tags to those that are open. -/
theorem Drafts.collectsAll (hm : r.matcher.IsBuiltin)
    (hdrafts : r.Drafts (.collecting f o ahead first rest))
    (hread : WellRead (Draft.collecting f o ahead first rest).lines)
    (hrun : ∀ t ∈ run, r.matcher.isBetweenTags t = true)
    (herrors : (r.readFront run back).errors = [])
    (hfine : (r.readFront run back).failure = none) :
    ∃ more, (r.readFront run back).Drafts (.collecting f o ahead first (rest ++ more)) ∧
      WellRead (Draft.collecting f o ahead first (rest ++ more)).lines ∧
      (r.readFront run back).matcher = r.matcher ∧
      more.flatMap Leaf.tags = run.flatMap Token.tags := by
  induction run generalizing r rest with
  | nil =>
      refine ⟨[], ?_, ?_, rfl, rfl⟩
      · rw [List.append_nil]
        exact hdrafts
      · rw [List.append_nil]
        exact hread
  | cons t run ih =>
      have hfailure := failure_readFront hfine
      rw [readFront_cons_of_failure hfailure] at herrors hfine ⊢
      obtain ⟨more, hdrafts₁, hread₁, hmatcher, htags⟩ := hdrafts.collects hm hread
        (hrun t List.mem_cons_self) hfailure (errors_readFront herrors) (failure_readFront hfine)
      have hothers : ∀ u ∈ run, r.matcher.isBetweenTags u = true :=
        fun u hu => hrun u (List.mem_cons_of_mem _ hu)
      rw [← hmatcher] at hm hothers
      obtain ⟨more', hdrafts₂, hread₂, hmatcher', htags'⟩ :=
        ih hm hdrafts₁ hread₁ hothers herrors hfine
      rw [List.append_assoc] at hdrafts₂ hread₂
      refine ⟨more ++ more', hdrafts₂, hread₂, hmatcher'.trans hmatcher, ?_⟩
      rw [List.flatMap_append, List.flatMap_cons, htags, htags']

/-- The line behind the tags, if it is no line between tags and is taken without an error,
is the title line of their owner. -/
theorem Drafts.titles (hdrafts : r.Drafts (.collecting f o ahead first rest))
    (hread : WellRead (Draft.collecting f o ahead first rest).lines)
    (ht : r.matcher.isBetweenTags t = false)
    (hfailure : r.failure = none) (herrors : (r.take t back).errors = [])
    (hfine : (r.take t back).failure = none) :
    ∃ kind ∈ State.ownersOfTags ahead, ∃ title : Leaf, title.line = t.number ∧
      r.matcher.isOf kind t = true ∧
      (r.take t back).Drafts (Draft.titled f o (first :: rest) title kind) ∧
      WellRead (Draft.titled f o (first :: rest) title kind).lines := by
  obtain ⟨a, reading, d', htakes⟩ := hdrafts.takes hread herrors hfailure hfine
  obtain ⟨hfind, hmatch⟩ := Matcher.choose_eq_some htakes.choice
  have hof := Matcher.isOf_of_matchAs hmatch
  have hmem := List.mem_of_find?_eq_some hfind
  have hstate : r.state.behindTags = true := by
    rw [hdrafts.state]
    exact Draft.behindTags_collecting
  have howner : a.transition.kind ∈ State.ownersOfTags ahead := by
    rcases (State.transitions_behindTags hstate _ hmem).2 with ⟨hbetween, -⟩ | htitle
    · have hany : r.matcher.isBetweenTags t = true :=
        List.any_eq_true.mpr ⟨_, hbetween, hof⟩
      rw [ht] at hany
      cases hany
    · rw [hdrafts.state, Draft.state_collecting] at hmem
      exact State.mem_ownersOfTags hmem htitle
  have hpush := htakes.push
  rw [htakes.kind, Draft.push_collecting_title howner] at hpush
  obtain rfl := Option.some.inj hpush
  exact ⟨_, howner, _, number_of_choice htakes.choice, hof, htakes.drafts, htakes.wellRead⟩

/-- A run of tags in an outline is read without errors only in front of the title line of
examples, a scenario or an outline.  The draft behind that line has the tags of
the run, and the outline in front of the run is as it was. -/
theorem Drafts.tagRun {d : Draft Leaf} (hm : r.matcher.IsBuiltin) (hdrafts : r.Drafts d)
    (hread : WellRead d.lines) (houtline : d.outline? = some (f, o))
    (hlook : r.state.looksAhead = true) (ht : r.matcher.isOf .tagLine t = true)
    (hrun : ∀ t ∈ run, r.matcher.isBetweenTags t = true)
    (hbehind : r.matcher.isBetweenTags behind = false)
    (herrors : (r.readFront (t :: run ++ [behind]) back).errors = [])
    (hfine : (r.readFront (t :: run ++ [behind]) back).failure = none) :
    ∃ kind ∈ State.ownersOfTags (r.matcher.isOf .examplesLine behind),
      ∃ (tags : List Leaf) (title : Leaf),
        tags.flatMap Leaf.tags = (t :: run).flatMap Token.tags ∧ title.line = behind.number ∧
        r.matcher.isOf kind behind = true ∧
        (r.readFront (t :: run ++ [behind]) back).Drafts (Draft.titled f o tags title kind) ∧
        WellRead (Draft.titled f o tags title kind).lines := by
  have hfailure := failure_readFront hfine
  rw [readFront_append] at herrors hfine ⊢
  rw [readFront_cons_of_failure hfailure] at herrors hfine ⊢
  let ts := run ++ ([behind] ++ back)
  have hahead : r.matcher.examplesAhead ts = r.matcher.isOf .examplesLine behind :=
    Matcher.examplesAhead_eq hm hrun hbehind
  obtain ⟨read, hmatch, hchoice⟩ := choice_tagLine hm hlook ht ts
  have hrunErrors := errors_readFront herrors
  have hrunFine := failure_readFront hfine
  obtain ⟨a, reading, d₁, htakes⟩ := hdrafts.takes hread (errors_readFront hrunErrors)
    hfailure (failure_readFront hrunFine)
  obtain rfl := Option.some.inj (Except.ok.inj (htakes.choice.symm.trans hchoice))
  have hreading : read.reading = some reading := htakes.tokenReading
  have hkind : reading.kind = .tagLine := by
    rw [htakes.kind]
    split <;> rfl
  let first := Leaf.ofToken r.builder.pending read reading
  have hpush := htakes.push
  rw [hkind, hahead, Draft.push_tagLine_of_outline? houtline] at hpush
  obtain rfl := Option.some.inj hpush
  have hmatcher : (r.take t ts).matcher = r.matcher := htakes.matcher
  obtain ⟨more, hdrafts', hread', hmatcher', htags⟩ := htakes.drafts.collectsAll
    (by rwa [hmatcher]) htakes.wellRead (by rwa [hmatcher]) hrunErrors hrunFine
  have hsame := hmatcher'.trans hmatcher
  rw [readFront_cons_of_failure hrunFine] at herrors hfine ⊢
  obtain ⟨kind, howner, title, hline, hof, htitled, htitledRead⟩ :=
    hdrafts'.titles hread' (by rwa [hsame]) hrunFine herrors hfine
  rw [hsame] at hof
  refine ⟨kind, howner, first :: more, title, ?_, hline, hof, htitled, htitledRead⟩
  rw [List.flatMap_cons, List.flatMap_cons, htags, Matcher.tags_of_matchAs hmatch hreading]

end Reader
end Gherkin

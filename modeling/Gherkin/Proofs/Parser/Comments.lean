import Gherkin.Proofs.Parser.Conservation
import Mathlib.Data.List.Nodup

/-!
# Comments

Comments wait, outside all open rules, for the next line that can own them.  So
each node of a document owns the comments that stand between its line and the
last line before it that owns comments, whatever other lines stand among them;
comments behind the last such line are dropped.
-/

namespace Gherkin

/-- The kinds of lines that own the comments in front of them. -/
def TokenKind.isStructural (kind : TokenKind) : Bool :=
  kind ∈ [featureLine, backgroundLine, scenarioLine, scenarioOutlineLine, examplesLine, stepLine]

theorem Builder.carriesComments_eq (kind : TokenKind) :
    carriesComments kind = kind.isStructural := by
  cases kind <;> rfl

namespace Token

/-- Whether the token has been accepted as a line that owns comments. -/
def isStructural (t : Token) : Bool :=
  t.kind?.any TokenKind.isStructural

/-- Whether the token has been accepted as a comment. -/
def isComment (t : Token) : Bool :=
  t.kind? = some .comment

/-- Whether the token has been accepted as a line that opens or closes a doc string. -/
def isSeparator (t : Token) : Bool :=
  t.kind? = some .docStringSeparator

/-- A comment owns no comments. -/
theorem isComment_eq_false {t : Token} (h : t.isStructural = true) : t.isComment = false := by
  obtain ⟨kind, hkind, howns⟩ := (Option.any_eq_true _ _).mp h
  rw [isComment, hkind, decide_eq_false_iff_not, Option.some.injEq]
  rintro rfl
  cases howns

/-- The whole line as a comment. -/
def comment (t : Token) : Comment :=
  ⟨⟨t.number, 1⟩, (t.line.map Line.raw).getD ""⟩

end Token

namespace Visit

/-- The kind of line that a node stands on. -/
def kind : Visit → TokenKind
  | tag _ => .tagLine
  | title kind _ => kind
  | step _ _ _ _ => .stepLine
  | row _ => .tableRow
  | docString _ => .docStringSeparator

/-- The comments that a node owns. -/
def comments : Visit → List Comment
  | title _ t => t.comments
  | step _ comments _ _ => comments
  | tag _ | row _ | docString _ => []

end Visit

/-- The number of the last line that owns comments, or of no line. -/
def lastStructural (ts : List Token) : Nat :=
  ((ts.filter Token.isStructural).getLast?.map Token.number).getD 0

/-- The comments that stand strictly between two lines. -/
def commentsBetween (ts : List Token) (m n : Nat) : List Comment :=
  (ts.filter fun t => t.isComment && decide (m < t.number) && decide (t.number < n)).map
    Token.comment

/-- The lines in front of a line. -/
def linesBefore (ts : List Token) (n : Nat) : List Token :=
  ts.filter fun t => t.number < n

/-! ### The comments of lines -/

namespace Tree

variable (inside : Bool) (kind : TokenKind) (leaf : Leaf) (l : List (TokenKind × Leaf))

/-- A line that owns comments stands for one node, and that node owns them. -/
theorem filter_visitsAt :
    ((visitsAt inside kind leaf l).filter fun v => v.kind.isStructural).map
        (fun v => (some v.kind, v.line, v.comments)) =
      if kind.isStructural then [(some kind, leaf.line, leaf.comments)] else [] := by
  cases kind with
  | tagLine =>
      have hnone : ∀ v ∈ leaf.tags.map Visit.tag, ¬v.kind.isStructural = true := by
        intro v hv
        obtain ⟨tag, -, rfl⟩ := List.mem_map.mp hv
        exact Bool.false_ne_true
      rw [visitsAt, List.filter_eq_nil_iff.mpr hnone]
      rfl
  | docStringSeparator => cases inside <;> rfl
  | _ => rfl

/-- The nodes of a line own no other comments than those in front of it. -/
theorem flatMap_comments_visitsAt :
    (visitsAt inside kind leaf l).flatMap Visit.comments =
      if kind.isStructural then leaf.comments else [] := by
  cases kind with
  | tagLine =>
      have hnone : ∀ v ∈ leaf.tags.map Visit.tag, v.comments = [] := by
        intro v hv
        obtain ⟨tag, -, rfl⟩ := List.mem_map.mp hv
        rfl
      exact List.flatMap_eq_nil_iff.mpr hnone
  | docStringSeparator => cases inside <;> rfl
  | featureLine | backgroundLine | scenarioLine | scenarioOutlineLine | examplesLine | stepLine =>
      exact List.append_nil _
  | _ => rfl

theorem filter_visits :
    ((visits inside l).filter fun v => v.kind.isStructural).map
        (fun v => (some v.kind, v.line, v.comments)) =
      (l.filter fun x => x.1.isStructural).map fun x => (some x.1, x.2.line, x.2.comments) := by
  induction l generalizing inside with
  | nil => rfl
  | cons x l ih =>
      obtain ⟨kind, leaf⟩ := x
      rw [visits, List.filter_append, List.map_append, ih, filter_visitsAt, List.filter_cons]
      by_cases hkind : kind.isStructural = true
      · rw [if_pos hkind, if_pos hkind]
        rfl
      · rw [if_neg hkind, if_neg hkind]
        rfl

theorem flatMap_comments_visits :
    (visits inside l).flatMap Visit.comments =
      (l.filter fun x => x.1.isStructural).flatMap fun x => x.2.comments := by
  induction l generalizing inside with
  | nil => rfl
  | cons x l ih =>
      obtain ⟨kind, leaf⟩ := x
      rw [visits, List.flatMap_append, ih, flatMap_comments_visitsAt, List.filter_cons]
      by_cases hkind : kind.isStructural = true
      · rw [if_pos hkind, if_pos hkind]
        rfl
      · rw [if_neg hkind, if_neg hkind]
        rfl

end Tree

/-! ### The comments that wait -/

/-- The comments that wait behind a line, where some are waiting in front of it. -/
def waitingAfter (waiting : List Comment) (t : Token) : List Comment :=
  if t.isStructural then [] else if t.isComment then waiting ++ [t.comment] else waiting

/-- The lines that own comments, each with the comments that it owns, where some comments are
waiting already. -/
def owned (waiting : List Comment) : List Token → List (Token × List Comment)
  | [] => []
  | t :: ts =>
    (if t.isStructural then [(t, waiting)] else []) ++ owned (waitingAfter waiting t) ts

/-- The reading of a comment is the whole line. -/
def Token.ReadsWhole (t : Token) : Prop :=
  ∀ reading, t.reading = some reading → reading.kind = .comment →
    (⟨t.location, reading.text.getD ""⟩ : Comment) = t.comment

theorem Tree.filter_lineOf (kind : TokenKind) (leaf : Leaf) :
    (Tree.lineOf kind leaf).filter (fun x => x.1.isStructural) =
      if kind.isStructural then [(kind, leaf)] else [] := by
  cases kind <;> rfl

/-- What waits behind a token. -/
theorem pendingAfter_eq {t : Token} {reading : Reading} (h : t.ReadsWhole)
    (hreading : t.reading = some reading) (waiting : List Comment) :
    pendingAfter waiting t reading = waitingAfter waiting t := by
  have hkind : t.kind? = some reading.kind := by
    rw [Token.kind?, hreading]
    rfl
  rw [pendingAfter, waitingAfter, Token.isStructural, Token.isComment, hkind,
    Builder.carriesComments_eq]
  by_cases hcomment : reading.kind = .comment
  · rw [if_pos hcomment, h reading hreading hcomment, hcomment]
    rfl
  · simp [hcomment]

/-- What the lines of a tree own is what waits for them. -/
theorem filter_leavesOf {ts : List Token} (h : ∀ t ∈ ts, t.ReadsWhole)
    (waiting : List Comment) :
    ((leavesOf waiting ts).filter fun x => x.1.isStructural).map
        (fun x => (some x.1, x.2.line, x.2.comments)) =
      (owned waiting ts).map fun x => (x.1.kind?, x.1.number, x.2) := by
  induction ts generalizing waiting with
  | nil => rfl
  | cons t ts ih =>
      have ih := ih fun t ht => h t (List.mem_cons_of_mem _ ht)
      rw [leavesOf, owned]
      cases hreading : t.reading with
      | none =>
          have hkind : t.kind? = none := by
            rw [Token.kind?, hreading]
            rfl
          rw [waitingAfter, Token.isStructural, Token.isComment, hkind]
          exact ih waiting
      | some reading =>
          have hkind : t.kind? = some reading.kind := by
            rw [Token.kind?, hreading]
            rfl
          have hstructural : t.isStructural = reading.kind.isStructural := by
            rw [Token.isStructural, hkind]
            rfl
          simp only
          rw [List.filter_append, List.map_append, List.map_append, ih, Tree.filter_lineOf,
            pendingAfter_eq (h t List.mem_cons_self) hreading, ← hstructural]
          by_cases howns : t.isStructural = true
          · rw [if_pos howns, if_pos howns, Leaf.ofToken, Builder.carriesComments_eq,
              ← hstructural, if_pos howns]
            simp only [List.map_cons, List.map_nil, hkind]
          · rw [if_neg howns, if_neg howns]
            rfl

/-! ### What waits, by line numbers -/

/-- Lines in the order of their numbers, which count from one. -/
structure Ordered (ts : List Token) : Prop where
  increasing : ts.Pairwise fun t u => t.number < u.number
  positive : ∀ t ∈ ts, 0 < t.number

/-- The comments behind the last line that owns comments. -/
def waitingBehind (front : List Token) : List Comment :=
  (front.filter fun t => t.isComment && decide (lastStructural front < t.number)).map Token.comment

variable {front ts : List Token} {t : Token}

theorem lastStructural_append (front : List Token) (t : Token) :
    lastStructural (front ++ [t]) = if t.isStructural then t.number else lastStructural front := by
  by_cases howns : t.isStructural = true
  · simp [lastStructural, List.filter_append, howns]
  · simp [lastStructural, List.filter_append, howns]

namespace Ordered

theorem lt_of_mem_front (h : Ordered (front ++ t :: ts)) : ∀ u ∈ front, u.number < t.number := by
  intro u hu
  exact (List.pairwise_append.mp h.increasing).2.2 u hu t List.mem_cons_self

theorem lt_of_mem_back (h : Ordered (front ++ t :: ts)) : ∀ u ∈ ts, t.number < u.number := by
  have hback := (List.pairwise_append.mp h.increasing).2.1
  exact (List.pairwise_cons.mp hback).1

/-- The last line that owns comments is one of the lines, if there is one. -/
theorem lastStructural_lt (h : Ordered (front ++ t :: ts)) : lastStructural front < t.number := by
  rw [lastStructural]
  cases hlast : (front.filter Token.isStructural).getLast? with
  | none => exact h.positive t (by simp)
  | some last =>
      have hmem := List.mem_of_getLast? hlast
      exact h.lt_of_mem_front last (List.mem_filter.mp hmem).1

/-- The lines in front of a line. -/
theorem linesBefore_eq (h : Ordered (front ++ t :: ts)) :
    linesBefore (front ++ t :: ts) t.number = front := by
  have hfront : front.filter (fun u => u.number < t.number) = front := by
    rw [List.filter_eq_self]
    intro u hu
    exact decide_eq_true (h.lt_of_mem_front u hu)
  have hback : (t :: ts).filter (fun u => u.number < t.number) = [] := by
    rw [List.filter_eq_nil_iff]
    intro u hu
    rw [decide_eq_true_eq]
    rcases List.mem_cons.mp hu with rfl | hu
    · exact Nat.lt_irrefl _
    · exact Nat.lt_asymm (h.lt_of_mem_back u hu)
  rw [linesBefore, List.filter_append, hfront, hback, List.append_nil]

/-- What stands between the last line that owns comments and the next one is what waits. -/
theorem commentsBetween_eq (h : Ordered (front ++ t :: ts)) :
    commentsBetween (front ++ t :: ts) (lastStructural front) t.number = waitingBehind front := by
  have hsame : commentsBetween (front ++ t :: ts) (lastStructural front) t.number =
      ((linesBefore (front ++ t :: ts) t.number).filter fun u =>
        u.isComment && decide (lastStructural front < u.number)).map Token.comment := by
    rw [commentsBetween, linesBefore, List.filter_filter]
  rw [hsame, h.linesBefore_eq, waitingBehind]

/-- What waits behind one more line. -/
theorem waitingBehind_append (h : Ordered (front ++ t :: ts)) :
    waitingBehind (front ++ [t]) = waitingAfter (waitingBehind front) t := by
  rw [waitingAfter, waitingBehind, lastStructural_append]
  by_cases howns : t.isStructural = true
  · have hnone : (front ++ [t]).filter (fun u =>
        u.isComment && decide (t.number < u.number)) = [] := by
      rw [List.filter_eq_nil_iff]
      intro u hu
      have hle : ¬t.number < u.number := by
        rcases List.mem_append.mp hu with hu | hu
        · exact Nat.lt_asymm (h.lt_of_mem_front u hu)
        · obtain rfl := List.mem_singleton.mp hu
          exact Nat.lt_irrefl _
      simp [hle]
    rw [if_pos howns, if_pos howns, hnone]
    rfl
  · have hlast := h.lastStructural_lt
    rw [if_neg howns, if_neg howns, List.filter_append, List.map_append, waitingBehind]
    by_cases hcomment : t.isComment = true
    · simp [hcomment, hlast]
    · simp [hcomment]

end Ordered

/-- A line is known by its number. -/
theorem Ordered.eq_of_number {ts : List Token} (h : Ordered ts) {t u : Token} (ht : t ∈ ts)
    (hu : u ∈ ts) (hnumber : t.number = u.number) : t = u := by
  have hnodup : (ts.map Token.number).Nodup :=
    List.pairwise_map.mpr (h.increasing.imp Nat.ne_of_lt)
  exact List.inj_on_of_nodup_map hnodup ht hu hnumber

/-- A comment that stands on a line is the comment of that line. -/
theorem Ordered.eq_comment {ts : List Token} (h : Ordered ts) {m n : Nat} {c : Comment}
    (hc : c ∈ commentsBetween ts m n) {t : Token} (ht : t ∈ ts)
    (hline : c.location.line = t.number) : t.kind? = some .comment ∧ c = t.comment := by
  obtain ⟨u, hu, rfl⟩ := List.mem_map.mp hc
  obtain ⟨hu, hbetween⟩ := List.mem_filter.mp hu
  simp only [Bool.and_eq_true] at hbetween
  obtain rfl := h.eq_of_number hu ht hline
  exact ⟨of_decide_eq_true hbetween.1.1, rfl⟩

/-- Every line that owns comments owns those behind the last such line in front of it. -/
theorem owned_eq {whole : List Token} (h : Ordered whole) (hwhole : front ++ ts = whole) :
    owned (waitingBehind front) ts =
      (ts.filter Token.isStructural).map fun t =>
        (t, commentsBetween whole (lastStructural (linesBefore whole t.number)) t.number) := by
  induction ts generalizing front with
  | nil => rfl
  | cons t ts ih =>
      subst hwhole
      have hrest := @ih (front ++ [t]) (by simp)
      rw [owned, ← h.waitingBehind_append, hrest, List.filter_cons]
      by_cases howns : t.isStructural = true
      · rw [if_pos howns, if_pos howns, List.map_cons, h.linesBefore_eq, h.commentsBetween_eq]
        rfl
      · rw [if_neg howns, if_neg howns]
        rfl

theorem commentsBetween_append (front back : List Token) (m n : Nat) :
    commentsBetween (front ++ back) m n =
      commentsBetween front m n ++ commentsBetween back m n := by
  rw [commentsBetween, List.filter_append, List.map_append, commentsBetween, commentsBetween]

theorem commentsBetween_congr {m n k l : Nat}
    (h : ∀ t ∈ ts, m < t.number ∧ t.number < n ↔ k < t.number ∧ t.number < l) :
    commentsBetween ts m n = commentsBetween ts k l := by
  have hsame : ∀ t ∈ ts, (t.isComment && decide (m < t.number) && decide (t.number < n)) =
      (t.isComment && decide (k < t.number) && decide (t.number < l)) := by
    intro t ht
    rw [Bool.and_assoc, Bool.and_assoc, ← Bool.decide_and, ← Bool.decide_and,
      decide_eq_decide.mpr (h t ht)]
  rw [commentsBetween, commentsBetween, List.filter_congr hsame]

theorem commentsBetween_eq_nil {m n : Nat} (h : ∀ t ∈ ts, ¬(m < t.number ∧ t.number < n)) :
    commentsBetween ts m n = [] := by
  rw [commentsBetween, List.map_eq_nil_iff, List.filter_eq_nil_iff]
  intro t ht
  have hnot := h t ht
  simp only [Bool.and_eq_true, decide_eq_true_eq]
  rintro ⟨⟨-, hm⟩, hn⟩
  exact hnot ⟨hm, hn⟩

namespace Ordered

/-- Comments on both sides of a line that is no comment. -/
theorem commentsBetween_split (h : Ordered (front ++ t :: ts)) (ht : t.isComment = false)
    {m n : Nat} (hm : m ≤ t.number) (hn : t.number ≤ n) :
    commentsBetween (front ++ t :: ts) m n =
      commentsBetween (front ++ t :: ts) m t.number ++
        commentsBetween (front ++ t :: ts) t.number n := by
  have hskip (k l : Nat) : commentsBetween (t :: ts) k l = commentsBetween ts k l := by
    rw [commentsBetween, List.filter_cons, ht]
    rfl
  have hfront : commentsBetween front t.number n = [] := by
    apply commentsBetween_eq_nil
    intro u hu
    have hlt := h.lt_of_mem_front u hu
    omega
  have hback : commentsBetween ts m t.number = [] := by
    apply commentsBetween_eq_nil
    intro u hu
    have hlt := h.lt_of_mem_back u hu
    omega
  have hfront' : commentsBetween front m n = commentsBetween front m t.number := by
    apply commentsBetween_congr
    intro u hu
    have hlt := h.lt_of_mem_front u hu
    omega
  have hback' : commentsBetween ts m n = commentsBetween ts t.number n := by
    apply commentsBetween_congr
    intro u hu
    have hlt := h.lt_of_mem_back u hu
    omega
  rw [commentsBetween_append, commentsBetween_append, commentsBetween_append, hskip, hskip, hskip,
    hfront, hback, hfront', hback', List.append_nil, List.nil_append]

theorem le_lastStructural (h : Ordered (front ++ t :: ts)) (ht : t.isStructural = true) :
    t.number ≤ lastStructural (front ++ t :: ts) := by
  rw [lastStructural, List.filter_append, List.filter_cons, if_pos ht, List.getLast?_append,
    List.getLast?_cons, Option.some_or, Option.map_some, Option.getD_some]
  cases hlast : (ts.filter Token.isStructural).getLast? with
  | none => exact Nat.le_refl _
  | some last =>
      have hmem := List.mem_of_getLast? hlast
      exact Nat.le_of_lt (h.lt_of_mem_back last (List.mem_filter.mp hmem).1)

end Ordered

/-- All comments in front of the last line that owns comments are owned, in order. -/
theorem flatMap_owned {whole : List Token} (h : Ordered whole) (hwhole : front ++ ts = whole) :
    (owned (waitingBehind front) ts).flatMap Prod.snd =
      commentsBetween whole (lastStructural front) (lastStructural whole) := by
  induction ts generalizing front with
  | nil =>
      subst hwhole
      rw [List.append_nil]
      symm
      apply commentsBetween_eq_nil
      intro u _
      omega
  | cons t ts ih =>
      subst hwhole
      have hrest := @ih (front ++ [t]) (by simp)
      rw [owned, ← h.waitingBehind_append, List.flatMap_append, hrest, lastStructural_append]
      by_cases howns : t.isStructural = true
      · have hcomment := Token.isComment_eq_false howns
        rw [if_pos howns, if_pos howns, h.commentsBetween_split hcomment
          (Nat.le_of_lt h.lastStructural_lt) (h.le_lastStructural howns), h.commentsBetween_eq,
          List.flatMap_singleton]
      · rw [if_neg howns, if_neg howns]
        rfl

/-- A comment is read as it is written. -/
theorem Matcher.readsWhole_of_matchAs {m next : Matcher} {kind : TokenKind} {t read : Token}
    (h : m.matchAs kind t = .ok (some (next, read))) : read.ReadsWhole := by
  intro reading hreading hkind
  have hread := kind?_of_matchAs h
  rw [Token.kind?, hreading, Option.map_some, Option.some.injEq, hkind] at hread
  subst hread
  obtain ⟨l, content, hline, hcontent, -, rfl⟩ := exists_line_of_matchAs h TokenKind.noConfusion
  obtain rfl := Option.some.inj hreading
  rw [lineContent?] at hcontent
  split at hcontent
  · obtain rfl := Option.some.inj hcontent
    simp only [Token.comment, Token.readAs, Token.location, hline]
    rfl
  · cases hcontent

/-! ### Inside doc strings -/

/-- Inside doc strings all lines but separators are free text. -/
def Encloses (inside : Bool) : List TokenKind → Prop
  | [] => True
  | kind :: kinds =>
    (inside = true → kind = .docStringSeparator ∨ kind = .other) ∧
      Encloses (Tree.insideBehind inside kind) kinds

namespace Reader

/-- The states that accept lines know which of them are inside doc strings. -/
theorem acceptances_encloses (r : Reader) (ts : List Token) :
    Encloses r.state.inDocString ((r.acceptances ts).map fun a => a.transition.kind) := by
  induction ts generalizing r with
  | nil => exact trivial
  | cons t ts ih =>
      have hrest : ∀ inside, ((r.take t ts).failure = none →
          (r.take t ts).state.inDocString = inside) →
          Encloses inside (((r.take t ts).acceptances ts).map fun a => a.transition.kind) := by
        intro inside hinside
        cases hfailure : (r.take t ts).failure with
        | some failure =>
            rw [acceptances_of_failure (by rw [hfailure]; rfl)]
            exact trivial
        | none =>
            rw [← hinside hfailure]
            exact ih (r.take t ts)
      rw [acceptances]
      split
      · exact trivial
      · rw [List.map_append]
        rcases hchoice : r.choice t ts with e | _ | a
        · apply hrest
          intro hfailure
          exact absurd hchoice (choice_ne_error hfailure e)
        · apply hrest
          intro _
          rw [(take_of_choice_eq_none hchoice).1]
        · have hmem := List.mem_of_find?_eq_some (Matcher.choose_eq_some hchoice).1
          constructor
          · intro hinside
            exact State.kind_of_inDocString hinside hmem
          · apply hrest
            intro hfailure
            rw [(take_of_choice hchoice).2 hfailure]
            exact State.inDocString_next hmem

end Reader

/-- Whether a doc string is open behind lines of these kinds. -/
def insideAfter (inside : Bool) (kinds : List TokenKind) : Bool :=
  kinds.foldl Tree.insideBehind inside

/-- A doc string is open behind an odd number of separators. -/
theorem insideAfter_eq (inside : Bool) (kinds : List TokenKind) :
    insideAfter inside kinds =
      (inside ^^ decide (kinds.count .docStringSeparator % 2 = 1)) := by
  induction kinds generalizing inside with
  | nil => simp [insideAfter]
  | cons kind kinds ih =>
      have hfirst : insideAfter inside (kind :: kinds) =
          insideAfter (Tree.insideBehind inside kind) kinds := rfl
      rw [hfirst, ih, Tree.insideBehind]
      by_cases hkind : kind = .docStringSeparator
      · have hodd : decide ((kinds.count .docStringSeparator + 1) % 2 = 1) =
            !decide (kinds.count .docStringSeparator % 2 = 1) := by
          rw [← decide_not, decide_eq_decide]
          omega
        rw [if_pos hkind, hkind, List.count_cons_self, hodd, Bool.xor_not, Bool.not_xor]
      · rw [if_neg hkind, List.count_cons_of_ne hkind]

/-- Lines that are no separators do not lead out of a doc string. -/
theorem Encloses.eq_other {kinds back : List TokenKind} (h : Encloses true (kinds ++ back))
    (hnone : TokenKind.docStringSeparator ∉ kinds) : ∀ kind ∈ kinds, kind = .other := by
  induction kinds with
  | nil => exact fun kind hkind => absurd hkind List.not_mem_nil
  | cons first kinds ih =>
      rw [List.mem_cons, not_or] at hnone
      obtain ⟨hfirst, hrest⟩ := h
      rw [Tree.insideBehind, if_neg (Ne.symm hnone.1)] at hrest
      intro kind hkind
      rcases List.mem_cons.mp hkind with rfl | hkind
      · exact (hfirst rfl).resolve_left (Ne.symm hnone.1)
      · exact ih hrest hnone.2 kind hkind

/-- No doc string is open behind an even number of separators. -/
theorem insideAfter_eq_false {front : List Token}
    (h : front.countP Token.isSeparator % 2 = 0) :
    insideAfter false (front.filterMap Token.kind?) = false := by
  have hcount : (front.filterMap Token.kind?).count .docStringSeparator =
      front.countP Token.isSeparator := by
    rw [List.count_filterMap]
    apply List.countP_congr
    intro t _
    rw [Token.isSeparator, beq_iff_eq, decide_eq_true_eq]
  have heven : ¬front.countP Token.isSeparator % 2 = 1 := by omega
  rw [insideAfter_eq, hcount, decide_eq_false heven]
  rfl

theorem Encloses.of_append {front back : List TokenKind} {inside : Bool}
    (h : Encloses inside (front ++ back)) : Encloses (insideAfter inside front) back := by
  induction front generalizing inside with
  | nil => exact h
  | cons kind front ih => exact ih h.2

/-- The nodes of the lines behind others are among the nodes of all of them. -/
theorem Tree.mem_visits_append {front back : List (TokenKind × Leaf)} {inside : Bool} {v : Visit}
    (h : v ∈ visits (insideAfter inside (front.map Prod.fst)) back) :
    v ∈ visits inside (front ++ back) := by
  induction front generalizing inside with
  | nil => exact h
  | cons x front ih =>
      rw [List.cons_append, visits, List.mem_append]
      exact .inr (ih h)

/-- The lines that tokens add to a tree, behind those of other tokens. -/
theorem exists_leavesOf_append (waiting : List Comment) (front back : List Token) :
    ∃ waiting', leavesOf waiting (front ++ back) =
      leavesOf waiting front ++ leavesOf waiting' back := by
  induction front generalizing waiting with
  | nil => exact ⟨waiting, rfl⟩
  | cons t front ih =>
      rw [List.cons_append, leavesOf, leavesOf]
      cases t.reading with
      | none => exact ih waiting
      | some reading =>
          obtain ⟨waiting', hrest⟩ := ih (pendingAfter waiting t reading)
          refine ⟨waiting', ?_⟩
          simp only
          rw [hrest, List.append_assoc]

/-- A line of a tree says what its token says. -/
theorem exists_leavesOf_cons {t : Token} {kind : TokenKind} (h : t.kind? = some kind)
    (hterminal : kind.isTerminal = true) (waiting : List Comment) (ts : List Token) :
    ∃ leaf waiting', leavesOf waiting (t :: ts) = (kind, leaf) :: leavesOf waiting' ts ∧
      leaf.location = t.location ∧ leaf.text = t.text?.getD "" := by
  obtain ⟨reading, hreading, rfl⟩ := Option.map_eq_some_iff.mp h
  refine ⟨Leaf.ofToken waiting t reading, pendingAfter waiting t reading, ?_, ?_, ?_⟩
  · rw [leavesOf, hreading]
    simp only
    rw [Tree.lineOf, if_pos hterminal]
    rfl
  · rw [Token.location, hreading]
    rfl
  · rw [Token.text?, hreading]
    rfl

/-- Free text in front of a separator is what the separator closes. -/
theorem textsAhead_leavesOf {inner : List Token} {closing : Token}
    (hinner : ∀ t ∈ inner, t.kind? = some .other)
    (hclosing : closing.kind? = some .docStringSeparator) (waiting : List Comment)
    (back : List Token) :
    Tree.textsAhead (leavesOf waiting (inner ++ closing :: back)) =
      inner.map fun t => t.text?.getD "" := by
  induction inner generalizing waiting with
  | nil =>
      obtain ⟨leaf, waiting', hleaves, -⟩ := exists_leavesOf_cons hclosing rfl waiting back
      rw [List.nil_append, hleaves]
      rfl
  | cons t inner ih =>
      have hrest := ih fun t ht => hinner t (List.mem_cons_of_mem _ ht)
      obtain ⟨leaf, waiting', hleaves, -, htext⟩ := exists_leavesOf_cons
        (hinner t List.mem_cons_self) rfl waiting (inner ++ closing :: back)
      rw [List.cons_append, hleaves, List.map_cons, ← hrest waiting', ← htext]
      rfl

/-- A doc string holds the lines between its separators. -/
theorem exists_docString_visit {front inner back : List Token} {opening closing : Token}
    (hfront : insideAfter false (front.filterMap Token.kind?) = false)
    (hopening : opening.kind? = some .docStringSeparator)
    (hinner : ∀ t ∈ inner, t.kind? = some .other)
    (hclosing : closing.kind? = some .docStringSeparator) (waiting : List Comment) :
    ∃ d, Visit.docString d ∈
        Tree.visits false (leavesOf waiting (front ++ opening :: (inner ++ closing :: back))) ∧
      d.location = opening.location ∧
      d.content = "\n".intercalate (inner.map fun t => t.text?.getD "") := by
  obtain ⟨waiting', hleaves⟩ :=
    exists_leavesOf_append waiting front (opening :: (inner ++ closing :: back))
  obtain ⟨leaf, waiting'', hopens, hlocation, -⟩ :=
    exists_leavesOf_cons hopening rfl waiting' (inner ++ closing :: back)
  refine ⟨Tree.docStringOf leaf (leavesOf waiting'' (inner ++ closing :: back)), ?_, hlocation, ?_⟩
  · have hkinds : insideAfter false ((leavesOf waiting front).map Prod.fst) = false := by
      rw [map_fst_leavesOf, insideAfter_eq, List.count_filter rfl, ← insideAfter_eq]
      exact hfront
    rw [hleaves, hopens]
    apply Tree.mem_visits_append
    rw [hkinds]
    exact List.mem_cons_self
  · rw [Tree.docStringOf, textsAhead_leavesOf hinner hclosing]

namespace Parser

variable {p : Parser} {lines : List (List Char)}

theorem ordered_accepted
    (h : (p.accepted (.ofLines lines)).map Token.fresh = Source.tokens 0 (.ofLines lines)) :
    Ordered (p.accepted (.ofLines lines)) := by
  constructor
  · exact List.pairwise_map.mp (numbers_accepted h)
  · intro t ht
    have hmem := List.mem_map_of_mem (f := Token.fresh) ht
    rw [h] at hmem
    have hlt := Source.lt_number_of_mem_tokens hmem
    exact hlt

theorem exists_acceptance_of_mem_accepted {t : Token} (h : t ∈ p.accepted (.ofLines lines)) :
    t.ReadsWhole ∧ t.kind?.isSome = true := by
  obtain ⟨m, kind, t', next, hmatch⟩ := exists_matchAs_of_mem_accepted h
  refine ⟨Matcher.readsWhole_of_matchAs hmatch, ?_⟩
  rw [Matcher.kind?_of_matchAs hmatch]
  rfl

/-- Accepted lines know which of them are inside doc strings. -/
theorem accepted_encloses (p : Parser) (lines : List (List Char)) :
    Encloses false ((p.accepted (.ofLines lines)).filterMap Token.kind?) := by
  have hreads := p.readsAs_ofLines lines
  have hkinds : ∀ (r : Reader) ts, ((r.acceptances ts).map Acceptance.token).filterMap Token.kind? =
      (r.acceptances ts).map fun a => a.transition.kind := by
    intro r ts
    have hsame : ∀ a ∈ r.acceptances ts,
        (Token.kind? ∘ Acceptance.token) a = some a.transition.kind := by
      intro a ha
      obtain ⟨m, t, hmatch⟩ := Reader.exists_matchAs_of_mem_acceptances ha
      exact Matcher.kind?_of_matchAs hmatch
    rw [List.filterMap_map, List.filterMap_congr hsame]
    exact congrFun List.filterMap_eq_map' _
  rw [accepted]
  split at hreads
  · next r hr =>
      obtain ⟨matcher, rfl⟩ := exists_start_of_reader hr
      rw [hreads.2.2, hkinds]
      exact Reader.acceptances_encloses (Reader.start p.limit matcher) _
  · rw [hreads.2.2]
    exact trivial

/-- Behind the opening line of a doc string all lines up to the next separator are free text. -/
theorem kind?_of_between {front inner back : List Token} {opening : Token}
    (hsplit : p.accepted (.ofLines lines) = front ++ opening :: (inner ++ back))
    (hfront : insideAfter false (front.filterMap Token.kind?) = false)
    (hopening : opening.kind? = some .docStringSeparator)
    (hinner : ∀ t ∈ inner, t.isSeparator = false) : ∀ t ∈ inner, t.kind? = some .other := by
  have hencloses := p.accepted_encloses lines
  rw [hsplit, List.filterMap_append] at hencloses
  have hinside := hencloses.of_append
  rw [hfront, List.filterMap_cons_some hopening, List.filterMap_append] at hinside
  have hnone : TokenKind.docStringSeparator ∉ inner.filterMap Token.kind? := by
    intro hmem
    obtain ⟨t, ht, hkind⟩ := List.mem_filterMap.mp hmem
    have hnot := hinner t ht
    rw [Token.isSeparator, hkind] at hnot
    cases hnot
  intro t ht
  have hmem : t ∈ p.accepted (.ofLines lines) := by
    rw [hsplit]
    simp [ht]
  obtain ⟨kind, hkind⟩ := Option.isSome_iff_exists.mp (exists_acceptance_of_mem_accepted hmem).2
  rw [hkind, hinside.2.eq_other hnone kind (List.mem_filterMap.mpr ⟨t, ht, hkind⟩)]

/-- Comments are owned once, and by the right nodes. -/
theorem comments_owned {document : Document} (h : p.parse (.ofLines lines) = .ok document) :
    let ts := p.accepted (.ofLines lines)
    ts.map Token.fresh = Source.tokens 0 (.ofLines lines) ∧
      (document.walk.filter fun v => v.kind.isStructural).map
          (fun v => (some v.kind, v.line, v.comments)) =
        (ts.filter Token.isStructural).map (fun t =>
          (t.kind?, t.number,
            commentsBetween ts (lastStructural (linesBefore ts t.number)) t.number)) ∧
      document.walk.flatMap Visit.comments = commentsBetween ts 0 (lastStructural ts) ∧
      (∀ v ∈ document.walk, ∀ c ∈ v.comments, ∀ t ∈ ts,
        c.location.line = t.number → t.kind? = some .comment ∧ c = t.comment) ∧
      ∀ front opening inner closing back,
        ts = front ++ opening :: (inner ++ closing :: back) →
        front.countP Token.isSeparator % 2 = 0 →
        opening.isSeparator = true → (∀ t ∈ inner, t.isSeparator = false) →
        closing.isSeparator = true →
          (∀ t ∈ inner, t.kind? = some .other) ∧
          ∃ d, Visit.docString d ∈ document.walk ∧ d.location = opening.location ∧
            d.content = "\n".intercalate (inner.map fun t => t.text?.getD "") := by
  intro ts
  obtain ⟨htokens, hwalk⟩ := walk_of_parse h
  have hordered : Ordered ts := ordered_accepted htokens
  have hwhole : ∀ t ∈ ts, t.ReadsWhole := fun t ht => (exists_acceptance_of_mem_accepted ht).1
  have hleaves := filter_leavesOf hwhole []
  have hcomments : document.walk.flatMap Visit.comments =
      commentsBetween ts 0 (lastStructural ts) := by
    have hflat := congrArg (List.flatMap fun x => x.2.2) hleaves
    rw [List.flatMap_map, List.flatMap_map] at hflat
    rw [hwalk, Tree.flatMap_comments_visits, hflat]
    exact @flatMap_owned [] ts ts hordered rfl
  refine ⟨htokens, ?_, hcomments, ?_, ?_⟩
  · have howned := @owned_eq [] ts ts hordered rfl
    have hnone : waitingBehind [] = [] := rfl
    rw [hnone] at howned
    rw [hwalk, Tree.filter_visits, hleaves, howned, List.map_map]
    rfl
  · intro v hv c hc t ht hline
    have hmem : c ∈ document.walk.flatMap Visit.comments := List.mem_flatMap.mpr ⟨v, hv, hc⟩
    rw [hcomments] at hmem
    exact hordered.eq_comment hmem ht hline
  · intro front opening inner closing back hsplit hfront hopening hinner hclosing
    have hopening : opening.kind? = some .docStringSeparator := of_decide_eq_true hopening
    have hclosing : closing.kind? = some .docStringSeparator := of_decide_eq_true hclosing
    have houtside := insideAfter_eq_false hfront
    have hother := kind?_of_between hsplit houtside hopening hinner
    refine ⟨hother, ?_⟩
    rw [hwalk]
    change ∃ d, Visit.docString d ∈ Tree.visits false (leavesOf [] ts) ∧ _
    rw [hsplit]
    exact exists_docString_visit houtside hopening hother hclosing []

/-- A pragma, comments between tags and around a table, and what looks like a comment in a doc
string. -/
theorem comments_owned_table :
    let lines := ["# language: en", "# a", "Feature: f", "# b", "@t", "  # c", "Scenario: s",
      "Given g", "# d", "|x|", "# e", "When w", "\"\"\"", "# v", "\"\"\"", "# z"].map
        String.toList
    ∃ document, parse {} (.ofLines lines) = .ok document ∧
      (document.walk.filter fun v => v.kind.isStructural).map
          (fun v => (some v.kind, v.line, v.comments)) =
        [(some .featureLine, 3, [⟨⟨2, 1⟩, "# a"⟩]),
          (some .scenarioLine, 7, [⟨⟨4, 1⟩, "# b"⟩, ⟨⟨6, 1⟩, "  # c"⟩]),
          (some .stepLine, 8, []),
          (some .stepLine, 12, [⟨⟨9, 1⟩, "# d"⟩, ⟨⟨11, 1⟩, "# e"⟩])] := by
  intro lines
  have hok : (parse {} (.ofLines lines)).toOption.isSome = true := by decide +kernel
  have hnodes : ((accepted {} (.ofLines lines)).filter Token.isStructural).map (fun t =>
      (t.kind?, t.number,
        commentsBetween (accepted {} (.ofLines lines))
          (lastStructural (linesBefore (accepted {} (.ofLines lines)) t.number)) t.number)) =
        [(some .featureLine, 3, [⟨⟨2, 1⟩, "# a"⟩]),
          (some .scenarioLine, 7, [⟨⟨4, 1⟩, "# b"⟩, ⟨⟨6, 1⟩, "  # c"⟩]),
          (some .stepLine, 8, []),
          (some .stepLine, 12, [⟨⟨9, 1⟩, "# d"⟩, ⟨⟨11, 1⟩, "# e"⟩])] := by
    decide +kernel
  obtain ⟨document, hparse⟩ := exists_ok_of_isSome hok
  obtain ⟨-, howned, -⟩ := comments_owned hparse
  exact ⟨document, hparse, howned.trans hnodes⟩

end Parser
end Gherkin

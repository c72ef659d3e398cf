import Gherkin.Proofs.Parser.Conservation

/-!
# The nodes that lines stand for

A walk through the lines that a reader has accepted visits each node at the line
that it stands for, and there the walk knows as well as the matcher whether a doc
string is open.
-/

namespace Gherkin

/-- The nodes of accepted lines, the first one first. -/
theorem exists_visits_leavesOf_cons {t : Token} {reading : Reading} (h : t.reading = some reading)
    (inside : Bool) (pending : List Comment) (ts : List Token) :
    ∃ rest pending', Tree.visits inside (leavesOf pending (t :: ts)) =
      Tree.visitsAt inside reading.kind (Leaf.ofToken pending t reading) rest ++
        Tree.visits (Tree.insideBehind inside reading.kind) (leavesOf pending' ts) := by
  refine ⟨leavesOf (pendingAfter pending t reading) ts, pendingAfter pending t reading, ?_⟩
  rw [leavesOf_cons h, Tree.lineOf]
  cases hkind : reading.kind.isTerminal with
  | true => rfl
  | false =>
      cases hreading : reading.kind with
      | eof | empty | comment => rfl
      | _ =>
          rw [hreading] at hkind
          cases hkind

namespace Reader

/-- A line that a reader has accepted in front of others, and the nodes that it stands for. -/
structure Visits (r : Reader) (ts front : List Token) (t : Token) (back : List Token)
    (a : Acceptance) (reading : Reading) (block : List Visit) : Prop where
  split : ts = front ++ t :: back
  running : (r.readFront front (t :: back)).failure = none
  choice : (r.readFront front (t :: back)).choice t back = .ok (some a)
  read : a.token.reading = some reading
  nodes : ∃ comments rest, block =
    Tree.visitsAt (r.readFront front (t :: back)).matcher.docString.isSome reading.kind
      (Leaf.ofToken comments a.token reading) rest

variable {r : Reader} {ts front back : List Token} {t : Token} {a : Acceptance}
  {reading : Reading} {block : List Visit}

theorem Visits.cons {u : Token} (h : (r.take u ts).Visits ts front t back a reading block)
    (hfailure : r.failure = none) : r.Visits (u :: ts) (u :: front) t back a reading block := by
  obtain ⟨rfl, hrunning, hchoice, hreading, hblock⟩ := h
  have hfront := readFront_cons_of_failure hfailure u front (t :: back)
  exact ⟨rfl, by rw [hfront]; exact hrunning, by rw [hfront]; exact hchoice, hreading,
    by rw [hfront]; exact hblock⟩

/-- The token that a line is read from, and how it is read. -/
theorem Visits.matchAs (h : r.Visits ts front t back a reading block) :
    (r.readFront front (t :: back)).matcher.matchAs reading.kind t =
      .ok (some (a.matcher, a.token)) := by
  have hmatch := (Matcher.choose_eq_some h.choice).2
  obtain ⟨reading', hreading', hkind⟩ := Matcher.exists_reading_of_matchAs hmatch
  obtain rfl := Option.some.inj (h.read.symm.trans hreading')
  rw [hkind]
  exact hmatch

/-- The matcher behind the line. -/
theorem Visits.matcher (h : r.Visits ts front t back a reading block) :
    (r.readFront (front ++ [t]) back).matcher = a.matcher := by
  have hfront := r.readFront_append front [t] back
  rw [List.singleton_append, readFront_cons_of_failure h.running, List.nil_append] at hfront
  rw [hfront]
  exact (take_of_choice h.choice).1

/-- A node stands on a line that the reader has accepted, together with the other nodes that the
line stands for. -/
theorem exists_visits {pending : List Comment} {v : Visit}
    (h : v ∈ Tree.visits r.matcher.docString.isSome
      (leavesOf pending ((r.acceptances ts).map Acceptance.token))) :
    ∃ front t back a reading block, r.Visits ts front t back a reading block ∧ v ∈ block ∧
      ∀ w ∈ block, w ∈ Tree.visits r.matcher.docString.isSome
        (leavesOf pending ((r.acceptances ts).map Acceptance.token)) := by
  induction ts generalizing r pending with
  | nil => cases h
  | cons u ts ih =>
      cases hfailure : r.failure with
      | some failure =>
          rw [acceptances, if_pos (by rw [hfailure]; rfl)] at h
          cases h
      | none =>
          have hacceptances : r.acceptances (u :: ts) =
              (Acceptance.ofChoice (r.choice u ts)).toList ++ (r.take u ts).acceptances ts :=
            if_neg (by rw [hfailure]; exact Bool.false_ne_true)
          rcases hchoice : r.choice u ts with e | _ | a <;> rw [hchoice] at hacceptances
          · have hfails : (r.take u ts).failure.isSome = true := by
              rw [take, hchoice]
              rfl
            rw [hacceptances, acceptances_of_failure hfails] at h
            cases h
          · change r.acceptances (u :: ts) = (r.take u ts).acceptances ts at hacceptances
            have hmatcher := (take_of_choice_eq_none hchoice).2
            rw [hacceptances, ← hmatcher] at h ⊢
            obtain ⟨front, t, back, a, reading, block, hvisits, hv, hblock⟩ := ih h
            exact ⟨u :: front, t, back, a, reading, block, hvisits.cons hfailure, hv, hblock⟩
          · change r.acceptances (u :: ts) = a :: (r.take u ts).acceptances ts at hacceptances
            rw [hacceptances, List.map_cons] at h ⊢
            have hmatch := (Matcher.choose_eq_some hchoice).2
            obtain ⟨reading, hreading, hkind⟩ := Matcher.exists_reading_of_matchAs hmatch
            obtain ⟨rest, pending', hvisits⟩ := exists_visits_leavesOf_cons hreading
              r.matcher.docString.isSome pending
              (((r.take u ts).acceptances ts).map Acceptance.token)
            have hinside : Tree.insideBehind r.matcher.docString.isSome reading.kind =
                (r.take u ts).matcher.docString.isSome := by
              rw [(take_of_choice hchoice).1, Matcher.docString_of_matchAs hmatch, hkind]
              rfl
            rw [hvisits, hinside] at h ⊢
            rcases List.mem_append.mp h with h | h
            · have hfirst : r.Visits (u :: ts) [] u ts a reading _ :=
                ⟨rfl, hfailure, hchoice, hreading, pending, rest, rfl⟩
              exact ⟨[], u, ts, a, reading, _, hfirst, h, fun w hw => List.mem_append_left _ hw⟩
            · obtain ⟨front, t, back, a', reading', block, hbehind, hv, hblock⟩ := ih h
              exact ⟨u :: front, t, back, a', reading', block, hbehind.cons hfailure, hv,
                fun w hw => List.mem_append_right _ (hblock w hw)⟩

end Reader
end Gherkin

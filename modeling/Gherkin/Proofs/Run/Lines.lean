import Gherkin.Proofs.Run.OpenRules

/-!
# The lines that a run has read

A line that cannot be read makes a run fail.  So a run that has come to the end
of its source without a failure has read all of it as lines.
-/

namespace Gherkin

/-- A source without faults is made of lines. -/
theorem Source.exists_eq_ofLines {source : Source} (h : source.Readable) :
    ∃ lines, source = .ofLines lines := by
  induction source with
  | nil => exact ⟨[], rfl⟩
  | cons read source ih =>
      obtain ⟨chars, rfl⟩ := h read List.mem_cons_self
      obtain ⟨lines, rfl⟩ := ih fun read hread => h read (List.mem_cons_of_mem _ hread)
      exact ⟨chars :: lines, rfl⟩

theorem Source.readable_cons_line {chars : List Char} {source : Source} :
    Readable (.line chars :: source) ↔ source.Readable := by
  constructor
  · exact fun h read hread => h read (List.mem_cons_of_mem _ hread)
  · intro h read hread
    rcases List.mem_cons.mp hread with rfl | hread
    · exact ⟨chars, rfl⟩
    · exact h read hread

namespace Run

/-- What a run has still to read can be read: the end of the source waits in the queue, or
the scanner has only lines in front of it. -/
def CanRead (r : Run) : Prop :=
  r.queue.any Token.isEof = true ∨ r.scanner.source.Readable

/-- Looking at lines up to the end of the source, or at some of them, without a failure. -/
theorem lookOn_readable (m : Matcher) (line : Nat) (source : Source) :
    (m.lookOn line source).error? = none →
    ((m.lookOn line source).tokens.any Token.isEof = true ∨
        (m.lookOn line source).scanner.source.Readable ↔
      source.Readable) := by
  refine Matcher.lookOnInduction ?nil ?fault ?decided ?undecided line source
  case nil =>
    intro line _
    have hnil : Source.Readable [] := fun read hread => nomatch hread
    exact ⟨fun _ => hnil, fun _ => .inr hnil⟩
  case fault => exact fun _ _ _ h => by cases h
  case decided =>
    intro line chars source g verdict heof _
    rw [Source.readable_cons_line]
    simp [heof]
  case undecided =>
    intro line chars source g heof ih h
    rw [Source.readable_cons_line]
    simp only [FarLookahead.cons, Lookahead.cons, List.any_cons, heof, Bool.false_or]
    exact ih h

theorem lookAhead_canRead (r : Run) (h : r.lookAhead.1.failure = none) :
    r.lookAhead.1.CanRead ↔ r.CanRead := by
  have hany := any_isEof_lookThrough r.matcher r.queue
  rcases r.lookAhead_cases h with
    ⟨hqueue, hscanner⟩ | ⟨read, hread, hverdict, herror, hqueue, hscanner⟩
  · rw [CanRead, CanRead, hqueue, hscanner, hany]
  · have hline := (lookThrough_tokens r.matcher r.queue).2 hverdict
    have hreadable := lookOn_readable r.matcher r.scanner.line r.scanner.source
    rw [hread] at hreadable
    rw [CanRead, CanRead, hqueue, hscanner, List.any_append, hany, hline, Bool.false_or,
      hreadable herror]
    simp

theorem canRead_unmoved : Unmoved CanRead where
  same := fun hqueue hscanner => by rw [CanRead, CanRead, hqueue, hscanner]
  lookAhead := fun r h => propext (r.lookAhead_canRead h)

/-- A line is fetched from what can be read, and at the end of the source everything can. -/
theorem next_canRead {r fetched : Run} {t : Token} (h : r.next = (fetched, some t))
    (hread : t.isEof = true ∨ fetched.CanRead) : r.CanRead := by
  rcases next_cases h with
    ⟨hqueue, hscanner⟩ | ⟨-, hempty, ⟨hsource, -⟩ | ⟨chars, hsource, hline⟩⟩
  · rw [CanRead, hqueue, List.any_cons, Bool.or_eq_true, or_assoc, ← hscanner]
    exact hread
  · right
    rw [hsource]
    exact fun read hread => nomatch hread
  · right
    rw [hsource, Source.readable_cons_line]
    rcases hread with heof | hqueue | hscanner
    · rw [hline] at heof
      cases heof
    · rw [hempty] at hqueue
      cases hqueue
    · exact hscanner

/-- A step without failure goes on from what can be read. -/
theorem step_canRead {r : Run} (h : r.step.failure = none)
    (hread : r.step.ended = true ∨ r.step.CanRead) : r.ended = true ∨ r.CanRead := by
  cases r.stepping with
  | stays _ hstep => rwa [hstep] at hread
  | unreadable fetched _ hnext hstep =>
      rw [hstep] at h
      exact absurd h (fetched_of_eq hnext).failed
  | takes fetched t hover hnext hstep =>
      rw [hstep] at h hread
      right
      apply next_canRead hnext
      rcases hread with heof | hread
      · exact .inl heof
      · have hfine := ((fetched_of_eq hnext).answered rfl).trans
          (failure_of_isOver_eq_false hover).1
        have htake := canRead_unmoved.take hfine h
        right
        rw [← htake]
        exact hread

theorem failure_of_step {r : Run} (h : r.step.failure = none) : r.failure = none := by
  cases r.stepping with
  | stays _ hstep => rwa [hstep] at h
  | unreadable _ hover _ _ | takes _ _ hover _ _ => exact (failure_of_isOver_eq_false hover).1

theorem failure_of_steps {n : Nat} {r : Run} (h : (steps n r).failure = none) :
    r.failure = none := by
  induction n generalizing r with
  | zero => exact h
  | succ n ih => exact failure_of_step (ih h)

theorem steps_canRead {n : Nat} {r : Run} (h : (steps n r).failure = none)
    (hread : (steps n r).ended = true ∨ (steps n r).CanRead) : r.ended = true ∨ r.CanRead := by
  induction n generalizing r with
  | zero => exact hread
  | succ n ih => exact step_canRead (failure_of_steps (n := n) h) (ih h hread)

end Run

/-- A source that is read without a failure is made of lines. -/
theorem Parser.exists_lines_of_complete {p : Parser} {source : Source} {start : Run}
    (hstart : p.run source = .ok start) (h : start.complete.failure = none) :
    ∃ lines, source = .ofLines lines := by
  obtain ⟨-, hnot, hqueue, hscanner⟩ := run_starts hstart
  have hover := Run.isOver_steps (stacked_run hstart).2
  have hfine := Run.failure_of_closeRule h
  have hended : (Run.steps (start.unread + 1) start).ended = true := by
    rw [Run.isOver, hfine] at hover
    exact hover
  have hread := Run.steps_canRead hfine (.inl hended)
  rw [hnot, Run.CanRead, hqueue, hscanner] at hread
  simp only [Bool.false_eq_true, List.any_nil, false_or] at hread
  exact Source.exists_eq_ofLines hread

end Gherkin

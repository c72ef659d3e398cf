import Gherkin.Proofs.Draft.Growth
import Gherkin.Proofs.Reader.Drafts
import Gherkin.Proofs.Reader.Transparency

/-!
# Readers behind the first tokens

What a reader has come to behind the first tokens of a document, with the others
still to come.  A run stands there after as many steps, and without errors the
reader stands in a draft that holds no other lines than those in front of it.
-/

namespace Gherkin

namespace Reader

/-- Takes the first tokens, in front of the rest, until the reader fails. -/
def readFront (r : Reader) : List Token → List Token → Reader
  | [], _ => r
  | t :: front, rest =>
    if r.failure.isSome then r else (r.take t (front ++ rest)).readFront front rest

variable {r : Reader} {t : Token} {front rest : List Token}

theorem readFront_of_failure (h : r.failure.isSome) (front rest : List Token) :
    r.readFront front rest = r := by
  cases front with
  | nil => rfl
  | cons t front => exact if_pos h

theorem readFront_cons_of_failure (h : r.failure = none) (t : Token) (front rest : List Token) :
    r.readFront (t :: front) rest = (r.take t (front ++ rest)).readFront front rest :=
  if_neg (by simp [h])

/-- Reading goes on behind the first tokens. -/
theorem read_append (r : Reader) (front rest : List Token) :
    r.read (front ++ rest) = (r.readFront front rest).read rest := by
  induction front generalizing r with
  | nil => rfl
  | cons t front ih =>
      by_cases hfailure : r.failure.isSome
      · rw [read_of_failure hfailure, readFront_of_failure hfailure, read_of_failure hfailure]
      · rw [List.cons_append, read, if_neg hfailure, readFront, if_neg hfailure, ih]

theorem readFront_append (r : Reader) (front more rest : List Token) :
    r.readFront (front ++ more) rest =
      (r.readFront front (more ++ rest)).readFront more rest := by
  induction front generalizing r with
  | nil => rfl
  | cons t front ih =>
      by_cases hfailure : r.failure.isSome
      · rw [readFront_of_failure hfailure, readFront_of_failure hfailure,
          readFront_of_failure hfailure]
      · rw [List.cons_append, readFront, if_neg hfailure, readFront, if_neg hfailure, ih,
          List.append_assoc]

theorem read_eq_readFront (r : Reader) (ts : List Token) : r.read ts = r.readFront ts [] := by
  have happend := r.read_append ts []
  rw [List.append_nil] at happend
  exact happend

theorem errors_readFront (h : (r.readFront front rest).errors = []) : r.errors = [] := by
  induction front generalizing r with
  | nil => exact h
  | cons t front ih =>
      rw [readFront] at h
      split at h
      · exact h
      · exact errors_take (ih h)

theorem failure_readFront (h : (r.readFront front rest).failure = none) : r.failure = none := by
  cases hfailure : r.failure with
  | none => rfl
  | some failure =>
      rw [readFront_of_failure (by rw [hfailure]; rfl), hfailure] at h
      cases h

theorem acceptances_of_failure (h : r.failure.isSome = true) (ts : List Token) :
    r.acceptances ts = [] := by
  cases ts with
  | nil => rfl
  | cons t ts => rw [acceptances, if_pos h]

/-- A token that is accepted stands behind the tokens that the reader in front of it has
taken. -/
theorem exists_front_of_mem_acceptances {ts : List Token} {a : Acceptance}
    (h : a ∈ r.acceptances ts) :
    ∃ front t back, ts = front ++ t :: back ∧
      (r.readFront front (t :: back)).choice t back = .ok (some a) := by
  induction ts generalizing r with
  | nil => exact absurd h List.not_mem_nil
  | cons t ts ih =>
      rw [acceptances] at h
      split at h
      · cases h
      · next hfailure =>
          rcases List.mem_append.mp h with h | h
          · rcases hchoice : r.choice t ts with e | _ | b <;> rw [hchoice] at h
            · cases h
            · cases h
            · obtain rfl := List.mem_singleton.mp h
              exact ⟨[], t, ts, rfl, hchoice⟩
          · obtain ⟨front, u, back, rfl, hchoice⟩ := ih h
            refine ⟨t :: front, u, back, rfl, ?_⟩
            rw [readFront, if_neg hfailure]
            exact hchoice

/-- Where the draft behind the first tokens stands, what it holds, and what it may still
grow into. -/
structure FrontTo (r : Reader) (d : Draft Leaf) (front rest : List Token) (d' : Draft Leaf) :
    Prop where
  drafts : (r.readFront front rest).Drafts d'
  wellRead : WellRead d'.lines
  lines : ∀ x ∈ d'.lines, x ∈ d.lines ∨ x.2.line ∈ front.map Token.number
  grows : ∀ document, d'.GrowsInto document → d.GrowsInto document

/-- A token that is taken without an error leads to the draft behind it. -/
theorem Drafts.takes {d : Draft Leaf} (h : r.Drafts d) (hread : WellRead d.lines)
    {ts : List Token} (herrors : (r.take t ts).errors = [])
    (hfailure : r.failure = none) (hfine : (r.take t ts).failure = none) :
    ∃ a reading d', r.TakesTo d t ts a reading d' := by
  obtain ⟨a, b, hchoice, hmove⟩ := take_of_errors hfailure herrors hfine
  obtain ⟨reading, d', htakes⟩ := h.takesTo hread hfailure hchoice hmove
  exact ⟨a, reading, d', htakes⟩

theorem number_of_choice {ts : List Token} {a : Acceptance} (h : r.choice t ts = .ok (some a)) :
    a.token.number = t.number := by
  have hfresh : a.token.fresh = t.fresh := Matcher.fresh_of_matchAs (Matcher.choose_eq_some h).2
  rw [← Token.fresh_number, hfresh, Token.fresh_number]

theorem Drafts.frontTo {d : Draft Leaf} (h : r.Drafts d) (hread : WellRead d.lines)
    (herrors : (r.readFront front rest).errors = [])
    (hfine : (r.readFront front rest).failure = none) : ∃ d', r.FrontTo d front rest d' := by
  induction front generalizing r d with
  | nil => exact ⟨d, h, hread, fun _ hx => .inl hx, fun _ hgrows => hgrows⟩
  | cons t front ih =>
      have hfailure := failure_readFront hfine
      have hfirst := readFront_cons_of_failure hfailure t front rest
      rw [hfirst] at herrors hfine
      obtain ⟨a, reading, d₁, htakes⟩ :=
        h.takes hread (errors_readFront herrors) hfailure (failure_readFront hfine)
      obtain ⟨d₂, hothers⟩ := ih htakes.drafts htakes.wellRead herrors hfine
      refine ⟨d₂, ?_, hothers.wellRead, ?_, ?_⟩
      · rw [hfirst]
        exact hothers.drafts
      · intro x hx
        rw [List.map_cons, List.mem_cons]
        rcases hothers.lines x hx with hx | hx
        · rw [Draft.lines_push htakes.push, List.mem_append] at hx
          rcases hx with hx | hx
          · exact .inl hx
          · rw [Tree.lineOf] at hx
            split at hx
            · obtain rfl := List.mem_singleton.mp hx
              exact .inr (.inl (number_of_choice htakes.choice))
            · cases hx
        · exact .inr (.inr hx)
      · intro document hgrows
        exact Draft.growsInto_of_push htakes.push (hothers.grows document hgrows)

end Reader

namespace Run

/-- A run stands behind the first tokens after as many steps, and waits for the others
unless it has failed. -/
theorem steps_front {r : Run} {front rest : List Token} (hended : r.ended = false)
    (h : r.Awaits (front ++ rest)) (hfront : ∀ t ∈ front, t.isEof = false) :
    (steps front.length r).reader = r.reader.readFront front rest ∧
      (steps front.length r).ended = false ∧
      ((steps front.length r).failure = none → (steps front.length r).Awaits rest) := by
  induction front generalizing r with
  | nil => exact ⟨rfl, hended, fun _ => h⟩
  | cons t front ih =>
      cases hover : r.isOver with
      | true =>
          have hfailure : r.failure.isSome := by
            rw [isOver, hended, Bool.or_false] at hover
            exact hover
          rw [steps_of_isOver hover]
          refine ⟨(Reader.readFront_of_failure hfailure _ _).symm, hended, fun hnone => ?_⟩
          rw [hnone] at hfailure
          cases hfailure
      | false =>
          have hfailure : r.reader.failure = none := (failure_of_isOver_eq_false hover).1
          have hfirst := stepsAs hover h
          have heof := hfront t List.mem_cons_self
          have hawaits := hfirst.awaits
          rw [if_neg (by simp [heof])] at hawaits
          have hothers := ih (hfirst.ended.trans heof) hawaits
            fun u hu => hfront u (List.mem_cons_of_mem _ hu)
          rw [hfirst.reader] at hothers
          rw [List.length_cons, steps, Reader.readFront_cons_of_failure hfailure]
          exact hothers

end Run

end Gherkin

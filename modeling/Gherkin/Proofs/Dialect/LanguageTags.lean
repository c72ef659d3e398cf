import Gherkin.Dialect.Builtin
import Gherkin.Line.Pragma
import Gherkin.Proofs.Dialect.Resolving
import Gherkin.Proofs.Text.Splitting
import Mathlib

/-!
# Normal forms of language tags

The parts of a normal form are found again as they are, and another change of case
changes nothing.  So a normal form is its own normal form unless trimming it takes
something away, and that happens when a blank comes to one of its ends because the
parts in front of it or behind it were empty.
-/

namespace Gherkin.LanguageTag

/-! ### Characters -/

/-- Two characters differ in no more than their case. -/
structure SameUpToCase (c d : Char) : Prop where
  isSeparator : isSeparator d = isSeparator c
  isBlank : Text.isBlank d = Text.isBlank c
  utf8Size : d.utf8Size = c.utf8Size

/-- A change of case that has nothing to do when it is done again. -/
structure IsRecasing (f : Char → Char) : Prop where
  idempotent : ∀ c, f (f c) = f c
  sameUpToCase : ∀ c, SameUpToCase c (f c)

/-- Only ASCII letters have a case. -/
theorem sameUpToCase_of_ascii {f : Char → Char} (hother : ∀ c, 128 ≤ c.toNat → f c = c)
    (hascii : ∀ n < 128, let c := Char.ofNat n
      isSeparator (f c) = isSeparator c ∧ Text.isBlank (f c) = Text.isBlank c ∧
        (f c).utf8Size = c.utf8Size) (c : Char) : SameUpToCase c (f c) := by
  rcases Nat.lt_or_ge c.toNat 128 with hc | hc
  · have hchar := hascii c.toNat hc
    rw [Char.ofNat_toNat] at hchar
    obtain ⟨hseparator, hblank, hsize⟩ := hchar
    exact ⟨hseparator, hblank, hsize⟩
  · rw [hother c hc]
    exact ⟨rfl, rfl, rfl⟩

theorem isRecasing_toLower : IsRecasing Char.toLower := by
  refine ⟨Char.toLower_toLower_eq_toLower, sameUpToCase_of_ascii (fun c hc => ?_) (by decide)⟩
  refine Char.toLower_eq_of_not_isUpper fun hupper => ?_
  rw [Char.isUpper, decide_eq_true_eq] at hupper
  have hle : c.toNat ≤ 90 := hupper.2
  omega

theorem isRecasing_toUpper : IsRecasing Char.toUpper := by
  refine ⟨Char.toUpper_toUpper_eq_toUpper, sameUpToCase_of_ascii (fun c hc => ?_) (by decide)⟩
  refine Char.toUpper_eq_of_not_isLower fun hlower => ?_
  rw [Char.isLower, Bool.and_eq_true, decide_eq_true_eq, decide_eq_true_eq] at hlower
  have hle : c.toNat ≤ 122 := hlower.2
  omega

/-! ### Parts -/

/-- Two parts of tags differ in no more than the case of their letters. -/
def PartsAgree (part part' : List Char) : Prop :=
  List.Forall₂ SameUpToCase part part'

theorem partsAgree_map {f : Char → Char} (hf : IsRecasing f) (part : List Char) :
    PartsAgree part (part.map f) := by
  induction part with
  | nil => exact .nil
  | cons c cs ih => exact .cons (hf.sameUpToCase c) ih

theorem partsAgree_recase (part : List Char) : PartsAgree part (recase part) := by
  rw [recase.eq_def]
  split
  · exact partsAgree_map isRecasing_toUpper part
  · split
    · cases part with
      | nil => exact .nil
      | cons c cs =>
          exact .cons (isRecasing_toUpper.sameUpToCase c) (partsAgree_map isRecasing_toLower cs)
    · exact partsAgree_map isRecasing_toLower part

namespace PartsAgree

variable {part part' : List Char}

theorem byteLength_eq (h : PartsAgree part part') : byteLength part' = byteLength part := by
  induction h with
  | nil => rfl
  | cons hc _ ih =>
      rw [byteLength, List.foldr_cons, ← byteLength, ih, hc.utf8Size]
      rfl

/-- A part stays a part: it is not empty and holds no separator. -/
theorem forall_mem {p : Char → Bool} (hp : ∀ c d, SameUpToCase c d → p d = p c)
    (h : PartsAgree part part') (hpart : ∀ c ∈ part, p c = false) : ∀ d ∈ part', p d = false := by
  induction h with
  | nil => exact hpart
  | cons hc _ ih =>
      obtain ⟨hfirst, hrest⟩ := List.forall_mem_cons.mp hpart
      exact List.forall_mem_cons.mpr ⟨by rw [hp _ _ hc, hfirst], ih hrest⟩

end PartsAgree

theorem recase_recase (part : List Char) : recase (recase part) = recase part := by
  have hmap {f : Char → Char} (hf : IsRecasing f) (cs : List Char) :
      (cs.map f).map f = cs.map f := by
    rw [List.map_map]
    exact List.map_congr_left fun c _ => hf.idempotent c
  have hlength := (partsAgree_recase part).byteLength_eq
  rw [recase.eq_def, hlength, recase.eq_def]
  split
  · exact hmap isRecasing_toUpper part
  · split
    · cases part with
      | nil => rfl
      | cons c cs =>
          simp only [isRecasing_toUpper.idempotent, hmap isRecasing_toLower]
    · exact hmap isRecasing_toLower part

/-! ### Parts of a tag -/

/-- Parts are not empty and hold no separator. -/
def AreParts (ps : List (List Char)) : Prop :=
  ∀ part ∈ ps, part ≠ [] ∧ ∀ c ∈ part, isSeparator c = false

theorem areParts_parts (tag : List Char) : AreParts (parts tag) := by
  intro part hpart
  obtain ⟨hmem, hne⟩ := List.mem_filter.mp hpart
  exact ⟨by simpa using hne, fun c hc => (Text.mem_of_mem_splitOnP hmem c hc).2⟩

/-- Parts that have been joined are found again. -/
theorem parts_intercalate {ps : List (List Char)} (h : AreParts ps) :
    parts (['-'].intercalate ps) = ps := by
  cases ps with
  | nil => rfl
  | cons part ps =>
      rw [parts, Text.splitOnP_intercalate rfl (List.cons_ne_nil _ _) fun part hpart =>
        (h part hpart).2]
      refine List.filter_eq_self.mpr fun part hpart => ?_
      simpa using (h part hpart).1

/-- All parts change, but in nothing but their case. -/
theorem partsAgree_recaseParts (ps : List (List Char)) :
    List.Forall₂ PartsAgree ps (recaseParts ps) := by
  cases ps with
  | nil => exact .nil
  | cons language subtags =>
      refine .cons (partsAgree_map isRecasing_toLower language) ?_
      induction subtags with
      | nil => exact .nil
      | cons part subtags ih => exact .cons (partsAgree_recase part) ih

theorem areParts_recaseParts {ps : List (List Char)} (h : AreParts ps) :
    AreParts (recaseParts ps) := by
  have hagree := partsAgree_recaseParts ps
  generalize recaseParts ps = ps' at hagree
  induction hagree with
  | nil => exact h
  | @cons part part' ps ps' hpart _ ih =>
      obtain ⟨⟨hne, hseparators⟩, hps⟩ := List.forall_mem_cons.mp h
      refine List.forall_mem_cons.mpr ⟨⟨?_, ?_⟩, ih hps⟩
      · rintro rfl
        cases hpart
        exact hne rfl
      · exact hpart.forall_mem (fun c d hcd => hcd.isSeparator) hseparators

theorem recaseParts_recaseParts (ps : List (List Char)) :
    recaseParts (recaseParts ps) = recaseParts ps := by
  cases ps with
  | nil => rfl
  | cons language subtags =>
      rw [recaseParts, recaseParts, List.map_map, List.map_map]
      congr 1
      · exact List.map_congr_left fun c _ => isRecasing_toLower.idempotent c
      · exact List.map_congr_left fun part _ => recase_recase part

/-! ### Lengths -/

/-- The length of parts with a separator behind each of them. -/
def joinedLength (ps : List (List Char)) : Nat :=
  (ps.map fun part => part.length + 1).sum

theorem joinedLength_cons (part : List Char) (ps : List (List Char)) :
    joinedLength (part :: ps) = part.length + 1 + joinedLength ps :=
  List.sum_cons

theorem length_intercalate (ps : List (List Char)) :
    (['-'].intercalate ps).length = joinedLength ps - 1 := by
  induction ps with
  | nil => rfl
  | cons part ps ih =>
      cases ps with
      | nil => simp [joinedLength]
      | cons part' ps =>
          rw [joinedLength_cons] at ih
          rw [List.intercalate_cons_cons, List.length_append, List.length_append, ih,
            joinedLength_cons, joinedLength_cons, List.length_singleton]
          omega

theorem joinedLength_splitOnP (cs : List Char) :
    joinedLength (cs.splitOnP isSeparator) = cs.length + 1 := by
  induction cs with
  | nil => rfl
  | cons c cs ih =>
      rw [List.splitOnP_cons_eq_if_modifyHead, List.length_cons, ← ih]
      split
      · rw [joinedLength_cons, List.length_nil]
        omega
      · cases hsplit : cs.splitOnP isSeparator with
        | nil => exact absurd hsplit (List.splitOnP_ne_nil _ cs)
        | cons first others =>
            rw [List.modifyHead_cons, joinedLength_cons, joinedLength_cons, List.length_cons]
            omega

theorem joinedLength_filter_le (p : List Char → Bool) (ps : List (List Char)) :
    joinedLength (ps.filter p) ≤ joinedLength ps := by
  induction ps with
  | nil => exact Nat.le_refl _
  | cons part ps ih =>
      rw [List.filter_cons, joinedLength_cons]
      split
      · rw [joinedLength_cons]
        omega
      · omega

theorem joinedLength_recaseParts (ps : List (List Char)) :
    joinedLength (recaseParts ps) = joinedLength ps := by
  have hagree := partsAgree_recaseParts ps
  generalize recaseParts ps = ps' at hagree
  induction hagree with
  | nil => rfl
  | cons hpart _ ih => rw [joinedLength_cons, joinedLength_cons, ih, hpart.length_eq]

/-- A normal form is not longer than the tag without the blanks at its ends. -/
theorem length_normalize_le (tag : String) :
    (normalize tag).toList.length ≤ (Text.trim tag.toList).length := by
  have hsplit := joinedLength_splitOnP (Text.trim tag.toList)
  have hparts := joinedLength_filter_le (fun part => !part.isEmpty)
    ((Text.trim tag.toList).splitOnP isSeparator)
  rw [normalize, String.toList_ofList, length_intercalate, joinedLength_recaseParts, parts]
  omega

/-! ### Normal forms -/

/-- A normal form without blanks at its ends is its own normal form. -/
theorem normalize_of_trimmed {tag : String}
    (h : Text.trimString (normalize tag) = normalize tag) :
    normalize (normalize tag) = normalize tag := by
  have htrim : Text.trim (normalize tag).toList = (normalize tag).toList := by
    rw [← String.toList_ofList (l := Text.trim _)]
    exact congrArg String.toList h
  have hparts := areParts_recaseParts (areParts_parts (Text.trim tag.toList))
  rw [normalize, htrim, normalize, String.toList_ofList, parts_intercalate hparts,
    recaseParts_recaseParts]

/-- A tag that is its own normal form has no blanks at its ends. -/
theorem trimmed_of_normalize_eq {tag : String} (h : normalize tag = tag) :
    Text.trimString tag = tag := by
  -- the normal form is not longer than the trimmed tag, which is not longer than the tag
  have hle := length_normalize_le tag
  rw [h] at hle
  have hsame : Text.trim tag.toList = tag.toList :=
    (Text.trim_sublist tag.toList).eq_of_length_le hle
  rw [Text.trimString, hsame, String.ofList_toList]

theorem normalize_normalize_iff (tag : String) :
    normalize (normalize tag) = normalize tag ↔
      Text.trimString (normalize tag) = normalize tag :=
  ⟨trimmed_of_normalize_eq, normalize_of_trimmed⟩

/-- A tag that holds no blank but at its ends has a normal form without blanks. -/
theorem trimmed_normalize {tag : String}
    (h : ∀ c ∈ Text.trim tag.toList, Text.isBlank c = false) :
    Text.trimString (normalize tag) = normalize tag := by
  have hparts : ∀ part ∈ parts (Text.trim tag.toList), ∀ c ∈ part, Text.isBlank c = false := by
    intro part hpart c hc
    exact h c (Text.mem_of_mem_splitOnP (List.mem_of_mem_filter hpart) c hc).1
  have hagree := partsAgree_recaseParts (parts (Text.trim tag.toList))
  have hrecased : ∀ part ∈ recaseParts (parts (Text.trim tag.toList)), ∀ c ∈ part,
      Text.isBlank c = false := by
    generalize recaseParts (parts (Text.trim tag.toList)) = recased at hagree
    generalize parts (Text.trim tag.toList) = ps at hparts hagree
    induction hagree with
    | nil => exact hparts
    | cons hpart _ ih =>
        obtain ⟨hfirst, hothers⟩ := List.forall_mem_cons.mp hparts
        exact List.forall_mem_cons.mpr
          ⟨hpart.forall_mem (fun c d hcd => hcd.isBlank) hfirst, ih hothers⟩
  have hseparator : ∀ c ∈ ['-'], Text.isBlank c = false :=
    List.forall_mem_singleton.mpr (by decide)
  have hjoined := Text.forall_mem_intercalate hseparator hrecased
  rw [Text.trimString, normalize, String.toList_ofList, Text.trim_of_forall_not_blank hjoined]

theorem isTagChar_of_languageTag? {l : Line} {tag : String} (h : l.languageTag? = some tag) :
    ∀ c ∈ tag.toList, isTagChar c = true := by
  simp only [Line.languageTag?, Option.bind_eq_bind, Option.bind_eq_some_iff] at h
  obtain ⟨_, -, _, -, cs, -, _, hguard, htag⟩ := h
  obtain rfl := Option.some.inj htag
  rw [guard] at hguard
  split at hguard
  · next hchars =>
      rw [Bool.and_eq_true, List.all_eq_true] at hchars
      rw [String.toList_ofList]
      exact hchars.2
  · cases hguard

theorem not_blank_of_isTagChar {c : Char} (h : isTagChar c = true) : Text.isBlank c = false := by
  have hascii : c.toNat < 128 := by
    simp only [isTagChar, Char.isAlpha, Char.isUpper, Char.isLower, Bool.or_eq_true,
      Bool.and_eq_true, decide_eq_true_eq, beq_iff_eq] at h
    rcases h with ((⟨-, hle⟩ | ⟨-, hle⟩) | rfl) | rfl
    · exact Nat.lt_of_le_of_lt hle (by decide)
    · exact Nat.lt_of_le_of_lt hle (by decide)
    · decide
    · decide
  have hall : ∀ n < 128, isTagChar (Char.ofNat n) = true → Text.isBlank (Char.ofNat n) = false := by
    decide
  have hchar := hall c.toNat hascii
  rw [Char.ofNat_toNat] at hchar
  exact hchar h

/-- The tag of a pragma has a normal form without blanks. -/
theorem trimmed_normalize_of_pragma {l : Line} {tag : String} (h : l.languageTag? = some tag) :
    Text.trimString (normalize tag) = normalize tag := by
  refine trimmed_normalize fun c hc => ?_
  exact not_blank_of_isTagChar
    (isTagChar_of_languageTag? h c ((Text.trim_sublist _).subset hc))

/-! ### Languages of dialects -/

section Resolving

variable {r r' : Resolver} {tag : String} {d : Dialect} {place : Location}

/-- The dialect of a default language is named by the normal form of its normal form. -/
theorem language_of_resolveDefault (hr : r.Coherent)
    (h : (r.withDefaultLanguage tag).resolveDefault = .ok (d, r')) :
    d.language = normalize (normalize tag) :=
  (hr.withDefaultLanguage tag).language_eq h

/-- Asking for a dialect by its own language finds it again if its language is in normal form. -/
theorem resolve_language_iff (hr : r.Coherent) (h : r.resolve tag place = .ok (d, r'))
    (place' : Location) :
    r'.lookups d.language = [] ∧ r'.resolve d.language place' = .ok (d, r') ↔
      normalize (normalize tag) = normalize tag := by
  have hlanguage := hr.language_eq h
  have hnormal : r'.resolution (normalize tag) = .known d := by
    rw [Resolver.resolution, Resolver.lookup_of_resolve h]
  constructor
  · rintro ⟨-, hagain⟩
    have hsame := (hr.of_resolve h).language_eq hagain
    rw [hlanguage] at hsame
    exact hsame.symm
  · intro hsame
    rw [hlanguage, Resolver.lookups, Resolver.resolve, hsame, hnormal]
    exact ⟨rfl, rfl⟩

end Resolving

/--
A normal form is its own normal form exactly if no blank stands at one of its ends, as it
never does for the tag of a pragma.  Exactly then the dialect of a default language is named
as the default language is, and a dialect that has been resolved is found again, without
asking the source, when it is asked for by its own language.
-/
theorem normalize_again (tag : String) :
    (normalize (normalize tag) = normalize tag ↔
      Text.trimString (normalize tag) = normalize tag) ∧
    (∀ l : Line, l.languageTag? = some tag → normalize (normalize tag) = normalize tag) ∧
    ∀ r : Resolver, r.Coherent →
      (∀ d r', (r.withDefaultLanguage tag).resolveDefault = .ok (d, r') →
        (d.language = (r.withDefaultLanguage tag).defaultLanguage ↔
          Text.trimString (normalize tag) = normalize tag)) ∧
      ∀ place d r', r.resolve tag place = .ok (d, r') → ∀ place',
        (r'.lookups d.language = [] ∧ r'.resolve d.language place' = .ok (d, r') ↔
          Text.trimString (normalize tag) = normalize tag) := by
  refine ⟨normalize_normalize_iff tag, fun l hl => ?_, fun r hr => ⟨?_, ?_⟩⟩
  · exact normalize_of_trimmed (trimmed_normalize_of_pragma hl)
  · intro d r' hresolve
    rw [language_of_resolveDefault hr hresolve]
    exact normalize_normalize_iff tag
  · intro place d r' hresolve place'
    rw [resolve_language_iff hr hresolve]
    exact normalize_normalize_iff tag

/-- German is found again by its own language when it has been asked for in capitals. -/
theorem normalize_again_de :
    let r := Resolver.ofSource Builtin.keywords
    ∃ d r', r.resolve "_DE" ⟨3, 1⟩ = .ok (d, r') ∧
      r'.lookups d.language = [] ∧ r'.resolve d.language ⟨9, 1⟩ = .ok (d, r') := by
  intro r
  have hsame : Text.trimString (normalize "_DE") = normalize "_DE" := by decide +kernel
  have hok : (r.resolve "_DE" ⟨3, 1⟩).isOk = true := by decide +kernel
  obtain ⟨-, -, hresolvers⟩ := normalize_again "_DE"
  rcases hresolve : r.resolve "_DE" ⟨3, 1⟩ with e | ⟨d, r'⟩
  · rw [hresolve] at hok
    cases hok
  · obtain ⟨-, hfound⟩ := hresolvers _ (Resolver.coherent_ofSource Builtin.keywords)
    exact ⟨d, r', rfl, (hfound _ d r' hresolve ⟨9, 1⟩).mpr hsame⟩

/-- A blank that an empty part hides from the ends of the tag stands at the start of its normal
form, and the dialect of the default language is not named as that language is. -/
theorem not_every_form_normal :
    let r := (Resolver.ofSource Builtin.keywords).withDefaultLanguage "- en"
    normalize "- en" = " en" ∧ normalize " en" = "en" ∧
      ∃ d r', r.resolveDefault = .ok (d, r') ∧ d.language ≠ r.defaultLanguage := by
  intro r
  have hfirst : normalize "- en" = " en" := by decide +kernel
  have hsecond : normalize " en" = "en" := by decide +kernel
  have hok : r.resolveDefault.isOk = true := by decide +kernel
  refine ⟨hfirst, hsecond, ?_⟩
  rcases hresolve : r.resolveDefault with e | ⟨d, r'⟩
  · rw [hresolve] at hok
    cases hok
  · refine ⟨d, r', rfl, ?_⟩
    have hdefault : r.defaultLanguage = normalize "- en" := rfl
    rw [language_of_resolveDefault (Resolver.coherent_ofSource Builtin.keywords) hresolve,
      hdefault, hfirst, hsecond]
    decide

end Gherkin.LanguageTag

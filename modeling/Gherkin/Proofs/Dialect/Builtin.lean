import Gherkin.Parser
import Mathlib.Tactic.Common

/-!
# The built-in dialects

No keyword of a built-in dialect starts with a blank or with one of the
characters that mark other lines.  A resolver over the built-in tables gives no
other dialects, whatever it has resolved before.
-/

namespace Gherkin

/-- The characters that mark comments, tags, rows and doc strings. -/
def markChars : List Char :=
  ['#', '@', '|', '"', '\x60']

/-- A keyword that cannot be mistaken for the start of another line. -/
def isProperKeyword (keyword : String) : Bool :=
  match keyword.toList with
  | [] => false
  | c :: _ => !Text.isBlank c && !markChars.contains c

/-- A dialect whose keywords cannot be mistaken for the start of other lines. -/
def Dialect.Proper (d : Dialect) : Prop :=
  ∀ kind, ∀ keyword ∈ d.keywords kind, isProperKeyword keyword = true

theorem exists_of_isProperKeyword {keyword : String} (h : isProperKeyword keyword = true) :
    ∃ c cs, keyword.toList = c :: cs ∧ Text.isBlank c = false ∧ c ∉ markChars := by
  rw [isProperKeyword] at h
  split at h
  · cases h
  · next c cs hcs =>
      refine ⟨c, cs, hcs, ?_⟩
      simpa using h

/-- A keyword in a table of entries stands in one of the entries. -/
theorem exists_mem_of_mem_ofEntries {entries : List (KeywordKind × List String)}
    {kind : KeywordKind} {keyword : String}
    (h : keyword ∈ (KeywordMap.ofEntries entries).keywords kind) :
    ∃ entry ∈ entries, keyword ∈ entry.2 := by
  have hfold : ∀ map : KeywordMap,
      keyword ∈ (entries.foldl (fun map entry => map.set entry.1 entry.2) map).keywords kind →
      keyword ∈ map.keywords kind ∨ ∃ entry ∈ entries, keyword ∈ entry.2 := by
    clear h
    induction entries with
    | nil => exact fun map h => .inl h
    | cons entry entries ih =>
        intro map h
        rcases ih _ h with hset | ⟨entry', hentry', hkeyword⟩
        · rw [KeywordMap.keywords_set] at hset
          split at hset
          · exact .inr ⟨entry, by simp, hset⟩
          · exact .inl hset
        · exact .inr ⟨entry', by simp [hentry'], hkeyword⟩
  rcases hfold KeywordMap.empty h with hempty | hentry
  · exact absurd hempty List.not_mem_nil
  · exact hentry

namespace Builtin

theorem proper_tables :
    ∀ table ∈ tables, ∀ entry ∈ table.2, ∀ keyword ∈ entry.2,
      isProperKeyword keyword = true := by
  decide +kernel

theorem mem_tables_of_lookup {tag : String} {entries : List (KeywordKind × List String)}
    (h : tables.lookup tag = some entries) : (tag, entries) ∈ tables := by
  obtain ⟨front, back, hsplit, -⟩ := List.lookup_eq_some_iff.mp h
  rw [hsplit]
  exact List.mem_append_right front List.mem_cons_self

theorem exists_mem_tables_of_table? {tag : String} {entries : List (KeywordKind × List String)}
    (h : table? tag = some entries) : ∃ name, (name, entries) ∈ tables := by
  rw [table?, Option.or_eq_some_iff] at h
  rcases h with hlookup | ⟨-, hlookup⟩
  · exact ⟨_, mem_tables_of_lookup hlookup⟩
  · exact ⟨_, mem_tables_of_lookup hlookup⟩

theorem proper_ofMap {tag : String} {map : KeywordMap} (h : keywords tag = some map)
    (language : String) : (Dialect.ofMap language map).Proper := by
  obtain ⟨entries, hentries, rfl⟩ := Option.map_eq_some_iff.mp h
  obtain ⟨name, hname⟩ := exists_mem_tables_of_table? hentries
  intro kind keyword hkeyword
  obtain ⟨component, -, hcomponent⟩ := List.mem_flatMap.mp hkeyword
  obtain ⟨entry, hentry, hmem⟩ := exists_mem_of_mem_ofEntries hcomponent
  exact proper_tables _ hname entry hentry keyword hmem

end Builtin

namespace Resolver

/-- The resolver takes its dialects from the built-in tables. -/
structure IsBuiltin (r : Resolver) : Prop where
  source : r.source = Builtin.keywords
  cache : ∀ entry ∈ r.cache, ∃ map, Builtin.keywords entry.1 = some map ∧
    entry.2 = Dialect.ofMap entry.1 map

theorem isBuiltin_builtin : builtin.IsBuiltin :=
  ⟨rfl, fun _ h => absurd h List.not_mem_nil⟩

/-- A dialect that is resolved comes from the built-in tables, and the resolver that
keeps it still uses these tables. -/
theorem IsBuiltin.exists_table_of_resolve {r r' : Resolver} (h : r.IsBuiltin)
    {language : String} {location : Location} {d : Dialect}
    (hd : r.resolve language location = .ok (d, r')) :
    (∃ tag map, Builtin.keywords tag = some map ∧ d = Dialect.ofMap tag map) ∧
      r'.IsBuiltin := by
  rw [Resolver.resolve] at hd
  generalize LanguageTag.normalize language = tag at hd
  rw [resolution] at hd
  cases hlookup : r.cache.lookup tag with
  | some dialect =>
      rw [hlookup] at hd
      cases hd
      obtain ⟨front, back, hsplit, -⟩ := List.lookup_eq_some_iff.mp hlookup
      obtain ⟨map, hmap, hmapped⟩ := h.cache (tag, d) (by rw [hsplit]; simp)
      exact ⟨⟨tag, map, hmap, hmapped⟩, h⟩
  | none =>
      rw [hlookup] at hd
      simp only [consult] at hd
      cases hmap : r.source tag with
      | none =>
          rw [hmap] at hd
          cases hd
      | some map =>
          rw [hmap] at hd
          cases hmissing : (Dialect.ofMap tag map).missing with
          | cons kind missing =>
              simp only [hmissing] at hd
              cases hd
          | nil =>
              simp only [hmissing] at hd
              cases hd
              rw [h.source] at hmap
              refine ⟨⟨tag, map, hmap, rfl⟩, h.source, ?_⟩
              intro entry hentry
              rcases List.mem_cons.mp hentry with rfl | hentry
              · exact ⟨map, hmap, rfl⟩
              · exact h.cache entry hentry

/-- A dialect from the built-in tables is proper, and the resolver that keeps it
still uses these tables. -/
theorem IsBuiltin.resolve {r r' : Resolver} (h : r.IsBuiltin) {language : String}
    {location : Location} {d : Dialect} (hd : r.resolve language location = .ok (d, r')) :
    d.Proper ∧ r'.IsBuiltin := by
  obtain ⟨⟨tag, map, hmap, rfl⟩, hr'⟩ := h.exists_table_of_resolve hd
  exact ⟨Builtin.proper_ofMap hmap _, hr'⟩

end Resolver
end Gherkin

import ClientRegistry.Proofs.Service.Grammar

/-!
# The first declaration of a module

The candidates of a module are what follows each `export` at the start of a word, the leftmost
first. So the name that is read is that of the leftmost declaration, and there is one wherever
the grammar finds a declaration at all.
-/

set_option autoImplicit false

namespace ClientRegistry.Service

/-! ### The candidates -/

/-- No word character stands last before the end of `before`, where `previous` is the character
before all of it. -/
def Opens (previous : Option Char) (before : List Char) : Prop :=
  ∀ c, before.getLast?.or previous = some c → isWordChar c = false

theorem opens_nil_iff {previous : Option Char} : Opens previous [] ↔ previous.any isWordChar = false := by
  cases previous <;> simp [Opens]

theorem opens_cons_iff {previous : Option Char} {c : Char} {before : List Char} :
    Opens previous (c :: before) ↔ Opens (some c) before := by
  unfold Opens
  rw [List.getLast?_cons]
  cases before.getLast? <;> simp

/-- The test that makes a place a candidate. -/
theorem candidate_iff {previous : Option Char} {s : List Char} :
    (!previous.any isWordChar && "export".toList.isPrefixOf s) = true ↔
      Opens previous [] ∧ ∃ after, s = "export".toList ++ after := by
  rw [opens_nil_iff, Bool.and_eq_true, Bool.not_eq_true', List.isPrefixOf_iff_prefix]
  exact and_congr_right fun _ => exists_congr fun _ => eq_comm

theorem mem_candidatesAfter_iff {previous : Option Char} {s after : List Char} :
    after ∈ candidatesAfter previous s ↔
      ∃ before, s = before ++ "export".toList ++ after ∧ Opens previous before := by
  induction s generalizing previous with
  | nil => simp [candidatesAfter]
  | cons c rest ih =>
    have hShift : (∃ before, c :: rest = before ++ "export".toList ++ after ∧ Opens previous before) ↔
        (c :: rest = "export".toList ++ after ∧ Opens previous []) ∨
          ∃ before, rest = before ++ "export".toList ++ after ∧ Opens (some c) before := by
      constructor
      · rintro ⟨before, hText, hOpens⟩
        cases before with
        | nil => exact .inl ⟨hText, hOpens⟩
        | cons b before =>
          obtain ⟨rfl, hRest⟩ := List.cons.inj hText
          exact .inr ⟨before, hRest, opens_cons_iff.mp hOpens⟩
      · rintro (⟨hText, hOpens⟩ | ⟨before, hText, hOpens⟩)
        · exact ⟨[], hText, hOpens⟩
        · exact ⟨c :: before, by rw [hText]; rfl, opens_cons_iff.mpr hOpens⟩
    rw [hShift, ← ih, candidatesAfter]
    by_cases hCandidate : (!previous.any isWordChar && "export".toList.isPrefixOf (c :: rest)) = true
    · rw [if_pos hCandidate, List.mem_cons]
      obtain ⟨hOpens, found, hFound⟩ := candidate_iff.mp hCandidate
      have hHere : after = (c :: rest).drop "export".length ↔
          c :: rest = "export".toList ++ after ∧ Opens previous [] := by
        rw [hFound, List.drop_left' String.length_toList, List.append_cancel_left_eq, eq_comm]
        exact (and_iff_left hOpens).symm
      rw [hHere]
    · rw [if_neg hCandidate, or_iff_right]
      rintro ⟨hText, hOpens⟩
      exact hCandidate (candidate_iff.mpr ⟨hOpens, after, hText⟩)

/-- What follows an `export` further left is longer. -/
theorem pairwise_candidatesAfter (previous : Option Char) (s : List Char) :
    (candidatesAfter previous s).Pairwise fun a b => b.length < a.length := by
  induction s generalizing previous with
  | nil => exact .nil
  | cons c rest ih =>
    rw [candidatesAfter]
    split
    · refine .cons ?_ (ih (some c))
      intro after hAfter
      obtain ⟨before, hText, -⟩ := mem_candidatesAfter_iff.mp hAfter
      rw [List.length_drop, List.length_cons, hText, List.length_append, List.length_append,
        String.length_toList]
      omega
    · exact ih (some c)

theorem mem_candidates_iff {source after : List Char} :
    after ∈ candidates source ↔ ∃ before, ExportAt source before after := by
  rw [candidates, mem_candidatesAfter_iff]
  refine exists_congr fun before => ⟨fun ⟨hText, hOpens⟩ => ⟨hText, ?_⟩, fun ⟨hText, hOpens⟩ => ⟨hText, ?_⟩⟩
  · simpa [Opens] using hOpens
  · simpa [Opens] using hOpens

theorem ExportAt.length_eq {source before after : List Char} (h : ExportAt source before after) :
    source.length = before.length + "export".length + after.length := by
  rw [h.text, List.length_append, List.length_append, String.length_toList]

/-! ### The first candidate that matches -/

theorem firstDeclared_eq_ok_iff {closest : Mismatch} {cs : List (List Char)} {name : List Char} :
    firstDeclared closest cs = .ok name ↔
      ∃ passed after later, cs = passed ++ after :: later ∧ Declaration name after ∧
        ∀ s ∈ passed, ∀ other, ¬ Declaration other s := by
  induction cs generalizing closest with
  | nil => simp [firstDeclared]
  | cons s rest ih =>
    rw [firstDeclared]
    cases hRead : readDeclaration s with
    | ok found =>
      have hFound : Declaration found s := readDeclaration_eq_ok_iff.mp hRead
      constructor
      · intro h
        obtain rfl : found = name := Except.ok.inj h
        exact ⟨[], s, rest, rfl, hFound, by simp⟩
      · rintro ⟨passed, after, later, hSplit, hName, hPassed⟩
        cases passed with
        | nil =>
          obtain ⟨rfl, -⟩ := List.cons.inj hSplit
          rw [← readDeclaration_eq_ok_iff, hRead] at hName
          exact hName
        | cons p passed =>
          obtain ⟨rfl, -⟩ := List.cons.inj hSplit
          exact absurd hFound (hPassed s List.mem_cons_self found)
    | error m =>
      have hNone : ∀ other, ¬ Declaration other s := by
        intro other hOther
        rw [← readDeclaration_eq_ok_iff, hRead] at hOther
        cases hOther
      simp only [ih]
      constructor
      · rintro ⟨passed, after, later, rfl, hName, hPassed⟩
        refine ⟨s :: passed, after, later, rfl, hName, ?_⟩
        simpa [hNone] using hPassed
      · rintro ⟨passed, after, later, hSplit, hName, hPassed⟩
        cases passed with
        | nil =>
          obtain ⟨rfl, -⟩ := List.cons.inj hSplit
          exact absurd hName (hNone name)
        | cons p passed =>
          obtain ⟨rfl, rfl⟩ := List.cons.inj hSplit
          exact ⟨passed, after, later, rfl, hName, fun t ht => hPassed t (List.mem_cons_of_mem _ ht)⟩

theorem not_declaration_of_error {closest m : Mismatch} {cs : List (List Char)}
    (h : firstDeclared closest cs = .error m) : ∀ s ∈ cs, ∀ name, ¬ Declaration name s := by
  induction cs generalizing closest with
  | nil => simp
  | cons s rest ih =>
    rw [firstDeclared] at h
    cases hRead : readDeclaration s with
    | ok found =>
      rw [hRead] at h
      cases h
    | error first =>
      rw [hRead] at h
      intro t ht name hName
      rcases List.mem_cons.mp ht with rfl | ht
      · rw [← readDeclaration_eq_ok_iff, hRead] at hName
        cases hName
      · exact ih h t ht name hName

theorem exists_firstDeclared_iff {closest : Mismatch} {cs : List (List Char)} :
    (∃ name, firstDeclared closest cs = .ok name) ↔ ∃ after ∈ cs, ∃ name, Declaration name after := by
  constructor
  · rintro ⟨name, h⟩
    obtain ⟨passed, after, later, rfl, hName, -⟩ := firstDeclared_eq_ok_iff.mp h
    exact ⟨after, by simp, name, hName⟩
  · rintro ⟨after, hAfter, name, hName⟩
    cases h : firstDeclared closest cs with
    | ok found => exact ⟨found, rfl⟩
    | error m => exact absurd hName (not_declaration_of_error h after hAfter name)

/-! ### The leftmost declaration -/

def LeftmostDeclaration (source name : List Char) : Prop :=
  ∃ before after, ExportAt source before after ∧ Declaration name after ∧
    ∀ before' after' other, ExportAt source before' after' → Declaration other after' →
      before.length ≤ before'.length

theorem firstDeclared_candidates_iff {closest : Mismatch} {source name : List Char} :
    firstDeclared closest (candidates source) = .ok name ↔ LeftmostDeclaration source name := by
  have hLonger := pairwise_candidatesAfter none source
  rw [← candidates] at hLonger
  rw [firstDeclared_eq_ok_iff]
  constructor
  · rintro ⟨passed, after, later, hSplit, hName, hPassed⟩
    rw [hSplit, List.pairwise_append, List.pairwise_cons] at hLonger
    obtain ⟨before, hExport⟩ : ∃ before, ExportAt source before after := by
      rw [← mem_candidates_iff, hSplit]
      simp
    refine ⟨before, after, hExport, hName, ?_⟩
    intro before' after' other hExport' hOther
    have hLength := hExport.length_eq
    have hLength' := hExport'.length_eq
    have hMem : after' ∈ passed ++ after :: later := hSplit ▸ mem_candidates_iff.mpr ⟨before', hExport'⟩
    rcases List.mem_append.mp hMem with hPast | hRest
    · exact absurd hOther (hPassed after' hPast other)
    · rcases List.mem_cons.mp hRest with rfl | hLater
      · omega
      · have hShorter := hLonger.2.1.1 after' hLater
        omega
  · rintro ⟨before, after, hExport, hName, hLeftmost⟩
    obtain ⟨passed, later, hSplit⟩ := List.append_of_mem (mem_candidates_iff.mpr ⟨before, hExport⟩)
    refine ⟨passed, after, later, hSplit, hName, ?_⟩
    intro s hs other hOther
    rw [hSplit, List.pairwise_append] at hLonger
    have hShorter := hLonger.2.2 s hs after List.mem_cons_self
    obtain ⟨before', hExport'⟩ : ∃ before', ExportAt source before' s := by
      rw [← mem_candidates_iff, hSplit]
      exact List.mem_append_left _ hs
    have hLeft := hLeftmost before' s other hExport' hOther
    have hLength := hExport.length_eq
    have hLength' := hExport'.length_eq
    omega

theorem declaredName_eq_ok {source name : String} :
    declaredName source = .ok name ↔ firstDeclared .noExport (candidates source.toList) = .ok name.toList := by
  unfold declaredName
  cases firstDeclared .noExport (candidates source.toList) with
  | error m => simp [Except.map]
  | ok found =>
    simp only [Except.map, Except.ok.injEq]
    constructor
    · rintro rfl
      exact String.toList_ofList.symm
    · rintro rfl
      exact String.ofList_toList

/-- A module's service is that of its leftmost declaration, and it has one just where there is a
declaration. -/
theorem declaredName_eq_ok_iff (source : String) :
    (∀ name, declaredName source = .ok name ↔ LeftmostDeclaration source.toList name.toList) ∧
      ((∃ name, declaredName source = .ok name) ↔
        ∃ before after name, ExportAt source.toList before after ∧ Declaration name after) := by
  constructor
  · intro name
    rw [declaredName_eq_ok, firstDeclared_candidates_iff]
  · have hExists : (∃ name, declaredName source = .ok name) ↔
        ∃ name, firstDeclared .noExport (candidates source.toList) = .ok name := by
      constructor
      · rintro ⟨name, hName⟩
        exact ⟨name.toList, declaredName_eq_ok.mp hName⟩
      · rintro ⟨name, hName⟩
        exact ⟨String.ofList name, declaredName_eq_ok.mpr (by rwa [String.toList_ofList])⟩
    rw [hExists, exists_firstDeclared_iff]
    constructor
    · rintro ⟨after, hAfter, name, hName⟩
      obtain ⟨before, hExport⟩ := mem_candidates_iff.mp hAfter
      exact ⟨before, after, name, hExport, hName⟩
    · rintro ⟨before, after, name, hExport, hName⟩
      exact ⟨after, mem_candidates_iff.mpr ⟨before, hExport⟩, name, hName⟩

-- The second candidate stands where the first one looks for a name.
example : declaredName "export const export const FooServiceService : GenService <" = .ok "FooService" := rfl

end ClientRegistry.Service

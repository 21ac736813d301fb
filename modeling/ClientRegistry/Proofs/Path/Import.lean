import Mathlib.Data.List.DropRight
import Mathlib.Data.List.TakeDrop
import ClientRegistry.Path.Import
import ClientRegistry.Proofs.Path.Names

/-!
# Import paths lead back to their files

What is left of a path after the directory it was joined to are the names that were joined. The
extension of a generated module is what comes after the last dot of its name, so that taking it off
and putting it on again gives the name back, however many dots there are.
-/

set_option autoImplicit false

namespace ClientRegistry

def Anchor.lead : Anchor → List Component
  | .root => [.root]
  | .current => [.current]
  | .none => []

namespace Path

variable {p base : Path} {anchor : Anchor} {body names : List String}

/-! ### Anchored paths -/

theorem components_of_anchored (h : p.anchored = (anchor, body)) :
    p.components = anchor.lead ++ body.filterMap stepOf? := by
  rw [components, h]
  cases anchor <;> rfl

theorem slash_not_mem_of_anchored (h : p.anchored = (anchor, body)) : ∀ segment ∈ body, '/' ∉ segment.toList := by
  intro segment hSegment
  refine slash_not_mem_of_mem_segments (p := p) ?_
  unfold anchored at h
  split at h
  · cases h
    exact List.mem_of_mem_tail hSegment
  · split at h
    · cases h
      exact List.mem_of_mem_tail hSegment
    · cases h
      exact hSegment

/-- Segments of which the first is a step are not taken for the start of a path. -/
theorem lead_intercalate (hSlash : ∀ segment ∈ body, '/' ∉ segment.toList)
    (hFirst : ∀ segment, body.head? = some segment → isTrivial segment = false) :
    lead ⟨"/".intercalate body⟩ = [] := by
  cases body with
  | nil => rfl
  | cons first rest =>
    have hTrivial := hFirst first rfl
    have hHead : (Path.mk ("/".intercalate (first :: rest))).segments.head? = some first := by
      rw [segments_intercalate hSlash (List.cons_ne_nil first rest)]
      rfl
    have hAbsolute : (Path.mk ("/".intercalate (first :: rest))).isAbsolute = false := by
      refine Bool.eq_false_iff.mpr fun hAbsolute => ?_
      rw [head?_segments_of_absolute hAbsolute] at hHead
      cases hHead
      cases hTrivial
    have hCurrent : first ≠ "." := by
      rintro rfl
      cases hTrivial
    rw [lead, hAbsolute, hHead]
    simp [hCurrent]

theorem components_ofAnchored (hSlash : ∀ segment ∈ body, '/' ∉ segment.toList)
    (hFirst : anchor = .none → ∀ segment, body.head? = some segment → isTrivial segment = false) :
    (ofAnchored anchor body).components = anchor.lead ++ body.filterMap stepOf? := by
  cases anchor with
  | root =>
    have hAbsolute : (Path.mk ("/" ++ "/".intercalate body)).isAbsolute = true := by
      rw [isAbsolute, String.toList_append]
      rfl
    rw [ofAnchored, components_eq, steps_slash_intercalate hSlash, lead, if_pos hAbsolute]
    rfl
  | current =>
    cases body with
    | nil => rfl
    | cons first rest =>
      have hText : ("./" ++ "/".intercalate (first :: rest)).toList =
          ['.'] ++ '/' :: ("/".intercalate (first :: rest)).toList := by
        rw [String.toList_append]
        rfl
      have hSteps := steps_of_toList (p := ⟨"./" ++ "/".intercalate (first :: rest)⟩) hText
      have hSegments := segments_of_toList (p := ⟨"./" ++ "/".intercalate (first :: rest)⟩) hText
      rw [String.ofList_toList, steps_intercalate hSlash] at hSteps
      have hAbsolute : (Path.mk ("./" ++ "/".intercalate (first :: rest))).isAbsolute = false := by
        rw [isAbsolute, hText]
        rfl
      rw [ofAnchored, components_eq, hSteps, lead, hAbsolute, hSegments]
      · rfl
      · intro hNone
        cases hNone
  | none =>
    rw [ofAnchored, components_eq, lead_intercalate hSlash (hFirst rfl), steps_intercalate hSlash]
    rfl

/-! ### What is left of a path -/

theorem stepOf?_eq_none_iff {segment : String} : stepOf? segment = none ↔ isTrivial segment = true := by
  unfold stepOf?
  split
  · simp_all
  · split <;> simp_all

theorem filterMap_dropSteps (n : Nat) (body : List String) :
    (dropSteps n body).filterMap stepOf? = (body.filterMap stepOf?).drop n := by
  fun_induction dropSteps n body with
  | case1 body => rfl
  | case2 n => simp
  | case3 n segment rest hTrivial ih => rw [ih, List.filterMap_cons_none (stepOf?_eq_none_iff.mpr hTrivial)]
  | case4 n segment rest hTrivial ih =>
    obtain ⟨c, hStep⟩ := Option.ne_none_iff_exists'.mp (mt stepOf?_eq_none_iff.mp hTrivial)
    rw [ih, List.filterMap_cons_some hStep, List.drop_succ_cons]

theorem filterMap_dropWhile_trivial (body : List String) :
    (body.dropWhile isTrivial).filterMap stepOf? = body.filterMap stepOf? := by
  induction body with
  | nil => rfl
  | cons segment rest ih =>
    rw [List.dropWhile_cons]
    split
    · rename_i hTrivial
      rw [ih, List.filterMap_cons_none (stepOf?_eq_none_iff.mpr hTrivial)]
    · rfl

theorem filterMap_trimEndSegments (body : List String) :
    (trimEndSegments body).filterMap stepOf? = body.filterMap stepOf? := by
  rw [trimEndSegments, List.filterMap_reverse, filterMap_dropWhile_trivial, List.filterMap_reverse,
    List.reverse_reverse]

theorem isPrefix_trimEndSegments (body : List String) : trimEndSegments body <+: body :=
  List.rdropWhile_prefix isTrivial body

theorem isSuffix_dropSteps (n : Nat) (body : List String) : dropSteps n body <:+ body := by
  fun_induction dropSteps n body with
  | case1 body => exact List.suffix_rfl
  | case2 n => exact List.suffix_rfl
  | case3 n segment rest hTrivial ih => exact ih.trans (List.suffix_cons segment rest)
  | case4 n segment rest hTrivial ih => exact ih.trans (List.suffix_cons segment rest)

theorem head?_of_isPrefix {kept all : List String} {segment : String} (h : kept <+: all)
    (hFirst : kept.head? = some segment) : all.head? = some segment := by
  obtain ⟨rest, rfl⟩ := h
  rw [List.head?_append, hFirst]
  rfl

/-- What is left after so many steps, without slashes around it. -/
theorem components_dropSteps (hSlash : ∀ segment ∈ body, '/' ∉ segment.toList) (n : Nat) :
    (ofAnchored .none (trimEndSegments ((dropSteps n body).dropWhile isTrivial))).components =
      (body.filterMap stepOf?).drop n := by
  have hPrefix := isPrefix_trimEndSegments ((dropSteps n body).dropWhile isTrivial)
  rw [components_ofAnchored, filterMap_trimEndSegments, filterMap_dropWhile_trivial, filterMap_dropSteps]
  · rfl
  · intro segment hSegment
    have hRest := (List.dropWhile_suffix isTrivial).subset (hPrefix.subset hSegment)
    exact hSlash segment ((isSuffix_dropSteps n body).subset hRest)
  · intro _ segment hFirst
    have hNot := List.head?_dropWhile_not isTrivial (dropSteps n body)
    rwa [head?_of_isPrefix hPrefix hFirst] at hNot

theorem text_of_head?_segments (h : p.segments.head? = some "") (hRelative : p.isAbsolute = false) : p.text = "" := by
  cases hText : p.text.toList with
  | nil => exact String.toList_eq_nil_iff.mp hText
  | cons c rest =>
    have hSlash : c ≠ '/' := by
      rintro rfl
      simp [isAbsolute, hText] at hRelative
    obtain ⟨first, others, hSplit⟩ := List.exists_cons_of_ne_nil (List.splitOn_ne_nil '/' rest)
    rw [segments, hText, List.splitOn_cons_eq_if_modifyHead, if_neg (by simpa using hSlash), hSplit] at h
    have hFirst : String.ofList (c :: first) = "" := Option.some.inj h
    simp at hFirst

/-- A relative path that does not start with `.` has a step first, unless it has none at all. -/
theorem isTrivial_head_of_anchored (h : p.anchored = (.none, body)) {segment : String}
    (hFirst : (trimEndSegments body).head? = some segment) : isTrivial segment = false := by
  unfold anchored at h
  split at h
  · cases h
  rename_i hRelative
  split at h
  · cases h
  rename_i hCurrent
  cases h
  have hHead := head?_of_isPrefix (isPrefix_trimEndSegments p.segments) hFirst
  by_cases hEmpty : segment = ""
  · subst hEmpty
    have hText := text_of_head?_segments hHead (by simpa using hRelative)
    have hNone : trimEndSegments p.segments = [] := by
      rw [segments, hText]
      rfl
    rw [hNone] at hFirst
    cases hFirst
  · have hDot : segment ≠ "." := by
      rintro rfl
      exact hCurrent (by simp [hHead])
    simp [isTrivial, hEmpty, hDot]

theorem components_relativeTo? (h : p.startsWith base = true) :
    ∃ rest, p.relativeTo? base = some rest ∧ rest.components = p.components.drop base.components.length := by
  obtain ⟨anchor, body, hAnchored⟩ : ∃ anchor body, p.anchored = (anchor, body) := ⟨_, _, rfl⟩
  have hSlash := slash_not_mem_of_anchored hAnchored
  rw [relativeTo?, if_pos h, hAnchored, components_of_anchored hAnchored]
  cases base.components.length with
  | zero =>
    refine ⟨_, rfl, ?_⟩
    rw [components_ofAnchored, filterMap_trimEndSegments]
    · rfl
    · exact fun segment hSegment => hSlash segment ((isPrefix_trimEndSegments body).subset hSegment)
    · rintro rfl segment hFirst
      exact isTrivial_head_of_anchored hAnchored hFirst
  | succ n =>
    cases anchor with
    | root => exact ⟨_, rfl, components_dropSteps hSlash n⟩
    | current => exact ⟨_, rfl, components_dropSteps hSlash n⟩
    | none => exact ⟨_, rfl, components_dropSteps hSlash (n + 1)⟩

theorem relativeTo?_joinNames (base : Path) (h : ∀ name ∈ names, IsName name) :
    ∃ rest, (base.joinNames names).relativeTo? base = some rest ∧ rest.components = names.map .name := by
  have hComponents := components_joinNames base h
  have hStarts : (base.joinNames names).startsWith base = true := by
    rw [startsWith, List.isPrefixOf_iff_prefix, hComponents]
    exact List.prefix_append _ _
  obtain ⟨rest, hRest, hRestComponents⟩ := components_relativeTo? hStarts
  refine ⟨rest, hRest, ?_⟩
  rw [hRestComponents, hComponents, List.drop_left]

end Path

/-! ### Names of modules -/

/-- A name with an extension that holds no dot is split at the dot before the extension. -/
theorem splitExtension_append {stem extension : String} (hStem : stem ≠ "") (hDot : '.' ∉ extension.toList) :
    splitExtension (stem ++ "." ++ extension) = (stem, some extension) := by
  obtain ⟨last, before, hLast⟩ : ∃ last before, stem.toList.reverse = last :: before :=
    List.exists_cons_of_ne_nil (by simpa using hStem)
  have hChars : (stem ++ "." ++ extension).toList.reverse = extension.toList.reverse ++ '.' :: last :: before := by
    rw [← hLast]
    simp
  have hStop : ∀ c ∈ extension.toList.reverse, decide (c ≠ '.') = true := by
    intro c hc
    refine decide_eq_true ?_
    rintro rfl
    exact hDot (List.mem_reverse.mp hc)
  have hSpan : (stem ++ "." ++ extension).toList.reverse.span (· ≠ '.') =
      (extension.toList.reverse, '.' :: last :: before) := by
    rw [hChars, List.span_eq_takeWhile_dropWhile, List.takeWhile_append_of_pos hStop,
      List.dropWhile_append_of_pos hStop]
    simp
  rw [splitExtension, hSpan]
  dsimp only
  rw [← hLast, List.reverse_reverse, List.reverse_reverse, String.ofList_toList, String.ofList_toList]

theorem Component.withoutExtension_append {stem extension : String} (hStem : IsName stem)
    (hDot : '.' ∉ extension.toList) : (Component.name (stem ++ "." ++ extension)).withoutExtension = .name stem := by
  rw [withoutExtension, splitExtension_append hStem.not_empty hDot]
  dsimp only
  rw [hStem.stepOf?_eq]
  rfl

namespace Path

variable {base : Path} {names : List String} {stem : String}

def importedFile (base : Path) (below : String) : Path := ⟨(base.joinNames (segments ⟨below⟩)).text ++ ".ts"⟩

theorem text_join_append (p : Path) {name suffix : String} (h : IsName name) (h' : IsName (name ++ suffix)) :
    (p.join ⟨name⟩).text ++ suffix = (p.join ⟨name ++ suffix⟩).text := by
  have hJoin : ∀ n, IsName n → p.join ⟨n⟩ =
      if p.text.toList.getLast?.all (· == '/') then ⟨p.text ++ n⟩ else ⟨p.text ++ "/" ++ n⟩ :=
    fun n hn => if_neg (by simp [hn.isAbsolute_eq])
  rw [hJoin name h, hJoin (name ++ suffix) h']
  split <;> simp only [String.append_assoc]

/-- The path of a module below a directory, and the path by which it is imported. -/
theorem importPath?_joinNames (base : Path) (hNames : ∀ name ∈ names, IsName name) (hStem : IsName stem)
    (hModule : IsName (stem ++ ".ts")) :
    base.importPath? (base.joinNames (names ++ [stem ++ ".ts"])) =
      some ("./" ++ "/".intercalate (names ++ [stem])) := by
  have hAll : ∀ name ∈ names ++ [stem ++ ".ts"], IsName name := by
    intro name hName
    rcases List.mem_append.mp hName with hUp | hLast
    · exact hNames name hUp
    · exact List.mem_singleton.mp hLast ▸ hModule
  have hExtension : (Component.name (stem ++ ".ts")).withoutExtension = .name stem := by
    have hParts : stem ++ ".ts" = stem ++ "." ++ "ts" := by rw [String.append_assoc]; rfl
    rw [hParts, Component.withoutExtension_append hStem (by decide)]
  obtain ⟨rest, hRest, hComponents⟩ := relativeTo?_joinNames base hAll
  have hSegments : base.importSegments? (base.joinNames (names ++ [stem ++ ".ts"])) = some (names ++ [stem]) := by
    unfold importSegments? componentsWithoutExtension
    rw [hRest, Option.map_some, hComponents, List.map_append, List.map_singleton, List.reverse_append,
      List.reverse_singleton, List.singleton_append]
    dsimp only
    rw [List.reverse_reverse, hExtension]
    simp [List.filterMap_map, Function.comp_def, Component.name?]
  unfold importPath?
  rw [hSegments]
  cases names <;> rfl

/-- The import path of a module leads back to its file. -/
theorem importedFile_intercalate (base : Path) (hNames : ∀ name ∈ names, IsName name) (hStem : IsName stem)
    (hModule : IsName (stem ++ ".ts")) :
    base.importedFile ("/".intercalate (names ++ [stem])) = base.joinNames (names ++ [stem ++ ".ts"]) := by
  have hSlash : ∀ segment ∈ names ++ [stem], '/' ∉ segment.toList := by
    intro segment hSegment
    rcases List.mem_append.mp hSegment with hUp | hLast
    · exact (hNames segment hUp).no_slash
    · exact List.mem_singleton.mp hLast ▸ hStem.no_slash
  rw [importedFile, segments_intercalate hSlash (by simp), joinNames_concat, joinNames_concat,
    text_join_append _ hStem hModule]

end Path

end ClientRegistry

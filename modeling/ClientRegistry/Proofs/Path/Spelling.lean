import Mathlib.Data.Set.List
import ClientRegistry.Proofs.Path.Import
import ClientRegistry.Proofs.Path.NormalForm

/-!
# How places are spelled

An absolute path without `..` spells out the place it leads to, so two of them lie below each other
just where their components are prefixes of each other. A relative path has no root among its
components, and a `.` only as its first one.
-/

set_option autoImplicit false

namespace ClientRegistry.Path

variable {p q root : Path}

theorem startsWith_iff : p.startsWith q = true ↔ q.components <+: p.components := List.isPrefixOf_iff_prefix

theorem not_mem_steps {c : Component} (hParent : c ≠ .parent) (hName : ∀ name, c ≠ .name name) : c ∉ p.steps := by
  intro hc
  rcases step_of_mem_steps hc with hUp | ⟨name, hDown, -⟩
  · exact hParent hUp
  · exact hName name hDown

theorem components_of_absolute (h : p.isAbsolute = true) : p.components = .root :: p.steps := by
  rw [components_eq, lead, if_pos h]
  rfl

theorem root_mem_components_iff : .root ∈ p.components ↔ p.isAbsolute = true := by
  constructor
  · intro h
    rw [components_eq] at h
    rcases List.mem_append.mp h with hLead | hStep
    · unfold lead at hLead
      split at hLead
      · assumption
      · split at hLead <;> simp at hLead
    · exact absurd hStep (not_mem_steps nofun nofun)
  · intro h
    rw [components_of_absolute h]
    exact List.mem_cons_self

theorem exists_normalForm_of_relative (h : p.isAbsolute = false) : ∃ ups names, p.normalForm = .relative ups names :=
  NormalForm.exists_relative_of_foldl (by simp [root_mem_components_iff, h]) 0 []

/-- What is left of a relative path without its leading `.`. -/
theorem filter_components_of_relative (h : p.isAbsolute = false) :
    p.components.filter (· ≠ .current) = p.steps := by
  have hSteps : p.steps.filter (· ≠ .current) = p.steps := by
    apply List.filter_eq_self.mpr
    intro c hc
    apply decide_eq_true
    rintro rfl
    exact absurd hc (not_mem_steps nofun nofun)
  rw [components_eq, List.filter_append, hSteps, lead, if_neg (by simp [h])]
  split <;> simp

theorem components_ne_nil (h : p.text ≠ "") : p.components ≠ [] := by
  cases hAbsolute : p.isAbsolute with
  | true =>
    rw [components_of_absolute hAbsolute]
    exact List.cons_ne_nil _ _
  | false =>
    obtain ⟨first, rest, hFirst⟩ := List.exists_cons_of_ne_nil p.segments_ne_nil
    have hEmpty : first ≠ "" := by
      rintro rfl
      exact h (text_of_head?_segments (by rw [hFirst]; rfl) hAbsolute)
    rw [components_eq, lead, if_neg (by simp [hAbsolute]), steps, hFirst]
    by_cases hCurrent : first = "."
    · simp [hCurrent]
    · have hStep : stepOf? first ≠ none := by
        rw [Ne, stepOf?_eq_none_iff]
        simp [isTrivial, hEmpty, hCurrent]
      obtain ⟨c, hc⟩ := Option.ne_none_iff_exists'.mp hStep
      simp [hc]

/-- Nothing is folded in an absolute path just where it has no `..`. -/
theorem folded_eq_components_iff (h : p.isAbsolute = true) :
    p.folded = p.components ↔ .parent ∉ p.components := by
  constructor
  · intro hFolded
    rw [← hFolded, folded_of_absolute h []]
    simp
  · intro hParent
    have hNames : p.steps ∈ Set.range (List.map Component.name) := by
      rw [Set.range_list_map]
      intro c hc
      rcases step_of_mem_steps hc with rfl | ⟨name, rfl, -⟩
      · rw [components_of_absolute h] at hParent
        exact absurd (List.mem_cons_of_mem _ hc) hParent
      · exact ⟨name, rfl⟩
    obtain ⟨names, hNames⟩ := hNames
    have hPlace : p.locate [] = names := by
      rw [locate, components_of_absolute h, List.foldl_cons, ← hNames, Component.foldl_follow_names]
      rfl
    rw [folded_of_absolute h [], hPlace, components_of_absolute h, hNames]

/-! ### Paths seen from a root -/

/-- A relative path below another one is below it from every root as well. -/
theorem components_join_prefix (hRoot : root.isAbsolute = true) (hp : p.isAbsolute = false)
    (hq : q.isAbsolute = false) (h : q.components <+: p.components) :
    (root.join q).components <+: (root.join p).components := by
  have hSteps : q.steps <+: p.steps := by
    rw [← filter_components_of_relative hp, ← filter_components_of_relative hq]
    exact h.filter _
  rw [components_join_of_absolute hRoot hp, components_join_of_absolute hRoot hq]
  exact (List.prefix_append_right_inj _).mpr hSteps

theorem text_suffix_join (p : Path) {name : String} (h : (Path.mk name).isAbsolute = false) :
    name.toList <:+ (p.join ⟨name⟩).text.toList := by
  rw [join, if_neg (by simp [h])]
  split
  · rw [String.toList_append]
    exact List.suffix_append _ _
  · rw [String.toList_append]
    exact List.suffix_append _ _

/-- A relative path is written after a slash where it is seen from an absolute one. -/
theorem exists_toList_join (hRoot : root.isAbsolute = true) (hp : p.isAbsolute = false) :
    ∃ before, (root.join p).text.toList = before ++ '/' :: p.text.toList := by
  have hText : root.text.toList ≠ [] := by
    intro hEmpty
    simp [isAbsolute, hEmpty] at hRoot
  obtain ⟨before, last, hLast⟩ := (List.eq_nil_or_concat root.text.toList).resolve_left hText
  rw [join, if_neg (by simp [hp])]
  split
  · rename_i hEnd
    obtain rfl : last = '/' := by simpa [hLast] using hEnd
    refine ⟨before, ?_⟩
    rw [String.toList_append, hLast, List.concat_append]
  · refine ⟨root.text.toList, ?_⟩
    rw [String.toList_append, String.toList_append, List.append_assoc]
    rfl

theorem parent_not_mem_components_join (hRoot : root.isAbsolute = true) (hRootUp : .parent ∉ root.components)
    (hp : .parent ∉ p.components) : .parent ∉ (root.join p).components := by
  cases hAbsolute : p.isAbsolute with
  | true => rwa [join_of_absolute root hAbsolute]
  | false =>
    rw [components_eq, List.mem_append, not_or] at hp
    rw [components_join_of_absolute hRoot hAbsolute, List.mem_append, not_or]
    exact ⟨hRootUp, hp.2⟩

end ClientRegistry.Path

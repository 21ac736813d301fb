import Mathlib.Data.List.Infix
import ClientRegistry.Manifest.Basic
import ClientRegistry.Proofs.Path.NormalForm

/-!
# What cleaning spares

Cleaning deletes the place to which the output directory leads from the project root. Validation
never sees the root: it compares the normal forms of the two paths. That keeps the schemas where both
paths start from the same place. An output directory that is absolute, or that goes up and comes down
again, is accepted wherever it leads, and the root decides whether cleaning deletes the project or
the schemas.
-/

set_option autoImplicit false

namespace ClientRegistry

namespace GenerationConfig

structure CleanSpares (root : Path) (c : GenerationConfig) : Prop where
  project : ¬ (root.join c.outDir).folded <+: root.components
  schemas : ¬ (root.join c.outDir).folded <+: (root.join c.protoPath).folded

instance (root : Path) (c : GenerationConfig) : Decidable (c.CleanSpares root) :=
  decidable_of_iff
    (¬ (root.join c.outDir).folded <+: root.components ∧
      ¬ (root.join c.outDir).folded <+: (root.join c.protoPath).folded)
    ⟨fun h => ⟨h.1, h.2⟩, fun h => ⟨h.project, h.schemas⟩⟩

structure Accepted (out proto : NormalForm) : Prop where
  named : ∀ ups, out ≠ .relative ups []
  not_prefix : ¬ out.components <+: proto.components

def Apart (root : Location) : NormalForm → NormalForm → Prop
  | .absolute out, .absolute _ => ¬ out <+: root
  | .absolute out, .relative ups proto => ¬ out <+: root ∧ ¬ out <+: root.climb ups ++ proto
  | .relative ups out, .absolute proto =>
    ¬ out <+: root.drop (root.length - ups) ∧ ¬ root.climb ups ++ out <+: proto
  | .relative ups out, .relative ups' proto =>
    ¬ out <+: root.drop (root.length - ups) ∧
      (ups = ups' ∨ ¬ root.climb ups ++ out <+: root.climb ups' ++ proto)

/-- The normal forms of the two paths keep what cleaning deletes apart from every project and its
schemas: the output directory is no absolute path, goes down further than it goes up, and does not
come upon the schemas from where one path goes up further than the other. -/
def ApartEverywhere : NormalForm → NormalForm → Prop
  | .absolute _, _ => False
  | .relative ups out, .absolute proto => ups < out.length ∧ ¬ out <:+: proto
  | .relative ups out, .relative ups' proto =>
    ups < out.length ∧ (∀ j ≤ ups - ups', ¬ out.drop j <+: proto) ∧
      ∀ j ≤ ups' - ups, ¬ out <+: proto.drop j

instance : DecidableRel ApartEverywhere
  | .absolute _, _ => inferInstanceAs (Decidable False)
  | .relative ups out, .absolute proto => inferInstanceAs (Decidable (ups < out.length ∧ ¬ out <:+: proto))
  | .relative ups out, .relative ups' proto =>
    inferInstanceAs (Decidable (ups < out.length ∧ (∀ j ≤ ups - ups', ¬ out.drop j <+: proto) ∧
      ∀ j ≤ ups' - ups, ¬ out <+: proto.drop j))

/-! ### Validation -/

theorem climbs_components (form : NormalForm) :
    climbs form.components = true ↔ ∃ ups, form = .relative ups [] := by
  cases form with
  | absolute names => simp [climbs, NormalForm.components]
  | relative ups names =>
    cases names with
    | nil =>
      refine iff_of_true ?_ ⟨ups, rfl⟩
      cases ups <;> simp [climbs, NormalForm.components, List.replicate_succ, Component.name?]
    | cons first rest => simp [climbs, NormalForm.components, Component.name?]

theorem validate_eq_ok_iff (c : GenerationConfig) :
    c.validate = .ok () ↔
      c.protoPath.text ≠ "" ∧ c.outDir.text ≠ "" ∧ Accepted c.outDir.normalForm c.protoPath.normalForm := by
  have hAccepted : Accepted c.outDir.normalForm c.protoPath.normalForm ↔
      climbs c.outDir.folded = false ∧ ¬ c.outDir.folded <+: c.protoPath.folded := by
    rw [Path.folded_eq, Path.folded_eq, ← Bool.not_eq_true, climbs_components, not_exists]
    exact ⟨fun h => ⟨h.named, h.not_prefix⟩, fun h => ⟨h.1, h.2⟩⟩
  rw [hAccepted, validate]
  split
  · rename_i hProto
    exact iff_of_false nofun fun h => h.1 hProto
  split
  · rename_i hOut
    exact iff_of_false nofun fun h => h.2.1 hOut
  split
  · rename_i hClimbs
    exact iff_of_false nofun fun h => Bool.false_ne_true (h.2.2.1.symm.trans hClimbs)
  split
  · rename_i hSame
    exact iff_of_false nofun fun h => h.2.2.2 (hSame ▸ List.prefix_rfl)
  split
  · rename_i hPrefix
    exact iff_of_false nofun fun h => h.2.2.2 (List.isPrefixOf_iff_prefix.mp hPrefix)
  · rename_i hProto hOut hClimbs _ hPrefix
    exact iff_of_true rfl
      ⟨hProto, hOut, eq_false_of_ne_true hClimbs, fun h => hPrefix (List.isPrefixOf_iff_prefix.mpr h)⟩

/-! ### One root -/

theorem climb_append_prefix_iff (root out : Location) (ups : Nat) :
    root.climb ups ++ out <+: root ↔ out <+: root.drop (root.length - ups) := by
  have hClimbed : root.climb ups ++ out <+: root.climb ups ++ root.drop (root.length - ups) ↔ _ :=
    List.prefix_append_right_inj _
  rw [Location.climb, List.take_append_drop] at hClimbed
  exact hClimbed

/-- Validation settles what does not depend on the root. -/
theorem apart_iff {out proto : NormalForm} (h : Accepted out proto) (root : Location) :
    Apart root out proto ↔ ¬ out.place root <+: root ∧ ¬ out.place root <+: proto.place root := by
  cases out with
  | absolute out =>
    cases proto with
    | absolute proto =>
      have hSchemas : ¬ out <+: proto := fun hPrefix =>
        h.not_prefix (NormalForm.absolute_prefix_iff.mpr hPrefix)
      exact (and_iff_left hSchemas).symm
    | relative ups proto => exact Iff.rfl
  | relative ups out =>
    have hOut : out ≠ [] := fun hOut => h.named ups (by rw [hOut])
    cases proto with
    | absolute proto =>
      rw [Apart, ← climb_append_prefix_iff]
      rfl
    | relative ups' proto =>
      rw [Apart, ← climb_append_prefix_iff]
      refine and_congr_right fun _ => ⟨?_, .inr⟩
      rintro (rfl | hSchemas)
      · rw [NormalForm.place, NormalForm.place, List.prefix_append_right_inj]
        exact fun hPrefix => h.not_prefix ((NormalForm.relative_prefix_iff hOut).mpr ⟨rfl, hPrefix⟩)
      · exact hSchemas

theorem root_cons_map_prefix_iff {out proto : Location} :
    Component.root :: out.map .name <+: Component.root :: proto.map .name ↔ out <+: proto :=
  NormalForm.absolute_prefix_iff

theorem cleanSpares_iff_place {root : Path} (h : root.IsRoot) (c : GenerationConfig) :
    c.CleanSpares root ↔
      ¬ c.outDir.normalForm.place (root.locate []) <+: root.locate [] ∧
        ¬ c.outDir.normalForm.place (root.locate []) <+: c.protoPath.normalForm.place (root.locate []) := by
  have hRoot : root.components = .root :: (root.locate []).map .name := by
    rw [← h.normal, Path.folded_of_absolute h.absolute []]
  rw [← root_cons_map_prefix_iff, ← root_cons_map_prefix_iff, ← Path.folded_join h.absolute,
    ← Path.folded_join h.absolute, ← hRoot]
  exact ⟨fun hSpares => ⟨hSpares.project, hSpares.schemas⟩, fun hSpares => ⟨hSpares.1, hSpares.2⟩⟩

/-! ### Every root -/

theorem climb_of_length_le {root : Location} {ups : Nat} (h : root.length ≤ ups) : root.climb ups = [] := by
  rw [Location.climb, Nat.sub_eq_zero_of_le h, List.take_zero]

theorem exists_climb_eq_append (root : Location) {few many : Nat} (h : few ≤ many) :
    ∃ between : Location, root.climb few = root.climb many ++ between ∧ between.length ≤ many - few := by
  have hPrefix : root.climb many <+: root.climb few := List.take_prefix_take_left (by omega)
  obtain ⟨between, hBetween⟩ := hPrefix
  refine ⟨between, hBetween.symm, ?_⟩
  have hLength := congrArg List.length hBetween
  simp only [Location.climb, List.length_append, List.length_take] at hLength
  omega

/-- Any names can stand between two places above a root, as far as there are levels between them. -/
theorem exists_root_between {names : Location} (hNames : ∀ n ∈ names, IsName n) (few many count : Nat)
    (h : count ≤ many - few) :
    ∃ root : Location, (∀ n ∈ root, IsName n) ∧ root.climb few = names.take count ∧ root.climb many = [] := by
  by_cases hLevels : few ≤ many
  · refine ⟨names.take count ++ List.replicate few "project", ?_, ?_, ?_⟩
    · intro n hn
      rcases List.mem_append.mp hn with hTaken | hFiller
      · exact hNames n (List.mem_of_mem_take hTaken)
      · rw [List.eq_of_mem_replicate hFiller]
        exact ⟨by decide, by decide, by decide, by decide⟩
    · rw [Location.climb, List.length_append, List.length_replicate, Nat.add_sub_cancel, List.take_left]
    · apply climb_of_length_le
      rw [List.length_append, List.length_replicate, List.length_take]
      omega
  · obtain rfl : count = 0 := by omega
    exact ⟨[], fun n hn => absurd hn List.not_mem_nil, climb_of_length_le (Nat.zero_le _),
      climb_of_length_le (Nat.zero_le _)⟩

theorem forall_not_climb_prefix_self_iff {out : Location} (hOut : ∀ n ∈ out, IsName n) (ups : Nat) :
    (∀ root : Location, (∀ n ∈ root, IsName n) → ¬ root.climb ups ++ out <+: root) ↔ ups < out.length := by
  constructor
  · intro h
    refine Nat.lt_of_not_le fun hUps => h out hOut ?_
    rw [climb_of_length_le hUps, List.nil_append]
  · intro hUps root _ hPrefix
    have hLength := ((climb_append_prefix_iff root out ups).mp hPrefix).length_le
    rw [List.length_drop] at hLength
    omega

theorem forall_not_climb_prefix_iff {proto : Location} (hProto : ∀ n ∈ proto, IsName n) (ups : Nat)
    (out : Location) :
    (∀ root : Location, (∀ n ∈ root, IsName n) → ¬ root.climb ups ++ out <+: proto) ↔ ¬ out <:+: proto := by
  constructor
  · rintro h ⟨above, below, rfl⟩
    have hAbove : ∀ n ∈ above, IsName n := fun n hn => hProto n (by simp [hn])
    obtain ⟨root, hRoot, hClimb, _⟩ :=
      exists_root_between hAbove ups (ups + above.length) above.length (by omega)
    apply h root hRoot
    rw [hClimb, List.take_length]
    exact List.prefix_append _ _
  · rintro h root _ ⟨below, hBelow⟩
    exact h ⟨root.climb ups, below, hBelow⟩

/-- Two relative paths can meet from some root exactly when the names that one of them has more levels
for can stand above that root. -/
theorem forall_not_climb_prefix_climb_iff {ups ups' : Nat} {out proto : Location}
    (hOut : ∀ n ∈ out, IsName n) (hProto : ∀ n ∈ proto, IsName n) :
    (∀ root : Location, (∀ n ∈ root, IsName n) → ¬ root.climb ups ++ out <+: root.climb ups' ++ proto) ↔
      (∀ j ≤ ups - ups', ¬ out.drop j <+: proto) ∧ ∀ j ≤ ups' - ups, ¬ out <+: proto.drop j := by
  constructor
  · intro h
    refine ⟨fun j hj hPrefix => ?_, fun j hj hPrefix => ?_⟩
    · obtain ⟨root, hRoot, hProtoClimb, hOutClimb⟩ := exists_root_between hOut ups' ups j hj
      apply h root hRoot
      rw [hProtoClimb, hOutClimb, List.nil_append]
      conv => lhs; rw [← List.take_append_drop j out]
      exact (List.prefix_append_right_inj _).mpr hPrefix
    · obtain ⟨root, hRoot, hOutClimb, hProtoClimb⟩ := exists_root_between hProto ups ups' j hj
      apply h root hRoot
      rw [hProtoClimb, hOutClimb, List.nil_append]
      conv => rhs; rw [← List.take_append_drop j proto]
      exact (List.prefix_append_right_inj _).mpr hPrefix
  · rintro ⟨hOutDrop, hProtoDrop⟩ root _ hPrefix
    rcases Nat.le_total ups ups' with hLevels | hLevels
    · obtain ⟨between, hClimb, hLength⟩ := exists_climb_eq_append root hLevels
      rw [hClimb, List.append_assoc, List.prefix_append_right_inj] at hPrefix
      apply hProtoDrop between.length hLength
      have hDropped := hPrefix.drop between.length
      rwa [List.drop_left] at hDropped
    · obtain ⟨between, hClimb, hLength⟩ := exists_climb_eq_append root hLevels
      rw [hClimb, List.append_assoc, List.prefix_append_right_inj] at hPrefix
      apply hOutDrop between.length hLength
      have hDropped := hPrefix.drop between.length
      rwa [List.drop_left] at hDropped

theorem forall_apart_iff {out proto : NormalForm} (h : Accepted out proto)
    (hOut : ∀ n ∈ out.names, IsName n) (hProto : ∀ n ∈ proto.names, IsName n) :
    (∀ root : Location, (∀ n ∈ root, IsName n) → Apart root out proto) ↔ ApartEverywhere out proto := by
  simp only [apart_iff h]
  cases out with
  | absolute out =>
    refine iff_of_false (fun hApart => ?_) id
    exact (hApart out hOut).1 List.prefix_rfl
  | relative ups out =>
    have hProject := forall_not_climb_prefix_self_iff hOut ups
    rw [forall₂_and]
    cases proto with
    | absolute proto => exact and_congr hProject (forall_not_climb_prefix_iff hProto ups out)
    | relative ups' proto => exact and_congr hProject (forall_not_climb_prefix_climb_iff hOut hProto)

/-- An accepted layout spares the project and the schemas of a root exactly when its normal forms keep
apart there, and of every root exactly when they keep apart everywhere. -/
theorem cleanSpares_iff_apart {c : GenerationConfig} (hValid : c.validate = .ok ()) :
    (∀ root : Path, root.IsRoot →
      (c.CleanSpares root ↔ Apart (root.locate []) c.outDir.normalForm c.protoPath.normalForm)) ∧
    ((∀ root : Path, root.IsRoot → c.CleanSpares root) ↔
      ApartEverywhere c.outDir.normalForm c.protoPath.normalForm) := by
  have hAccepted := ((validate_eq_ok_iff c).mp hValid).2.2
  have hSpares (root : Path) (hRoot : root.IsRoot) :
      c.CleanSpares root ↔ Apart (root.locate []) c.outDir.normalForm c.protoPath.normalForm := by
    rw [cleanSpares_iff_place hRoot, apart_iff hAccepted]
  refine ⟨hSpares, ?_⟩
  rw [← forall_apart_iff hAccepted (Path.isName_of_mem_names _) (Path.isName_of_mem_names _)]
  constructor
  · intro hAll place hPlace
    have hApart := (hSpares _ (Location.isRoot_toPath hPlace)).mp (hAll _ (Location.isRoot_toPath hPlace))
    rwa [Location.locate_toPath hPlace] at hApart
  · intro hApart root hRoot
    exact (hSpares root hRoot).mpr (hApart _ (Path.isName_of_mem_locate fun n hn => absurd hn List.not_mem_nil))

theorem cleanSpares_default :
    GenerationConfig.default.validate = .ok () ∧
      ∀ root : Path, root.IsRoot → GenerationConfig.default.CleanSpares root :=
  ⟨rfl, (cleanSpares_iff_apart rfl).2.mpr (by decide)⟩

def defaultInto (outDir : Path) : GenerationConfig := { GenerationConfig.default with outDir := outDir }

/-- Accepted layouts with which cleaning deletes the project, twice, and its schemas. -/
theorem not_cleanSpares_of_validate :
    (⟨"/project"⟩ : Path).IsRoot ∧
      ∀ outDir ∈ ["/", "../project", "../project/proto"],
        (defaultInto ⟨outDir⟩).validate = .ok () ∧ ¬ (defaultInto ⟨outDir⟩).CleanSpares ⟨"/project"⟩ := by
  refine ⟨⟨by decide, by decide⟩, ?_⟩
  simp only [List.forall_mem_cons]
  exact ⟨⟨rfl, by decide⟩, ⟨rfl, by decide⟩, ⟨rfl, by decide⟩, nofun⟩

end GenerationConfig

end ClientRegistry

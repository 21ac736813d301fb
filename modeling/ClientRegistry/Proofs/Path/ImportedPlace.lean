import Mathlib.Data.List.ModifyLast
import ClientRegistry.Proofs.Path.Import
import ClientRegistry.Proofs.Path.NormalForm
import ClientRegistry.Proofs.Path.Spelling

/-!
# Where import paths lead

An import path keeps the names that follow the directory in a file's path, and no `..` among them. So it
leads back to the file just where no `..` takes a name back or leads above the directory, where the file's path
does not start at the root while the directory's has no component, and where the last name has a name
before its extension.
-/

set_option autoImplicit false

namespace ClientRegistry

/-! ### Steps without effect -/

namespace NormalForm

/-- How far below where it starts a normal form leads. -/
def depth : NormalForm → Int
  | absolute names => names.length
  | relative ups names => names.length - ups

theorem depth_extend (form : NormalForm) (more : Location) : (form.extend more).depth = form.depth + more.length := by
  cases form with
  | absolute names =>
    rw [extend, depth, depth, List.length_append]
    omega
  | relative ups names =>
    rw [extend, depth, depth, List.length_append]
    omega

theorem depth_step_parent {form : NormalForm} (h : form ≠ absolute []) : (form.step .parent).depth = form.depth - 1 := by
  cases form with
  | absolute names =>
    have hNames : names ≠ [] := fun hEmpty => h (by rw [hEmpty])
    have hLength := List.length_pos_iff.mpr hNames
    rw [step, depth, depth, List.length_dropLast]
    omega
  | relative ups names =>
    cases names with
    | nil =>
      rw [step, depth, depth]
      push_cast
      omega
    | cons first rest =>
      rw [step, depth, depth, List.length_dropLast, List.length_cons]
      push_cast
      omega

theorem depth_step_parent_le (form : NormalForm) : (form.step .parent).depth ≤ form.depth := by
  by_cases h : form = absolute []
  · subst h
    exact Int.le_refl _
  · rw [depth_step_parent h]
    omega

theorem depth_foldl_le {cs : List Component} (hRoot : .root ∉ cs) (form : NormalForm) :
    (cs.foldl step form).depth ≤ form.depth + (cs.filterMap Component.name?).length := by
  induction cs generalizing form with
  | nil => simp
  | cons c rest ih =>
    rw [List.mem_cons, not_or] at hRoot
    have hRest := ih hRoot.2 (form.step c)
    rw [List.foldl_cons]
    cases c with
    | root => exact absurd rfl hRoot.1
    | current => exact hRest
    | parent =>
      have hUp := depth_step_parent_le form
      rw [List.filterMap_cons_none rfl]
      omega
    | name n =>
      rw [step_name, depth_extend] at hRest
      have hName : Component.name? (.name n) = some n := rfl
      rw [List.filterMap_cons_some hName, List.length_cons, step_name]
      rw [List.length_singleton] at hRest
      push_cast at hRest ⊢
      omega

def UpsFirst (cs : List Component) : Prop := cs.Pairwise fun c d => d = .parent → c.name? = none

theorem upsFirst_of_not_mem {cs : List Component} (h : .parent ∉ cs) : UpsFirst cs :=
  List.pairwise_of_forall_mem_list fun _ _ _ hd hParent => absurd (hParent ▸ hd) h

/-- The names alone lead where all components lead just where each `..` has no effect: at the root, before
all names. -/
theorem foldl_step_eq_extend_iff {cs : List Component} (hRoot : .root ∉ cs) (form : NormalForm) :
    cs.foldl step form = form.extend (cs.filterMap Component.name?) ↔
      (.parent ∈ cs → form = absolute [] ∧ UpsFirst cs) := by
  induction cs generalizing form with
  | nil => exact iff_of_true form.extend_nil.symm nofun
  | cons c rest ih =>
    rw [List.mem_cons, not_or] at hRoot
    rw [List.foldl_cons, UpsFirst, List.pairwise_cons]
    cases c with
    | root => exact absurd rfl hRoot.1
    | current =>
      rw [List.filterMap_cons_none rfl]
      refine (ih hRoot.2 form).trans ?_
      simp [UpsFirst, Component.name?]
    | name n =>
      have hNamed : form.extend [n] ≠ absolute [] := by
        cases form <;> simp [extend]
      have hName : Component.name? (.name n) = some n := rfl
      rw [List.filterMap_cons_some hName, extend_cons, step_name, ih hRoot.2]
      simp only [hNamed, false_and, List.mem_cons, reduceCtorEq, false_or]
      constructor
      · exact fun hNone hParent => (hNone hParent).elim
      · intro hAll hParent
        cases (hAll hParent).2.1 _ hParent rfl
    | parent =>
      rw [List.filterMap_cons_none rfl]
      by_cases hForm : form = absolute []
      · subst hForm
        refine (ih hRoot.2 (absolute [])).trans ?_
        constructor
        · intro h _
          refine ⟨rfl, fun _ _ _ => rfl, ?_⟩
          by_cases hMore : .parent ∈ rest
          · exact (h hMore).2
          · exact upsFirst_of_not_mem hMore
        · exact fun h _ => ⟨rfl, (h List.mem_cons_self).2.2⟩
      · refine iff_of_false (fun hSame => ?_) fun h => hForm (h List.mem_cons_self).1
        have hDepth := depth_foldl_le hRoot.2 (form.step .parent)
        rw [hSame, depth_extend, depth_step_parent hForm] at hDepth
        omega

end NormalForm

/-! ### Names and their extensions -/

def putExtension (stem : String) : Option String → String
  | some extension => stem ++ "." ++ extension
  | none => stem

theorem putExtension_splitExtension (name : String) :
    putExtension (splitExtension name).1 (splitExtension name).2 = name := by
  unfold splitExtension
  split
  · rfl
  · rfl
  · rename_i extension dot stem _ hSpan
    rw [List.span_eq_takeWhile_dropWhile, Prod.mk.injEq] at hSpan
    have hDot : dot = '.' := by
      have hHead := List.head?_dropWhile_not (fun c => decide (c ≠ '.')) name.toList.reverse
      rw [hSpan.2] at hHead
      simpa using hHead
    have hChars := List.takeWhile_append_dropWhile (p := fun c => decide (c ≠ '.')) (l := name.toList.reverse)
    rw [hSpan.1, hSpan.2, hDot] at hChars
    rw [putExtension, ← String.toList_inj]
    simpa using congrArg List.reverse hChars

theorem putExtension_left_inj {stem stem' : String} {extension? : Option String}
    (h : putExtension stem extension? = putExtension stem' extension?) : stem = stem' := by
  cases extension? with
  | none => exact h
  | some extension =>
    have hChars := congrArg String.toList h
    simp only [putExtension, String.toList_append, List.append_cancel_right_eq] at hChars
    exact String.toList_inj.mp hChars

namespace Component

variable {n : String}

theorem withoutExtension_of_isName (h : IsName (splitExtension n).1) :
    (name n).withoutExtension = name (splitExtension n).1 := by
  have hParts := putExtension_splitExtension n
  unfold withoutExtension
  dsimp only
  split
  · rename_i stem extension hSplit
    rw [hSplit] at h ⊢
    rw [h.stepOf?_eq]
    rfl
  · rename_i stem hSplit
    rw [hSplit] at hParts ⊢
    rw [← hParts]
    rfl

theorem name?_withoutExtension_of_not_isName (hName : IsName n) (h : ¬ IsName (splitExtension n).1) :
    (name n).withoutExtension.name? = none := by
  have hParts := putExtension_splitExtension n
  unfold withoutExtension
  dsimp only
  split
  · rename_i stem extension hSplit
    rw [hSplit] at h hParts
    cases hStep : Path.stepOf? stem with
    | none => rfl
    | some c =>
      rcases Path.stepOf?_eq_some hStep with rfl | ⟨rfl, hEmpty, hCurrent, hParent⟩
      · rfl
      · refine absurd ⟨hEmpty, hCurrent, hParent, fun hSlash => hName.no_slash ?_⟩ h
        rw [← hParts, putExtension, String.toList_append, String.toList_append]
        exact List.mem_append_left _ (List.mem_append_left _ hSlash)
  · rename_i stem hSplit
    rw [hSplit] at h hParts
    have hStem : stem = n := hParts
    exact absurd (hStem ▸ hName) h

end Component

theorem IsName.putExtension {stem name : String} (h : IsName stem) (hName : IsName name) :
    IsName (putExtension stem (splitExtension name).2) := by
  have hParts := putExtension_splitExtension name
  cases hExtension : (splitExtension name).2 with
  | none => exact h
  | some extension =>
    rw [hExtension] at hParts
    obtain ⟨c, rest, hStem⟩ := List.exists_cons_of_ne_nil (mt String.toList_eq_nil_iff.mp h.not_empty)
    have hChars : (ClientRegistry.putExtension stem (some extension)).toList = c :: (rest ++ '.' :: extension.toList) := by
      simp [ClientRegistry.putExtension, hStem]
    refine ⟨fun hEq => ?_, fun hEq => ?_, fun hEq => ?_, fun hSlash => ?_⟩
    · simp [hEq] at hChars
    · simp [hEq] at hChars
    · have hDots : "..".toList = ['.', '.'] := rfl
      rw [hEq, hDots] at hChars
      obtain ⟨rfl, hTail⟩ := List.cons.inj hChars
      obtain rfl : rest = [] := by
        have hLength := congrArg List.length hTail
        rw [List.length_append, List.length_cons, List.length_nil, List.length_cons] at hLength
        exact List.length_eq_zero_iff.mp (by omega)
      exact h.not_current (String.toList_inj.mp hStem)
    · rw [ClientRegistry.putExtension, String.toList_append, String.toList_append] at hSlash
      refine hName.no_slash ?_
      rw [← hParts, ClientRegistry.putExtension, String.toList_append, String.toList_append]
      rcases List.mem_append.mp hSlash with hBefore | hAfter
      · rcases List.mem_append.mp hBefore with hIn | hDot
        · exact absurd hIn h.no_slash
        · exact absurd hDot (by decide)
      · exact List.mem_append_right _ hAfter

namespace Path

variable {base file : Path} {up : List Component} {last : Component} {names : List String}

/-! ### The names of an import path -/

def importNames (up : List Component) (last : Component) : List String :=
  (up ++ [last.withoutExtension]).filterMap Component.name?

theorem componentsWithoutExtension_concat {p : Path} (h : p.components = up ++ [last]) :
    p.componentsWithoutExtension = up ++ [last.withoutExtension] := by
  unfold componentsWithoutExtension
  rw [h, List.reverse_append, List.reverse_singleton, List.singleton_append]
  dsimp only
  rw [List.reverse_reverse]

theorem importSegments?_concat (h : file.components = base.components ++ (up ++ [last])) :
    base.importSegments? file = some (importNames up last) := by
  have hStarts : file.startsWith base = true := startsWith_iff.mpr (h ▸ List.prefix_append _ _)
  obtain ⟨left, hLeft, hComponents⟩ := components_relativeTo? hStarts
  rw [h, List.drop_left] at hComponents
  rw [importSegments?, hLeft, Option.map_some, componentsWithoutExtension_concat hComponents, importNames]

theorem importPath?_of_segments {text : String} (h : base.importSegments? file = some names) :
    base.importPath? file = some text ↔ names ≠ [] ∧ text = importText names := by
  unfold importPath?
  rw [h]
  cases names with
  | nil => simp
  | cons first rest => simp [eq_comm]

theorem exists_concat_of_importPath? {text : String} (h : base.importPath? file = some text) :
    ∃ up last, file.components = base.components ++ (up ++ [last]) := by
  by_cases hStarts : file.startsWith base = true
  · obtain ⟨rest, hRest⟩ := startsWith_iff.mp hStarts
    rcases List.eq_nil_or_concat rest with rfl | ⟨up, last, rfl⟩
    · obtain ⟨left, hLeft, hComponents⟩ := components_relativeTo? hStarts
      rw [← hRest, List.drop_left] at hComponents
      have hSegments : base.importSegments? file = some [] := by
        unfold importSegments? componentsWithoutExtension
        rw [hLeft, Option.map_some, hComponents]
        rfl
      exact absurd rfl ((importPath?_of_segments hSegments).mp h).1
    · exact ⟨up, last, by rw [← hRest, List.concat_eq_append]⟩
  · have hNone : base.importSegments? file = none := by
      rw [importSegments?, relativeTo?, if_neg hStarts]
      rfl
    unfold importPath? at h
    rw [hNone] at h
    cases h

theorem importText_inj {names' : List String} (hNames : names ≠ []) (hNames' : names' ≠ [])
    (hSlash : ∀ name ∈ names, '/' ∉ name.toList) (hSlash' : ∀ name ∈ names', '/' ∉ name.toList)
    (h : importText names = importText names') : names = names' := by
  have hText : "/".intercalate names = "/".intercalate names' := by
    have hLists := congrArg String.toList h
    rw [importText, importText, String.toList_append, String.toList_append, List.append_cancel_left_eq] at hLists
    exact String.toList_inj.mp hLists
  rw [← segments_intercalate hSlash hNames, hText, segments_intercalate hSlash' hNames']

theorem extension?_concat (h : file.components = base.components ++ (up ++ [last])) :
    file.extension? = last.name?.bind fun n => (splitExtension n).2 := by
  rw [extension?, fileName?, h, ← List.append_assoc, List.getLast?_concat]
  cases last <;> rfl

theorem isName_of_mem_filterMap {rest : List Component} (h : file.components = base.components ++ rest) :
    ∀ n ∈ rest.filterMap Component.name?, IsName n := by
  intro n hn
  obtain ⟨c, hc, hName⟩ := List.mem_filterMap.mp hn
  cases c with
  | name m =>
    cases hName
    exact isName_of_mem_components (h ▸ List.mem_append_right _ hc)
  | _ => cases hName

theorem isName_of_mem_importNames (h : file.components = base.components ++ (up ++ [last])) :
    ∀ n ∈ importNames up last, IsName n := by
  have hNames := isName_of_mem_filterMap h
  rw [List.filterMap_append] at hNames
  intro n hn
  rw [importNames, List.filterMap_append] at hn
  rcases List.mem_append.mp hn with hUp | hLast
  · exact hNames n (List.mem_append_left _ hUp)
  · cases last with
    | name m =>
      have hLastName : IsName m := hNames m (List.mem_append_right _ List.mem_cons_self)
      by_cases hStem : IsName (splitExtension m).1
      · rw [Component.withoutExtension_of_isName hStem] at hLast
        exact List.mem_singleton.mp hLast ▸ hStem
      · rw [List.filterMap_cons_none (Component.name?_withoutExtension_of_not_isName hLastName hStem)] at hLast
        cases hLast
    | _ => cases hLast

theorem modifyLast_putExtension_none (names : List String) : names.modifyLast (putExtension · none) = names := by
  rcases List.eq_nil_or_concat names with rfl | ⟨init, n, rfl⟩
  · rfl
  · rw [List.concat_eq_append, List.modifyLast_concat]
    rfl

/-- The names with the extension put back, when a name stands before it. -/
theorem modifyLast_importNames (h : ∀ n, last = .name n → IsName (splitExtension n).1) :
    (importNames up last).modifyLast (putExtension · (last.name?.bind fun n => (splitExtension n).2)) =
      (up ++ [last]).filterMap Component.name? := by
  cases last with
  | name n =>
    have hName : Component.name? (.name n) = some n := rfl
    have hStem : Component.name? (.name (splitExtension n).1) = some (splitExtension n).1 := rfl
    rw [importNames, Component.withoutExtension_of_isName (h n rfl), List.filterMap_append, List.filterMap_append,
      List.filterMap_cons_some hName, List.filterMap_cons_some hStem, List.filterMap_nil, List.modifyLast_concat, hName, Option.bind_some, putExtension_splitExtension]
  | _ => exact modifyLast_putExtension_none _

/-! ### The place of the file -/

theorem normalForm_joinNames (base : Path) (h : ∀ n ∈ names, IsName n) :
    (base.joinNames names).normalForm = base.normalForm.extend names := by
  rw [normalForm, components_joinNames base h, List.foldl_append, NormalForm.foldl_step_names]
  rfl

theorem components_eq_nil_of_root_mem {rest : List Component} (h : file.components = base.components ++ rest)
    (hRoot : .root ∈ rest) : base.components = [] := by
  have hAbsolute : file.isAbsolute = true :=
    root_mem_components_iff.mp (h ▸ List.mem_append_right _ hRoot)
  cases hBase : base.components with
  | nil => rfl
  | cons first others =>
    rw [components_of_absolute hAbsolute, hBase, List.cons_append] at h
    have hSteps : file.steps = others ++ rest := (List.cons.inj h).2
    have hStep : .root ∈ file.steps := hSteps ▸ List.mem_append_right _ hRoot
    exact absurd hStep (not_mem_steps nofun nofun)

/-- The names of what comes after a directory lead from it to the file just where nothing else there has an
effect. -/
theorem folded_joinNames_eq_iff {rest : List Component} (h : file.components = base.components ++ rest) :
    (base.joinNames (rest.filterMap Component.name?)).folded = file.folded ↔
      .root ∉ rest ∧ (.parent ∈ rest → base.folded = [.root] ∧ NormalForm.UpsFirst rest) := by
  rw [folded_eq_iff, normalForm_joinNames base (isName_of_mem_filterMap h), normalForm_of_components h, folded_eq_root_iff, eq_comm]
  by_cases hRoot : .root ∈ rest
  · refine iff_of_false (fun hSame => ?_) fun hAll => hAll.1 hRoot
    have hBase := components_eq_nil_of_root_mem h hRoot
    have hAbsolute : file.isAbsolute = true := root_mem_components_iff.mp (h ▸ List.mem_append_right _ hRoot)
    rw [← normalForm_of_components h, normalForm_of_absolute hAbsolute [], normalForm, hBase] at hSame
    cases hSame
  · rw [NormalForm.foldl_step_eq_extend_iff hRoot]
    exact (and_iff_right hRoot).symm

structure NamesFile (base file : Path) (names : List String) : Prop where
  not_empty : names ≠ []
  segment : ∀ n ∈ names, n ≠ "" ∧ '/' ∉ n.toList
  same_place : (base.joinNames (names.modifyLast (putExtension · file.extension?))).folded = file.folded

structure KeepsPlace (base : Path) (rest : List Component) : Prop where
  relative : .root ∉ rest
  ups : .parent ∈ rest → base.folded = [.root] ∧ NormalForm.UpsFirst rest
  stem : ∀ n, rest.getLast? = some (.name n) → IsName (splitExtension n).1

theorem namesFile_importNames_iff (h : file.components = base.components ++ (up ++ [last]))
    (hNotEmpty : importNames up last ≠ []) :
    base.NamesFile file (importNames up last) ↔ base.KeepsPlace (up ++ [last]) := by
  have hIsName := isName_of_mem_importNames h
  have hSegment : ∀ n ∈ importNames up last, n ≠ "" ∧ '/' ∉ n.toList :=
    fun n hn => ⟨(hIsName n hn).not_empty, (hIsName n hn).no_slash⟩
  have hPlace := folded_joinNames_eq_iff h
  have hExtension := extension?_concat h
  by_cases hStem : ∀ n, last = .name n → IsName (splitExtension n).1
  · rw [← modifyLast_importNames hStem, ← hExtension] at hPlace
    constructor
    · rintro ⟨-, -, hSame⟩
      obtain ⟨hRelative, hUps⟩ := hPlace.mp hSame
      exact ⟨hRelative, hUps, fun n hn => hStem n (by simpa using hn)⟩
    · rintro ⟨hRelative, hUps, -⟩
      exact ⟨hNotEmpty, hSegment, hPlace.mpr ⟨hRelative, hUps⟩⟩
  · push Not at hStem
    obtain ⟨n, rfl, hStem⟩ := hStem
    refine iff_of_false ?_ fun hKeeps => hStem (hKeeps.stem n (by simp))
    rintro ⟨-, -, hSame⟩
    have hLast : IsName n := isName_of_mem_components (by rw [h]; simp)
    rcases List.eq_nil_or_concat (importNames up (.name n)) with hNil | ⟨init, stem, hConcat⟩
    · exact hNotEmpty hNil
    rw [List.concat_eq_append] at hConcat
    have hStemName : IsName stem := hIsName stem (by simp [hConcat])
    have hNames : ∀ m ∈ init ++ [putExtension stem (splitExtension n).2], IsName m := by
      intro m hm
      rcases List.mem_append.mp hm with hInit | hLastOne
      · exact hIsName m (by simp [hConcat, hInit])
      · exact List.mem_singleton.mp hLastOne ▸ hStemName.putExtension hLast
    have hFile : file.normalForm = (up.foldl NormalForm.step base.normalForm).extend [n] := by
      rw [normalForm_of_components h, List.foldl_append, List.foldl_cons, List.foldl_nil, NormalForm.step_name]
    have hForm : (base.normalForm.extend init).extend [putExtension stem (splitExtension n).2] =
        (up.foldl NormalForm.step base.normalForm).extend [n] := by
      rw [hExtension, hConcat, List.modifyLast_concat] at hSame
      rw [← hFile, ← folded_eq_iff.mp hSame, ← NormalForm.extend_append]
      exact (normalForm_joinNames base hNames).symm
    have hPut : putExtension stem (splitExtension n).2 = putExtension (splitExtension n).1 (splitExtension n).2 := by
      rw [NormalForm.extend_singleton_inj hForm, putExtension_splitExtension]
    exact hStem (putExtension_left_inj hPut ▸ hStemName)

/-- A file whose path goes, once folded, from the folded directory down some names. -/
def StrictlyInside (file base : Path) : Prop := ∃ names ≠ [], file.folded = base.folded ++ names.map Component.name

theorem KeepsPlace.strictlyInside (h : file.components = base.components ++ (up ++ [last]))
    (hNotEmpty : importNames up last ≠ []) (hKeeps : base.KeepsPlace (up ++ [last])) : file.StrictlyInside base := by
  have hPlace := (folded_joinNames_eq_iff h).mpr ⟨hKeeps.relative, hKeeps.ups⟩
  have hStem : ∀ n, last = .name n → IsName (splitExtension n).1 := fun n hn => hKeeps.stem n (by simp [hn])
  refine ⟨(up ++ [last]).filterMap Component.name?, ?_, ?_⟩
  · obtain ⟨init, stem, hConcat⟩ := (List.eq_nil_or_concat _).resolve_left hNotEmpty
    rw [← modifyLast_importNames hStem, hConcat, List.concat_eq_append, List.modifyLast_concat]
    exact List.concat_ne_nil _ _
  · rw [← hPlace, folded_eq, normalForm_joinNames base (isName_of_mem_filterMap h), NormalForm.components_extend,
      ← folded_eq]

/-- The import path of a file from a directory leads back to it, and a file outside of the directory has none. -/
structure ResolvesBack (base file : Path) : Prop where
  back : ∀ text, base.importPath? file = some text → ∃ names, text = importText names ∧ base.NamesFile file names
  inside : ¬ file.StrictlyInside base → base.importPath? file = none

/-- An import path leads back to its file just where what comes after the directory keeps its place, if any names
are left of it. -/
theorem resolvesBack_iff (base file : Path) : base.ResolvesBack file ↔
    ∀ up last, file.components = base.components ++ (up ++ [last]) → importNames up last ≠ [] →
      base.KeepsPlace (up ++ [last]) := by
  constructor
  · intro hResolves up last h hNotEmpty
    have hText := (importPath?_of_segments (importSegments?_concat h)).mpr ⟨hNotEmpty, rfl⟩
    obtain ⟨names, hSame, hNames⟩ := hResolves.back _ hText
    have hIsName := isName_of_mem_importNames h
    obtain rfl : importNames up last = names := importText_inj hNotEmpty hNames.not_empty
      (fun n hn => (hIsName n hn).no_slash) (fun n hn => (hNames.segment n hn).2) hSame
    exact (namesFile_importNames_iff h hNotEmpty).mp hNames
  · intro hKeeps
    constructor
    · intro text hText
      obtain ⟨up, last, h⟩ := exists_concat_of_importPath? hText
      obtain ⟨hNotEmpty, rfl⟩ := (importPath?_of_segments (importSegments?_concat h)).mp hText
      exact ⟨_, rfl, (namesFile_importNames_iff h hNotEmpty).mpr (hKeeps up last h hNotEmpty)⟩
    · intro hOutside
      by_contra hSome
      obtain ⟨text, hText⟩ := Option.ne_none_iff_exists'.mp hSome
      obtain ⟨up, last, h⟩ := exists_concat_of_importPath? hText
      have hNotEmpty := ((importPath?_of_segments (importSegments?_concat h)).mp hText).1
      exact hOutside ((hKeeps up last h hNotEmpty).strictlyInside h hNotEmpty)

/-- A file above its directory: the `..` in its path is lost. -/
theorem not_resolvesBack_above : ¬ Path.ResolvesBack "out" "out/../elsewhere/foo_pb.ts" := by
  intro h
  have hSome : Path.importPath? "out" "out/../elsewhere/foo_pb.ts" = some "./elsewhere/foo_pb" := by decide +kernel
  have hFile : (Path.mk "out/../elsewhere/foo_pb.ts").folded = [.name "elsewhere", .name "foo_pb.ts"] := by
    decide +kernel
  have hBase : (Path.mk "out").folded = [.name "out"] := by decide +kernel
  have hOutside : ¬ StrictlyInside "out/../elsewhere/foo_pb.ts" "out" := by
    rintro ⟨names, -, hNames⟩
    rw [hFile, hBase] at hNames
    simp at hNames
  rw [h.inside hOutside] at hSome
  cases hSome

end Path

end ClientRegistry

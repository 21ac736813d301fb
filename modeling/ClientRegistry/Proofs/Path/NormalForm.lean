import ClientRegistry.Proofs.Path.Components

/-!
# Normal forms of paths

A folded path either goes from the root down some names, or from a directory some levels up and
then down some names. Folding computes this form step by step, and the form leads where the path
leads, from every directory.
-/

set_option autoImplicit false

namespace ClientRegistry

/-- The directory so many levels above; the root is its own parent. -/
def Location.climb (dir : Location) (ups : Nat) : Location := dir.take (dir.length - ups)

/-- A path without `.` whose `..` all stand before its names. -/
inductive NormalForm where
  | absolute (names : Location)
  | relative (ups : Nat) (names : Location)
  deriving DecidableEq, Repr

namespace NormalForm

def components : NormalForm → List Component
  | absolute names => .root :: names.map .name
  | relative ups names => List.replicate ups .parent ++ names.map .name

def names : NormalForm → Location
  | absolute names => names
  | relative _ names => names

def place (dir : Location) : NormalForm → Location
  | absolute names => names
  | relative ups names => dir.climb ups ++ names

def step : NormalForm → Component → NormalForm
  | form, .current => form
  | _, .root => absolute []
  | absolute names, .name n => absolute (names ++ [n])
  | relative ups names, .name n => relative ups (names ++ [n])
  | absolute names, .parent => absolute names.dropLast
  | relative ups [], .parent => relative (ups + 1) []
  | relative ups (first :: rest), .parent => relative ups (first :: rest).dropLast

@[simp] theorem place_here (dir : Location) : (relative 0 []).place dir = dir := by
  simp [place, Location.climb]

end NormalForm

theorem Location.climb_succ (dir : Location) (ups : Nat) : dir.climb (ups + 1) = (dir.climb ups).dropLast := by
  rw [climb, climb, List.dropLast_eq_take, List.take_take, List.length_take]
  congr 1
  omega

namespace NormalForm

theorem step_relative_concat (ups : Nat) (names : Location) (n : String) :
    (relative ups (names ++ [n])).step .parent = relative ups names := by
  cases names with
  | nil => rfl
  | cons first rest =>
    change relative ups ((first :: rest) ++ [n]).dropLast = relative ups (first :: rest)
    rw [List.dropLast_concat]

theorem foldStep_replicate_parent (ups : Nat) :
    Component.foldStep (List.replicate ups .parent) .parent = List.replicate (ups + 1) .parent := by
  cases ups with
  | zero => rfl
  | succ ups => simp [Component.foldStep, List.replicate_succ']

theorem foldStep_concat_name (cs : List Component) (n : String) :
    Component.foldStep (cs ++ [.name n]) .parent = cs := by
  simp [Component.foldStep]

/-- Folding computes the normal form. -/
theorem foldStep_components (form : NormalForm) (c : Component) :
    Component.foldStep form.components c = (form.step c).components := by
  cases c with
  | root => rfl
  | current => rfl
  | name n => cases form <;> simp [components, step, Component.foldStep]
  | parent =>
    cases form with
    | absolute names =>
      rcases List.eq_nil_or_concat names with rfl | ⟨names, n, rfl⟩
      · rfl
      · have hNames : components (absolute (names.concat n)) = components (absolute names) ++ [.name n] := by
          simp [components]
        rw [hNames, foldStep_concat_name, step, List.concat_eq_append, List.dropLast_concat]
    | relative ups names =>
      rcases List.eq_nil_or_concat names with rfl | ⟨names, n, rfl⟩
      · simpa [components, step] using foldStep_replicate_parent ups
      · have hNames : components (relative ups (names.concat n)) = components (relative ups names) ++ [.name n] := by
          simp [components]
        rw [hNames, foldStep_concat_name, List.concat_eq_append, step_relative_concat]

/-- A normal form leads where its path leads. -/
theorem follow_place (dir : Location) (form : NormalForm) (c : Component) :
    Component.follow (form.place dir) c = (form.step c).place dir := by
  cases c with
  | root => rfl
  | current => rfl
  | name n => cases form <;> simp [place, step, Component.follow]
  | parent =>
    cases form with
    | absolute names => rfl
    | relative ups names =>
      rcases List.eq_nil_or_concat names with rfl | ⟨names, n, rfl⟩
      · simp [place, step, Component.follow, Location.climb_succ]
      · rw [List.concat_eq_append, step_relative_concat, place, place, ← List.append_assoc]
        exact List.dropLast_concat

theorem exists_relative_of_foldl {cs : List Component} (h : .root ∉ cs) (ups : Nat) (names : Location) :
    ∃ ups' names', cs.foldl step (relative ups names) = relative ups' names' := by
  induction cs generalizing ups names with
  | nil => exact ⟨ups, names, rfl⟩
  | cons c rest ih =>
    rw [List.mem_cons, not_or] at h
    cases c with
    | root => exact absurd rfl h.1
    | current => exact ih h.2 _ _
    | name n => exact ih h.2 _ _
    | parent => cases names <;> exact ih h.2 _ _

end NormalForm

def Path.normalForm (p : Path) : NormalForm := p.components.foldl NormalForm.step (.relative 0 [])

namespace Path

theorem folded_eq (p : Path) : p.folded = p.normalForm.components := by
  rw [folded, Component.fold, normalForm, ← List.foldl_hom NormalForm.components NormalForm.foldStep_components]
  rfl

theorem locate_eq (dir : Location) (p : Path) : p.locate dir = p.normalForm.place dir := by
  rw [locate, normalForm, ← List.foldl_hom (NormalForm.place dir) (NormalForm.follow_place dir),
    NormalForm.place_here]

theorem exists_absolute_of_foldl (names : Location) (cs : List Component) :
    ∃ names', cs.foldl NormalForm.step (.absolute names) = .absolute names' := by
  induction cs generalizing names with
  | nil => exact ⟨names, rfl⟩
  | cons c rest ih => cases c <;> exact ih _

theorem normalForm_of_absolute {p : Path} (h : p.isAbsolute = true) (dir : Location) :
    p.normalForm = .absolute (p.locate dir) := by
  obtain ⟨names, hNames⟩ := exists_absolute_of_foldl [] p.steps
  have hForm : p.normalForm = .absolute names := by
    rw [normalForm, components_eq, lead, if_pos h]
    exact hNames
  rw [locate_eq, hForm, NormalForm.place]

theorem folded_of_absolute {p : Path} (h : p.isAbsolute = true) (dir : Location) :
    p.folded = .root :: (p.locate dir).map .name := by
  rw [folded_eq, normalForm_of_absolute h dir, NormalForm.components]

theorem locate_of_relative {q : Path} (h : q.isAbsolute = false) (dir : Location) :
    q.locate dir = q.steps.foldl Component.follow dir := by
  rw [locate, components_eq, lead, if_neg (by simp [h])]
  split <;> rfl

/-- A joined path leads where its second part leads from where its first part leads. -/
theorem locate_join {p : Path} (h : p.isAbsolute = true) (q : Path) (dir : Location) :
    (p.join q).locate dir = q.locate (p.locate dir) := by
  cases hq : q.isAbsolute with
  | true =>
    rw [join_of_absolute p hq, locate_eq, locate_eq, normalForm_of_absolute hq dir]
    rfl
  | false =>
    rw [locate_of_relative hq, locate, locate, components_join_of_absolute h hq, List.foldl_append]

theorem folded_join {p : Path} (h : p.isAbsolute = true) (q : Path) :
    (p.join q).folded = .root :: (q.normalForm.place (p.locate [])).map .name := by
  rw [folded_of_absolute (isAbsolute_join h q) [], locate_join h, locate_eq]

theorem isName_of_mem_foldl {cs : List Component} (hNames : ∀ n, .name n ∈ cs → IsName n) {dir : Location}
    (hDir : ∀ n ∈ dir, IsName n) : ∀ n ∈ cs.foldl Component.follow dir, IsName n := by
  induction cs generalizing dir with
  | nil => exact hDir
  | cons c rest ih =>
    refine ih (fun n hn => hNames n (List.mem_cons_of_mem _ hn)) ?_
    cases c with
    | root => exact fun n hn => absurd hn List.not_mem_nil
    | current => exact hDir
    | parent => exact fun n hn => hDir n (List.dropLast_subset dir hn)
    | name m =>
      intro n hn
      rcases List.mem_append.mp hn with hOld | hNew
      · exact hDir n hOld
      · obtain rfl := List.mem_singleton.mp hNew
        exact hNames n List.mem_cons_self

/-- The names that a path leads down can stand in a path. -/
theorem isName_of_mem_locate {p : Path} {dir : Location} (hDir : ∀ n ∈ dir, IsName n) :
    ∀ n ∈ p.locate dir, IsName n :=
  isName_of_mem_foldl (fun _ => isName_of_mem_components) hDir

theorem locate_root_eq_names (p : Path) : p.locate [] = p.normalForm.names := by
  rw [locate_eq]
  cases p.normalForm <;> simp [NormalForm.names, NormalForm.place, Location.climb]

theorem isName_of_mem_names (p : Path) : ∀ n ∈ p.normalForm.names, IsName n := by
  rw [← locate_root_eq_names]
  exact isName_of_mem_locate fun n hn => absurd hn List.not_mem_nil

structure IsRoot (root : Path) : Prop where
  absolute : root.isAbsolute = true
  normal : root.folded = root.components

end Path

/-! ### Written places -/

theorem Component.foldl_follow_names (dir names : Location) :
    (names.map Component.name).foldl Component.follow dir = dir ++ names := by
  induction names generalizing dir with
  | nil => exact (List.append_nil dir).symm
  | cons n rest ih =>
    rw [List.map_cons, List.foldl_cons, ih, Component.follow, List.append_assoc, List.singleton_append]

theorem Location.locate_toPath {place : Location} (h : ∀ n ∈ place, IsName n) : place.toPath.locate [] = place := by
  rw [Path.locate, components_toPath h, List.foldl_cons, Component.foldl_follow_names]
  rfl

theorem Location.isRoot_toPath {place : Location} (h : ∀ n ∈ place, IsName n) : place.toPath.IsRoot where
  absolute := place.isAbsolute_toPath
  normal := by
    rw [Path.folded_of_absolute place.isAbsolute_toPath [], locate_toPath h, components_toPath h]

/-! ### Names after a normal form -/

namespace NormalForm

def extend : NormalForm → Location → NormalForm
  | absolute names, more => absolute (names ++ more)
  | relative ups names, more => relative ups (names ++ more)

theorem components_extend (form : NormalForm) (more : Location) :
    (form.extend more).components = form.components ++ more.map .name := by
  cases form <;> simp [extend, components]

theorem extend_singleton_inj {form form' : NormalForm} {n n' : String} (h : form.extend [n] = form'.extend [n']) :
    n = n' := by
  have hLast := congrArg (fun f => f.components.getLast?) h
  simpa [components_extend] using hLast

theorem extend_nil (form : NormalForm) : form.extend [] = form := by
  cases form <;> simp [extend]

theorem extend_append (form : NormalForm) (more further : Location) :
    form.extend (more ++ further) = (form.extend more).extend further := by
  cases form <;> simp [extend]

theorem extend_cons (form : NormalForm) (n : String) (more : Location) :
    form.extend (n :: more) = (form.extend [n]).extend more := form.extend_append [n] more

theorem step_name (form : NormalForm) (n : String) : form.step (.name n) = form.extend [n] := by
  cases form <;> rfl

theorem foldl_step_names (form : NormalForm) (names : Location) :
    (names.map Component.name).foldl step form = form.extend names := by
  induction names generalizing form with
  | nil => exact form.extend_nil.symm
  | cons n rest ih =>
    rw [List.map_cons, List.foldl_cons, ih, step_name, ← extend_append]
    rfl

theorem foldl_step_ups (ups : Nat) :
    (List.replicate ups Component.parent).foldl step (relative 0 []) = relative ups [] := by
  induction ups with
  | zero => rfl
  | succ ups ih =>
    rw [List.replicate_succ', List.foldl_append, ih]
    rfl

theorem foldl_step_components (form : NormalForm) : form.components.foldl step (relative 0 []) = form := by
  cases form with
  | absolute names => exact foldl_step_names (absolute []) names
  | relative ups names =>
    rw [components, List.foldl_append, foldl_step_ups]
    exact foldl_step_names (relative ups []) names

theorem components_inj {form form' : NormalForm} (h : form.components = form'.components) : form = form' := by
  rw [← foldl_step_components form, h, foldl_step_components]

end NormalForm

namespace Path

theorem folded_eq_iff {p q : Path} : p.folded = q.folded ↔ p.normalForm = q.normalForm := by
  rw [folded_eq, folded_eq]
  exact ⟨NormalForm.components_inj, congrArg NormalForm.components⟩

theorem folded_eq_root_iff {p : Path} : p.folded = [.root] ↔ p.normalForm = .absolute [] := by
  have hRoot : [.root] = (NormalForm.absolute []).components := rfl
  rw [folded_eq, hRoot]
  exact ⟨NormalForm.components_inj, congrArg NormalForm.components⟩

theorem normalForm_of_components {base file : Path} {rest : List Component}
    (h : file.components = base.components ++ rest) :
    file.normalForm = rest.foldl NormalForm.step base.normalForm := by
  rw [normalForm, h, List.foldl_append]
  rfl

end Path

/-! ### Prefixes -/

namespace NormalForm

theorem absolute_prefix_iff {out proto : Location} :
    (absolute out).components <+: (absolute proto).components ↔ out <+: proto := by
  rw [components, components, List.cons_prefix_cons, List.prefix_map_iff_of_injective @Component.name.inj]
  exact and_iff_right rfl

theorem relative_prefix_iff {ups ups' : Nat} {out proto : Location} (hOut : out ≠ []) :
    (relative ups out).components <+: (relative ups' proto).components ↔ ups = ups' ∧ out <+: proto := by
  induction ups generalizing ups' with
  | zero =>
    cases ups' with
    | zero =>
      change out.map Component.name <+: proto.map Component.name ↔ _
      rw [List.prefix_map_iff_of_injective @Component.name.inj]
      exact (and_iff_right rfl).symm
    | succ ups' =>
      obtain ⟨first, rest, rfl⟩ := List.exists_cons_of_ne_nil hOut
      simp [components, List.replicate_succ, List.cons_prefix_cons]
  | succ ups ih =>
    cases ups' with
    | zero => cases proto <;> simp [components, List.replicate_succ, List.cons_prefix_cons]
    | succ ups' =>
      change Component.parent :: (relative ups out).components <+:
        Component.parent :: (relative ups' proto).components ↔ _
      rw [List.cons_prefix_cons, ih, Nat.add_right_cancel_iff]
      exact and_iff_right rfl

end NormalForm

end ClientRegistry

import ClientRegistry.Path.Folding
import ClientRegistry.Proofs.Text.Lines

/-!
# Components of written paths

The components of a path are its lead, which says where it starts, and its steps. Joining two paths
puts the steps of the second after those of the first, however many slashes stand between them.
-/

set_option autoImplicit false

namespace ClientRegistry

structure IsName (name : String) : Prop where
  not_empty : name ≠ ""
  not_current : name ≠ "."
  not_parent : name ≠ ".."
  no_slash : '/' ∉ name.toList

namespace Path

def steps (p : Path) : List Component := p.segments.filterMap stepOf?

def lead (p : Path) : List Component :=
  if p.isAbsolute then [.root] else if p.segments.head? == some "." then [.current] else []

/-! ### Segments -/

theorem segments_of_toList {p : Path} {s t : List Char} (h : p.text.toList = s ++ '/' :: t) :
    p.segments = (s.splitOn '/').map String.ofList ++ (t.splitOn '/').map String.ofList := by
  rw [segments, h, List.splitOn_append_cons_self, List.map_append]

theorem slash_not_mem_of_mem_segments {p : Path} {segment : String} (h : segment ∈ p.segments) :
    '/' ∉ segment.toList := by
  obtain ⟨piece, hPiece, rfl⟩ := List.mem_map.mp h
  rw [String.toList_ofList]
  exact Text.not_mem_of_mem_splitOn hPiece

theorem head?_segments_of_absolute {p : Path} (h : p.isAbsolute = true) : p.segments.head? = some "" := by
  obtain ⟨rest, hText⟩ := List.head?_eq_some_iff.mp (beq_iff_eq.mp h)
  rw [segments_of_toList (s := []) hText, List.splitOn_nil]
  rfl

theorem filterMap_tail_of_trivial {segments : List String} {s : String} (h : segments.head? = some s)
    (hTrivial : stepOf? s = none) : segments.tail.filterMap stepOf? = segments.filterMap stepOf? := by
  cases segments with
  | nil => rfl
  | cons first rest =>
    obtain rfl : first = s := Option.some.inj h
    rw [List.tail_cons, List.filterMap_cons_none hTrivial]

theorem components_eq (p : Path) : p.components = p.lead ++ p.steps := by
  by_cases hAbsolute : p.isAbsolute = true
  · have hTail := filterMap_tail_of_trivial (head?_segments_of_absolute hAbsolute) rfl
    simp [components, anchored, lead, steps, hAbsolute, hTail]
  · by_cases hCurrent : p.segments.head? = some "."
    · have hTail := filterMap_tail_of_trivial hCurrent rfl
      simp [components, anchored, lead, steps, hAbsolute, hCurrent, hTail]
    · simp [components, anchored, lead, steps, hAbsolute, hCurrent]

/-- A step is `..` or a name. -/
theorem stepOf?_eq_some {segment : String} {c : Component} (h : stepOf? segment = some c) :
    c = .parent ∨ c = .name segment ∧ segment ≠ "" ∧ segment ≠ "." ∧ segment ≠ ".." := by
  unfold stepOf? at h
  split at h
  · cases h
  · rename_i hTrivial
    split at h
    · exact .inl (Option.some.inj h).symm
    · rename_i hParent
      refine .inr ⟨(Option.some.inj h).symm, ?_, ?_, by simpa using hParent⟩
      · rintro rfl
        exact hTrivial rfl
      · rintro rfl
        exact hTrivial rfl

theorem step_of_mem_steps {p : Path} {c : Component} (h : c ∈ p.steps) :
    c = .parent ∨ ∃ name, c = .name name ∧ IsName name := by
  obtain ⟨segment, hSegment, hStep⟩ := List.mem_filterMap.mp h
  rcases stepOf?_eq_some hStep with rfl | ⟨rfl, hEmpty, hCurrent, hParent⟩
  · exact .inl rfl
  · exact .inr ⟨segment, rfl, hEmpty, hCurrent, hParent, slash_not_mem_of_mem_segments hSegment⟩

theorem isName_of_mem_components {p : Path} {name : String} (h : .name name ∈ p.components) : IsName name := by
  rw [components_eq] at h
  rcases List.mem_append.mp h with hLead | hStep
  · unfold lead at hLead
    split at hLead
    · simp at hLead
    · split at hLead <;> simp at hLead
  · rcases step_of_mem_steps hStep with hParent | ⟨other, hName, hIsName⟩
    · cases hParent
    · cases hName
      exact hIsName

/-! ### Segments between slashes -/

theorem segments_intercalate {body : List String} (hSlash : ∀ segment ∈ body, '/' ∉ segment.toList)
    (hBody : body ≠ []) : (Path.mk ("/".intercalate body)).segments = body := by
  have hPieces : (['/'].intercalate (body.map String.toList)).splitOn '/' = body.map String.toList := by
    apply List.splitOn_intercalate
    · intro piece hPiece
      obtain ⟨segment, hSegment, rfl⟩ := List.mem_map.mp hPiece
      exact hSlash segment hSegment
    · simpa using hBody
  have hText : ("/".intercalate body).toList = ['/'].intercalate (body.map String.toList) := String.toList_intercalate
  rw [segments, hText, hPieces, List.map_map]
  simp [Function.comp_def]

theorem steps_intercalate {body : List String} (hSlash : ∀ segment ∈ body, '/' ∉ segment.toList) :
    steps ⟨"/".intercalate body⟩ = body.filterMap stepOf? := by
  by_cases hBody : body = []
  · subst hBody
    rfl
  · rw [steps, segments_intercalate hSlash hBody]

/-! ### Joined paths -/

theorem join_of_absolute (p : Path) {q : Path} (h : q.isAbsolute = true) : p.join q = q := by
  rw [join, if_pos h]

/-- The steps on both sides of a slash. -/
theorem steps_of_toList {p : Path} {s t : List Char} (h : p.text.toList = s ++ '/' :: t) :
    p.steps = steps ⟨String.ofList s⟩ ++ steps ⟨String.ofList t⟩ := by
  rw [steps, segments_of_toList h, List.filterMap_append]
  simp [steps, segments]

theorem steps_slash_intercalate {body : List String} (hSlash : ∀ segment ∈ body, '/' ∉ segment.toList) :
    steps ⟨"/" ++ "/".intercalate body⟩ = body.filterMap stepOf? := by
  have hText : ("/" ++ "/".intercalate body).toList = [] ++ '/' :: ("/".intercalate body).toList := by
    rw [String.toList_append]
    rfl
  have hSlashFirst : steps ⟨String.ofList []⟩ = [] := rfl
  rw [steps_of_toList (p := ⟨"/" ++ "/".intercalate body⟩) hText, hSlashFirst, List.nil_append, String.ofList_toList,
    steps_intercalate hSlash]

theorem steps_join (p : Path) {q : Path} (h : q.isAbsolute = false) : (p.join q).steps = p.steps ++ q.steps := by
  rw [join, if_neg (by simp [h])]
  split
  · rename_i hEnd
    rcases List.eq_nil_or_concat p.text.toList with hEmpty | ⟨s, c, hText⟩
    · have hSteps : p.steps = [] := by simp [steps, segments, hEmpty, stepOf?, isTrivial]
      rw [hSteps, List.nil_append, String.toList_eq_nil_iff.mp hEmpty, String.empty_append]
    · obtain rfl : c = '/' := by simpa [hText] using hEnd
      have hJoined : (Path.mk (p.text ++ q.text)).text.toList = s ++ '/' :: q.text.toList := by
        rw [String.toList_append, hText]
        simp
      have hSlash : steps ⟨String.ofList []⟩ = [] := rfl
      rw [List.concat_eq_append] at hText
      rw [steps_of_toList hJoined, steps_of_toList hText, hSlash, List.append_nil, String.ofList_toList]
  · have hJoined : (Path.mk (p.text ++ "/" ++ q.text)).text.toList = p.text.toList ++ '/' :: q.text.toList := by
      rw [String.toList_append, String.toList_append]
      simp
    rw [steps_of_toList hJoined, String.ofList_toList, String.ofList_toList]

theorem isAbsolute_join {p : Path} (h : p.isAbsolute = true) (q : Path) : (p.join q).isAbsolute = true := by
  obtain ⟨rest, hText⟩ := List.head?_eq_some_iff.mp (beq_iff_eq.mp h)
  unfold join
  split
  · assumption
  · split
    · simp [isAbsolute, hText]
    · simp [isAbsolute, hText]

theorem components_join_of_absolute {p q : Path} (hp : p.isAbsolute = true) (hq : q.isAbsolute = false) :
    (p.join q).components = p.components ++ q.steps := by
  rw [components_eq, components_eq, steps_join p hq, lead, lead, if_pos hp, if_pos (isAbsolute_join hp q),
    List.append_assoc]

end Path

/-! ### Written places -/

theorem IsName.stepOf?_eq {name : String} (h : IsName name) : Path.stepOf? name = some (.name name) := by
  simp [Path.stepOf?, Path.isTrivial, h.not_empty, h.not_current, h.not_parent]

theorem Path.filterMap_names {names : List String} (h : ∀ n ∈ names, IsName n) :
    names.filterMap Path.stepOf? = names.map .name := by
  induction names with
  | nil => rfl
  | cons n rest ih =>
    rw [List.filterMap_cons_some (h n List.mem_cons_self).stepOf?_eq, List.map_cons,
      ih fun m hm => h m (List.mem_cons_of_mem _ hm)]

theorem Location.toList_toPath (loc : Location) :
    loc.toPath.text.toList = '/' :: ['/'].intercalate (loc.map String.toList) := by
  rw [toPath, String.toList_append, String.toList_intercalate]
  rfl

theorem Location.isAbsolute_toPath (loc : Location) : loc.toPath.isAbsolute = true := by
  rw [Path.isAbsolute, toList_toPath]
  rfl

theorem Location.steps_toPath {loc : Location} (h : ∀ n ∈ loc, IsName n) : loc.toPath.steps = loc.map .name := by
  rw [toPath, Path.steps_slash_intercalate fun n hn => (h n hn).no_slash, Path.filterMap_names h]

/-- The written form of a place has its names as components. -/
theorem Location.components_toPath {loc : Location} (h : ∀ n ∈ loc, IsName n) :
    loc.toPath.components = .root :: loc.map .name := by
  rw [Path.components_eq, Path.lead, if_pos loc.isAbsolute_toPath, steps_toPath h]
  rfl

end ClientRegistry

import ClientRegistry.Proofs.FileTree.Listing
import ClientRegistry.Proofs.FileTree.Reading
import ClientRegistry.Proofs.Path.Spelling

/-!
# Ways without links

Where no link is on the way, a path leads to the place that it spells, through the places that its steps spell
one after the other, and it leads there in every tree that has the same at these places. Where some of them
are missing in a tree, what is not found there is the only thing that can go wrong.
-/

set_option autoImplicit false

namespace ClientRegistry.FileTree

variable {s t v : FileTree} {dir loc found parent : Location} {p : Path} {segments : List String} {ending : Ending}
  {links left : Nat} {name : String} {slash : Bool}

/-! ### Steps -/

theorem filterMap_moves (segments : List String) :
    (moves segments).filterMap Path.stepOf? = segments.filterMap Path.stepOf? := by
  rw [moves, List.filterMap_filter]
  refine List.filterMap_congr fun segment _ => ?_
  cases hTrivial : Path.isTrivial segment with
  | true => exact (Path.stepOf?_eq_none_iff.mpr hTrivial).symm
  | false => rfl

/-- The steps before the ending of some segments, and the ending's own, of which there is at most one. -/
theorem filterMap_ofSegments (segments : List String) : segments.filterMap Path.stepOf? =
    (Ending.ofSegments segments).1.filterMap Path.stepOf? ++
      (Ending.ofSegments segments).2.moves.filterMap Path.stepOf? := by
  rw [← filterMap_moves, moves_ofSegments, List.filterMap_append, filterMap_moves]

theorem prefix_before_ending {before : List Component} (h : before <+: p.steps) (hOther : before ≠ p.steps) :
    before <+: (Ending.ofSegments p.segments).1.filterMap Path.stepOf? := by
  have hSteps : p.steps = _ := filterMap_ofSegments p.segments
  have hLength : ((Ending.ofSegments p.segments).2.moves.filterMap Path.stepOf?).length ≤ 1 := by
    refine (List.length_filterMap_le _ _).trans ?_
    cases (Ending.ofSegments p.segments).2 <;> simp [Ending.moves]
  rw [hSteps] at h hOther
  rcases hLast : (Ending.ofSegments p.segments).2.moves.filterMap Path.stepOf? with _ | ⟨last, _ | ⟨_, _⟩⟩
  · rwa [hLast, List.append_nil] at h
  · rw [hLast] at h hOther
    exact (List.prefix_concat_iff.mp h).resolve_left hOther
  · rw [hLast] at hLength
    simp at hLength

/-! ### Walks without links -/

def PlainWay (t : FileTree) (loc : Location) (steps : List Component) : Prop :=
  ∀ before, before <+: steps → before ≠ [] → ∀ target, t.node? (before.foldl Component.follow loc) ≠ some (.link target)

theorem PlainWay.tail {c : Component} {rest : List Component} (h : t.PlainWay loc (c :: rest)) :
    t.PlainWay (c.follow loc) rest :=
  fun before hBefore _ => h (c :: before) (List.cons_prefix_cons.mpr ⟨rfl, hBefore⟩) (List.cons_ne_nil _ _)

theorem PlainWay.mono {steps : List Component} (h : t.PlainWay loc steps) (hWithin : s.Within t) :
    s.PlainWay loc steps :=
  fun before hBefore hSome target hLink => h before hBefore hSome target (hWithin _ _ hLink)

/-- Without links, segments lead to the place that they spell. -/
theorem Leads.found_eq (h : t.Leads links loc segments found left)
    (hPlain : t.PlainWay loc (segments.filterMap Path.stepOf?)) :
    found = (segments.filterMap Path.stepOf?).foldl Component.follow loc := by
  induction h with
  | here => rfl
  | stay _ hTrivial _ ih =>
    have hNone := Path.stepOf?_eq_none_iff.mpr hTrivial
    rw [List.filterMap_cons_none hNone] at hPlain ⊢
    exact ih hPlain
  | up _ _ ih => exact ih hPlain.tail
  | down _ hStep _ _ _ _ ih =>
    rw [List.filterMap_cons_some hStep] at hPlain ⊢
    exact ih hPlain.tail
  | @link _ _ _ _ segment _ target _ hStep _ hNode _ _ =>
    rw [List.filterMap_cons_some hStep] at hPlain
    exact absurd hNode (hPlain [.name segment] (by simp) (by simp) target)

/-- Without links, segments lead to a directory from directory to directory. -/
theorem Leads.isDirectory_before (h : t.Leads links loc segments found left) (hFound : t.isDirectory found = true)
    (hPlain : t.PlainWay loc (segments.filterMap Path.stepOf?)) {before : List Component}
    (hBefore : before <+: segments.filterMap Path.stepOf?) :
    t.isDirectory (before.foldl Component.follow loc) = true := by
  induction h generalizing before with
  | here =>
    obtain rfl := List.prefix_nil.mp hBefore
    exact hFound
  | stay _ hTrivial _ ih =>
    have hNone := Path.stepOf?_eq_none_iff.mpr hTrivial
    rw [List.filterMap_cons_none hNone] at hPlain hBefore
    exact ih hFound hPlain hBefore
  | up hDir _ ih =>
    cases before with
    | nil => exact hDir
    | cons c before =>
      obtain ⟨rfl, hRest⟩ := List.cons_prefix_cons.mp hBefore
      exact ih hFound hPlain.tail hRest
  | down hDir hStep _ _ _ _ ih =>
    rw [List.filterMap_cons_some hStep] at hPlain hBefore
    cases before with
    | nil => exact hDir
    | cons c before =>
      obtain ⟨rfl, hRest⟩ := List.cons_prefix_cons.mp hBefore
      exact ih hFound hPlain.tail hRest
  | @link _ _ _ _ segment _ target _ hStep _ hNode _ _ =>
    rw [List.filterMap_cons_some hStep] at hPlain
    exact absurd hNode (hPlain [.name segment] (by simp) (by simp) target)

/-- Without links, segments lead the same way in a tree that has the same at the places on the way. -/
theorem Leads.congr (h : t.Leads links loc segments found left)
    (hPlain : t.PlainWay loc (segments.filterMap Path.stepOf?))
    (hSame : ∀ before, before <+: segments.filterMap Path.stepOf? →
      v.node? (before.foldl Component.follow loc) = t.node? (before.foldl Component.follow loc)) :
    v.Leads links loc segments found left := by
  have hStart (place : Location) (hPlace : v.node? place = t.node? place) (hDir : t.isDirectory place = true) :
      v.isDirectory place = true := by rwa [isDirectory, hPlace]
  induction h with
  | here => exact .here
  | stay hDir hTrivial _ ih =>
    have hNone := Path.stepOf?_eq_none_iff.mpr hTrivial
    rw [List.filterMap_cons_none hNone] at hPlain hSame
    exact .stay (hStart _ (hSame [] List.nil_prefix) hDir) hTrivial (ih hPlain hSame)
  | up hDir _ ih =>
    refine .up (hStart _ (hSame [] List.nil_prefix) hDir) (ih hPlain.tail fun before hBefore => ?_)
    exact hSame (.parent :: before) (List.cons_prefix_cons.mpr ⟨rfl, hBefore⟩)
  | @down _ _ _ _ segment _ node hDir hStep hName hNode hLink _ ih =>
    rw [List.filterMap_cons_some hStep] at hPlain hSame
    have hNodeThere := (hSame [.name segment] (by simp)).trans hNode
    refine .down (hStart _ (hSame [] List.nil_prefix) hDir) hStep hName hNodeThere hLink
      (ih hPlain.tail fun before hBefore => ?_)
    exact hSame (.name segment :: before) (List.cons_prefix_cons.mpr ⟨rfl, hBefore⟩)
  | @link _ _ _ _ segment _ target _ hStep _ hNode _ _ =>
    rw [List.filterMap_cons_some hStep] at hPlain
    exact absurd hNode (hPlain [.name segment] (by simp) (by simp) target)

/-! ### Walks where something is missing -/

theorem Within.requireDirectory_or (h : s.Within t) (hDir : t.isDirectory loc = true) :
    s.isDirectory loc = true ∨ s.requireDirectory loc = .error .notFound := by
  obtain ⟨node, hNode, hIsDir⟩ := isDirectory_iff.mp hDir
  unfold requireDirectory
  cases hThere : s.node? loc with
  | none => exact .inr rfl
  | some other =>
    obtain rfl := Option.some.inj ((h _ _ hThere).symm.trans hNode)
    exact .inl (isDirectory_iff.mpr ⟨other, hThere, hIsDir⟩)

/-- In a part of a tree, a walk ends where it ends in the whole tree, or something on it is not found. -/
theorem Within.walk_or (h : s.Within t) (hLeads : t.Leads links loc segments found left) :
    s.walk links loc segments = .ok (found, left) ∨ s.walk links loc segments = .error .notFound := by
  induction hLeads with
  | here => exact .inl (walk_of_leads .here)
  | stay hDir hTrivial _ ih =>
    rcases h.requireDirectory_or hDir with hThere | hMissing
    · rwa [walk_stay hThere hTrivial]
    · exact .inr (walk_of_requireDirectory_error hMissing)
  | up hDir _ ih =>
    rcases h.requireDirectory_or hDir with hThere | hMissing
    · rwa [walk_up hThere]
    · exact .inr (walk_of_requireDirectory_error hMissing)
  | @down _ _ loc _ segment _ node hDir hStep hName hNode hLink _ ih =>
    rcases h.requireDirectory_or hDir with hThere | hMissing
    · cases hSegment : s.node? (loc ++ [segment]) with
      | none => exact .inr (walk_missing hThere hStep hName hSegment)
      | some other =>
        obtain rfl := Option.some.inj ((h _ _ hSegment).symm.trans hNode)
        rwa [walk_down hThere hStep hName hSegment hLink]
    · exact .inr (walk_of_requireDirectory_error hMissing)
  | @link _ _ loc _ segment _ target hDir hStep hName hNode _ ih =>
    rcases h.requireDirectory_or hDir with hThere | hMissing
    · cases hSegment : s.node? (loc ++ [segment]) with
      | none => exact .inr (walk_missing hThere hStep hName hSegment)
      | some other =>
        obtain rfl := Option.some.inj ((h _ _ hSegment).symm.trans hNode)
        rwa [walk_link hThere hStep hName hSegment]
    · exact .inr (walk_of_requireDirectory_error hMissing)

theorem Within.entryOf_or (h : s.Within t) (hEntry : t.entryOf dir p = .ok (parent, ending)) :
    s.entryOf dir p = .ok (parent, ending) ∨ s.entryOf dir p = .error .notFound := by
  obtain ⟨hStart, ⟨left, hLeads⟩, hDir, hEnding⟩ := entryOf_eq_ok_iff.mp hEntry
  rcases h.walk_or hLeads with hWalk | hWalk
  · rcases h.requireDirectory_or hDir with hThere | hMissing
    · exact .inl (entryOf_eq_ok_iff.mpr ⟨hStart, ⟨left, walk_eq_ok_iff.mp hWalk⟩, hThere, hEnding⟩)
    · right
      rw [entryOf, hStart]
      change (s.approach maxLinks (linkStart dir p.text).1 p.segments >>= _) = _
      rw [approach, hWalk]
      change ((s.requireDirectory parent >>= _) >>= _) = _
      rw [hMissing]
      rfl
  · right
    rw [entryOf, hStart]
    change (s.approach maxLinks (linkStart dir p.text).1 p.segments >>= _) = _
    rw [approach, hWalk]
    rfl

/-! ### Real ways -/

/-- Each directory above the one in which the path ends is there, none of them a link; and where a link is at
the path's end, it is named as an entry, with no slash after it that would lead through it. -/
structure RealWay (t : FileTree) (dir : Location) (p : Path) : Prop where
  above : ∀ before, before <+: p.steps → before ≠ p.steps →
    t.isDirectory (before.foldl Component.follow (linkStart dir p.text).1) = true
  last : ∀ target, t.node? (p.locate dir) = some (.link target) →
    ∃ name, (Ending.ofSegments p.segments).2 = .name name false

theorem locate_eq_foldl_steps (dir : Location) (p : Path) :
    p.locate dir = p.steps.foldl Component.follow (linkStart dir p.text).1 := by
  cases hAbsolute : p.isAbsolute with
  | true =>
    have hBase : (linkStart dir p.text).1 = [] := if_pos hAbsolute
    rw [hBase, Path.locate, Path.components_of_absolute hAbsolute]
    rfl
  | false =>
    have hBase : (linkStart dir p.text).1 = dir := if_neg (by simp [hAbsolute])
    rw [hBase, Path.locate_of_relative hAbsolute]

theorem linkStart_name (hName : IsName name) (dir : Location) : (linkStart dir name).1 = dir :=
  if_neg (by simp [hName.isAbsolute_eq])

theorem eq_nil_of_prefix_name (hName : IsName name) {before : List Component} (h : before <+: (Path.mk name).steps)
    (hOther : before ≠ (Path.mk name).steps) : before = [] := by
  rw [hName.steps_eq] at h hOther
  exact List.prefix_nil.mp ((List.prefix_concat_iff.mp h).resolve_left hOther)

namespace RealWay

theorem plain (h : t.RealWay dir p) (hLink : ∀ target, t.node? (p.locate dir) ≠ some (.link target)) :
    t.PlainWay (linkStart dir p.text).1 p.steps := by
  intro before hBefore _ target hTarget
  by_cases hWhole : before = p.steps
  · subst hWhole
    rw [← locate_eq_foldl_steps] at hTarget
    exact hLink target hTarget
  · exact node?_ne_link_of_isDirectory (h.above before hBefore hWhole) target hTarget

theorem steps_eq (p : Path) : p.steps = (Ending.ofSegments p.segments).1.filterMap Path.stepOf? ++
    (Ending.ofSegments p.segments).2.moves.filterMap Path.stepOf? := filterMap_ofSegments p.segments

theorem steps_of_name (h : (Ending.ofSegments p.segments).2 = .name name slash) :
    p.steps = (Ending.ofSegments p.segments).1.filterMap Path.stepOf? ++ [.name name] := by
  have hName := (name_of_ofSegments (fun _ => Path.slash_not_mem_of_mem_segments) h).1
  rw [steps_eq, h, Ending.moves, List.filterMap_cons_some hName.stepOf?_eq, List.filterMap_nil]

theorem plain_before_ending (h : t.RealWay dir p) :
    t.PlainWay (linkStart dir p.text).1 ((Ending.ofSegments p.segments).1.filterMap Path.stepOf?) := by
  intro before hBefore _ target hTarget
  by_cases hWhole : before = p.steps
  · have hLast := hTarget
    rw [hWhole, ← locate_eq_foldl_steps] at hLast
    obtain ⟨name, hName⟩ := h.last target hLast
    have hLonger := (hWhole ▸ hBefore).length_le
    rw [steps_of_name hName, List.length_append, List.length_singleton] at hLonger
    omega
  · have hDir := h.above before (hBefore.trans (steps_eq p ▸ List.prefix_append _ _)) hWhole
    exact node?_ne_link_of_isDirectory hDir target hTarget

theorem parent_eq (h : t.RealWay dir p) (hEntry : t.entryOf dir p = .ok (parent, ending)) :
    parent = ((Ending.ofSegments p.segments).1.filterMap Path.stepOf?).foldl Component.follow (linkStart dir p.text).1 := by
  obtain ⟨-, ⟨left, hLeads⟩, -, -⟩ := entryOf_eq_ok_iff.mp hEntry
  exact hLeads.found_eq h.plain_before_ending

theorem entry_eq (h : t.RealWay dir p) (hEntry : t.entryOf dir p = .ok (parent, .name name slash)) :
    parent ++ [name] = p.locate dir := by
  rw [h.parent_eq hEntry, locate_eq_foldl_steps, steps_of_name (ending_of_entryOf hEntry).symm, List.foldl_append]
  rfl

theorem resolve_eq (h : t.RealWay dir p) (hLink : ∀ target, t.node? (p.locate dir) ≠ some (.link target))
    (hResolve : t.resolve dir p = .ok loc) : loc = p.locate dir := by
  obtain ⟨-, left, hLeads⟩ := resolve_eq_ok_iff.mp hResolve
  rw [locate_eq_foldl_steps]
  exact hLeads.found_eq (h.plain hLink)

/-- The entry at the end of the path is the one at the place that the path spells. -/
theorem resolveEntry_eq (h : t.RealWay dir p) (hEntry : t.resolveEntry dir p = .ok loc) : loc = p.locate dir := by
  obtain ⟨⟨parent, ending⟩, hParent, hRest⟩ := bind_eq_ok_iff.mp hEntry
  dsimp only at hRest
  split at hRest
  · rename_i name
    obtain ⟨⟨⟩, -, hFound⟩ := bind_eq_ok_iff.mp hRest
    split at hFound
    · cases hFound
      exact h.entry_eq hParent
    · cases hFound
  · rename_i hEnding
    refine h.resolve_eq (fun target hTarget => ?_) hRest
    obtain ⟨name, hName⟩ := h.last target hTarget
    exact hEnding name ((ending_of_entryOf hParent).trans hName)

/-- A directory at the place is the entry of the path, if the path leads anywhere. -/
theorem resolveEntry_of_isDirectory (h : t.RealWay dir p) (hExists : t.pathExists dir p = true)
    (hDir : t.isDirectory (p.locate dir) = true) : t.resolveEntry dir p = .ok (p.locate dir) := by
  obtain ⟨found, hFound⟩ := pathExists_iff.mp hExists
  obtain rfl := h.resolve_eq (node?_ne_link_of_isDirectory hDir) hFound
  obtain ⟨entry, hEntry, -⟩ := resolveEntry_of_resolve hFound hDir
  rwa [h.resolveEntry_eq hEntry] at hEntry

theorem of_name (hName : IsName name) (hDir : t.isDirectory dir = true) : t.RealWay dir ⟨name⟩ where
  above := by
    intro before hBefore hOther
    rwa [eq_nil_of_prefix_name hName hBefore hOther, List.foldl_nil, linkStart_name hName]
  last := by
    intro target _
    have hSegments : (Path.mk name).segments = [] ++ [name] := hName.segments_eq
    exact ⟨name, by rw [hSegments, ofSegments_concat hName]⟩

end RealWay

end ClientRegistry.FileTree

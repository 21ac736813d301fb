import ClientRegistry.Proofs.Path.Import

/-!
# Above a path

The path above another one has its steps but for the last one, and starts where it starts. Its text is
how the other's text starts.
-/

set_option autoImplicit false

namespace ClientRegistry.Path

variable {p q up : Path} {anchor : Anchor} {body kept : List String}

theorem steps_ofAnchored (hSlash : ∀ segment ∈ body, '/' ∉ segment.toList) (anchor : Anchor) :
    (ofAnchored anchor body).steps = body.filterMap stepOf? := by
  cases anchor with
  | root => exact steps_slash_intercalate hSlash
  | none => exact steps_intercalate hSlash
  | current =>
    cases body with
    | nil => rfl
    | cons first rest =>
      have hText : ("./" ++ "/".intercalate (first :: rest)).toList =
          ['.'] ++ '/' :: ("/".intercalate (first :: rest)).toList := by
        rw [String.toList_append]
        rfl
      have hSteps := steps_of_toList (p := ⟨"./" ++ "/".intercalate (first :: rest)⟩) hText
      rw [String.ofList_toList, steps_intercalate hSlash] at hSteps
      exact hSteps

theorem steps_of_anchored (h : p.anchored = (anchor, body)) : p.steps = body.filterMap stepOf? := by
  have hComponents := (p.components_eq).symm.trans (components_of_anchored h)
  have hLead : p.lead = anchor.lead := by
    unfold anchored at h
    unfold lead
    split at h
    · rename_i hAbsolute
      cases h
      rw [if_pos hAbsolute]
      rfl
    · rename_i hRelative
      rw [if_neg hRelative]
      split at h
      · rename_i hCurrent
        cases h
        rw [if_pos hCurrent]
        rfl
      · rename_i hCurrent
        cases h
        rw [if_neg hCurrent]
        rfl
  rw [hLead] at hComponents
  exact List.append_cancel_left hComponents

theorem isAbsolute_of_anchored (h : p.anchored = (anchor, body)) : p.isAbsolute = true ↔ anchor = .root := by
  unfold anchored at h
  split at h
  · cases h
    exact iff_of_true ‹_› rfl
  · split at h
    · cases h
      exact iff_of_false ‹_› nofun
    · cases h
      exact iff_of_false ‹_› nofun

theorem isAbsolute_ofAnchored (hSlash : ∀ segment ∈ body, '/' ∉ segment.toList)
    (hFirst : anchor = .none → ∀ segment, body.head? = some segment → isTrivial segment = false) :
    (ofAnchored anchor body).isAbsolute = true ↔ anchor = .root := by
  cases anchor with
  | root =>
    refine iff_of_true ?_ rfl
    rw [ofAnchored, isAbsolute, String.toList_append]
    rfl
  | current =>
    refine iff_of_false ?_ (by simp)
    cases body with
    | nil => decide
    | cons first rest =>
      rw [ofAnchored, isAbsolute, String.toList_append]
      · exact Bool.false_ne_true
      · exact List.cons_ne_nil first rest
  | none =>
    refine iff_of_false (fun hAbsolute => ?_) (by simp)
    have hLead : lead ⟨"/".intercalate body⟩ = [] := lead_intercalate hSlash (hFirst rfl)
    have hRoot : lead ⟨"/".intercalate body⟩ = [.root] := if_pos hAbsolute
    cases hLead.symm.trans hRoot

theorem eq_nil_or_concat_trimEndSegments (body : List String) : trimEndSegments body = [] ∨
    ∃ init last, trimEndSegments body = init ++ [last] ∧ isTrivial last = false := by
  rcases List.eq_nil_or_concat (trimEndSegments body) with hNil | ⟨init, last, hConcat⟩
  · exact .inl hNil
  · rw [List.concat_eq_append] at hConcat
    refine .inr ⟨init, last, hConcat, ?_⟩
    have hLast := List.rdropWhile_last_not isTrivial body
    have hTrim : List.rdropWhile isTrivial body = init ++ [last] := hConcat
    rw [hTrim] at hLast
    simpa using hLast (by simp)

theorem steps_parent? (h : p.parent? = some up) :
    up.steps = p.steps.dropLast ∧ (up.isAbsolute = true ↔ p.isAbsolute = true) := by
  obtain ⟨anchor, body, hAnchored⟩ : ∃ anchor body, p.anchored = (anchor, body) := ⟨_, _, rfl⟩
  have hSlash := slash_not_mem_of_anchored hAnchored
  rw [isAbsolute_of_anchored hAnchored, steps_of_anchored hAnchored]
  rw [parent?, hAnchored] at h
  dsimp only at h
  have hPrefix := isPrefix_trimEndSegments body
  rw [← filterMap_trimEndSegments body]
  rcases eq_nil_or_concat_trimEndSegments body with hNil | ⟨init, last, hKept, hStep⟩
  · rw [hNil] at h ⊢
    cases anchor with
    | root | none => cases h
    | current =>
      cases h
      exact ⟨rfl, by decide⟩
  · rw [hKept] at h hPrefix ⊢
    have hNone : stepOf? last ≠ none := mt stepOf?_eq_none_iff.mp (by simp [hStep])
    obtain ⟨c, hc⟩ := Option.ne_none_iff_exists'.mp hNone
    have hUp : up = ofAnchored anchor (trimEndSegments init) := by
      cases init with
      | nil => exact (Option.some.inj h).symm
      | cons first rest =>
        have hDrop : (first :: rest ++ [last]).dropLast = first :: rest := List.dropLast_concat
        exact (Option.some.inj h).symm.trans (by rw [hDrop])
    have hTrim := (isPrefix_trimEndSegments init).trans ((List.prefix_append init [last]).trans hPrefix)
    have hUpSlash : ∀ segment ∈ trimEndSegments init, '/' ∉ segment.toList := fun s hs => hSlash s (hTrim.subset hs)
    rw [hUp]
    constructor
    · rw [steps_ofAnchored hUpSlash, filterMap_trimEndSegments, List.filterMap_append,
        List.filterMap_cons_some hc, List.filterMap_nil, List.dropLast_concat]
    · refine isAbsolute_ofAnchored hUpSlash ?_
      rintro rfl segment hFirst
      refine isTrivial_head_of_anchored hAnchored ?_
      rw [hKept]
      exact head?_of_isPrefix ((isPrefix_trimEndSegments init).trans (List.prefix_append init [last])) hFirst

/-! ### Texts -/

theorem intercalate_segments (p : Path) : "/".intercalate p.segments = p.text := by
  have hPieces : p.segments.map String.toList = p.text.toList.splitOn '/' := by
    simp [segments, Function.comp_def]
  refine String.toList_injective (String.toList_intercalate.trans ?_)
  rw [hPieces]
  exact List.intercalate_splitOn '/'

theorem ofAnchored_of_anchored (h : p.anchored = (anchor, body)) : ofAnchored anchor body = p := by
  have hText := p.intercalate_segments
  unfold anchored at h
  split at h
  · rename_i hAbsolute
    cases h
    obtain ⟨rest, hRest⟩ := List.head?_eq_some_iff.mp (beq_iff_eq.mp hAbsolute)
    rw [segments_of_toList (s := []) hRest, List.splitOn_nil] at hText ⊢
    have hTail : (rest.splitOn '/').map String.ofList ≠ [] := by simp [List.splitOn_ne_nil]
    rw [List.map_singleton, List.singleton_append, String.intercalate_cons_of_ne_nil hTail] at hText
    exact congrArg Path.mk hText
  · split at h
    · rename_i hCurrent
      cases h
      obtain ⟨rest, hRest⟩ := List.head?_eq_some_iff.mp (beq_iff_eq.mp hCurrent)
      rw [hRest] at hText ⊢
      cases rest with
      | nil => exact congrArg Path.mk hText
      | cons first others =>
        rw [String.intercalate_cons_of_ne_nil (List.cons_ne_nil first others)] at hText
        exact congrArg Path.mk hText
    · cases h
      exact congrArg Path.mk hText

theorem intercalate_isPrefix (h : kept <+: body) :
    ("/".intercalate kept).toList <+: ("/".intercalate body).toList := by
  obtain ⟨rest, rfl⟩ := h
  by_cases hKept : kept = []
  · subst hKept
    exact List.nil_prefix
  by_cases hRest : rest = []
  · simp only [hRest, List.append_nil, List.prefix_rfl]
  · rw [String.intercalate_append_of_ne_nil hKept hRest, String.append_assoc, String.toList_append]
    exact List.prefix_append _ _

theorem ofAnchored_isPrefix (anchor : Anchor) (h : kept <+: body) :
    (ofAnchored anchor kept).text.toList <+: (ofAnchored anchor body).text.toList := by
  have hText := intercalate_isPrefix h
  have hAfter (start : String) : (start ++ "/".intercalate kept).toList <+: (start ++ "/".intercalate body).toList := by
    rw [String.toList_append, String.toList_append]
    exact (List.prefix_append_right_inj _).mpr hText
  cases anchor with
  | root => exact hAfter "/"
  | none => exact hText
  | current =>
    cases kept with
    | nil =>
      cases body with
      | nil => exact List.prefix_rfl
      | cons first rest =>
        rw [ofAnchored, ofAnchored, String.toList_append]
        · exact ⟨'/' :: ("/".intercalate (first :: rest)).toList, rfl⟩
        · exact List.cons_ne_nil first rest
    | cons first rest =>
      obtain ⟨more, rfl⟩ := h
      exact hAfter "./"

theorem text_parent?_isPrefix (h : p.parent? = some up) : up.text.toList <+: p.text.toList := by
  obtain ⟨anchor, body, hAnchored⟩ : ∃ anchor body, p.anchored = (anchor, body) := ⟨_, _, rfl⟩
  rw [parent?, hAnchored] at h
  dsimp only at h
  split at h
  · split at h
    · cases h
      exact List.nil_prefix
    · cases h
  · rename_i kept hKept
    cases h
    rw [← ofAnchored_of_anchored hAnchored]
    exact ofAnchored_isPrefix anchor ((isPrefix_trimEndSegments _).trans
      ((List.dropLast_prefix _).trans (isPrefix_trimEndSegments body)))

/-! ### All the paths above -/

/-- What holds of a path, and of each path's parent if of the path, holds of all the paths above. -/
@[elab_as_elim]
theorem ancestors_induction {motive : Path → Prop} {count : Nat} (h : q ∈ ancestors.go count p) (hSelf : motive p)
    (hUp : ∀ below up, below.parent? = some up → motive below → motive up) : motive q := by
  induction count generalizing p with
  | zero =>
    obtain rfl := List.mem_singleton.mp h
    exact hSelf
  | succ count ih =>
    rw [ancestors.go] at h
    split at h
    · rename_i up hParent
      rcases List.mem_cons.mp h with rfl | hAbove
      · exact hSelf
      · exact ih hAbove (hUp p up hParent hSelf)
    · obtain rfl := List.mem_singleton.mp h
      exact hSelf

/-- Every path above another one has the first of its steps. -/
theorem steps_of_mem_ancestors {count : Nat} (h : q ∈ ancestors.go count p) :
    q.steps <+: p.steps ∧ (q.isAbsolute = true ↔ p.isAbsolute = true) := by
  refine ancestors_induction h ⟨List.prefix_rfl, Iff.rfl⟩ ?_
  intro below up hUp hBelow
  obtain ⟨hSteps, hAbsolute⟩ := steps_parent? hUp
  rw [hSteps]
  exact ⟨(List.dropLast_prefix below.steps).trans hBelow.1, hAbsolute.trans hBelow.2⟩

structure IsAbove (q p : Path) : Prop where
  steps : q.steps <+: p.steps.dropLast
  isAbsolute : q.isAbsolute = true ↔ p.isAbsolute = true
  text : q.text.toList <+: p.text.toList

theorem isAbove_of_mem_ancestors {count : Nat} (hUp : p.parent? = some up) (h : q ∈ ancestors.go count up) :
    q.IsAbove p := by
  obtain ⟨hSteps, hAbsolute⟩ := steps_parent? hUp
  obtain ⟨hPrefix, hSame⟩ := steps_of_mem_ancestors h
  refine ⟨hSteps ▸ hPrefix, hSame.trans hAbsolute, ?_⟩
  refine List.IsPrefix.trans ?_ (text_parent?_isPrefix hUp)
  exact ancestors_induction h List.prefix_rfl fun _ _ hParent hBelow => (text_parent?_isPrefix hParent).trans hBelow

/-- Each of the paths above is above those that come before it. -/
theorem pairwise_ancestors (p : Path) : p.ancestors.Pairwise fun below above => above.IsAbove below := by
  rw [ancestors]
  generalize p.segments.length = count
  induction count generalizing p with
  | zero => exact List.pairwise_singleton _ p
  | succ count ih =>
    rw [ancestors.go]
    split
    · rename_i up hUp
      exact List.pairwise_cons.mpr ⟨fun q hq => isAbove_of_mem_ancestors hUp hq, ih up⟩
    · exact List.pairwise_singleton _ p

theorem exists_ancestors_eq_cons (p : Path) : ∃ above, p.ancestors = p :: above := by
  rw [ancestors]
  cases p.segments.length with
  | zero => exact ⟨[], rfl⟩
  | succ count =>
    rw [ancestors.go]
    split
    · exact ⟨_, rfl⟩
    · exact ⟨[], rfl⟩

end ClientRegistry.Path

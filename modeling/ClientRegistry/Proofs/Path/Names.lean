import ClientRegistry.Proofs.Path.Components

/-!
# Names after a path

A path to which names are joined, one after the other, starts where it started and has their steps
after its own. No name can be taken for anything else.
-/

set_option autoImplicit false

namespace ClientRegistry

namespace IsName

variable {name : String}

instance (name : String) : Decidable (IsName name) :=
  decidable_of_iff (name ≠ "" ∧ name ≠ "." ∧ name ≠ ".." ∧ '/' ∉ name.toList)
    ⟨fun ⟨hEmpty, hCurrent, hParent, hSlash⟩ => ⟨hEmpty, hCurrent, hParent, hSlash⟩,
      fun h => ⟨h.not_empty, h.not_current, h.not_parent, h.no_slash⟩⟩

theorem isAbsolute_eq (h : IsName name) : (Path.mk name).isAbsolute = false := by
  refine Bool.eq_false_iff.mpr fun hAbsolute => ?_
  obtain ⟨rest, hText⟩ := List.head?_eq_some_iff.mp (beq_iff_eq.mp hAbsolute)
  have hChars : name.toList = '/' :: rest := hText
  exact h.no_slash (hChars ▸ List.mem_cons_self)

theorem segments_eq (h : IsName name) : (Path.mk name).segments = [name] := by
  rw [Path.segments, List.splitOn_eq_singleton h.no_slash, List.map_singleton, String.ofList_toList]

theorem steps_eq (h : IsName name) : (Path.mk name).steps = [.name name] := by
  rw [Path.steps, h.segments_eq, List.filterMap_cons_some h.stepOf?_eq, List.filterMap_nil]

end IsName

namespace Path

variable {p : Path} {name : String} {names : List String}

def joinNames (p : Path) (names : List String) : Path := names.foldl (fun q name => q.join ⟨name⟩) p

theorem segments_ne_nil (p : Path) : p.segments ≠ [] := by
  simp [segments, List.splitOn_ne_nil]

/-- A name comes after a text that ends in a slash or is empty, and so it is the last segment. -/
theorem exists_join_name (p : Path) : ∃ before init, (p.segments = init ++ [""] ∨ p.segments = init) ∧
    ∀ name, IsName name → (p.join ⟨name⟩).text = before ++ name ∧ (p.join ⟨name⟩).segments = init ++ [name] := by
  cases hEnd : p.text.toList.getLast?.all (· == '/') with
  | true =>
    have hJoin (name : String) (h : IsName name) : p.join ⟨name⟩ = ⟨p.text ++ name⟩ := by
      rw [join, if_neg (by simp [h.isAbsolute_eq]), if_pos hEnd]
    rcases List.eq_nil_or_concat p.text.toList with hEmpty | ⟨s, c, hText⟩
    · refine ⟨p.text, [], .inl (by simp [segments, hEmpty]), fun name h => ?_⟩
      rw [hJoin name h, String.toList_eq_nil_iff.mp hEmpty, String.empty_append]
      exact ⟨rfl, h.segments_eq⟩
    · obtain rfl : c = '/' := by simpa [hText] using hEnd
      rw [List.concat_eq_append] at hText
      refine ⟨p.text, (s.splitOn '/').map String.ofList, .inl (segments_of_toList hText), fun name h => ?_⟩
      have hJoined : (Path.mk (p.text ++ name)).text.toList = s ++ '/' :: name.toList := by
        rw [String.toList_append, hText, List.append_assoc, List.singleton_append]
      have hName : ((name.toList).splitOn '/').map String.ofList = [name] := h.segments_eq
      rw [hJoin name h, segments_of_toList hJoined, hName]
      exact ⟨rfl, rfl⟩
  | false =>
    refine ⟨p.text ++ "/", p.segments, .inr rfl, fun name h => ?_⟩
    have hJoin : p.join ⟨name⟩ = ⟨p.text ++ "/" ++ name⟩ := by
      rw [join, if_neg (by simp [h.isAbsolute_eq]), if_neg (by simp [hEnd])]
    have hJoined : (Path.mk (p.text ++ "/" ++ name)).text.toList = p.text.toList ++ '/' :: name.toList := by
      rw [String.toList_append, String.toList_append]
      simp
    have hName : ((name.toList).splitOn '/').map String.ofList = [name] := h.segments_eq
    rw [hJoin, segments_of_toList hJoined, hName, segments]
    exact ⟨rfl, rfl⟩

/-- A name takes the place of the empty segment after a last slash, and otherwise comes after all
segments. -/
theorem segments_join_name (p : Path) (h : IsName name) :
    (∃ init, p.segments = init ++ [""] ∧ (p.join ⟨name⟩).segments = init ++ [name]) ∨
      (p.join ⟨name⟩).segments = p.segments ++ [name] := by
  obtain ⟨_, init, hCases, hJoined⟩ := p.exists_join_name
  rcases hCases with hSegments | hSegments
  · exact .inl ⟨init, hSegments, (hJoined name h).2⟩
  · exact .inr (hSegments ▸ (hJoined name h).2)

theorem isAbsolute_join_of_relative (p : Path) {q : Path} (h : q.isAbsolute = false) :
    (p.join q).isAbsolute = p.isAbsolute := by
  rw [join, if_neg (by simp [h])]
  by_cases hText : p.text = ""
  · simpa [isAbsolute, hText] using h
  · obtain ⟨c, rest, hChars⟩ := List.exists_cons_of_ne_nil (mt String.toList_eq_nil_iff.mp hText)
    split <;> simp [isAbsolute, hChars]

theorem isAbsolute_join_name (p : Path) (h : IsName name) : (p.join ⟨name⟩).isAbsolute = p.isAbsolute :=
  p.isAbsolute_join_of_relative h.isAbsolute_eq

theorem lead_join_name (p : Path) (h : IsName name) : (p.join ⟨name⟩).lead = p.lead := by
  have hHead : ((p.join ⟨name⟩).segments.head? == some ".") = (p.segments.head? == some ".") := by
    rcases segments_join_name p h with ⟨init, hSegments, hJoined⟩ | hJoined
    · rw [hSegments, hJoined]
      cases init with
      | nil => simp [h.not_current]
      | cons first rest => rfl
    · obtain ⟨first, rest, hFirst⟩ := List.exists_cons_of_ne_nil p.segments_ne_nil
      rw [hJoined, hFirst]
      rfl
  rw [lead, lead, isAbsolute_join_name p h, hHead]

theorem components_join_name (p : Path) (h : IsName name) :
    (p.join ⟨name⟩).components = p.components ++ [.name name] := by
  rw [components_eq, components_eq, lead_join_name p h, steps_join p h.isAbsolute_eq, h.steps_eq, List.append_assoc]

theorem components_joinNames (p : Path) (h : ∀ name ∈ names, IsName name) :
    (p.joinNames names).components = p.components ++ names.map .name := by
  induction names generalizing p with
  | nil => exact (List.append_nil _).symm
  | cons name rest ih =>
    have hRest := ih (p.join ⟨name⟩) fun n hn => h n (List.mem_cons_of_mem _ hn)
    rw [components_join_name p (h name List.mem_cons_self), List.append_assoc] at hRest
    exact hRest

theorem joinNames_concat (p : Path) (names : List String) (name : String) :
    p.joinNames (names ++ [name]) = (p.joinNames names).join ⟨name⟩ := List.foldl_append

/-- Names that are joined to a path can be read off it again. -/
theorem joinNames_inj {names' : List String} (h : ∀ name ∈ names, IsName name) (h' : ∀ name ∈ names', IsName name)
    (hSame : p.joinNames names = p.joinNames names') : names = names' := by
  have hComponents := congrArg components hSame
  rw [components_joinNames p h, components_joinNames p h', List.append_cancel_left_eq] at hComponents
  exact (List.map_inj_right fun _ _ hName => Component.name.inj hName).mp hComponents

end Path

end ClientRegistry

import Mathlib.Data.List.DropRight
import ClientRegistry.FileTree.Lookup
import ClientRegistry.Proofs.Path.Components

/-!
# Where segments lead

What following segments finds is said without the function that follows them: segment by segment,
a trivial one stays where it is, `..` goes up, a name goes down to its entry, and a link goes on
with its target and one link less. Walks are put together from walks, and what is found in a tree
is found in every tree in which the same things stand, and perhaps more.
-/

set_option autoImplicit false

namespace ClientRegistry

theorem bind_eq_ok_iff {ε α β : Type} {x : Except ε α} {f : α → Except ε β} {b : β} :
    x >>= f = .ok b ↔ ∃ a, x = .ok a ∧ f a = .ok b := by
  cases x with
  | error e => exact iff_of_false nofun (by rintro ⟨a, ⟨⟩, -⟩)
  | ok a => exact ⟨fun h => ⟨a, rfl, h⟩, by rintro ⟨_, ⟨⟩, h⟩; exact h⟩

namespace FileTree

variable {s t : FileTree} {dir loc parent : Location} {p : Path} {segments : List String}

theorem requireDirectory_eq_ok_iff : t.requireDirectory loc = .ok () ↔ t.isDirectory loc = true := by
  unfold requireDirectory isDirectory
  cases t.node? loc with
  | none => simp
  | some node => cases node <;> simp [Node.isDirectory]

/-- Segments lead from a place to another one, through the links that the second number is less than
the first. -/
inductive Leads (t : FileTree) : Nat → Location → List String → Location → Nat → Prop
  | here {links : Nat} {loc : Location} : Leads t links loc [] loc links
  | stay {links left : Nat} {loc found : Location} {segment : String} {rest : List String}
    (hDir : t.isDirectory loc = true) (hTrivial : Path.isTrivial segment = true)
    (hRest : Leads t links loc rest found left) : Leads t links loc (segment :: rest) found left
  | up {links left : Nat} {loc found : Location} {rest : List String} (hDir : t.isDirectory loc = true)
    (hRest : Leads t links loc.dropLast rest found left) : Leads t links loc (".." :: rest) found left
  | down {links left : Nat} {loc found : Location} {segment : String} {rest : List String} {node : Node}
    (hDir : t.isDirectory loc = true) (hStep : Path.stepOf? segment = some (.name segment))
    (hName : requireName segment = .ok ()) (hNode : t.node? (loc ++ [segment]) = some node)
    (hLink : ∀ target, node ≠ .link target) (hRest : Leads t links (loc ++ [segment]) rest found left) :
    Leads t links loc (segment :: rest) found left
  | link {links left : Nat} {loc found : Location} {segment : String} {rest : List String} {target : String}
    (hDir : t.isDirectory loc = true) (hStep : Path.stepOf? segment = some (.name segment))
    (hName : requireName segment = .ok ()) (hNode : t.node? (loc ++ [segment]) = some (.link target))
    (hRest : Leads t links (linkStart loc target).1 ((linkStart loc target).2 ++ rest) found left) :
    Leads t (links + 1) loc (segment :: rest) found left

theorem stepOf?_eq_name_iff {segment : String} :
    Path.stepOf? segment = some (.name segment) ↔ Path.isTrivial segment = false ∧ segment ≠ ".." := by
  unfold Path.stepOf?
  split
  · simp_all
  · split <;> simp_all

/-- What a step with a name finds. -/
theorem steps_name {links : Nat} {follow : Location → List String → Except FileFailure (Location × Nat)}
    {segment : String} {rest : List String} (hDir : t.isDirectory loc = true)
    (hStep : Path.stepOf? segment = some (.name segment)) (hName : requireName segment = .ok ()) :
    t.steps links follow loc (segment :: rest) =
      match t.node? (loc ++ [segment]) with
      | none => .error .notFound
      | some (.link target) => follow (linkStart loc target).1 ((linkStart loc target).2 ++ rest)
      | some _ => t.steps links follow (loc ++ [segment]) rest := by
  obtain ⟨hTrivial, hParent⟩ := stepOf?_eq_name_iff.mp hStep
  rw [steps, requireDirectory_eq_ok_iff.mpr hDir]
  simp only [hTrivial, hName, beq_eq_false_iff_ne.mpr hParent]
  rfl

theorem leads_of_steps {links : Nat} {follow : Location → List String → Except FileFailure (Location × Nat)}
    (hFollow : ∀ base rest found left, follow base rest = .ok (found, left) →
      ∃ fewer, links = fewer + 1 ∧ t.Leads fewer base rest found left) {found : Location} {left : Nat}
    (h : t.steps links follow loc segments = .ok (found, left)) : t.Leads links loc segments found left := by
  induction segments generalizing loc with
  | nil =>
    cases h
    exact .here
  | cons segment rest ih =>
    obtain ⟨⟨⟩, hDir, hNext⟩ := bind_eq_ok_iff.mp h
    have hDir := requireDirectory_eq_ok_iff.mp hDir
    by_cases hTrivial : Path.isTrivial segment = true
    · rw [if_pos hTrivial] at hNext
      exact .stay hDir hTrivial (ih hNext)
    rw [if_neg hTrivial] at hNext
    by_cases hParent : segment = ".."
    · subst hParent
      exact .up hDir (ih hNext)
    rw [if_neg (by simpa using hParent)] at hNext
    obtain ⟨⟨⟩, hName, -⟩ := bind_eq_ok_iff.mp hNext
    have hStep := stepOf?_eq_name_iff.mpr ⟨by simpa using hTrivial, hParent⟩
    rw [steps_name hDir hStep hName] at h
    split at h
    · cases h
    · rename_i target hNode
      obtain ⟨fewer, rfl, hRest⟩ := hFollow _ _ _ _ h
      exact .link hDir hStep hName hNode hRest
    · rename_i node hLink hNode
      exact .down hDir hStep hName hNode hLink (ih h)

theorem leads_of_walk {links left : Nat} {found : Location}
    (h : t.walk links loc segments = .ok (found, left)) : t.Leads links loc segments found left := by
  induction links generalizing loc segments found left with
  | zero => exact leads_of_steps (fun _ _ _ _ hFollow => by cases hFollow) h
  | succ links ih => exact leads_of_steps (fun _ _ _ _ hFollow => ⟨links, rfl, ih hFollow⟩) h

theorem exists_walk_eq_steps (t : FileTree) (links : Nat) :
    ∃ follow, ∀ loc segments, t.walk links loc segments = t.steps links follow loc segments := by
  cases links with
  | zero => exact ⟨_, fun _ _ => rfl⟩
  | succ links => exact ⟨_, fun _ _ => rfl⟩

/-! ### One segment -/

section

variable {links : Nat} {segment target : String} {rest : List String} {node : Node} {cause : FileFailure}

theorem walk_of_requireDirectory_error (h : t.requireDirectory loc = .error cause) :
    t.walk links loc (segment :: rest) = .error cause := by
  obtain ⟨follow, hWalk⟩ := t.exists_walk_eq_steps links
  rw [hWalk, steps, h]
  rfl

theorem walk_stay (hDir : t.isDirectory loc = true) (hTrivial : Path.isTrivial segment = true) :
    t.walk links loc (segment :: rest) = t.walk links loc rest := by
  obtain ⟨follow, hWalk⟩ := t.exists_walk_eq_steps links
  rw [hWalk, hWalk, steps, requireDirectory_eq_ok_iff.mpr hDir]
  simp only [hTrivial]
  rfl

theorem walk_up (hDir : t.isDirectory loc = true) :
    t.walk links loc (".." :: rest) = t.walk links loc.dropLast rest := by
  obtain ⟨follow, hWalk⟩ := t.exists_walk_eq_steps links
  rw [hWalk, hWalk, steps, requireDirectory_eq_ok_iff.mpr hDir]
  rfl

theorem walk_missing (hDir : t.isDirectory loc = true) (hStep : Path.stepOf? segment = some (.name segment))
    (hName : requireName segment = .ok ()) (hNode : t.node? (loc ++ [segment]) = none) :
    t.walk links loc (segment :: rest) = .error .notFound := by
  obtain ⟨follow, hWalk⟩ := t.exists_walk_eq_steps links
  rw [hWalk, steps_name hDir hStep hName, hNode]

theorem walk_down (hDir : t.isDirectory loc = true) (hStep : Path.stepOf? segment = some (.name segment))
    (hName : requireName segment = .ok ()) (hNode : t.node? (loc ++ [segment]) = some node)
    (hLink : ∀ target, node ≠ .link target) :
    t.walk links loc (segment :: rest) = t.walk links (loc ++ [segment]) rest := by
  obtain ⟨follow, hWalk⟩ := t.exists_walk_eq_steps links
  rw [hWalk, hWalk, steps_name hDir hStep hName, hNode]
  cases node with
  | link target => exact absurd rfl (hLink target)
  | _ => rfl

theorem walk_link (hDir : t.isDirectory loc = true) (hStep : Path.stepOf? segment = some (.name segment))
    (hName : requireName segment = .ok ()) (hNode : t.node? (loc ++ [segment]) = some (.link target)) :
    t.walk (links + 1) loc (segment :: rest) =
      t.walk links (linkStart loc target).1 ((linkStart loc target).2 ++ rest) := by
  rw [walk, steps_name hDir hStep hName, hNode]

end

/-- A walk goes on from where the first segments lead. -/
theorem walk_append {links left : Nat} {found : Location} (h : t.Leads links loc segments found left)
    (rest : List String) : t.walk links loc (segments ++ rest) = t.walk left found rest := by
  induction h with
  | here => rfl
  | stay hDir hTrivial _ ih => exact (walk_stay hDir hTrivial).trans ih
  | up hDir _ ih => exact (walk_up hDir).trans ih
  | down hDir hStep hName hNode hLink _ ih => exact (walk_down hDir hStep hName hNode hLink).trans ih
  | link hDir hStep hName hNode _ ih =>
    rw [List.append_assoc] at ih
    exact (walk_link hDir hStep hName hNode).trans ih

theorem walk_of_leads {links left : Nat} {found : Location} (h : t.Leads links loc segments found left) :
    t.walk links loc segments = .ok (found, left) := by
  obtain ⟨follow, hWalk⟩ := t.exists_walk_eq_steps left
  rw [← List.append_nil segments, walk_append h, hWalk]
  rfl

theorem walk_eq_ok_iff {links left : Nat} {found : Location} :
    t.walk links loc segments = .ok (found, left) ↔ t.Leads links loc segments found left :=
  ⟨leads_of_walk, walk_of_leads⟩

/-! ### Walks put together -/

theorem Leads.append {links middle left : Nat} {halfway found : Location} {more : List String}
    (h : t.Leads links loc segments halfway middle) (hMore : t.Leads middle halfway more found left) :
    t.Leads links loc (segments ++ more) found left := by
  induction h with
  | here => exact hMore
  | stay hDir hTrivial _ ih => exact .stay hDir hTrivial (ih hMore)
  | up hDir _ ih => exact .up hDir (ih hMore)
  | down hDir hStep hName hNode hLink _ ih => exact .down hDir hStep hName hNode hLink (ih hMore)
  | link hDir hStep hName hNode _ ih =>
    have hRest := ih hMore
    rw [List.append_assoc] at hRest
    exact .link hDir hStep hName hNode hRest

theorem Leads.unique {links left left' : Nat} {found found' : Location}
    (h : t.Leads links loc segments found left) (h' : t.Leads links loc segments found' left') :
    found = found' ∧ left = left' := by
  have hBoth := (walk_of_leads h).symm.trans (walk_of_leads h')
  cases hBoth
  exact ⟨rfl, rfl⟩

theorem isName_of_mem_linkStart {target : String} (hLoc : ∀ name ∈ loc, IsName name) :
    ∀ name ∈ (linkStart loc target).1, IsName name := by
  unfold linkStart
  dsimp only
  split
  · exact fun name hName => absurd hName List.not_mem_nil
  · exact hLoc

/-- Segments between slashes lead to names that can stand in a path. -/
theorem Leads.isName {links left : Nat} {found : Location} (h : t.Leads links loc segments found left)
    (hLoc : ∀ name ∈ loc, IsName name) (hSlash : ∀ segment ∈ segments, '/' ∉ segment.toList) :
    ∀ name ∈ found, IsName name := by
  induction h with
  | here => exact hLoc
  | stay _ _ _ ih => exact ih hLoc fun s hs => hSlash s (List.mem_cons_of_mem _ hs)
  | up _ _ ih =>
    apply ih
    · exact fun name hName => hLoc name (List.dropLast_subset _ hName)
    · exact fun s hs => hSlash s (List.mem_cons_of_mem _ hs)
  | @down _ _ _ _ segment _ _ _ hStep _ _ _ _ ih =>
    apply ih
    · intro name hName
      rcases List.mem_append.mp hName with hOld | hNew
      · exact hLoc name hOld
      · obtain rfl := List.mem_singleton.mp hNew
        obtain hParent | ⟨-, hEmpty, hCurrent, hNotParent⟩ := Path.stepOf?_eq_some hStep
        · cases hParent
        · exact ⟨hEmpty, hCurrent, hNotParent, hSlash name List.mem_cons_self⟩
    · exact fun s hs => hSlash s (List.mem_cons_of_mem _ hs)
  | link _ _ _ _ _ ih =>
    apply ih
    · exact isName_of_mem_linkStart hLoc
    · intro s hs
      rcases List.mem_append.mp hs with hTarget | hRest
      · exact Path.slash_not_mem_of_mem_segments hTarget
      · exact hSlash s (List.mem_cons_of_mem _ hRest)

/-! ### Trees that hold another one -/

def Within (s t : FileTree) : Prop := ∀ loc node, s.node? loc = some node → t.node? loc = some node

theorem Within.refl (t : FileTree) : t.Within t := fun _ _ hNode => hNode

theorem Within.trans {u : FileTree} (h : s.Within t) (h' : t.Within u) : s.Within u :=
  fun loc node hNode => h' loc node (h loc node hNode)

theorem isDirectory_iff : t.isDirectory loc = true ↔ ∃ node, t.node? loc = some node ∧ node.isDirectory = true := by
  rw [isDirectory, Option.any_eq_true]

theorem node?_ne_none_of_isDirectory (h : t.isDirectory loc = true) : t.node? loc ≠ none := by
  obtain ⟨node, hNode, -⟩ := isDirectory_iff.mp h
  exact hNode ▸ Option.some_ne_none node

theorem node?_ne_link_of_isDirectory (h : t.isDirectory loc = true) (target : String) :
    t.node? loc ≠ some (.link target) := by
  intro hLink
  rw [isDirectory, hLink] at h
  cases h

theorem Within.isDirectory (h : s.Within t) (hDir : s.isDirectory loc = true) : t.isDirectory loc = true := by
  obtain ⟨node, hNode, hIsDir⟩ := isDirectory_iff.mp hDir
  exact isDirectory_iff.mpr ⟨node, h loc node hNode, hIsDir⟩

theorem Within.leads (h : s.Within t) {links left : Nat} {found : Location}
    (hLeads : s.Leads links loc segments found left) : t.Leads links loc segments found left := by
  induction hLeads with
  | here => exact .here
  | stay hDir hTrivial _ ih => exact .stay (h.isDirectory hDir) hTrivial ih
  | up hDir _ ih => exact .up (h.isDirectory hDir) ih
  | down hDir hStep hName hNode hLink _ ih => exact .down (h.isDirectory hDir) hStep hName (h _ _ hNode) hLink ih
  | link hDir hStep hName hNode _ ih => exact .link (h.isDirectory hDir) hStep hName (h _ _ hNode) ih

/-! ### What a path names -/

theorem start_eq_ok {base : Location} (h : start dir p = .ok (base, segments)) :
    p.text ≠ "" ∧ base = (linkStart dir p.text).1 ∧ segments = p.segments := by
  unfold start at h
  split at h
  · cases h
  split at h
  · cases h
  rename_i hEmpty
  split at h
  · cases h
  · cases h
    exact ⟨by simpa using hEmpty, rfl, rfl⟩

theorem start_of_isPrefix {q : Path} (h : start dir p = .ok (linkStart dir p.text))
    (hPrefix : q.text.toList <+: p.text.toList) (hText : q.text ≠ "") :
    start dir q = .ok (linkStart dir q.text) := by
  obtain ⟨more, hMore⟩ := hPrefix
  have hWhole : p.text = q.text ++ String.ofList more := by
    rw [← String.ofList_toList (s := p.text), ← hMore, String.ofList_append, String.ofList_toList]
  unfold start at h ⊢
  split at h
  · cases h
  rename_i hNul
  split at h
  · cases h
  split at h
  · cases h
  rename_i hLength
  rw [← hMore] at hNul
  rw [hWhole, String.utf8ByteSize_append] at hLength
  rw [if_neg (by simp_all), if_neg (by simpa using hText), if_neg (by omega)]

theorem linkStart_fst_eq {q : Path} (dir : Location) (h : q.isAbsolute = true ↔ p.isAbsolute = true) :
    (linkStart dir q.text).1 = (linkStart dir p.text).1 := by
  rw [linkStart, linkStart]
  simp only [Bool.eq_iff_iff.mpr h]

theorem resolve_eq_ok_iff : t.resolve dir p = .ok loc ↔ start dir p = .ok (linkStart dir p.text) ∧
    ∃ left, t.Leads maxLinks (linkStart dir p.text).1 p.segments loc left := by
  unfold resolve
  rw [bind_eq_ok_iff]
  constructor
  · rintro ⟨⟨base, segments⟩, hStart, hRest⟩
    obtain ⟨⟨found, left⟩, hWalk, ⟨⟩⟩ := bind_eq_ok_iff.mp hRest
    obtain ⟨-, rfl, rfl⟩ := start_eq_ok hStart
    exact ⟨hStart, left, walk_eq_ok_iff.mp hWalk⟩
  · rintro ⟨hStart, left, hLeads⟩
    exact ⟨_, hStart, bind_eq_ok_iff.mpr ⟨_, walk_eq_ok_iff.mpr hLeads, rfl⟩⟩

theorem isName_of_resolve (h : t.resolve dir p = .ok loc) (hDir : ∀ name ∈ dir, IsName name) :
    ∀ name ∈ loc, IsName name := by
  obtain ⟨-, left, hLeads⟩ := resolve_eq_ok_iff.mp h
  exact hLeads.isName (isName_of_mem_linkStart hDir) fun s hs => Path.slash_not_mem_of_mem_segments hs

/-- An absolute path leads where it leads from the root. -/
theorem resolve_of_absolute (h : p.isAbsolute = true) : t.resolve dir p = t.resolve [] p := by
  have hBase : linkStart dir p.text = linkStart [] p.text := by
    rw [linkStart, linkStart, if_pos h, if_pos h]
  unfold resolve start
  rw [hBase]

theorem Within.resolve (h : s.Within t) (hResolve : s.resolve dir p = .ok loc) : t.resolve dir p = .ok loc := by
  obtain ⟨hStart, left, hLeads⟩ := resolve_eq_ok_iff.mp hResolve
  exact resolve_eq_ok_iff.mpr ⟨hStart, left, h.leads hLeads⟩

theorem approach_eq_ok_iff {links left : Nat} {base : Location} {ending : Ending} :
    t.approach links base segments = .ok (loc, ending, left) ↔
      t.Leads links base (Ending.ofSegments segments).1 loc left ∧ t.isDirectory loc = true ∧
        ending = (Ending.ofSegments segments).2 := by
  unfold approach
  rw [bind_eq_ok_iff]
  constructor
  · rintro ⟨⟨found, more⟩, hWalk, hRest⟩
    obtain ⟨⟨⟩, hDir, ⟨⟩⟩ := bind_eq_ok_iff.mp hRest
    exact ⟨walk_eq_ok_iff.mp hWalk, requireDirectory_eq_ok_iff.mp hDir, rfl⟩
  · rintro ⟨hLeads, hDir, rfl⟩
    exact ⟨_, walk_eq_ok_iff.mpr hLeads, bind_eq_ok_iff.mpr ⟨(), requireDirectory_eq_ok_iff.mpr hDir, rfl⟩⟩

theorem entryOf_eq_ok_iff {ending : Ending} : t.entryOf dir p = .ok (loc, ending) ↔
    start dir p = .ok (linkStart dir p.text) ∧
      (∃ left, t.Leads maxLinks (linkStart dir p.text).1 (Ending.ofSegments p.segments).1 loc left) ∧
      t.isDirectory loc = true ∧ ending = (Ending.ofSegments p.segments).2 := by
  unfold entryOf
  rw [bind_eq_ok_iff]
  constructor
  · rintro ⟨⟨base, segments⟩, hStart, hRest⟩
    obtain ⟨⟨found, _, left⟩, hApproach, ⟨⟩⟩ := bind_eq_ok_iff.mp hRest
    obtain ⟨-, rfl, rfl⟩ := start_eq_ok hStart
    obtain ⟨hLeads, hDir, hEnding⟩ := approach_eq_ok_iff.mp hApproach
    exact ⟨hStart, ⟨left, hLeads⟩, hDir, hEnding⟩
  · rintro ⟨hStart, ⟨left, hLeads⟩, hDir, hEnding⟩
    exact ⟨_, hStart, bind_eq_ok_iff.mpr ⟨_, approach_eq_ok_iff.mpr ⟨hLeads, hDir, hEnding⟩, rfl⟩⟩

/-! ### Endings -/

theorem ofSegments_concat {name : String} (h : IsName name) (init : List String) :
    Ending.ofSegments (init ++ [name]) = (init, .name name false) := by
  have hCore : ((init ++ [name]).reverse.dropWhile (· == "")).reverse = init ++ [name] := by
    simp [h.not_empty]
  rw [Ending.ofSegments]
  simp only [hCore, List.getLast?_concat, List.dropLast_concat, Nat.lt_irrefl, decide_false]
  split
  · contradiction
  · rename_i hLast
    exact absurd (Option.some.inj hLast) h.not_current
  · rename_i hLast
    exact absurd (Option.some.inj hLast) h.not_parent
  · rename_i hLast
    rw [Option.some.inj hLast]

/-- A path that ends in a name has it as its last segment, unless slashes follow. -/
theorem name_of_ofSegments {name : String} {slash : Bool} (hSlash : ∀ segment ∈ segments, '/' ∉ segment.toList)
    (h : (Ending.ofSegments segments).2 = .name name slash) :
    IsName name ∧ (slash = false → segments = (Ending.ofSegments segments).1 ++ [name]) := by
  have hPrefix := List.rdropWhile_prefix (· == "") segments
  have hLast := List.rdropWhile_last_not (· == "") segments
  unfold Ending.ofSegments at h ⊢
  unfold List.rdropWhile at hPrefix hLast
  dsimp only at h ⊢
  generalize (segments.reverse.dropWhile (· == "")).reverse = core at h hPrefix hLast ⊢
  split at h
  · cases h
  · cases h
  · cases h
  · rename_i n hCurrent hParent hEnd
    cases h
    obtain ⟨init, rfl⟩ := List.getLast?_eq_some_iff.mp hEnd
    have hEmpty : name ≠ "" := by simpa using hLast (by simp)
    refine ⟨⟨hEmpty, hCurrent, hParent, hSlash name (hPrefix.subset (by simp))⟩, fun hNoSlash => ?_⟩
    have hLength : segments.length ≤ (init ++ [name]).length := by simpa using hNoSlash
    rw [List.dropLast_concat, hPrefix.eq_of_length_le hLength]

theorem isName_of_entryOf {name : String} {slash : Bool} (h : t.entryOf dir p = .ok (parent, .name name slash)) :
    IsName name :=
  (name_of_ofSegments (fun _ => Path.slash_not_mem_of_mem_segments) (entryOf_eq_ok_iff.mp h).2.2.2.symm).1

/-- The place at which a path names an entry is the place that it leads to, if no link is there. -/
theorem resolve_of_entryOf {name : String} {node : Node} (h : t.entryOf dir p = .ok (parent, .name name false))
    (hName : requireName name = .ok ()) (hNode : t.node? (parent ++ [name]) = some node)
    (hLink : ∀ target, node ≠ .link target) : t.resolve dir p = .ok (parent ++ [name]) := by
  obtain ⟨hStart, ⟨left, hLeads⟩, hDir, hEnding⟩ := entryOf_eq_ok_iff.mp h
  obtain ⟨hIsName, hSegments⟩ := name_of_ofSegments (fun _ => Path.slash_not_mem_of_mem_segments) hEnding.symm
  refine resolve_eq_ok_iff.mpr ⟨hStart, left, ?_⟩
  rw [hSegments rfl]
  exact hLeads.append (.down hDir hIsName.stepOf?_eq hName hNode hLink .here)

theorem resolve_of_resolveEntry (h : t.resolveEntry dir p = .ok loc)
    (hLink : ∀ target, t.node? loc ≠ some (.link target)) : t.resolve dir p = .ok loc := by
  obtain ⟨⟨parent, ending⟩, hEntry, hRest⟩ := bind_eq_ok_iff.mp h
  dsimp only at hRest
  split at hRest
  · rename_i name
    obtain ⟨⟨⟩, hName, hFound⟩ := bind_eq_ok_iff.mp hRest
    split at hFound
    · rename_i hSome
      cases hFound
      obtain ⟨node, hNode⟩ := Option.isSome_iff_exists.mp hSome
      refine resolve_of_entryOf hEntry hName hNode ?_
      rintro target rfl
      exact hLink target hNode
    · cases hFound
  · exact hRest

end FileTree

end ClientRegistry

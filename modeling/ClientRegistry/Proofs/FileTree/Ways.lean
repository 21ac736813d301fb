import ClientRegistry.Proofs.FileTree.Walk

/-!
# Ways through a file tree

Only directories and links are walked through. What leads to a directory in one tree leads there in
every tree with the same directories and links, whatever becomes of the files. A walk can be cut
after any of its segments, trivial segments can be left out of it, and where no link is met it goes
down the names that it follows.
-/

set_option autoImplicit false

namespace ClientRegistry

def Node.isWay : Node → Bool
  | directory | systemDirectory | link _ => true
  | file _ | sink => false

theorem Node.isWay_of_isDirectory {node : Node} (h : node.isDirectory = true) : node.isWay = true := by
  cases node with
  | directory | systemDirectory => rfl
  | file content => cases h
  | link target => cases h
  | sink => cases h

namespace FileTree

variable {s t : FileTree} {dir loc found parent : Location} {p : Path} {segments names : List String}
  {links left : Nat}

/-! ### Trees with the same ways -/

def KeepsWays (s t : FileTree) : Prop :=
  ∀ loc node, s.node? loc = some node → node.isWay = true → t.node? loc = some node

theorem Within.keepsWays (h : s.Within t) : s.KeepsWays t := fun loc node hNode _ => h loc node hNode

theorem KeepsWays.isDirectory (h : s.KeepsWays t) (hDir : s.isDirectory loc = true) : t.isDirectory loc = true := by
  obtain ⟨node, hNode, hIsDir⟩ := isDirectory_iff.mp hDir
  exact isDirectory_iff.mpr ⟨node, h loc node hNode (Node.isWay_of_isDirectory hIsDir), hIsDir⟩

/-- What is no way can be replaced. -/
theorem keepsWays_put (h : ∀ node, t.node? loc = some node → node.isWay = false) (node : Node) :
    t.KeepsWays (t.put loc node) := by
  intro other found hFound hWay
  by_cases hRoot : other = []
  · simpa [node?, hRoot] using hFound
  rw [node?_put t loc other node hRoot, if_neg]
  · exact hFound
  · rintro rfl
    rw [h found hFound] at hWay
    cases hWay

theorem Leads.isDirectory_start (h : t.Leads links loc segments found left) (hFound : t.isDirectory found = true) :
    t.isDirectory loc = true := by
  cases h with
  | here => exact hFound
  | stay hDir _ _ => exact hDir
  | up hDir _ => exact hDir
  | down hDir _ _ _ _ _ => exact hDir
  | link hDir _ _ _ _ => exact hDir

theorem KeepsWays.leads (h : s.KeepsWays t) (hLeads : s.Leads links loc segments found left)
    (hFound : s.isDirectory found = true) : t.Leads links loc segments found left := by
  induction hLeads with
  | here => exact .here
  | stay hDir hTrivial _ ih => exact .stay (h.isDirectory hDir) hTrivial (ih hFound)
  | up hDir _ ih => exact .up (h.isDirectory hDir) (ih hFound)
  | @down _ _ _ _ _ _ node hDir hStep hName hNode hLink hRest ih =>
    obtain ⟨node', hNode', hIsDir⟩ := isDirectory_iff.mp (hRest.isDirectory_start hFound)
    obtain rfl := Option.some.inj (hNode.symm.trans hNode')
    have hKept := h _ _ hNode (Node.isWay_of_isDirectory hIsDir)
    exact .down (h.isDirectory hDir) hStep hName hKept hLink (ih hFound)
  | link hDir hStep hName hNode _ ih => exact .link (h.isDirectory hDir) hStep hName (h _ _ hNode rfl) (ih hFound)

theorem KeepsWays.entryOf (h : s.KeepsWays t) {entry : Location × Ending} (hEntry : s.entryOf dir p = .ok entry) :
    t.entryOf dir p = .ok entry := by
  obtain ⟨hStart, ⟨left, hLeads⟩, hDir, hEnding⟩ := entryOf_eq_ok_iff.mp hEntry
  exact entryOf_eq_ok_iff.mpr ⟨hStart, ⟨left, h.leads hLeads hDir⟩, h.isDirectory hDir, hEnding⟩

theorem KeepsWays.resolve (h : s.KeepsWays t) (hResolve : s.resolve dir p = .ok loc)
    (hDir : s.isDirectory loc = true) : t.resolve dir p = .ok loc := by
  obtain ⟨hStart, left, hLeads⟩ := resolve_eq_ok_iff.mp hResolve
  exact resolve_eq_ok_iff.mpr ⟨hStart, left, h.leads hLeads hDir⟩

/-! ### Walks cut and shortened -/

theorem Leads.split (before after : List String) (h : t.Leads links loc (before ++ after) found left) :
    ∃ halfway middle, t.Leads links loc before halfway middle ∧ t.Leads middle halfway after found left := by
  generalize hSegments : before ++ after = segments at h
  induction h generalizing before with
  | here =>
    obtain ⟨rfl, rfl⟩ := List.append_eq_nil_iff.mp hSegments
    exact ⟨_, _, .here, .here⟩
  | stay hDir hTrivial hRest ih =>
    cases before with
    | nil =>
      obtain rfl : after = _ := hSegments
      exact ⟨_, _, .here, .stay hDir hTrivial hRest⟩
    | cons segment before =>
      obtain ⟨rfl, hTail⟩ := List.cons.inj hSegments
      obtain ⟨halfway, middle, hBefore, hAfter⟩ := ih _ hTail
      exact ⟨halfway, middle, .stay hDir hTrivial hBefore, hAfter⟩
  | up hDir hRest ih =>
    cases before with
    | nil =>
      obtain rfl : after = _ := hSegments
      exact ⟨_, _, .here, .up hDir hRest⟩
    | cons segment before =>
      obtain ⟨rfl, hTail⟩ := List.cons.inj hSegments
      obtain ⟨halfway, middle, hBefore, hAfter⟩ := ih _ hTail
      exact ⟨halfway, middle, .up hDir hBefore, hAfter⟩
  | down hDir hStep hName hNode hLink hRest ih =>
    cases before with
    | nil =>
      obtain rfl : after = _ := hSegments
      exact ⟨_, _, .here, .down hDir hStep hName hNode hLink hRest⟩
    | cons segment before =>
      obtain ⟨rfl, hTail⟩ := List.cons.inj hSegments
      obtain ⟨halfway, middle, hBefore, hAfter⟩ := ih _ hTail
      exact ⟨halfway, middle, .down hDir hStep hName hNode hLink hBefore, hAfter⟩
  | link hDir hStep hName hNode hRest ih =>
    cases before with
    | nil =>
      obtain rfl : after = _ := hSegments
      exact ⟨_, _, .here, .link hDir hStep hName hNode hRest⟩
    | cons segment before =>
      obtain ⟨rfl, hTail⟩ := List.cons.inj hSegments
      obtain ⟨halfway, middle, hBefore, hAfter⟩ := ih _ ((List.append_assoc _ _ _).trans (congrArg _ hTail))
      exact ⟨halfway, middle, .link hDir hStep hName hNode hBefore, hAfter⟩

theorem Leads.more (h : t.Leads links loc segments found left) (spare : Nat) :
    t.Leads (links + spare) loc segments found (left + spare) := by
  induction h with
  | here => exact .here
  | stay hDir hTrivial _ ih => exact .stay hDir hTrivial ih
  | up hDir _ ih => exact .up hDir ih
  | down hDir hStep hName hNode hLink _ ih => exact .down hDir hStep hName hNode hLink ih
  | link hDir hStep hName hNode _ ih =>
    rw [Nat.add_right_comm]
    exact .link hDir hStep hName hNode ih

theorem Leads.found_unique {links' left' : Nat} {found' : Location} (h : t.Leads links loc segments found left)
    (h' : t.Leads links' loc segments found' left') : found = found' := by
  have hMore := h'.more links
  rw [Nat.add_comm] at hMore
  exact ((h.more links').unique hMore).1

def moves (segments : List String) : List String := segments.filter fun segment => !Path.isTrivial segment

theorem moves_append (before after : List String) : moves (before ++ after) = moves before ++ moves after :=
  List.filter_append before after

theorem moves_cons_trivial {segment : String} (h : Path.isTrivial segment = true) (rest : List String) :
    moves (segment :: rest) = moves rest := List.filter_cons_of_neg (by simp [h])

theorem moves_cons_step {segment : String} (h : Path.isTrivial segment = false) (rest : List String) :
    moves (segment :: rest) = segment :: moves rest := List.filter_cons_of_pos (by simp [h])

theorem Leads.isDirectory_of_cons {segment : String} {rest : List String}
    (h : t.Leads links loc (segment :: rest) found left) : t.isDirectory loc = true := by
  cases h with
  | stay hDir _ _ => exact hDir
  | up hDir _ => exact hDir
  | down hDir _ _ _ _ _ => exact hDir
  | link hDir _ _ _ _ => exact hDir

/-- A first segment that is a step leads the same way whatever comes after it. -/
theorem Leads.cons_congr {segment : String} {rest rest' : List String}
    (h : t.Leads links loc (segment :: rest) found left)
    (hRest : ∀ halfway middle, t.Leads middle halfway rest found left → t.Leads middle halfway rest' found left) :
    t.Leads links loc (segment :: rest') found left := by
  obtain ⟨halfway, middle, hFirst, hSecond⟩ := Leads.split [segment] rest h
  exact hFirst.append (hRest halfway middle hSecond)

theorem Leads.moves (h : t.Leads links loc segments found left) : t.Leads links loc (moves segments) found left := by
  induction segments generalizing links loc with
  | nil => exact h
  | cons segment rest ih =>
    cases hTrivial : Path.isTrivial segment with
    | true =>
      obtain ⟨halfway, middle, hFirst, hRest⟩ := Leads.split [segment] rest h
      have hStay : t.Leads links loc [segment] loc links := .stay h.isDirectory_of_cons hTrivial .here
      obtain ⟨rfl, rfl⟩ := hFirst.unique hStay
      rw [moves_cons_trivial hTrivial]
      exact ih hRest
    | false =>
      rw [moves_cons_step hTrivial]
      exact h.cons_congr fun _ _ => ih

theorem leads_moves_iff (hFound : t.isDirectory found = true) :
    t.Leads links loc (moves segments) found left ↔ t.Leads links loc segments found left := by
  induction segments generalizing links loc with
  | nil => exact Iff.rfl
  | cons segment rest ih =>
    cases hTrivial : Path.isTrivial segment with
    | true =>
      rw [moves_cons_trivial hTrivial, ih]
      constructor
      · exact fun hRest => .stay (hRest.isDirectory_start hFound) hTrivial hRest
      · intro hAll
        obtain ⟨halfway, middle, hFirst, hRest⟩ := Leads.split [segment] rest hAll
        have hStay : t.Leads links loc [segment] loc links := .stay (hAll.isDirectory_start hFound) hTrivial .here
        obtain ⟨rfl, rfl⟩ := hFirst.unique hStay
        exact hRest
    | false =>
      rw [moves_cons_step hTrivial]
      exact ⟨fun h => h.cons_congr fun _ _ => ih.mp, fun h => h.cons_congr fun _ _ => ih.mpr⟩

/-! ### Down some names -/

/-- Where no link stands on the way, names lead down to where they say, from directory to directory. -/
theorem Leads.along_names (h : t.Leads links loc names found left) (hNames : ∀ name ∈ names, IsName name)
    (hLink : ∀ below, below ≠ [] → below <+: names → ∀ target, t.node? (loc ++ below) ≠ some (.link target)) :
    found = loc ++ names ∧ ∀ above, above <+: names → above ≠ names → t.isDirectory (loc ++ above) = true := by
  induction names generalizing loc links with
  | nil =>
    cases h
    refine ⟨(List.append_nil _).symm, fun above hAbove hOther => ?_⟩
    exact absurd (List.prefix_nil.mp hAbove) hOther
  | cons name rest ih =>
    have hIsName := hNames name List.mem_cons_self
    cases h with
    | stay _ hTrivial _ =>
      rw [(stepOf?_eq_name_iff.mp hIsName.stepOf?_eq).1] at hTrivial
      cases hTrivial
    | up _ _ => exact absurd rfl hIsName.not_parent
    | link _ _ _ hNode _ =>
      exact absurd hNode (hLink [name] (by simp) (List.prefix_append [name] rest) _)
    | down hDir _ _ _ _ hRest =>
      have hBelow := ih hRest (fun n hn => hNames n (List.mem_cons_of_mem _ hn)) fun below hBelow hPrefix target => by
        rw [List.append_assoc]
        exact hLink _ (by simp) (List.cons_prefix_cons.mpr ⟨rfl, hPrefix⟩) target
      rw [List.append_assoc, List.singleton_append] at hBelow
      refine ⟨hBelow.1, fun above hAbove hOther => ?_⟩
      cases above with
      | nil => rwa [List.append_nil]
      | cons first above =>
        obtain ⟨rfl, hPrefix⟩ := List.cons_prefix_cons.mp hAbove
        have hLater := hBelow.2 above hPrefix fun hSame => hOther (by rw [hSame])
        rwa [List.append_assoc, List.singleton_append] at hLater

/-- A name leads to the entry of that name, if that is no link. -/
theorem Leads.of_name {name : String} (h : t.Leads links loc [name] found left) (hName : IsName name)
    (hLink : ∀ target, t.node? (loc ++ [name]) ≠ some (.link target)) :
    requireName name = .ok () ∧ found = loc ++ [name] ∧ t.node? found ≠ none := by
  cases h with
  | stay _ hTrivial _ =>
    rw [(stepOf?_eq_name_iff.mp hName.stepOf?_eq).1] at hTrivial
    cases hTrivial
  | up _ _ => exact absurd rfl hName.not_parent
  | link _ _ _ hNode _ => exact absurd hNode (hLink _)
  | down _ _ hRequire hNode _ hRest =>
    cases hRest
    exact ⟨hRequire, rfl, hNode ▸ Option.some_ne_none _⟩

end FileTree

end ClientRegistry

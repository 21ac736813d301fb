import ClientRegistry.Proofs.FileTree.Reading
import ClientRegistry.Proofs.FileTree.Writing

/-!
# Files written by their rules

A file that must only be made where nothing is yet is skipped just where its path leads to something. A file
that is written is read back, unless it is a device, and beside it only missing directories above it are made; a write that fails
changes nothing that was there, and it fails only where none can be made. So what stands at a path is never
changed by writes that must only make it.
-/

set_option autoImplicit false

namespace ClientRegistry

def Path.above (p : Path) : List Path := p.parent?.elim [] Path.ancestors

namespace FileTree

variable {t made done : FileTree} {dir place other : Location} {p : Path} {rule : Overwrite} {text : String}
  {node : Node}

/-! ### One write -/

theorem makesWay_makeParents (t : FileTree) (dir : Location) (p : Path) :
    MakesWay dir p.above t (t.makeParents dir p).1 := by
  unfold makeParents Path.above
  split
  · rename_i hNone
    rw [hNone]
    exact MakesWay.refl dir [] t
  · rename_i up hUp
    rw [hUp]
    have hWay := t.makesWay_makeDirectories dir up
    split
    all_goals
      rename_i hMade
      rwa [hMade] at hWay

theorem write_of_exists (h : t.pathExists dir p = true) (text : String) :
    t.write dir p .ifMissing text = (t, .ok .skipped) := by
  rw [write, if_pos (by simp [h])]

theorem write_eq_skipped_iff : t.write dir p rule text = (done, .ok .skipped) ↔
    rule = .ifMissing ∧ t.pathExists dir p = true ∧ done = t := by
  constructor
  · intro h
    unfold write at h
    split at h
    · rename_i hSkipped
      obtain ⟨hRule, hExists⟩ := Bool.and_eq_true_iff.mp hSkipped
      cases h
      exact ⟨of_decide_eq_true hRule, hExists, rfl⟩
    · unfold writeWithParents at h
      split at h
      · cases h
      · split at h
        all_goals cases h
  · rintro ⟨rfl, hExists, rfl⟩
    exact write_of_exists hExists text

theorem writeWithParents_of_write (h : t.write dir p rule text = (done, .ok .written)) :
    t.writeWithParents dir p text = (done, .ok .written) := by
  unfold write at h
  split at h
  · cases h
  · exact h

/-- A text has been written to a place, at which was a file or nothing: the path of the file leads there and
reads it back, unless a device stands there, which need not give back what is written to it. All else stands
as it stood, and what is new are directories above the file. -/
structure WrittenTo (dir : Location) (p : Path) (text : String) (t done : FileTree) (place : Location) : Prop where
  found : done.resolve dir p = .ok place
  read : t.node? place ≠ some .sink → done.textAt dir p = .ok text
  file : ∀ node, t.node? place = some node → node.isWay = false
  kept : ∀ other node, other ≠ place → t.node? other = some node → done.node? other = some node
  added : ∀ other node, other ≠ place → done.node? other = some node → t.node? other = some node ∨
    t.node? other = none ∧ node = .directory ∧ ∃ q ∈ p.above, done.resolve dir q = .ok other

theorem MakesWay.node?_sink {paths : List Path} (h : MakesWay dir paths t made)
    (hSink : made.node? place = some .sink) : t.node? place = some .sink := by
  rcases h.added _ _ hSink with hOld | ⟨-, hNew, -⟩
  · exact hOld
  · cases hNew

theorem exists_writtenTo_of_write (h : t.write dir p rule text = (done, .ok .written)) :
    ∃ place, WrittenTo dir p text t done place := by
  obtain ⟨made, hMade, hWritten⟩ := exists_writeContent_of_writeWithParents (writeWithParents_of_write h)
  have hWay := t.makesWay_makeParents dir p
  rw [hMade] at hWay
  obtain ⟨place, hFound, hFillable, rfl⟩ := exists_place_of_writeContent hWritten
  have hKeeps := hFillable.keepsWays text.toUTF8
  refine ⟨place, hFound, fun hOrdinary => ?_, fun node hNode => hFillable.no_way node (hWay.within _ _ hNode),
    fun other node hOther hNode => ?_, fun other node hOther hNode => ?_⟩
  · refine textAt_of_node hFound ?_
    rcases made.fill_cases place text.toUTF8 with ⟨hSink, -⟩ | hPut
    · exact absurd (hWay.node?_sink hSink) hOrdinary
    · rw [hPut]
      exact made.node?_put_self _ hFillable.not_root
  · rw [node?_fill_of_ne made _ hOther]
    exact hWay.within other node hNode
  · rw [node?_fill_of_ne made _ hOther] at hNode
    rcases hWay.added other node hNode with hOld | ⟨hFree, rfl, -, q, hq, hLeads⟩
    · exact .inl hOld
    · exact .inr ⟨hFree, rfl, q, hq, hKeeps.resolve hLeads (isDirectory_iff.mpr ⟨_, hNode, rfl⟩)⟩

/-- A write that fails may have made directories, and has changed nothing else. -/
theorem makesWay_of_write_error {e : WriteError} (h : t.write dir p rule text = (done, .error e)) :
    MakesWay dir p.above t done := by
  unfold write at h
  split at h
  · cases h
  have hWay := t.makesWay_makeParents dir p
  unfold writeWithParents at h
  split at h
  · rename_i hMade
    cases h
    rwa [hMade] at hWay
  · rename_i hMade
    split at h
    · cases h
    · cases h
      rwa [hMade] at hWay

theorem not_takesDirectory_makeParents (t : FileTree) (hStart : start dir p = .ok (linkStart dir p.text)) :
    ∀ q ∈ p.above, ¬(t.makeParents dir p).1.TakesDirectory dir q := by
  unfold makeParents Path.above
  split
  · rename_i hNone
    rw [hNone]
    exact fun q hq => absurd hq List.not_mem_nil
  · rename_i up hUp
    rw [hUp]
    have hExhausted := not_takesDirectory_makeDirectoryChain (t := t) (Path.pairwise_ancestors up) fun q hq hText =>
      start_of_isPrefix hStart (Path.isAbove_of_mem_ancestors hUp hq).text hText
    unfold makeDirectories
    split
    all_goals
      rename_i hMade
      rwa [hMade] at hExhausted

/-- A write has failed: all stands as it stood, the path is that of no file, and this cannot be helped by
making another directory above it. -/
structure NotWritten (dir : Location) (p : Path) (t done : FileTree) : Prop where
  kept : t.Within done
  taken : ∀ place, ¬done.TakesFile dir p place
  made : start dir p = .ok (linkStart dir p.text) → ∀ q ∈ p.above, ¬done.TakesDirectory dir q

theorem notWritten_of_write_error {e : WriteError} (h : t.write dir p rule text = (done, .error e)) :
    NotWritten dir p t done := by
  have hKept := (makesWay_of_write_error h).within
  unfold write at h
  split at h
  · cases h
  have hExhausted (hStart : start dir p = .ok (linkStart dir p.text)) := t.not_takesDirectory_makeParents hStart
  unfold writeWithParents at h
  split at h
  · rename_i hMade
    cases h
    rw [hMade] at hExhausted
    refine ⟨hKept, fun place hTakes => ?_, hExhausted⟩
    unfold makeParents at hMade
    split at hMade
    · cases hMade
    · rename_i up hUp
      split at hMade
      · cases hMade
      · rename_i hChain
        cases hMade
        obtain ⟨q, hq, hText, hDir, -⟩ := blocked_of_makeDirectoryChain hChain
        rw [hTakes.isDirectoryAt_of_isAbove (Path.isAbove_of_mem_ancestors hUp hq) hText] at hDir
        cases hDir
  · rename_i hMade
    split at h
    · cases h
    · rename_i hFails
      cases h
      rw [hMade] at hExhausted
      refine ⟨hKept, fun place hTakes => ?_, hExhausted⟩
      cases hFails.symm.trans (writeContent_eq_ok_iff.mpr ⟨place, hTakes, rfl⟩)

/-! ### Any number of writes -/

def writes (t : FileTree) (dir : Location) (p : Path) (files : List (Overwrite × String)) : FileTree :=
  files.foldl (fun t file => (t.write dir p file.1 file.2).1) t

theorem pathExists_write (h : t.pathExists dir p = true) (rule : Overwrite) (text : String) :
    (t.write dir p rule text).1.pathExists dir p = true := by
  obtain ⟨place, hPlace⟩ := pathExists_iff.mp h
  rcases hWrite : t.write dir p rule text with ⟨done, e | written | skipped⟩
  · exact pathExists_iff.mpr ⟨place, (makesWay_of_write_error hWrite).within.resolve hPlace⟩
  · obtain ⟨place', hWritten⟩ := exists_writtenTo_of_write hWrite
    exact pathExists_iff.mpr ⟨place', hWritten.found⟩
  · obtain ⟨-, -, rfl⟩ := write_eq_skipped_iff.mp hWrite
    exact h

theorem pathExists_writes (h : t.pathExists dir p = true) (files : List (Overwrite × String)) :
    (t.writes dir p files).pathExists dir p = true := by
  induction files generalizing t with
  | nil => exact h
  | cons file rest ih => exact ih (pathExists_write h file.1 file.2)

/-- Writes that must only make a file can be left out where something is. -/
theorem writes_filter (h : t.pathExists dir p = true) (files : List (Overwrite × String)) :
    t.writes dir p files = t.writes dir p (files.filter fun file => file.1 = .always) := by
  induction files generalizing t with
  | nil => rfl
  | cons file rest ih =>
    obtain ⟨rule, text⟩ := file
    cases rule with
    | always => exact ih (pathExists_write h .always text)
    | ifMissing =>
      have hSame : t.writes dir p ((.ifMissing, text) :: rest) = t.writes dir p rest := by
        rw [writes, List.foldl_cons, write_of_exists h]
        rfl
      rw [hSame, ih h]
      rfl

/-- A write is skipped just where it must not happen; one that happens is read back, unless by a device, and
leaves all else; one that fails leaves all there was, and no file can be written there. From the moment that something is at the
path, of any writes those that must only make a file do nothing. -/
theorem write_by_rule (t : FileTree) (dir : Location) (p : Path) (rule : Overwrite) (text : String) :
    (∀ done, t.write dir p rule text = (done, .ok .skipped) ↔
      rule = .ifMissing ∧ t.pathExists dir p = true ∧ done = t) ∧
    (∀ done, t.write dir p rule text = (done, .ok .written) → ∃ place, WrittenTo dir p text t done place) ∧
    (∀ done e, t.write dir p rule text = (done, .error e) → NotWritten dir p t done) ∧
    ∀ before after, (t.writes dir p before).pathExists dir p = true →
      (t.writes dir p (before ++ after)).write dir p .ifMissing text = (t.writes dir p (before ++ after), .ok .skipped) ∧
      t.writes dir p (before ++ after) = t.writes dir p (before ++ after.filter fun file => file.1 = .always) := by
  refine ⟨fun done => write_eq_skipped_iff, fun done => exists_writtenTo_of_write,
    fun done e => notWritten_of_write_error, fun before after hExists => ?_⟩
  have hSplit (files : List (Overwrite × String)) :
      t.writes dir p (before ++ files) = (t.writes dir p before).writes dir p files := List.foldl_append
  rw [hSplit, hSplit]
  exact ⟨write_of_exists (pathExists_writes hExists after) text, writes_filter hExists after⟩

def danglingTree : FileTree := (empty.put ["é"] .directory).put ["é", "new"] (.link "../a.txt")

/-- A file is made where a link leads, together with a directory that the path goes into and out of again. -/
theorem written_through_link :
    (danglingTree.write ["é"] "x/.././new" .ifMissing "text").2 = .ok .written ∧
      ∃ place, WrittenTo ["é"] "x/.././new" "text" danglingTree
        (danglingTree.write ["é"] "x/.././new" .ifMissing "text").1 place := by
  have hWritten : (danglingTree.write ["é"] "x/.././new" .ifMissing "text").2 = .ok .written := by decide +kernel
  exact ⟨hWritten, (write_by_rule danglingTree ["é"] "x/.././new" .ifMissing "text").2.1 _ (Prod.ext rfl hWritten)⟩

def nullTree : FileTree := (empty.put ["dev"] .directory).put ["dev", "null"] .sink

/-- What is written to the null device is not read back. -/
theorem null_forgets : (nullTree.write [] "/dev/null" .always "text").2 = .ok .written ∧
    (nullTree.write [] "/dev/null" .always "text").1.textAt [] "/dev/null" = .ok "" := by
  constructor
  all_goals decide +kernel

end FileTree

end ClientRegistry

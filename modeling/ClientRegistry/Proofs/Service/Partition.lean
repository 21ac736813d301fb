import Mathlib.Data.List.Nodup
import ClientRegistry.Proofs.Text.Case
import ClientRegistry.Service.Extraction

/-!
# Each file is kept or skipped

Extraction judges the files one after the other. A file that fails on the way to its service is
skipped for the first step that fails, whatever stands before it. Of the others, one is kept unless
an earlier file with the same base name has been kept, where base names are compared but for the
case of their first character; then it is a duplicate of that very file.
-/

set_option autoImplicit false

namespace ClientRegistry.Service

abbrev Verdict := Except SkipReason Service

variable (t : FileTree) (dir : Location) (outDir file : Path)

/-- The reason that the first failing step gives: reading, then the grammar, then the location. -/
inductive FirstFailure : SkipReason → Prop
  | reading {failure : FileFailure} (hText : t.textAt dir file = .error failure) :
    FirstFailure (.unreadable failure.message)
  | grammar {text : String} {mismatch : Mismatch} (hText : t.textAt dir file = .ok text)
    (hName : declaredName text = .error mismatch) : FirstFailure (.noServiceExport mismatch)
  | location {text name : String} (hText : t.textAt dir file = .ok text)
    (hName : declaredName text = .ok name) (hPath : outDir.importPath? file = none) :
    FirstFailure .outsideOutDir

structure Usable (name importPath : String) : Prop where
  declares : ∃ text, t.textAt dir file = .ok text ∧ declaredName text = .ok name
  located : outDir.importPath? file = some importPath

variable {t dir outDir file}

theorem ofFile_eq_error_iff {reason : SkipReason} :
    ofFile t dir outDir file = .error reason ↔ FirstFailure t dir outDir file reason := by
  constructor
  · intro h
    unfold ofFile at h
    split at h
    · rename_i hText
      cases h
      exact .reading hText
    · rename_i hText
      unfold ofText at h
      split at h
      · rename_i hName
        cases h
        exact .grammar hText hName
      · rename_i hName
        split at h
        · rename_i hPath
          cases h
          exact .location hText hName hPath
        · cases h
  · rintro (hText | ⟨hText, hName⟩ | ⟨hText, hName, hPath⟩)
    · rw [ofFile, hText]
    · simp only [ofFile, hText, ofText, hName]
    · simp only [ofFile, hText, ofText, hName, hPath]

theorem ofFile_eq_ok_iff {s : Service} :
    ofFile t dir outDir file = .ok s ↔
      ∃ name importPath, Usable t dir outDir file name importPath ∧ s = ofBaseName name importPath := by
  constructor
  · intro h
    unfold ofFile at h
    split at h
    · cases h
    · rename_i text hText
      unfold ofText at h
      split at h
      · cases h
      · rename_i name hName
        split at h
        · cases h
        · rename_i importPath hPath
          cases h
          exact ⟨name, importPath, ⟨⟨text, hText, hName⟩, hPath⟩, rfl⟩
  · rintro ⟨name, importPath, ⟨⟨text, hText, hName⟩, hPath⟩, rfl⟩
    simp only [ofFile, hText, ofText, hName, hPath]

theorem Usable.name_unique {name name' importPath importPath' : String}
    (h : Usable t dir outDir file name importPath) (h' : Usable t dir outDir file name' importPath') :
    name = name' := by
  obtain ⟨text, hText, hName⟩ := h.declares
  obtain ⟨text', hText', hName'⟩ := h'.declares
  obtain rfl := Except.ok.inj (hText.symm.trans hText')
  exact Except.ok.inj (hName.symm.trans hName')

variable (t dir outDir file) in
theorem decided : (∃ reason, FirstFailure t dir outDir file reason) ∨
    ∃ name importPath, Usable t dir outDir file name importPath := by
  cases h : ofFile t dir outDir file with
  | error reason => exact .inl ⟨reason, ofFile_eq_error_iff.mp h⟩
  | ok s =>
    obtain ⟨name, importPath, hUsable, -⟩ := ofFile_eq_ok_iff.mp h
    exact .inr ⟨name, importPath, hUsable⟩

/-! ### One file -/

def keptEntry : Path × Verdict → Option (Service × Path)
  | (file, .ok s) => some (s, file)
  | (_, .error _) => none

def skippedEntry : Path × Verdict → Option Skipped
  | (_, .ok _) => none
  | (file, .error reason) => some ⟨file, reason⟩

variable (t dir outDir) in
structure Judged (earlier : List (Path × Verdict)) (file : Path) (verdict : Verdict) : Prop where
  decided : (∃ reason, FirstFailure t dir outDir file reason) ∨
    ∃ name importPath, Usable t dir outDir file name importPath
  of_failure : ∀ reason, FirstFailure t dir outDir file reason → verdict = .error reason
  of_kept : ∀ s, verdict = .ok s →
    ∃ name importPath, Usable t dir outDir file name importPath ∧ s = ofBaseName name importPath
  skipped_iff : ∀ name importPath, Usable t dir outDir file name importPath →
    ((∃ reason, verdict = .error reason) ↔
      ∃ first s, (first, .ok s) ∈ earlier ∧ Text.SameButFirstCase s.baseName name)
  of_provided : ∀ name importPath first s, Usable t dir outDir file name importPath →
    (first, .ok s) ∈ earlier → Text.SameButFirstCase s.baseName name →
      verdict = .error (.duplicateInstance s.instanceName first)

variable (t dir outDir) in
structure Ledger (entries : List (Path × Verdict)) (e : Extraction) : Prop where
  kept_eq : e.kept = entries.filterMap keptEntry
  skipped_eq : e.skipped = entries.filterMap skippedEntry
  nodup : (e.services.map Service.instanceName).Nodup
  judged : ∀ i file verdict, entries[i]? = some (file, verdict) →
    Judged t dir outDir (entries.take i) file verdict

namespace Extraction

/-- What becomes of the next file: a service whose instance name is taken is a duplicate. -/
def verdict (e : Extraction) : Verdict → Verdict
  | .error reason => .error reason
  | .ok s =>
    match e.provider? s.instanceName with
    | some first => .error (.duplicateInstance s.instanceName first)
    | none => .ok s

theorem add_eq (e : Extraction) (file : Path) (found : Verdict) :
    e.add file found =
      ⟨e.kept ++ [(file, e.verdict found)].filterMap keptEntry,
        e.skipped ++ [(file, e.verdict found)].filterMap skippedEntry⟩ := by
  cases found with
  | error reason => simp [add, verdict, keptEntry, skippedEntry]
  | ok s =>
    cases hProvider : e.provider? s.instanceName <;>
      simp [add, verdict, hProvider, keptEntry, skippedEntry]

theorem verdict_eq_ok_iff {e : Extraction} {found : Verdict} {s : Service} :
    e.verdict found = .ok s ↔ found = .ok s ∧ e.provider? s.instanceName = none := by
  cases found with
  | error reason => simp [verdict]
  | ok s' =>
    cases hProvider : e.provider? s'.instanceName with
    | none => simpa [verdict, hProvider] using fun hEq => hEq ▸ hProvider
    | some first =>
      simp only [verdict, hProvider, reduceCtorEq, Except.ok.injEq, false_iff, not_and]
      rintro rfl
      simp [hProvider]

theorem verdict_of_failure {e : Extraction} {reason : SkipReason}
    (h : FirstFailure t dir outDir file reason) : e.verdict (ofFile t dir outDir file) = .error reason := by
  rw [ofFile_eq_error_iff.mpr h, verdict]

theorem verdict_of_new {e : Extraction} {name importPath : String}
    (h : Usable t dir outDir file name importPath) (hProvider : e.provider? (Text.lowerFirst name) = none) :
    e.verdict (ofFile t dir outDir file) = .ok (ofBaseName name importPath) := by
  rw [ofFile_eq_ok_iff.mpr ⟨name, importPath, h, rfl⟩, verdict]
  simp only [ofBaseName, hProvider]

theorem verdict_of_taken {e : Extraction} {name importPath : String} {first : Path}
    (h : Usable t dir outDir file name importPath)
    (hProvider : e.provider? (Text.lowerFirst name) = some first) :
    e.verdict (ofFile t dir outDir file) = .error (.duplicateInstance (Text.lowerFirst name) first) := by
  rw [ofFile_eq_ok_iff.mpr ⟨name, importPath, h, rfl⟩, verdict]
  simp only [ofBaseName, hProvider]

theorem provider?_eq_none_iff {e : Extraction} {instanceName : String} :
    e.provider? instanceName = none ↔ ∀ s first, (s, first) ∈ e.kept → s.instanceName ≠ instanceName := by
  simp [provider?]

theorem provider?_eq_some_iff {e : Extraction} {instanceName : String} {first : Path}
    (h : (e.services.map Service.instanceName).Nodup) :
    e.provider? instanceName = some first ↔ ∃ s, (s, first) ∈ e.kept ∧ s.instanceName = instanceName := by
  constructor
  · intro hProvider
    obtain ⟨⟨s, path⟩, hFind, rfl⟩ := Option.map_eq_some_iff.mp hProvider
    exact ⟨s, List.mem_of_find?_eq_some hFind, by simpa using List.find?_some hFind⟩
  · rintro ⟨s, hMem, rfl⟩
    cases hProvider : e.provider? s.instanceName with
    | none => exact absurd rfl (provider?_eq_none_iff.mp hProvider s first hMem)
    | some other =>
      obtain ⟨⟨s', path⟩, hFind, rfl⟩ := Option.map_eq_some_iff.mp hProvider
      have hName : s'.instanceName = s.instanceName := by simpa using List.find?_some hFind
      rw [services, List.map_map] at h
      have hSame := List.inj_on_of_nodup_map h (List.mem_of_find?_eq_some hFind) hMem hName
      rw [hSame]

end Extraction

/-! ### All files -/

namespace Ledger

variable {entries : List (Path × Verdict)} {e : Extraction}

theorem empty : Ledger t dir outDir [] Extraction.empty where
  kept_eq := rfl
  skipped_eq := rfl
  nodup := List.nodup_nil
  judged := nofun

theorem mem_kept_iff (h : Ledger t dir outDir entries e) {s : Service} {first : Path} :
    (s, first) ∈ e.kept ↔ (first, .ok s) ∈ entries := by
  rw [h.kept_eq, List.mem_filterMap]
  constructor
  · rintro ⟨⟨path, _ | s'⟩, hMem, hEntry⟩
    · cases hEntry
    · cases hEntry
      exact hMem
  · intro hMem
    exact ⟨(first, .ok s), hMem, rfl⟩

theorem judged_of_mem (h : Ledger t dir outDir entries e) {verdict : Verdict} (hMem : (file, verdict) ∈ entries) :
    ∃ earlier, earlier ⊆ entries ∧ Judged t dir outDir earlier file verdict := by
  obtain ⟨i, hEntry⟩ := List.mem_iff_getElem?.mp hMem
  exact ⟨entries.take i, List.take_subset i entries, h.judged i file verdict hEntry⟩

theorem usable_of_mem (h : Ledger t dir outDir entries e) {s : Service} (hMem : (file, .ok s) ∈ entries) :
    ∃ name importPath, Usable t dir outDir file name importPath ∧ s = ofBaseName name importPath := by
  obtain ⟨earlier, -, hJudged⟩ := h.judged_of_mem hMem
  exact hJudged.of_kept s rfl

theorem instanceName_eq (h : Ledger t dir outDir entries e) {s : Service} {first : Path}
    (hMem : (first, .ok s) ∈ entries) : s.instanceName = Text.lowerFirst s.baseName := by
  obtain ⟨name, importPath, -, rfl⟩ := h.usable_of_mem hMem
  rfl

/-- The file whose service has the instance name of `name` is the one kept with that base name. -/
theorem provider?_eq_some_iff (h : Ledger t dir outDir entries e) {name : String} {first : Path} :
    e.provider? (Text.lowerFirst name) = some first ↔
      ∃ s, (first, .ok s) ∈ entries ∧ Text.SameButFirstCase s.baseName name := by
  rw [Extraction.provider?_eq_some_iff h.nodup]
  refine exists_congr fun s => ?_
  rw [h.mem_kept_iff]
  refine and_congr_right fun hMem => ?_
  rw [h.instanceName_eq hMem, Text.lowerFirst_eq_iff]

theorem judged_verdict (h : Ledger t dir outDir entries e) (file : Path) :
    Judged t dir outDir entries file (e.verdict (ofFile t dir outDir file)) where
  decided := decided t dir outDir file
  of_failure _ hFailure := Extraction.verdict_of_failure hFailure
  of_kept s hKept := ofFile_eq_ok_iff.mp (Extraction.verdict_eq_ok_iff.mp hKept).1
  skipped_iff name importPath hUsable := by
    have hExists : (∃ first s, (first, .ok s) ∈ entries ∧ Text.SameButFirstCase s.baseName name) ↔
        ∃ first, e.provider? (Text.lowerFirst name) = some first :=
      exists_congr fun first => h.provider?_eq_some_iff.symm
    rw [hExists]
    cases hProvider : e.provider? (Text.lowerFirst name) with
    | none =>
      rw [Extraction.verdict_of_new hUsable hProvider]
      exact iff_of_false nofun nofun
    | some first =>
      rw [Extraction.verdict_of_taken hUsable hProvider]
      exact iff_of_true ⟨_, rfl⟩ ⟨first, rfl⟩
  of_provided name importPath first s hUsable hMem hSame := by
    have hProvider : e.provider? (Text.lowerFirst name) = some first :=
      h.provider?_eq_some_iff.mpr ⟨s, hMem, hSame⟩
    rw [Extraction.verdict_of_taken hUsable hProvider, h.instanceName_eq hMem,
      Text.lowerFirst_eq_iff.mpr hSame]

/-- Taking in the next file. -/
theorem add (h : Ledger t dir outDir entries e) (file : Path) :
    Ledger t dir outDir (entries ++ [(file, e.verdict (ofFile t dir outDir file))])
      (e.add file (ofFile t dir outDir file)) where
  kept_eq := by rw [Extraction.add_eq, List.filterMap_append, h.kept_eq]
  skipped_eq := by rw [Extraction.add_eq, List.filterMap_append, h.skipped_eq]
  nodup := by
    cases hVerdict : e.verdict (ofFile t dir outDir file) with
    | error reason =>
      have hKept : (e.add file (ofFile t dir outDir file)).kept = e.kept := by
        rw [Extraction.add_eq, hVerdict]
        exact List.append_nil e.kept
      rw [Extraction.services, hKept]
      exact h.nodup
    | ok s =>
      have hKept : (e.add file (ofFile t dir outDir file)).kept = e.kept ++ [(s, file)] := by
        rw [Extraction.add_eq, hVerdict]
        rfl
      rw [Extraction.services, hKept, List.map_append, List.map_append, List.nodup_append]
      refine ⟨h.nodup, List.nodup_singleton _, ?_⟩
      rintro _ hTaken _ hNew rfl
      obtain ⟨_, hService, hName⟩ := List.mem_map.mp hTaken
      obtain ⟨⟨s', first⟩, hMem, rfl⟩ := List.mem_map.mp hService
      have hNone := (Extraction.verdict_eq_ok_iff.mp hVerdict).2
      exact Extraction.provider?_eq_none_iff.mp hNone s' first hMem (hName.trans (List.mem_singleton.mp hNew))
  judged i path verdict hEntry := by
    rcases Nat.lt_or_ge i entries.length with hOld | hNew
    · rw [List.getElem?_append_left hOld] at hEntry
      rw [List.take_append_of_le_length (Nat.le_of_lt hOld)]
      exact h.judged i path verdict hEntry
    · rw [List.getElem?_append_right hNew, List.getElem?_singleton] at hEntry
      split at hEntry
      · rename_i hLast
        cases hEntry
        rw [List.take_left' (by omega)]
        exact h.judged_verdict file
      · cases hEntry

theorem foldl (h : Ledger t dir outDir entries e) (files : List Path) :
    ∃ more : List (Path × Verdict), more.map Prod.fst = files ∧
      Ledger t dir outDir (entries ++ more)
        (files.foldl (fun e file => e.add file (ofFile t dir outDir file)) e) := by
  induction files generalizing entries e with
  | nil => exact ⟨[], rfl, by rwa [List.append_nil]⟩
  | cons file rest ih =>
    obtain ⟨more, hFiles, hLedger⟩ := ih (h.add file)
    refine ⟨(file, e.verdict (ofFile t dir outDir file)) :: more, ?_, ?_⟩
    · rw [List.map_cons, hFiles]
    · rwa [List.append_cons]

theorem mem_services_iff (h : Ledger t dir outDir entries e) {s : Service} :
    s ∈ e.services ↔ ∃ first, (first, .ok s) ∈ entries := by
  rw [Extraction.services, List.mem_map]
  constructor
  · rintro ⟨⟨_, first⟩, hMem, rfl⟩
    exact ⟨first, h.mem_kept_iff.mp hMem⟩
  · rintro ⟨first, hMem⟩
    exact ⟨(s, first), h.mem_kept_iff.mpr hMem, rfl⟩

/-- The instance names of the services kept are those of all files that give a service. -/
theorem mem_instanceNames_iff (h : Ledger t dir outDir entries e) {key : String} :
    key ∈ e.services.map Service.instanceName ↔ ∃ file ∈ entries.map Prod.fst, ∃ name importPath,
      Usable t dir outDir file name importPath ∧ Text.lowerFirst name = key := by
  simp only [List.mem_map (f := Service.instanceName), h.mem_services_iff]
  constructor
  · rintro ⟨s, ⟨first, hMem⟩, rfl⟩
    obtain ⟨name, importPath, hUsable, rfl⟩ := h.usable_of_mem hMem
    exact ⟨first, List.mem_map_of_mem hMem, name, importPath, hUsable, rfl⟩
  · rintro ⟨_, hFile, name, importPath, hUsable, rfl⟩
    obtain ⟨⟨file, verdict⟩, hMem, rfl⟩ := List.mem_map.mp hFile
    obtain ⟨earlier, hEarlier, hJudged⟩ := h.judged_of_mem hMem
    cases verdict with
    | ok s =>
      obtain ⟨name', importPath', hUsable', rfl⟩ := hJudged.of_kept s rfl
      obtain rfl := hUsable.name_unique hUsable'
      exact ⟨_, ⟨file, hMem⟩, rfl⟩
    | error reason =>
      obtain ⟨first, s, hFirst, hSame⟩ := (hJudged.skipped_iff name importPath hUsable).mp ⟨reason, rfl⟩
      have hProvided := hEarlier hFirst
      exact ⟨s, ⟨first, hProvided⟩, (h.instanceName_eq hProvided).trans (Text.lowerFirst_eq_iff.mpr hSame)⟩

theorem services_eq (h : Ledger t dir outDir entries e) :
    e.services = entries.filterMap fun entry => entry.2.toOption := by
  rw [Extraction.services, h.kept_eq, List.map_filterMap]
  refine List.filterMap_congr fun entry _ => ?_
  rcases entry with ⟨file, reason | s⟩ <;> rfl

end Ledger

theorem exists_ledger (t : FileTree) (dir : Location) (outDir : Path) (files : List Path) :
    ∃ entries : List (Path × Verdict), entries.map Prod.fst = files ∧
      Ledger t dir outDir entries (extract t dir outDir files) :=
  Ledger.empty.foldl files

theorem exists_usable_of_mem_extract {files : List Path} {s : Service} (h : s ∈ (extract t dir outDir files).services) :
    ∃ file ∈ files, ∃ name importPath, Usable t dir outDir file name importPath ∧ s = ofBaseName name importPath := by
  obtain ⟨entries, rfl, hLedger⟩ := exists_ledger t dir outDir files
  obtain ⟨file, hMem⟩ := hLedger.mem_services_iff.mp h
  exact ⟨file, List.mem_map_of_mem hMem, hLedger.usable_of_mem hMem⟩

/-- Each file is kept or skipped, at its place in the order of the files, and is judged by what it gives
and by what was kept before it; the instance names kept are distinct. -/
theorem extract_partitions (t : FileTree) (dir : Location) (outDir : Path) (files : List Path) :
    ∃ entries : List (Path × Verdict), entries.map Prod.fst = files ∧
      (extract t dir outDir files).services = entries.filterMap (fun entry => entry.2.toOption) ∧
      (extract t dir outDir files).skipped = entries.filterMap skippedEntry ∧
      ((extract t dir outDir files).services.map Service.instanceName).Nodup ∧
      ∀ i file verdict, entries[i]? = some (file, verdict) →
        Judged t dir outDir (entries.take i) file verdict := by
  obtain ⟨entries, hFiles, hLedger⟩ := exists_ledger t dir outDir files
  exact ⟨entries, hFiles, hLedger.services_eq, hLedger.skipped_eq, hLedger.nodup, hLedger.judged⟩

end ClientRegistry.Service

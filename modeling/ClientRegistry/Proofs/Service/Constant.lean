import ClientRegistry.Proofs.Service.FirstDeclaration
import ClientRegistry.Proofs.Service.Partition
import ClientRegistry.Proofs.Text.Case

/-!
# Constants and keys

The constant of an extracted service is a word that ends in the suffix, and its key is a word as well. What
stands before the suffix gives the key, so that services with different keys have different constants.
-/

set_option autoImplicit false

namespace ClientRegistry.Service

/-- The constant of a service: a word that ends in the suffix and has something before it. -/
structure IsConstant (identifier : String) : Prop where
  base : ∃ name, name ≠ [] ∧ identifier.toList = name ++ suffix
  chars : ∀ c ∈ identifier.toList, isWordChar c = true

structure IsWord (name : String) : Prop where
  ne_nil : name.toList ≠ []
  chars : ∀ c ∈ name.toList, isWordChar c = true

structure Named (s : Service) : Prop where
  constant : IsConstant s.identifier
  key : IsWord s.instanceName

theorem IsWord.not_mem {name : String} {c : Char} (h : IsWord name) (hc : isWordChar c = false) :
    c ∉ name.toList := by
  intro hMem
  rw [h.chars c hMem] at hc
  cases hc

theorem IsConstant.isWord {identifier : String} (h : IsConstant identifier) : IsWord identifier where
  ne_nil := by
    obtain ⟨name, -, hName⟩ := h.base
    rw [hName]
    exact List.append_ne_nil_of_right_ne_nil name (by decide)
  chars := h.chars

theorem isWordChar_toLower {c : Char} (h : isWordChar c = true) : isWordChar c.toLower = true := by
  have hAscii : ∀ n < 0x7B, isWordChar (Char.ofNat n) = true → isWordChar (Char.ofNat n).toLower = true := by
    decide +kernel
  have hChar := hAscii c.toNat (Nat.lt_succ_of_le (toNat_of_isWordChar h).2)
  rw [Char.ofNat_toNat] at hChar
  exact hChar h

theorem isWord_lowerFirst {name : String} (h : IsWord name) : IsWord (Text.lowerFirst name) := by
  obtain ⟨c, rest, hName⟩ := List.exists_cons_of_ne_nil h.ne_nil
  have hChars := h.chars
  rw [hName, List.forall_mem_cons] at hChars
  have hLower := Text.toList_lowerFirst_cons hName
  refine ⟨by rw [hLower]; exact List.cons_ne_nil _ _, ?_⟩
  rw [hLower, List.forall_mem_cons]
  exact ⟨isWordChar_toLower hChars.1, hChars.2⟩

variable {t : FileTree} {dir : Location} {outDir : Path} {files : List Path} {s s' : Service}

theorem named_of_usable {file : Path} {name importPath : String} (h : Usable t dir outDir file name importPath) :
    Named (ofBaseName name importPath) := by
  obtain ⟨text, -, hName⟩ := h.declares
  rw [declaredName_eq_ok, firstDeclared_candidates_iff] at hName
  obtain ⟨_, _, -, ⟨hNil, _, _, -, ⟨-, _, -, hWord⟩, -⟩, -⟩ := hName
  have hIdentifier : (ofBaseName name importPath).identifier.toList = name.toList ++ suffix := by
    simp [ofBaseName]
  have hChars : ∀ c ∈ name.toList, isWordChar c = true := fun c hc => hWord.chars c (List.mem_append_left _ hc)
  refine ⟨⟨⟨name.toList, hNil, hIdentifier⟩, ?_⟩, isWord_lowerFirst ⟨hNil, hChars⟩⟩
  rw [hIdentifier]
  exact hWord.chars

theorem named_of_mem_extract (h : s ∈ (extract t dir outDir files).services) : Named s := by
  obtain ⟨file, -, name, importPath, hUsable, rfl⟩ := exists_usable_of_mem_extract h
  exact named_of_usable hUsable

/-- A constant gives back the base name, and with it the key. -/
theorem instanceName_eq_of_identifier_eq (h : s ∈ (extract t dir outDir files).services)
    (h' : s' ∈ (extract t dir outDir files).services) (hIdentifier : s.identifier = s'.identifier) :
    s.instanceName = s'.instanceName := by
  obtain ⟨_, -, name, importPath, -, rfl⟩ := exists_usable_of_mem_extract h
  obtain ⟨_, -, name', importPath', -, rfl⟩ := exists_usable_of_mem_extract h'
  have hName : name = name' := (String.append_left_inj _).mp hIdentifier
  exact congrArg Text.lowerFirst hName

theorem nodup_identifiers (t : FileTree) (dir : Location) (outDir : Path) (files : List Path) :
    ((extract t dir outDir files).services.map Service.identifier).Nodup := by
  obtain ⟨entries, -, hLedger⟩ := exists_ledger t dir outDir files
  have hKeys := hLedger.nodup
  rw [List.Nodup, List.pairwise_map] at hKeys ⊢
  refine hKeys.imp_of_mem ?_
  intro s s' h h' hKey hIdentifier
  exact hKey (instanceName_eq_of_identifier_eq h h' hIdentifier)

end ClientRegistry.Service

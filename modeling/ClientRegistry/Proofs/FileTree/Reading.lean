import ClientRegistry.Proofs.FileTree.Walk

/-!
# What is read

A file is read where its path leads, links followed, and a text is read back from its bytes.
-/

set_option autoImplicit false

namespace ClientRegistry

theorem fromUTF8?_toUTF8 (text : String) : String.fromUTF8? text.toUTF8 = some text :=
  dif_pos text.isValidUTF8

namespace FileTree

variable {t : FileTree} {dir place : Location} {p : Path} {text : String}

theorem pathExists_iff : t.pathExists dir p = true ↔ ∃ place, t.resolve dir p = .ok place := by
  unfold pathExists
  cases t.resolve dir p with
  | error e => exact iff_of_false Bool.false_ne_true nofun
  | ok place => exact iff_of_true rfl ⟨place, rfl⟩

theorem pathExists_of_textAt (h : t.textAt dir p = .ok text) : t.pathExists dir p = true := by
  obtain ⟨content, hContent, -⟩ := bind_eq_ok_iff.mp h
  obtain ⟨place, hPlace, -⟩ := bind_eq_ok_iff.mp hContent
  exact pathExists_iff.mpr ⟨place, hPlace⟩

theorem textAt_of_node (hResolve : t.resolve dir p = .ok place) (hNode : t.node? place = some (.file text.toUTF8)) :
    t.textAt dir p = .ok text := by
  have hContent : t.contentAt dir p = .ok text.toUTF8 := by
    refine bind_eq_ok_iff.mpr ⟨place, hResolve, ?_⟩
    rw [hNode]
  refine bind_eq_ok_iff.mpr ⟨text.toUTF8, hContent, ?_⟩
  rw [fromUTF8?_toUTF8]

end FileTree

end ClientRegistry

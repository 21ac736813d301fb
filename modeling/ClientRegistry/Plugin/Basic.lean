import ClientRegistry.Generation.Generator

/-!
# Plugins

A plugin is a project's generator as a development server uses it: the first cycle runs once
before everything else, whatever it comes to.
-/

set_option autoImplicit false

namespace ClientRegistry

inductive Lifecycle where
  | notStarted
  | ready
  deriving DecidableEq, Repr

structure Plugin where
  generator : Generator
  /-- How long no change may come before a cycle starts, in milliseconds. -/
  debounce : Nat
  lifecycle : Lifecycle
  deriving DecidableEq, Repr

namespace Plugin

def ofGenerator (g : Generator) (debounce : Nat) : Plugin := ⟨g, debounce, .notStarted⟩

def ofManifest (root : Path) (m : Manifest) : Plugin :=
  ofGenerator (Generator.ofToolchain root m.config m.toolchain) m.debounceMs.toNat

/-- Asks for the first cycle. A plugin that has not run it is ready from then on, whatever the cycle comes to. -/
def configResolved (p : Plugin) (h : Host) (t : FileTree) : Outcome GenerationError (Option Generation) × Plugin :=
  match p.lifecycle with
  | .ready => (⟨t, [], .ok none⟩, p)
  | .notStarted => ((some <$> p.generator.generate h).run t, { p with lifecycle := .ready })

end Plugin

end ClientRegistry

import ClientRegistry.FileTree.Basic
import ClientRegistry.Log

/-!
# Work on a file tree

A piece of work takes a file tree, tells what it does, and ends with a result or a failure. In
both cases it leaves a file tree: a failure does not undo what was done before it.
-/

set_option autoImplicit false

namespace ClientRegistry

structure Outcome (ε α : Type) where
  tree : FileTree
  log : Log
  result : Except ε α

structure Work (ε α : Type) where
  run : FileTree → Outcome ε α

namespace Work

variable {ε δ α β : Type}

protected def pure (a : α) : Work ε α := ⟨fun t => ⟨t, [], .ok a⟩⟩

/-- Goes on where a first piece of work ends with a result; a failure ends both. -/
protected def bind (w : Work ε α) (f : α → Work ε β) : Work ε β where
  run t :=
    match (w.run t).result with
    | .ok a =>
      let next := (f a).run (w.run t).tree
      { next with log := (w.run t).log ++ next.log }
    | .error e => ⟨(w.run t).tree, (w.run t).log, .error e⟩

instance : Monad (Work ε) where
  pure := Work.pure
  bind := Work.bind

def fail (e : ε) : Work ε α := ⟨fun t => ⟨t, [], .error e⟩⟩

def tell (log : Log) : Work ε Unit := ⟨fun t => ⟨t, log, .ok ()⟩⟩

def look (f : FileTree → α) : Work ε α := ⟨fun t => ⟨t, [], .ok (f t)⟩⟩

def check (x : Except ε α) : Work ε α := ⟨fun t => ⟨t, [], x⟩⟩

/-- A change of the file tree that may fail on the way. -/
def edit (f : FileTree → FileTree × Except ε α) : Work ε α := ⟨fun t => ⟨(f t).1, [], (f t).2⟩⟩

/-- The same work, its failure named by its place in a larger one. -/
def mapError (f : ε → δ) (w : Work ε α) : Work δ α where
  run t := ⟨(w.run t).tree, (w.run t).log, (w.run t).result.mapError f⟩

/-- The same work, whose failure is a result to look at. -/
def attempt (w : Work ε α) : Work δ (Except ε α) where
  run t := ⟨(w.run t).tree, (w.run t).log, .ok (w.run t).result⟩

@[simp] theorem run_pure (a : α) (t : FileTree) : (pure a : Work ε α).run t = ⟨t, [], .ok a⟩ := rfl

theorem run_bind (w : Work ε α) (f : α → Work ε β) (t : FileTree) :
    (w >>= f).run t =
      match (w.run t).result with
      | .ok a =>
        ⟨((f a).run (w.run t).tree).tree, (w.run t).log ++ ((f a).run (w.run t).tree).log,
          ((f a).run (w.run t).tree).result⟩
      | .error e => ⟨(w.run t).tree, (w.run t).log, .error e⟩ := rfl

@[simp] theorem run_tell (log : Log) (t : FileTree) : (tell log : Work ε Unit).run t = ⟨t, log, .ok ()⟩ :=
  rfl

@[simp] theorem run_fail (e : ε) (t : FileTree) : (fail e : Work ε α).run t = ⟨t, [], .error e⟩ := rfl

end Work

end ClientRegistry

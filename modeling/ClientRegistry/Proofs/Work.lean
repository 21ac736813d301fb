import ClientRegistry.Work

/-!
# Work that ends well

Work in several parts ends with a result when each part does, on the tree that the parts before it
have left.
-/

set_option autoImplicit false

namespace ClientRegistry

theorem mapError_eq_ok_iff {ε δ α : Type} {x : Except ε α} {f : ε → δ} {a : α} :
    x.mapError f = .ok a ↔ x = .ok a := by
  cases x with
  | error e => exact iff_of_false (fun h => by cases h) (fun h => by cases h)
  | ok b =>
    constructor
    all_goals
      intro h
      cases h
      rfl

namespace Work

variable {ε δ α β : Type} {t left last : FileTree}

theorem run_map (f : α → β) (w : Work ε α) (t : FileTree) :
    (f <$> w).run t = ⟨(w.run t).tree, (w.run t).log, (w.run t).result.map f⟩ := by
  change (w >>= fun a => pure (f a)).run t = _
  rw [run_bind]
  cases hResult : (w.run t).result with
  | ok a => simp [Except.map]
  | error e => rfl

/-- Done on the first tree, the work leaves the second one and this result. -/
structure Ends (w : Work ε α) (t left : FileTree) (a : α) : Prop where
  tree : (w.run t).tree = left
  result : (w.run t).result = .ok a

theorem exists_ends_iff {w : Work ε α} {a : α} : (∃ left, w.Ends t left a) ↔ (w.run t).result = .ok a :=
  ⟨fun ⟨_, h⟩ => h.result, fun h => ⟨_, rfl, h⟩⟩

theorem ends_pure_iff {a b : α} : (pure b : Work ε α).Ends t left a ↔ left = t ∧ a = b := by
  constructor
  · rintro ⟨rfl, hResult⟩
    cases hResult
    exact ⟨rfl, rfl⟩
  · rintro ⟨rfl, rfl⟩
    exact ⟨rfl, rfl⟩

theorem ends_bind_iff {w : Work ε α} {f : α → Work ε β} {b : β} :
    (w >>= f).Ends t last b ↔ ∃ a left, w.Ends t left a ∧ (f a).Ends left last b := by
  constructor
  · rintro ⟨hTree, hResult⟩
    rw [run_bind] at hTree hResult
    split at hResult
    · rename_i a hFirst
      rw [hFirst] at hTree
      exact ⟨a, _, ⟨rfl, hFirst⟩, hTree, hResult⟩
    · cases hResult
  · rintro ⟨a, _, ⟨rfl, hFirst⟩, hTree, hResult⟩
    constructor
    all_goals
      rw [run_bind, hFirst]
      assumption

theorem ends_look_iff {f : FileTree → α} {a : α} : (look f : Work ε α).Ends t left a ↔ left = t ∧ a = f t := by
  constructor
  · rintro ⟨rfl, hResult⟩
    cases hResult
    exact ⟨rfl, rfl⟩
  · rintro ⟨rfl, rfl⟩
    exact ⟨rfl, rfl⟩

theorem ends_tell_iff {log : Log} {u : Unit} : (tell log : Work ε Unit).Ends t left u ↔ left = t :=
  ⟨fun h => h.tree.symm, by rintro rfl; exact ⟨rfl, rfl⟩⟩

theorem ends_check_iff {x : Except ε α} {a : α} : (check x).Ends t left a ↔ left = t ∧ x = .ok a :=
  ⟨fun h => ⟨h.tree.symm, h.result⟩, by rintro ⟨rfl, rfl⟩; exact ⟨rfl, rfl⟩⟩

theorem ends_edit_iff {f : FileTree → FileTree × Except ε α} {a : α} :
    (edit f).Ends t left a ↔ (f t).1 = left ∧ (f t).2 = .ok a :=
  ⟨fun h => ⟨h.tree, h.result⟩, fun h => ⟨h.1, h.2⟩⟩

theorem ends_mapError_iff {f : ε → δ} {w : Work ε α} {a : α} : (w.mapError f).Ends t left a ↔ w.Ends t left a :=
  ⟨fun h => ⟨h.tree, mapError_eq_ok_iff.mp h.result⟩, fun h => ⟨h.tree, mapError_eq_ok_iff.mpr h.result⟩⟩

theorem ends_attempt_iff {w : Work ε α} {x : Except ε α} :
    (w.attempt : Work δ (Except ε α)).Ends t left x ↔ (w.run t).tree = left ∧ (w.run t).result = x := by
  constructor
  · rintro ⟨hTree, hResult⟩
    exact ⟨hTree, Except.ok.inj hResult⟩
  · rintro ⟨hTree, rfl⟩
    exact ⟨hTree, rfl⟩

/-! ### Work that may fail -/

structure Leaves (w : Work ε α) (t left : FileTree) (result : Except ε α) : Prop where
  tree : (w.run t).tree = left
  result : (w.run t).result = result

theorem leaves_run (w : Work ε α) (t : FileTree) : w.Leaves t (w.run t).tree (w.run t).result := ⟨rfl, rfl⟩

theorem Ends.leaves {w : Work ε α} {a : α} (h : w.Ends t left a) : w.Leaves t left (.ok a) := ⟨h.tree, h.result⟩

theorem Leaves.ends {w : Work ε α} {a : α} (h : w.Leaves t left (.ok a)) : w.Ends t left a := ⟨h.tree, h.result⟩

theorem Leaves.unique {w : Work ε α} {left' : FileTree} {result result' : Except ε α} (h : w.Leaves t left result)
    (h' : w.Leaves t left' result') : left = left' ∧ result = result' :=
  ⟨h.tree.symm.trans h'.tree, h.result.symm.trans h'.result⟩

theorem Ends.leaves_bind {w : Work ε α} {f : α → Work ε β} {a : α} {result : Except ε β} (h : w.Ends t left a)
    (hNext : (f a).Leaves left last result) : (w >>= f).Leaves t last result := by
  obtain ⟨rfl, hResult⟩ := h
  constructor
  · rw [run_bind, hResult]
    exact hNext.tree
  · rw [run_bind, hResult]
    exact hNext.result

theorem Leaves.bind_error {w : Work ε α} {e : ε} (h : w.Leaves t left (.error e)) (f : α → Work ε β) :
    (w >>= f).Leaves t left (.error e) := by
  obtain ⟨rfl, hResult⟩ := h
  constructor
  · rw [run_bind, hResult]
  · rw [run_bind, hResult]

theorem Leaves.of_bind_error {w : Work ε α} {f : α → Work ε β} {e : ε} (h : (w >>= f).Leaves t last (.error e)) :
    w.Leaves t last (.error e) ∨ ∃ a left, w.Ends t left a ∧ (f a).Leaves left last (.error e) := by
  obtain ⟨hTree, hResult⟩ := h
  rw [run_bind] at hTree hResult
  cases hFirst : (w.run t).result with
  | error e' =>
    rw [hFirst] at hTree hResult
    cases hResult
    exact .inl ⟨hTree, hFirst⟩
  | ok a =>
    rw [hFirst] at hTree hResult
    exact .inr ⟨a, _, ⟨rfl, hFirst⟩, hTree, hResult⟩

theorem Leaves.of_mapError_error {w : Work ε α} {f : ε → δ} {e : δ} (h : (w.mapError f).Leaves t left (.error e)) :
    ∃ cause, e = f cause ∧ w.Leaves t left (.error cause) := by
  obtain ⟨hTree, hResult⟩ := h
  have hMapped : (w.run t).result.mapError f = .error e := hResult
  cases hFirst : (w.run t).result with
  | error cause =>
    rw [hFirst] at hMapped
    cases hMapped
    exact ⟨cause, rfl, hTree, hFirst⟩
  | ok a =>
    rw [hFirst] at hMapped
    cases hMapped

theorem Leaves.mapError {w : Work ε α} {result : Except ε α} (h : w.Leaves t left result) (f : ε → δ) :
    (w.mapError f).Leaves t left (result.mapError f) := by
  obtain ⟨rfl, rfl⟩ := h
  exact ⟨rfl, rfl⟩

theorem ends_look (f : FileTree → α) (t : FileTree) : (look f : Work ε α).Ends t t (f t) := ⟨rfl, rfl⟩

theorem ends_tell (log : Log) (t : FileTree) : (tell log : Work ε Unit).Ends t t () := ⟨rfl, rfl⟩

theorem ends_pure (a : α) (t : FileTree) : (pure a : Work ε α).Ends t t a := ⟨rfl, rfl⟩

theorem leaves_fail (e : ε) (t : FileTree) : (fail e : Work ε α).Leaves t t (.error e) := ⟨rfl, rfl⟩

theorem leaves_check (x : Except ε α) (t : FileTree) : (check x).Leaves t t x := ⟨rfl, rfl⟩

theorem leaves_edit {f : FileTree → FileTree × Except ε α} {result : Except ε α} (h : f t = (left, result)) :
    (edit f).Leaves t left result :=
  ⟨congrArg Prod.fst h, congrArg Prod.snd h⟩

theorem Leaves.attempt {w : Work ε α} {result : Except ε α} (h : w.Leaves t left result) :
    (w.attempt : Work δ (Except ε α)).Ends t left result :=
  ⟨h.tree, congrArg Except.ok h.result⟩

def FailsWith (P : ε → Prop) (w : Work ε α) : Prop := ∀ t left e, w.Leaves t left (.error e) → P e

variable {P : ε → Prop}

theorem failsWith_pure (a : α) : (pure a : Work ε α).FailsWith P := by
  intro t left e hFails
  cases hFails.result

theorem failsWith_look (f : FileTree → α) : (look f : Work ε α).FailsWith P := by
  intro t left e hFails
  cases hFails.result

theorem failsWith_tell (log : Log) : (tell log : Work ε Unit).FailsWith P := by
  intro t left e hFails
  cases hFails.result

theorem failsWith_check {x : Except ε α} (h : ∀ e, x = .error e → P e) : (check x).FailsWith P :=
  fun _ _ e hFails => h e hFails.result

theorem failsWith_mapError (w : Work δ α) {f : δ → ε} (h : ∀ cause, P (f cause)) : (w.mapError f).FailsWith P := by
  intro t left e hFails
  obtain ⟨cause, rfl, -⟩ := hFails.of_mapError_error
  exact h cause

theorem FailsWith.bind {w : Work ε α} {f : α → Work ε β} (h : w.FailsWith P) (hNext : ∀ a, (f a).FailsWith P) :
    (w >>= f).FailsWith P := by
  intro t left e hFails
  rcases hFails.of_bind_error with hFirst | ⟨a, middle, -, hRest⟩
  · exact h t left e hFirst
  · exact hNext a middle left e hRest

/-! ### Work done twice -/

inductive SameEnd (Same : ε → ε → Prop) : Except ε α → Except ε α → Prop
  | ok (a : α) : SameEnd Same (.ok a) (.ok a)
  | error {e e' : ε} (h : Same e e') : SameEnd Same (.error e) (.error e')

/-- Both leave the same tree and end in the same way; what they tell may differ. -/
structure Alike (Same : ε → ε → Prop) (o o' : Outcome ε α) : Prop where
  tree : o.tree = o'.tree
  result : SameEnd Same o.result o'.result

variable {Same : ε → ε → Prop} {t' left' : FileTree}

theorem SameEnd.refl (hSame : ∀ e, Same e e) (x : Except ε α) : SameEnd Same x x := by
  cases x with
  | ok a => exact .ok a
  | error e => exact .error (hSame e)

theorem SameEnd.mapError {Same' : δ → δ → Prop} {x x' : Except ε α} {f : ε → δ} (h : SameEnd Same x x')
    (hSame : ∀ e e', Same e e' → Same' (f e) (f e')) : SameEnd Same' (x.mapError f) (x'.mapError f) := by
  cases h with
  | ok a => exact .ok a
  | error hBoth => exact .error (hSame _ _ hBoth)

theorem Alike.refl (hSame : ∀ e, Same e e) (o : Outcome ε α) : Alike Same o o := ⟨rfl, .refl hSame o.result⟩

theorem Alike.of_leaves {w w' : Work ε α} {result result' : Except ε α} (h : w.Leaves t left result)
    (h' : w'.Leaves t' left' result') (hTree : left = left') (hSame : SameEnd Same result result') :
    Alike Same (w.run t) (w'.run t') := by
  obtain ⟨rfl, rfl⟩ := h
  obtain ⟨rfl, rfl⟩ := h'
  exact ⟨hTree, hSame⟩

/-- What is done alike after a first part that ends with the same result, on whatever trees. -/
theorem Alike.bind_of_ends {w w' : Work ε α} {f f' : α → Work ε β} {a : α} (h : w.Ends t left a)
    (h' : w'.Ends t' left' a) (hRest : Alike Same ((f a).run left) ((f' a).run left')) :
    Alike Same ((w >>= f).run t) ((w' >>= f').run t') := by
  obtain ⟨rfl, hResult⟩ := h
  obtain ⟨rfl, hResult'⟩ := h'
  constructor
  · rw [run_bind, run_bind, hResult, hResult']
    exact hRest.tree
  · rw [run_bind, run_bind, hResult, hResult']
    exact hRest.result

theorem Alike.bind {w w' : Work ε α} {f f' : α → Work ε β} (h : Alike Same (w.run t) (w'.run t'))
    (hRest : ∀ a left, w.Ends t left a → Alike Same ((f a).run left) ((f' a).run left)) :
    Alike Same ((w >>= f).run t) ((w' >>= f').run t') := by
  have hEnd := h.result
  cases hResult : (w.run t).result with
  | ok a =>
    cases hResult' : (w'.run t').result with
    | error e' =>
      rw [hResult, hResult'] at hEnd
      cases hEnd
    | ok a' =>
      rw [hResult, hResult'] at hEnd
      cases hEnd
      exact .bind_of_ends ⟨rfl, hResult⟩ ⟨h.tree.symm, hResult'⟩ (hRest a _ ⟨rfl, hResult⟩)
  | error e =>
    cases hResult' : (w'.run t').result with
    | ok a' =>
      rw [hResult, hResult'] at hEnd
      cases hEnd
    | error e' =>
      rw [hResult, hResult'] at hEnd
      have hFails : w.Leaves t _ (.error e) := ⟨rfl, hResult⟩
      have hFails' : w'.Leaves t' _ (.error e') := ⟨h.tree.symm, hResult'⟩
      cases hEnd with
      | error hSame => exact .of_leaves (hFails.bind_error f) (hFails'.bind_error f') rfl (.error hSame)

theorem Alike.result_eq_ok {o o' : Outcome ε α} {a : α} (h : Alike Same o o') (hResult : o.result = .ok a) :
    o'.result = .ok a := by
  have hEnd := h.result
  rw [hResult] at hEnd
  generalize o'.result = result at hEnd
  cases hEnd
  rfl

theorem Alike.mapError {w w' : Work ε α} {Same' : δ → δ → Prop} {f : ε → δ} (h : Alike Same (w.run t) (w'.run t'))
    (hSame : ∀ e e', Same e e' → Same' (f e) (f e')) : Alike Same' ((w.mapError f).run t) ((w'.mapError f).run t') := by
  exact .of_leaves ((leaves_run w t).mapError f) ((leaves_run w' t').mapError f) h.tree (h.result.mapError hSame)

end Work

end ClientRegistry

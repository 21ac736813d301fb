import Mathlib.Data.List.Nodup
import ClientRegistry.Registry.Basic

/-!
# The members of a registry

The members are the first services of each instance name, in the order of the list. Where instance
names do not repeat these are all services.
-/

set_option autoImplicit false

namespace ClientRegistry.Registry

def firsts : List Service → List Service
  | [] => []
  | s :: rest => s :: (firsts rest).filter fun other => other.instanceName ≠ s.instanceName

theorem firsts_sublist (services : List Service) : (firsts services).Sublist services := by
  induction services with
  | nil => exact .slnil
  | cons s rest ih => exact (List.filter_sublist.trans ih).cons_cons s

theorem nodup_firsts (services : List Service) : ((firsts services).map Service.instanceName).Nodup := by
  induction services with
  | nil => exact List.nodup_nil
  | cons s rest ih =>
    rw [firsts, List.map_cons, List.nodup_cons]
    refine ⟨?_, (List.filter_sublist.map _).nodup ih⟩
    intro hMem
    obtain ⟨other, hOther, hName⟩ := List.mem_map.mp hMem
    simpa [hName] using (List.mem_filter.mp hOther).2

theorem firsts_eq_self {services : List Service} (h : (services.map Service.instanceName).Nodup) :
    firsts services = services := by
  induction services with
  | nil => rfl
  | cons s rest ih =>
    rw [List.map_cons, List.nodup_cons] at h
    rw [firsts, ih h.2, List.filter_eq_self.mpr]
    intro other hOther
    exact decide_eq_true fun hName => h.1 (List.mem_map.mpr ⟨other, hOther, hName⟩)

/-- A service is among the first ones just where it stands somewhere without its instance name
before it. -/
theorem mem_firsts_iff {services : List Service} {s : Service} :
    s ∈ firsts services ↔
      ∃ before after, services = before ++ s :: after ∧ ∀ e ∈ before, e.instanceName ≠ s.instanceName := by
  induction services with
  | nil => simp [firsts]
  | cons first rest ih =>
    rw [firsts, List.mem_cons, List.mem_filter, ih, decide_eq_true_eq]
    constructor
    · rintro (rfl | ⟨⟨before, after, rfl, hBefore⟩, hName⟩)
      · exact ⟨[], rest, rfl, nofun⟩
      · refine ⟨first :: before, after, rfl, ?_⟩
        rintro e (_ | ⟨_, hMem⟩)
        · exact Ne.symm hName
        · exact hBefore e hMem
    · rintro ⟨before, after, hSplit, hBefore⟩
      cases before with
      | nil => exact .inl (List.cons.inj hSplit).1.symm
      | cons e before =>
        obtain ⟨rfl, rfl⟩ := List.cons.inj hSplit
        refine .inr ⟨⟨before, after, rfl, fun e hMem => hBefore e (List.mem_cons_of_mem _ hMem)⟩, ?_⟩
        exact Ne.symm (hBefore first List.mem_cons_self)

theorem key_ofService (s : Service) : (Member.ofService s).key = s.instanceName := rfl

theorem add_of_taken {r : Registry} {s : Service} (h : s.instanceName ∈ r.keys) :
    r.add (Member.ofService s) = r := if_pos h

theorem add_of_new {r : Registry} {s : Service} (h : s.instanceName ∉ r.keys) :
    r.add (Member.ofService s) = ⟨r.members ++ [Member.ofService s]⟩ := if_neg h

theorem members_foldl (services : List Service) (r : Registry) :
    (services.foldl (fun r s => r.add (Member.ofService s)) r).members =
      r.members ++ ((firsts services).filter fun s => s.instanceName ∉ r.keys).map Member.ofService := by
  induction services generalizing r with
  | nil => simp [firsts]
  | cons s rest ih =>
    rw [List.foldl_cons, ih, firsts]
    by_cases hTaken : s.instanceName ∈ r.keys
    · rw [add_of_taken hTaken, List.filter_cons_of_neg (by simpa using hTaken), List.filter_filter]
      congr 2
      refine List.filter_congr fun other _ => ?_
      by_cases hName : other.instanceName = s.instanceName <;> simp [hName, hTaken]
    · rw [add_of_new hTaken, List.filter_cons_of_pos (by simpa using hTaken), List.filter_filter,
        List.map_cons, List.append_assoc, List.singleton_append]
      congr 3
      refine List.filter_congr fun other _ => ?_
      simp [keys, key_ofService, not_or, Bool.and_comm]

theorem members_ofServices (services : List Service) :
    (ofServices services).members = (firsts services).map Member.ofService := by
  rw [ofServices, members_foldl]
  simp [empty, keys]

theorem keys_ofServices (services : List Service) :
    (ofServices services).keys = (firsts services).map Service.instanceName := by
  rw [keys, members_ofServices, List.map_map]
  rfl

theorem nodup_keys_ofServices (services : List Service) : (ofServices services).keys.Nodup := by
  rw [keys_ofServices]
  exact nodup_firsts services

end ClientRegistry.Registry

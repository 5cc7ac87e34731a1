import Blanking.Proofs.Service.Set

/-! # Groups of services

Some services are sent in the same way and differ only in their lines. They form four groups, and
a set of services may share a slicer exactly if it lies in one of them. -/

namespace Blanking

namespace ServiceSet

/-- The groups of services that differ only in their lines. -/
def mergeGroups : List ServiceSet := [teletextB625, vps, caption625, caption525]

theorem isMergeable_iff {set : ServiceSet} :
    set.isMergeable = true ↔ ∃ group ∈ mergeGroups, set.isSubset group = true := by
  simp only [isMergeable, mergeGroups, Bool.or_eq_true, List.exists_mem_cons_iff, List.not_mem_nil,
    false_and, exists_false, or_false]
  tauto

end ServiceSet

namespace Service

/-- Whether two services lie in one of the groups. -/
def SameGroup (a b : Service) : Prop :=
  ∃ group ∈ ServiceSet.mergeGroups, group.contains a = true ∧ group.contains b = true

/-- One service that stands for all of a group. A service outside of the groups stands for
itself. -/
def leader : Service → Service
  | .teletextB625Level2 => .teletextB625Level1
  | .vpsField2 => .vps
  | .caption625Field2 => .caption625Field1
  | .caption525Field2 => .caption525Field1
  | service => service

theorem leader_eq_iff {a b : Service} : a.leader = b.leader ↔ a = b ∨ a.SameGroup b := by
  have hall : ∀ a ∈ all, ∀ b ∈ all, (a.leader = b.leader ↔ a = b ∨
      ∃ group ∈ ServiceSet.mergeGroups, group.contains a = true ∧ group.contains b = true) := by
    decide +kernel
  exact hall a a.mem_all b b.mem_all

theorem contains_leader {group : ServiceSet} (hgroup : group ∈ ServiceSet.mergeGroups)
    (service : Service) : group.contains service.leader = group.contains service := by
  have hall : ∀ group ∈ ServiceSet.mergeGroups, ∀ service ∈ all,
      group.contains service.leader = group.contains service := by decide +kernel
  exact hall group hgroup service service.mem_all

end Service

namespace ServiceSet

variable {set : ServiceSet} {a b service : Service}

theorem leader_eq_of_isMergeable (hset : set.isMergeable = true) (ha : set.contains a = true)
    (hb : set.contains b = true) : a.leader = b.leader := by
  obtain ⟨group, hgroup, hsub⟩ := isMergeable_iff.mp hset
  refine Service.leader_eq_iff.mpr (Or.inr ⟨group, hgroup, ?_, ?_⟩)
  · exact contains_of_isSubset hsub ha
  · exact contains_of_isSubset hsub hb

/-- A service may join others of its group. -/
theorem isMergeable_insert (hknown : set.IsKnown) (ha : set.contains a = true)
    (hnew : set.contains service = false)
    (halike : ∀ b, set.contains b = true → b.leader = service.leader) :
    (set.insert service).isMergeable = true := by
  have hne : a ≠ service := by
    rintro rfl
    rw [ha] at hnew
    exact absurd hnew (by decide)
  obtain ⟨group, hgroup, _, hservice⟩ :=
    (Service.leader_eq_iff.mp (halike a ha)).resolve_left hne
  refine isMergeable_iff.mpr ⟨group, hgroup, (hknown.insert service).isSubset ?_⟩
  intro b hb
  rw [contains_insert, Bool.or_eq_true, decide_eq_true_eq] at hb
  rcases hb with hb | rfl
  · rwa [← Service.contains_leader hgroup, halike b hb, Service.contains_leader hgroup]
  · exact hservice

end ServiceSet

end Blanking

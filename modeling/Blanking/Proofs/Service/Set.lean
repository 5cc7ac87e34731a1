import Mathlib.Data.List.Basic
import Blanking.Service.Set

/-! # Membership in sets of services

A service is a member of a set if its bit is one there. Every operation on sets is described by
its members; the bits that stand for no service are kept apart. -/

namespace Blanking

namespace Service

/-- The position of the bit that stands for a service. -/
def place : Service → Nat
  | .teletextB625Level1 => 0
  | .teletextB625Level2 => 1
  | .vps => 2
  | .caption625Field1 => 3
  | .caption625Field2 => 4
  | .caption525Field1 => 5
  | .caption525Field2 => 6
  | .doubleCaption525 => 7
  | .wss625 => 10
  | .wssCpr1204 => 11
  | .vpsField2 => 12
  | .teletextA => 13
  | .teletextC625 => 14
  | .teletextD625 => 15
  | .teletextB525 => 16
  | .teletextC525 => 17
  | .teletextD525 => 18

theorem place_lt (service : Service) : service.place < 32 := by
  cases service <;> decide

theorem toBitVec_bit (service : Service) :
    service.bit.toBitVec = BitVec.twoPow 32 service.place := by
  cases service <;> rfl

theorem place_injective {a b : Service} (h : a.place = b.place) : a = b := by
  have hbit : a.bit = b.bit := UInt32.toBitVec_inj.mp (by rw [toBitVec_bit, toBitVec_bit, h])
  have hfound := ofBit?_bit a
  rw [hbit, ofBit?_bit b] at hfound
  exact (Option.some.inj hfound).symm

end Service

namespace ServiceSet

theorem contains_eq_getLsbD (set : ServiceSet) (service : Service) :
    set.contains service = set.bits.toBitVec.getLsbD service.place := by
  have hand : (set.bits &&& service.bit).toBitVec =
      set.bits.toBitVec &&& BitVec.twoPow 32 service.place := by
    rw [UInt32.toBitVec_and, Service.toBitVec_bit]
  have hzero : (set.bits &&& service.bit = 0) ↔
      set.bits.toBitVec &&& BitVec.twoPow 32 service.place = 0#32 := by
    rw [← hand]
    exact UInt32.toBitVec_inj.symm
  unfold contains
  rw [BitVec.and_twoPow] at hzero
  cases hget : set.bits.toBitVec.getLsbD service.place with
  | true =>
      have hne : ¬ set.bits &&& service.bit = 0 := by
        rw [hzero, hget, if_pos rfl]
        exact fun h => absurd (congrArg (BitVec.getLsbD · service.place) h)
          (by simp [service.place_lt])
      simpa using hne
  | false =>
      have heq : set.bits &&& service.bit = 0 := by
        rw [hzero, hget]
        simp
      simp [heq]

/-! ## Operations -/

@[simp]
theorem contains_empty (service : Service) : empty.contains service = false := by
  simp [contains, empty]

@[simp]
theorem contains_insert (set : ServiceSet) (added service : Service) :
    (set.insert added).contains service = (set.contains service || decide (added = service)) := by
  simp only [contains_eq_getLsbD, insert, UInt32.toBitVec_or, Service.toBitVec_bit,
    BitVec.getLsbD_or, BitVec.getLsbD_twoPow, added.place_lt, decide_true, Bool.true_and]
  congr 1
  exact decide_eq_decide.mpr ⟨Service.place_injective, congrArg _⟩

@[simp]
theorem contains_singleton (member service : Service) :
    (singleton member).contains service = decide (member = service) := by
  have h := contains_insert empty member service
  rw [contains_empty, Bool.false_or] at h
  rw [← h]
  simp [insert, empty, singleton]

@[simp]
theorem contains_sdiff (a b : ServiceSet) (service : Service) :
    (a \ b).contains service = (a.contains service && !b.contains service) := by
  change (diff a b).contains service = _
  simp only [contains_eq_getLsbD, diff, UInt32.toBitVec_and, UInt32.toBitVec_not,
    BitVec.getLsbD_and, BitVec.getLsbD_not, service.place_lt, decide_true, Bool.true_and]

theorem contains_of_sdiff {a b : ServiceSet} {service : Service}
    (h : (a \ b).contains service = true) : a.contains service = true := by
  rw [contains_sdiff, Bool.and_eq_true] at h
  exact h.1

@[simp]
theorem contains_inter (a b : ServiceSet) (service : Service) :
    (a ∩ b).contains service = (a.contains service && b.contains service) := by
  change (inter a b).contains service = _
  simp only [contains_eq_getLsbD, inter, UInt32.toBitVec_and, BitVec.getLsbD_and]

@[simp]
theorem contains_union (a b : ServiceSet) (service : Service) :
    (a ∪ b).contains service = (a.contains service || b.contains service) := by
  change (union a b).contains service = _
  simp only [contains_eq_getLsbD, union, UInt32.toBitVec_or, BitVec.getLsbD_or]

theorem contains_foldl_union (sets : List ServiceSet) (first : ServiceSet) (service : Service) :
    (sets.foldl (· ∪ ·) first).contains service = true ↔
      first.contains service = true ∨ ∃ set ∈ sets, set.contains service = true := by
  induction sets generalizing first with
  | nil => simp
  | cons set rest ih => simp [ih, or_assoc]

theorem mem_toList {set : ServiceSet} {service : Service} :
    service ∈ set.toList ↔ set.contains service = true := by
  simp [toList, Service.mem_all]

theorem isEmpty_of_contains {set : ServiceSet} {service : Service}
    (hmem : set.contains service = true) : set.isEmpty = false := by
  by_contra hempty
  have hzero : set.bits = 0 := by simpa [isEmpty] using hempty
  simp [contains, hzero] at hmem

theorem not_contains_of_not_intersects {a b : ServiceSet} {service : Service}
    (hdisjoint : a.intersects b = false) (hmem : a.contains service = true) :
    b.contains service = false := by
  have hzero : (a ∩ b).bits = 0 := by simpa [intersects] using hdisjoint
  have hinter : (a ∩ b).contains service = false := by simp [contains, hzero]
  rw [contains_inter, hmem, Bool.true_and] at hinter
  exact hinter

theorem not_intersects_of_isEmpty {a b : ServiceSet} (hempty : b.isEmpty = true) :
    a.intersects b = false := by
  have hzero : b.bits = 0 := by simpa [isEmpty] using hempty
  change (a.bits &&& b.bits != 0) = false
  simp [hzero]

/-- Nothing is taken from a set that does not meet the other one. -/
theorem sdiff_eq_self {a b : ServiceSet} (hdisjoint : a.intersects b = false) : a \ b = a := by
  have hzero : (a ∩ b).bits = 0 := by simpa [intersects] using hdisjoint
  have hbits : (diff a b).bits = a.bits := by
    apply UInt32.toBitVec_inj.mp
    apply BitVec.eq_of_getLsbD_eq
    intro i hi
    have hbit := congrArg (fun word : UInt32 => word.toBitVec.getLsbD i) hzero
    change (inter a b).bits.toBitVec.getLsbD i = _ at hbit
    simp only [inter, UInt32.toBitVec_and, BitVec.getLsbD_and, UInt32.toBitVec_zero,
      BitVec.getLsbD_zero] at hbit
    simp only [diff, UInt32.toBitVec_and, UInt32.toBitVec_not, BitVec.getLsbD_and,
      BitVec.getLsbD_not, hi, decide_true, Bool.true_and]
    cases ha : a.bits.toBitVec.getLsbD i <;> simp_all
  cases a
  exact congrArg ServiceSet.mk hbits

/-- What is left without a set does not meet it. -/
theorem not_intersects_sdiff (a b : ServiceSet) : (a \ b).intersects b = false := by
  have hbits : (inter (diff a b) b).bits = 0 := by
    apply UInt32.toBitVec_inj.mp
    apply BitVec.eq_of_getLsbD_eq
    intro i hi
    simp only [inter, diff, UInt32.toBitVec_and, UInt32.toBitVec_not, BitVec.getLsbD_and,
      BitVec.getLsbD_not, hi, decide_true, Bool.true_and, UInt32.toBitVec_zero,
      BitVec.getLsbD_zero]
    cases b.bits.toBitVec.getLsbD i <;> simp
  simp only [intersects, bne_eq_false_iff_eq]
  exact hbits

theorem isSubset_iff {a b : ServiceSet} : a.isSubset b = true ↔ (a \ b).bits = 0 := by
  change (a.bits &&& ~~~b.bits == 0) = true ↔ a.bits &&& ~~~b.bits = 0
  simp

theorem contains_of_isSubset {a b : ServiceSet} {service : Service}
    (hsub : a.isSubset b = true) (hmem : a.contains service = true) :
    b.contains service = true := by
  have hzero := isSubset_iff.mp hsub
  have hdiff : (a \ b).contains service = false := by simp [contains, hzero]
  rw [contains_sdiff, hmem, Bool.true_and] at hdiff
  simpa using hdiff

/-! ## Bits that stand for a service -/

/-- Whether every bit of a set stands for a service. -/
def IsKnown (set : ServiceSet) : Prop :=
  ∀ i, set.bits.toBitVec.getLsbD i = true → ∃ service : Service, service.place = i

theorem isKnown_empty : empty.IsKnown := by
  intro i hbit
  simp [empty] at hbit

theorem IsKnown.insert {set : ServiceSet} (hknown : set.IsKnown) (service : Service) :
    (set.insert service).IsKnown := by
  intro i hbit
  simp only [ServiceSet.insert, UInt32.toBitVec_or, Service.toBitVec_bit, BitVec.getLsbD_or,
    BitVec.getLsbD_twoPow, Bool.or_eq_true, Bool.and_eq_true, decide_eq_true_eq] at hbit
  rcases hbit with hset | ⟨_, hplace⟩
  · exact hknown i hset
  · exact ⟨service, hplace⟩

theorem isKnown_singleton (service : Service) : (singleton service).IsKnown := by
  have hinsert := isKnown_empty.insert service
  simpa [ServiceSet.insert, empty, singleton] using hinsert

theorem IsKnown.sdiff {a : ServiceSet} (hknown : a.IsKnown) (b : ServiceSet) :
    (a \ b).IsKnown := by
  intro i hbit
  change (diff a b).bits.toBitVec.getLsbD i = true at hbit
  rw [diff, UInt32.toBitVec_and, BitVec.getLsbD_and, Bool.and_eq_true] at hbit
  exact hknown i hbit.1

theorem IsKnown.union {a b : ServiceSet} (ha : a.IsKnown) (hb : b.IsKnown) : (a ∪ b).IsKnown := by
  intro i hbit
  change (ServiceSet.union a b).bits.toBitVec.getLsbD i = true at hbit
  rw [ServiceSet.union, UInt32.toBitVec_or, BitVec.getLsbD_or, Bool.or_eq_true] at hbit
  exact hbit.elim (ha i) (hb i)

theorem IsKnown.inter {a : ServiceSet} (hknown : a.IsKnown) (b : ServiceSet) :
    (a ∩ b).IsKnown := by
  intro i hbit
  change (ServiceSet.inter a b).bits.toBitVec.getLsbD i = true at hbit
  rw [ServiceSet.inter, UInt32.toBitVec_and, BitVec.getLsbD_and, Bool.and_eq_true] at hbit
  exact hknown i hbit.1

theorem IsKnown.foldl_union {sets : List ServiceSet} (hsets : ∀ set ∈ sets, set.IsKnown)
    {first : ServiceSet} (hfirst : first.IsKnown) : (sets.foldl (· ∪ ·) first).IsKnown := by
  induction sets generalizing first with
  | nil => exact hfirst
  | cons set rest ih =>
      apply ih fun other hother => hsets other (List.mem_cons_of_mem _ hother)
      exact hfirst.union (hsets set List.mem_cons_self)

theorem contains_foldl_insert (services : List Service) (first : ServiceSet) (service : Service) :
    (services.foldl insert first).contains service = true ↔
      first.contains service = true ∨ service ∈ services := by
  induction services generalizing first with
  | nil => simp
  | cons added rest ih =>
      rw [List.foldl_cons, ih, contains_insert, Bool.or_eq_true, decide_eq_true_eq, or_assoc,
        List.mem_cons, @eq_comm _ added]

theorem contains_ofList {services : List Service} {service : Service} :
    (ofList services).contains service = true ↔ service ∈ services := by
  rw [ofList, contains_foldl_insert, contains_empty]
  simp

theorem IsKnown.foldl_insert {first : ServiceSet} (hfirst : first.IsKnown)
    (services : List Service) : (services.foldl ServiceSet.insert first).IsKnown := by
  induction services generalizing first with
  | nil => exact hfirst
  | cons added rest ih => exact ih (hfirst.insert added)

theorem isKnown_ofList (services : List Service) : (ofList services).IsKnown :=
  isKnown_empty.foldl_insert services

/-- A set of services that is not empty has a member. -/
theorem IsKnown.exists_contains {set : ServiceSet} (hknown : set.IsKnown)
    (hne : set.isEmpty = false) : ∃ service, set.contains service = true := by
  by_contra hnone
  have hzero : set.bits.toBitVec = 0#32 := by
    apply BitVec.eq_of_getLsbD_eq
    intro i hi
    rw [BitVec.getLsbD_zero]
    by_contra hbit
    obtain ⟨service, rfl⟩ := hknown i (by simpa using hbit)
    rw [← contains_eq_getLsbD] at hbit
    exact hnone ⟨service, by simpa using hbit⟩
  have hbits : set.bits = 0 := UInt32.toBitVec_inj.mp hzero
  simp [isEmpty, hbits] at hne

/-- Sets of services with the same members are the same word. -/
theorem IsKnown.ext {a b : ServiceSet} (ha : a.IsKnown) (hb : b.IsKnown)
    (h : ∀ service, a.contains service = b.contains service) : a = b := by
  have hbits : a.bits = b.bits := by
    apply UInt32.toBitVec_inj.mp
    apply BitVec.eq_of_getLsbD_eq
    intro i hi
    rw [Bool.eq_iff_iff]
    constructor
    · intro hbit
      obtain ⟨service, rfl⟩ := ha i hbit
      rwa [← contains_eq_getLsbD, ← h service, contains_eq_getLsbD]
    · intro hbit
      obtain ⟨service, rfl⟩ := hb i hbit
      rwa [← contains_eq_getLsbD, h service, contains_eq_getLsbD]
  cases a
  exact congrArg ServiceSet.mk hbits

theorem IsKnown.isSubset {a b : ServiceSet} (hknown : a.IsKnown)
    (h : ∀ service, a.contains service = true → b.contains service = true) :
    a.isSubset b = true := by
  by_contra hnot
  have hrest : (a \ b).isEmpty = false := by
    rw [isSubset_iff] at hnot
    simpa [isEmpty] using hnot
  obtain ⟨service, hservice⟩ := (hknown.sdiff b).exists_contains hrest
  rw [contains_sdiff, Bool.and_eq_true, Bool.not_eq_true'] at hservice
  exact absurd (h service hservice.1) (by simp [hservice.2])

theorem intersects_of_contains {a b : ServiceSet} {service : Service}
    (ha : a.contains service = true) (hb : b.contains service = true) :
    a.intersects b = true := by
  by_contra hnot
  rw [not_contains_of_not_intersects (by simpa using hnot) ha] at hb
  exact absurd hb (by decide)

/-- Sets of services that share a bit share a member. -/
theorem IsKnown.exists_contains_inter {a b : ServiceSet} (hknown : a.IsKnown)
    (h : a.intersects b = true) :
    ∃ service, a.contains service = true ∧ b.contains service = true := by
  have hmeet : (a ∩ b).isEmpty = false := by simpa [isEmpty, intersects] using h
  obtain ⟨service, hservice⟩ := (hknown.inter b).exists_contains hmeet
  exact ⟨service, by simpa using hservice⟩

/-- Of a part only those members of another set matter that the whole has. -/
theorem IsKnown.sdiff_inter {part whole other : ServiceSet} (hknown : part.IsKnown)
    (hpart : ∀ service, part.contains service = true → whole.contains service = true) :
    part \ (whole ∩ other) = part \ other := by
  apply (hknown.sdiff _).ext (hknown.sdiff _)
  intro service
  rw [contains_sdiff, contains_sdiff, contains_inter]
  cases hservice : part.contains service with
  | false => rfl
  | true => simp [hpart service hservice]

theorem IsKnown.intersects_inter {part whole other : ServiceSet} (hknown : part.IsKnown)
    (hpart : ∀ service, part.contains service = true → whole.contains service = true) :
    part.intersects (whole ∩ other) = part.intersects other := by
  rw [Bool.eq_iff_iff]
  constructor
  · intro hmeet
    obtain ⟨service, hservice, hboth⟩ := hknown.exists_contains_inter hmeet
    rw [contains_inter, Bool.and_eq_true] at hboth
    exact intersects_of_contains hservice hboth.2
  · intro hmeet
    obtain ⟨service, hservice, hboth⟩ := hknown.exists_contains_inter hmeet
    refine intersects_of_contains hservice ?_
    rw [contains_inter, hpart service hservice, hboth]
    rfl

end ServiceSet

end Blanking

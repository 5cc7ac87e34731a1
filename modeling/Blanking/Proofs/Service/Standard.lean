import Mathlib.Data.List.Basic
import Blanking.Sampling.Basic
import Blanking.Service.Transmission

/-! # Standards of one scanning

A set of standards has a scanning if it meets the standards of that one only. Every service is of
one scanning, so whatever of a set a service can be sent in is of the scanning of both. -/

namespace Blanking

namespace StandardSet

variable {a b c set : StandardSet} {scanning : Scanning}

/-! ## Sets that meet -/

theorem intersects_iff : a.intersects b = true ↔ a.bits &&& b.bits ≠ 0 := bne_iff_ne

theorem intersects_comm : a.intersects b = b.intersects a := by
  rw [Bool.eq_iff_iff, intersects_iff, intersects_iff, UInt64.and_comm]

theorem contains_self (a : StandardSet) : a.contains a = true :=
  beq_iff_eq.mpr UInt64.and_self

@[simp]
theorem empty_intersects (c : StandardSet) : empty.intersects c = false := by
  rw [← Bool.not_eq_true, intersects_iff, not_not]
  exact UInt64.zero_and

theorem union_intersects : (a ∪ b).intersects c = true ↔
    a.intersects c = true ∨ b.intersects c = true := by
  have hor : (a ∪ b).bits &&& c.bits = (a.bits &&& c.bits) ||| (b.bits &&& c.bits) := by
    change (a.bits ||| b.bits) &&& c.bits = _
    apply UInt64.toBitVec_inj.mp
    apply BitVec.eq_of_getLsbD_eq
    intro i _
    simp [Bool.and_or_distrib_right]
  rw [intersects_iff, intersects_iff, intersects_iff, hor, ne_eq, UInt64.or_eq_zero_iff,
    not_and_or]

theorem foldl_union_intersects {α : Type} (part : α → StandardSet) (items : List α)
    (first : StandardSet) :
    (items.foldl (fun set item => set ∪ part item) first).intersects c = true ↔
      first.intersects c = true ∨ ∃ item ∈ items, (part item).intersects c = true := by
  induction items generalizing first with
  | nil => simp
  | cons item rest ih => simp [ih, union_intersects, or_assoc]

theorem inter_intersects (h : (a ∩ b).intersects c = true) : b.intersects c = true := by
  rw [intersects_iff] at h ⊢
  intro hzero
  apply h
  change a.bits &&& b.bits &&& c.bits = 0
  rw [UInt64.and_assoc, hzero, UInt64.and_zero]

/-- What a part of a set shares with another set is a part of it. -/
theorem inter_intersects_of_contains {part whole other : StandardSet}
    (hpart : whole.contains part = true) (hmeet : part.intersects other = true) :
    (part ∩ other).intersects whole = true := by
  have hpart : whole.bits &&& part.bits = part.bits := eq_of_beq hpart
  rw [intersects_iff] at hmeet ⊢
  intro hzero
  apply hmeet
  calc part.bits &&& other.bits
    _ = (whole.bits &&& part.bits) &&& other.bits := by rw [hpart]
    _ = part.bits &&& other.bits &&& whole.bits := by ac_rfl
    _ = 0 := hzero

/-- What meets a part of a set meets the set. -/
theorem intersects_of_contains {part whole other : StandardSet}
    (hpart : whole.contains part = true) (hmeet : part.intersects other = true) :
    other.intersects whole = true :=
  inter_intersects (inter_intersects_of_contains hpart hmeet)

/-! ## Scanning -/

theorem scanning_eq_some_iff :
    set.scanning = some scanning ↔
      ∀ other, set.intersects (ofScanning other) = true ↔ other = scanning := by
  have hall (p : Scanning → Prop) : (∀ other, p other) ↔ p .lines525 ∧ p .lines625 :=
    ⟨fun h => ⟨h _, h _⟩, fun h other => by cases other <;> [exact h.1; exact h.2]⟩
  rw [hall]
  simp only [StandardSet.scanning, ofScanning]
  cases set.intersects lines525 <;> cases set.intersects lines625 <;> cases scanning <;> simp

/-- A set with a scanning meets the standards of that one only. -/
theorem eq_of_scanning {one other : Scanning} (h : set.scanning = some one)
    (hmeet : set.intersects (ofScanning other) = true) : other = one :=
  (scanning_eq_some_iff.mp h other).mp hmeet

/-- Sets of one scanning are of that scanning together. -/
theorem scanning_foldl_union {α : Type} {part : α → StandardSet} {items : List α}
    (hne : items ≠ []) (h : ∀ item ∈ items, (part item).scanning = some scanning) :
    (items.foldl (fun set item => set ∪ part item) empty).scanning = some scanning := by
  refine scanning_eq_some_iff.mpr fun other => ?_
  rw [foldl_union_intersects, empty_intersects]
  constructor
  · rintro (hnone | ⟨item, hitem, hmeet⟩)
    · exact absurd hnone (by decide)
    · exact eq_of_scanning (h item hitem) hmeet
  · rintro rfl
    obtain ⟨item, hitem⟩ := List.exists_mem_of_ne_nil items hne
    exact Or.inr ⟨item, hitem, (scanning_eq_some_iff.mp (h item hitem) other).mpr rfl⟩

end StandardSet

namespace Service

/-- The scanning of the frames that carry a service. -/
def scanning : Service → Scanning
  | .caption525Field1 | .caption525Field2 | .doubleCaption525 | .wssCpr1204 | .teletextB525
  | .teletextC525 | .teletextD525 => .lines525
  | _ => .lines625

theorem contains_standards (service : Service) :
    (StandardSet.ofScanning service.scanning).contains service.transmission.standards = true := by
  cases service <;> decide

theorem scanning_standards (service : Service) :
    service.transmission.standards.scanning = some service.scanning := by
  cases service <;> decide

section Standards

variable {service : Service} {set : StandardSet} {scanning : Scanning}

theorem scanning_eq (hscanning : set.scanning = some scanning)
    (hmeet : service.transmission.standards.intersects set = true) :
    service.scanning = scanning :=
  StandardSet.eq_of_scanning hscanning
    (StandardSet.intersects_of_contains service.contains_standards hmeet)

theorem scanning_inter (hscanning : set.scanning = some scanning)
    (hmeet : service.transmission.standards.intersects set = true) :
    (service.transmission.standards ∩ set).scanning = some scanning := by
  refine StandardSet.scanning_eq_some_iff.mpr fun other => ⟨fun hother => ?_, ?_⟩
  · exact StandardSet.eq_of_scanning hscanning (StandardSet.inter_intersects hother)
  · rintro rfl
    rw [← scanning_eq hscanning hmeet]
    exact StandardSet.inter_intersects_of_contains service.contains_standards hmeet

theorem exists_onField (service : Service) :
    ∃ field, service.transmission.onField field = true := by
  cases service <;> first | exact ⟨.first, by decide⟩ | exact ⟨.second, by decide⟩

/-- The lines of a service are those of a field of its scanning. -/
theorem fieldLines_of_onField (service : Service) {field : Field}
    (hfield : service.transmission.onField field = true) :
    (service.scanning.fieldLines.on field).1 ≤ service.transmission.first.on field ∧
      service.transmission.last.on field ≤ (service.scanning.fieldLines.on field).2 := by
  revert hfield
  cases service <;> cases field <;> decide

end Standards

end Service

end Blanking

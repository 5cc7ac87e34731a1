import Mathlib.Data.List.Basic
import Blanking.Proofs.Number.Word
import Blanking.Proofs.Slicer.Bounds
import Blanking.Slicer.Checked

/-! # Positions of a slicer

A position in words is the position on the line, as long as samples are numbered by words. So
slicing in words comes to what slicing with unbounded positions does, or to nothing, and it comes to
something as long as no position behind a run-in is too large. -/

namespace Blanking.InWords

variable {c : SlicerConfig} {level level' : Nat → Nat}

theorem position?_eq_some_iff {index part position : Nat} (hindex : index < wordLimit) :
    position? index part = some position ↔
      index * 256 + part < wordLimit ∧ position = index * 256 + part := by
  rw [position?, Nat.mod_eq_of_lt hindex, below?_eq_some_iff]

/-! ## What is found -/

theorem searchSteps_agrees {index : Nat} (hindex : index < wordLimit) (now next : Nat)
    (slice : Int) {left : Nat} {clock : Clock} {progress : Progress Unit}
    (h : searchSteps c index now next slice left clock = some progress) :
    c.searchSteps (fun _ trace => trace) index now next slice left clock () = progress := by
  induction left generalizing clock with
  | zero => exact Option.some.inj h
  | succ left ih =>
      rw [searchSteps] at h
      rw [SlicerConfig.searchSteps]
      dsimp only at h ⊢
      split at h
      next hedge => rw [if_pos hedge]; exact ih h
      next hedge =>
        rw [if_neg hedge]
        split at h
        next hphase => rw [if_pos hphase]; exact ih h
        next hphase =>
          rw [if_neg hphase]
          split at h
          next => exact absurd h (by simp)
          next position hposition =>
            obtain ⟨_, rfl⟩ := (position?_eq_some_iff hindex).mp hposition
            split at h
            next hmatch => rw [if_pos hmatch]; exact Option.some.inj h
            next hmatch => rw [if_neg hmatch]; exact ih h

theorem searchSamples_agrees {left index : Nat} (hlast : index + left ≤ wordLimit)
    {threshold : Int} {clock : Clock} {found : Option Lock}
    (h : searchSamples c level left index threshold clock = some found) :
    c.searchSamples (fun _ trace => trace) level left index threshold clock () =
      found.map (·, ()) := by
  induction left generalizing index threshold clock with
  | zero =>
      obtain rfl := Option.some.inj h
      rfl
  | succ left ih =>
      rw [searchSamples] at h
      rw [SlicerConfig.searchSamples]
      split at h
      next => exact absurd h (by simp)
      next position hsteps =>
        obtain rfl := Option.some.inj h
        rw [searchSteps_agrees (by omega) _ _ _ hsteps]
        rfl
      next clock hsteps =>
        rw [searchSteps_agrees (by omega) _ _ _ hsteps]
        exact ih (by omega) h

theorem search_agrees (hend : c.criEnd ≤ wordLimit) {threshold : Int} {found : Option Lock}
    (h : search c level threshold = some found) :
    c.search (fun _ trace => trace) level threshold () = found.map (·, ()) := by
  by_cases hnone : c.criEnd ≤ c.sampleOffset
  · rw [search, Nat.sub_eq_zero_of_le hnone] at h
    obtain rfl := Option.some.inj h
    rw [SlicerConfig.search, Nat.sub_eq_zero_of_le hnone]
    rfl
  · exact searchSamples_agrees (by omega) h

/-- What is read behind a run-in does not depend on words. -/
theorem receive_agrees {lock : Lock} {found : Option Reception}
    (h : receive c level lock = some found) : c.receive level lock = found := by
  simp only [receive, Option.bind_eq_bind, Option.bind_eq_some_iff] at h
  obtain ⟨first, _, _, _, h⟩ := h
  rw [SlicerConfig.receive]
  split at h
  next hfits =>
    rw [Bool.not_eq_true'] at hfits
    rw [hfits]
    exact Option.some.inj h
  next hfits =>
    obtain ⟨_, _, h⟩ := Option.bind_eq_some_iff.mp h
    split at h
    next hfrc =>
      rw [hfrc, Bool.or_true]
      exact Option.some.inj h
    next hfrc =>
      obtain ⟨_, _, h⟩ := Option.bind_eq_some_iff.mp h
      exact Option.some.inj h

theorem receiveLine_agrees {s : Slicer} (hend : s.config.criEnd ≤ wordLimit)
    {found : Option (Slicer × Reception)} (h : receiveLine s level = some found) :
    s.receive level = found := by
  simp only [receiveLine, Option.bind_eq_bind, Option.bind_eq_some_iff] at h
  obtain ⟨lock?, hsearch, h⟩ := h
  rw [Slicer.receive, search_agrees hend hsearch]
  cases lock? with
  | none => exact Option.some.inj h
  | some lock =>
      obtain ⟨reception, hreceive, h⟩ := Option.bind_eq_some_iff.mp h
      rw [Option.map_some, Option.bind_eq_bind, Option.bind_some]
      dsimp only
      rw [receive_agrees hreceive, ← Option.some.inj h]
      cases reception <;> rfl

theorem slice_agrees {s : Slicer} (hend : s.config.criEnd ≤ wordLimit) {size : Nat}
    (buffer : Vector UInt8 size) (row : ByteArray) :
    Checked.Agrees (slice s buffer row) (s.slice buffer row) := by
  intro outcome houtcome
  rw [slice, Checked.run_bind, Checked.run_lift, Option.bind_some] at houtcome
  rw [Slicer.slice]
  split at houtcome
  next hsizes =>
    rw [hsizes]
    obtain ⟨found, hfound, houtcome⟩ := Checked.ofOption_bind_eq_some_iff.mp houtcome
    rw [← Option.some.inj houtcome, receiveLine_agrees hend hfound]
  next cause hsizes =>
    rw [hsizes]
    exact (Option.some.inj houtcome).symm

/-! ## That something is found or not -/

/-- A part of a sample is less than all of it. -/
theorem part_lt {steps done : Nat} (hdone : done < steps) : done * 256 / steps < 256 := by
  rw [Nat.div_lt_iff_lt_mul (Nat.zero_lt_of_lt hdone), Nat.mul_comm]
  exact Nat.mul_lt_mul_of_pos_left hdone (by decide)

theorem searchSteps_eq {index : Nat} (hposition : index * 256 + 255 < wordLimit) (now next : Nat)
    (slice : Int) {left : Nat} (hleft : left ≤ c.layout.oversampling) (clock : Clock) :
    searchSteps c index now next slice left clock =
      some (c.searchSteps (fun _ trace => trace) index now next slice left clock ()) := by
  induction left generalizing clock with
  | zero => rfl
  | succ left ih =>
      have hpart : (c.layout.oversampling - (left + 1)) * 256 / c.layout.oversampling < 256 :=
        part_lt (Nat.sub_lt (Nat.zero_lt_of_lt hleft) (Nat.zero_lt_succ left))
      have hword := (position?_eq_some_iff (by omega)).mpr
        ⟨show index * 256 + (c.layout.oversampling - (left + 1)) * 256 / c.layout.oversampling <
          wordLimit from by omega, rfl⟩
      have ih := ih (Nat.le_of_succ_le hleft)
      rw [searchSteps, SlicerConfig.searchSteps]
      dsimp only
      rw [hword]
      dsimp only
      split
      next => exact ih _
      next =>
        split
        next => exact ih _
        next =>
          split
          next => rfl
          next => exact ih _

theorem searchSamples_eq {left index : Nat} (hlast : (index + left) * 256 ≤ wordLimit)
    (threshold : Int) (clock : Clock) :
    searchSamples c level left index threshold clock =
      some ((c.searchSamples (fun _ trace => trace) level left index threshold clock ()).map
        Prod.fst) := by
  induction left generalizing index threshold clock with
  | zero => rfl
  | succ left ih =>
      rw [searchSamples, SlicerConfig.searchSamples, searchSteps_eq (by omega) _ _ _ (Nat.le_refl _)]
      split
      next heq => exact absurd heq (by simp)
      next position heq => rw [Option.some.inj heq]; rfl
      next clock heq =>
        rw [Option.some.inj heq]
        exact ih (by rwa [Nat.add_assoc, Nat.add_comm 1 left]) _ clock

theorem search_eq (hend : c.criEnd * 256 ≤ wordLimit) (threshold : Int) :
    search c level threshold =
      some ((c.search (fun _ trace => trace) level threshold ()).map Prod.fst) := by
  by_cases hnone : c.criEnd ≤ c.sampleOffset
  · rw [search, SlicerConfig.search, Nat.sub_eq_zero_of_le hnone]
    rfl
  · rw [search, SlicerConfig.search]
    exact searchSamples_eq (by rwa [Nat.add_sub_of_le (Nat.le_of_not_le hnone)]) threshold .start

theorem receive_eq {lock : Lock}
    (hpositions : c.firstBit lock + (c.frcBits + c.payloadBits) * c.step < wordLimit) :
    receive c level lock = some (c.receive level lock) := by
  have hlast : (c.frcBits + c.payloadBits - 1) * c.step ≤ (c.frcBits + c.payloadBits) * c.step :=
    Nat.mul_le_mul_right _ (Nat.sub_le _ _)
  have hlastBit : ∃ last, lastBit? c (c.firstBit lock) = some last := by
    unfold lastBit?
    split
    next => exact ⟨_, rfl⟩
    next =>
      rw [below?_eq (by omega), Option.bind_eq_bind, Option.bind_some, below?_eq (by omega)]
      exact ⟨_, rfl⟩
  obtain ⟨last, hlastBit⟩ := hlastBit
  rw [Nat.add_mul] at hpositions
  simp only [receive, Option.bind_eq_bind]
  rw [below?_eq (by omega), Option.bind_some, hlastBit, Option.bind_some, SlicerConfig.receive]
  dsimp only
  split
  next hfits =>
    rw [hfits, Bool.true_or, if_pos rfl]
  next hfits =>
    rw [below?_eq (by omega), Option.bind_some]
    split
    next hfrc => rw [hfrc, Bool.or_true, if_pos rfl]
    next => rw [below?_eq (by omega), Option.bind_some]

end Blanking.InWords

namespace Blanking.SlicerConfig

variable {c : SlicerConfig}

/-- A run-in ends in front of the end of the search. -/
theorem position_lt_of_search {level : Nat → Nat} {threshold : Int} {lock : Lock}
    (h : c.search (fun _ trace => trace) level threshold () = some (lock, ())) :
    lock.position < c.criEnd * 256 := by
  rw [search_eq] at h
  obtain ⟨last, hlast, h⟩ := Option.map_eq_some_iff.mp h
  obtain ⟨rfl, _⟩ := Prod.mk.inj h
  have hsearched : last < c.searched := by
    exact List.mem_range.mp (List.mem_of_find?_eq_some hlast)
  have hpos : 0 < c.layout.oversampling := by
    rw [searched] at hsearched
    exact Nat.pos_of_mul_pos_left (Nat.zero_lt_of_lt hsearched)
  have hsample : last / c.layout.oversampling < c.criEnd - c.sampleOffset :=
    (Nat.div_lt_iff_lt_mul hpos).mpr hsearched
  have hpart := InWords.part_lt (Nat.mod_lt last hpos)
  simp only [lockAt, positionAt]
  generalize last / c.layout.oversampling = sample at hsample
  omega

end Blanking.SlicerConfig

namespace Blanking.InWords

variable {s : Slicer}

theorem receiveLine_eq (hfit : s.config.PositionsFit) (level : Nat → Nat) :
    receiveLine s level = some (s.receive level) := by
  rw [SlicerConfig.PositionsFit] at hfit
  rw [receiveLine, search_eq (by omega), Option.bind_eq_bind, Option.bind_some, Slicer.receive]
  rcases hsearch : s.config.search (fun _ trace => trace) level s.threshold () with _ | ⟨lock, _⟩
  · rfl
  · have hposition := SlicerConfig.position_lt_of_search hsearch
    have hfirst : s.config.firstBit lock = lock.position + s.config.phaseShift := rfl
    rw [Option.map_some]
    dsimp only
    rw [receive_eq (by omega)]
    simp only [Option.bind_eq_bind, Option.bind_some]
    cases s.config.receive level lock <;> rfl

theorem run_slice (hfit : s.config.PositionsFit) {size : Nat} (buffer : Vector UInt8 size)
    (row : ByteArray) : (slice s buffer row).run = some (s.slice buffer row) := by
  rw [slice, Checked.run_bind, Checked.run_lift, Option.bind_some, Slicer.slice]
  cases s.checkSizes size row with
  | error cause => rfl
  | ok =>
      dsimp only
      rw [receiveLine_eq hfit]
      rfl

end Blanking.InWords

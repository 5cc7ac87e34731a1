import Mathlib.Data.List.Basic
import Blanking.Decoder.Checked
import Blanking.Proofs.Number.Word
import Blanking.Proofs.Sampling.Lines

/-! # Sums of a sampling

A consistent sampling has small line numbers, so that all sums of them are words. Its lines, bytes
and samples can be too many for a word; where they are not, whatever is computed in words is what
unbounded numbers give. -/

namespace Blanking.Sampling

variable {s : Sampling}

theorem totalLines?_eq_some_iff {total : Nat} :
    s.totalLines? = some total ↔ s.totalLines < wordLimit ∧ total = s.totalLines :=
  below?_eq_some_iff

theorem frameSize?_eq_some_iff {size : Nat} :
    s.frameSize? = some size ↔ s.samplesPerLine < wordLimit ∧ s.totalLines < wordLimit ∧
      s.frameSize < longLimit ∧ size = s.frameSize := by
  simp only [frameSize?, Option.bind_eq_bind, Option.bind_eq_some_iff, below?_eq_some_iff,
    totalLines?_eq_some_iff]
  constructor
  · rintro ⟨_, ⟨hsamples, rfl⟩, _, ⟨hlines, rfl⟩, hbytes, rfl⟩
    exact ⟨hsamples, hlines, hbytes, rfl⟩
  · rintro ⟨hsamples, hlines, hbytes, rfl⟩
    exact ⟨_, ⟨hsamples, rfl⟩, _, ⟨hlines, rfl⟩, hbytes, rfl⟩

theorem lastLine?_eq_some_iff {field : Field} {last : Nat} :
    s.lastLine? field = some last ↔
      s.start.on field + s.count.on field < wordLimit ∧ last = s.lastLine field := by
  simp only [lastLine?, Option.map_eq_some_iff, below?_eq_some_iff]
  constructor
  · rintro ⟨_, ⟨hlt, rfl⟩, rfl⟩
    exact ⟨hlt, rfl⟩
  · rintro ⟨hlt, rfl⟩
    exact ⟨_, ⟨hlt, rfl⟩, rfl⟩

/-! ## Consistency -/

theorem agrees_validateField? (scanning : Scanning) (field : Field) :
    Checked.Agrees (s.validateField? scanning field) (s.validateField scanning field) := by
  unfold validateField? validateField
  split
  next => exact Checked.agrees_of_run_eq rfl
  next =>
    apply Checked.agrees_ofOption_bind
    intro last hlast
    obtain ⟨_, rfl⟩ := lastLine?_eq_some_iff.mp hlast
    split
    next => exact Checked.agrees_of_run_eq rfl
    next => exact Checked.agrees_of_run_eq rfl

theorem agrees_validate? : Checked.Agrees s.validate? s.validate := by
  unfold validate? validate
  split_ifs
  next => exact Checked.agrees_of_run_eq rfl
  next => exact Checked.agrees_of_run_eq rfl
  next => exact Checked.agrees_of_run_eq rfl
  next =>
    cases s.scanning with
    | none => exact Checked.agrees_of_run_eq rfl
    | some scanning =>
        apply (agrees_validateField? scanning .first).bind
        rintro ⟨⟩ -
        apply (agrees_validateField? scanning .second).bind
        rintro ⟨⟩ -
        exact Checked.agrees_of_run_eq rfl

/-- Known lines of a field are few and have small numbers. -/
theorem lastLine_le_of_validateField {scanning : Scanning} {field : Field}
    (h : s.validateField scanning field = .ok ()) (hstart : s.start.on field ≠ 0)
    (hcount : s.count.on field ≠ 0) : s.lastLine field ≤ 625 := by
  obtain hzero | hzero | ⟨_, hlast⟩ := validateField_eq_ok_iff.mp h
  · exact absurd hzero hstart
  · exact absurd hzero hcount
  · refine Nat.le_trans hlast ?_
    cases scanning <;> cases field <;> decide

theorem lastLine?_of_validateField {scanning : Scanning} {field : Field}
    (h : s.validateField scanning field = .ok ()) (hstart : s.start.on field ≠ 0)
    (hcount : s.count.on field ≠ 0) : s.lastLine? field = some (s.lastLine field) := by
  have hlast := lastLine_le_of_validateField h hstart hcount
  refine lastLine?_eq_some_iff.mpr ⟨?_, rfl⟩
  rw [lastLine] at hlast
  rw [wordLimit]
  omega

theorem Valid.lastLine?_eq (h : s.Valid) {field : Field} (hstart : s.start.on field ≠ 0)
    (hcount : s.count.on field ≠ 0) : s.lastLine? field = some (s.lastLine field) := by
  obtain ⟨_, _, _, scanning, _, hfirst, hsecond, _⟩ := valid_iff.mp h
  cases field with
  | first => exact lastLine?_of_validateField hfirst hstart hcount
  | second => exact lastLine?_of_validateField hsecond hstart hcount

/-- Where a field is in order, its last line is a word. -/
theorem run_validateField?_of_ok {scanning : Scanning} {field : Field}
    (h : s.validateField scanning field = .ok ()) :
    (s.validateField? scanning field).run = some (.ok ()) := by
  have hlast := @lastLine?_of_validateField s scanning field h
  rw [validateField] at h
  unfold validateField?
  split at h
  next hunknown => rw [if_pos hunknown]; rfl
  next hknown =>
    rw [if_neg hknown]
    rw [Bool.or_eq_true, decide_eq_true_eq, decide_eq_true_eq, not_or] at hknown
    rw [hlast hknown.1 hknown.2, Checked.run_ofOption_bind]
    split at h
    next => exact absurd h (by simp)
    next hrange => rw [if_neg hrange]; rfl

/-- A sampling is consistent exactly if it is found to be so in words. -/
theorem validate?_eq_ok_iff : s.validate? = some (.ok ()) ↔ s.Valid := by
  constructor
  · intro h
    exact (agrees_validate? _ h).symm
  · intro h
    obtain ⟨hrate, hsamples, hlines, scanning, hscanning, hfirst, hsecond, hlayout⟩ :=
      valid_iff.mp h
    have hcount : ¬ (s.count.first = 0 && s.count.second = 0) = true := by
      rw [totalLines] at hlines
      simp only [Bool.and_eq_true, decide_eq_true_eq]
      omega
    have hfields : (do
        s.validateField? scanning .first
        s.validateField? scanning .second
        s.validateLayout : Checked SamplingError Unit).run = some (.ok ()) := by
      rw [Checked.run_bind_of_ok (run_validateField?_of_ok hfirst),
        Checked.run_bind_of_ok (run_validateField?_of_ok hsecond), hlayout]
      rfl
    rw [validate?, if_neg hrate, if_neg hsamples, if_neg hcount, hscanning]
    exact hfields

theorem run_validate? (h : s.Valid) : s.validate?.run = some (.ok ()) := validate?_eq_ok_iff.mpr h

/-! ## Permission -/

variable {t : Transmission} {strictness : Strictness}

theorem agrees_permitRate? : Checked.Agrees (s.permitRate? t) (s.permitRate t) :=
  Checked.agrees_ofOption_bind fun _ _ => Checked.agrees_of_run_eq rfl

theorem agrees_permitPlace? :
    Checked.Agrees (s.permitPlace? t strictness) (s.permitPlace t strictness) := by
  unfold permitPlace?
  split
  next hplace =>
    rw [permitPlace, if_pos hplace]
    exact Checked.agrees_of_run_eq rfl
  next => exact Checked.agrees_ofOption_bind fun _ _ => Checked.agrees_of_run_eq rfl

theorem agrees_permitField? (field : Field) :
    Checked.Agrees (s.permitField? t strictness field) (s.permitField t strictness field) := by
  unfold permitField?
  split
  next => exact Checked.agrees_of_run_eq rfl
  next => exact Checked.agrees_ofOption_bind fun _ _ => Checked.agrees_of_run_eq rfl

theorem agrees_permit? : Checked.Agrees (s.permit? t strictness) (s.permit t strictness) := by
  have hlift (plain : Except PermitError Unit) : Checked.Agrees (liftM plain) plain :=
    Checked.agrees_of_run_eq rfl
  unfold permit? permit
  exact (hlift _).bind fun _ _ => (hlift _).bind fun _ _ => agrees_permitRate?.bind fun _ _ =>
    (hlift _).bind fun _ _ => agrees_permitPlace?.bind fun _ _ => (hlift _).bind fun _ _ =>
    (agrees_permitField? .first).bind fun _ _ => agrees_permitField? .second

/-- The rates of the known services are words by far. -/
theorem requiredRate_lt (service : Service) : requiredRate service.transmission < wordLimit := by
  rw [wordLimit]
  cases service <;> decide

theorem run_permitRate? (service : Service) :
    (s.permitRate? service.transmission).run = some (s.permitRate service.transmission) := by
  rw [permitRate?, below?_eq (requiredRate_lt service)]
  rfl

theorem run_permitPlace? (hplace : s.offset + s.samplesPerLine < wordLimit) :
    (s.permitPlace? t strictness).run = some (s.permitPlace t strictness) := by
  unfold permitPlace?
  split
  next hunknown =>
    rw [permitPlace, if_pos hunknown]
    rfl
  next =>
    rw [below?_eq hplace]
    rfl

theorem Valid.run_permitField? (h : s.Valid) (field : Field) :
    (s.permitField? t strictness field).run = some (s.permitField t strictness field) := by
  unfold permitField?
  split
  next => rfl
  next hknown =>
    simp only [Bool.or_eq_true, decide_eq_true_eq, not_or] at hknown
    rw [h.lastLine?_eq hknown.2 hknown.1.2]
    rfl

/-- In a consistent sampling there is one sum left that may be no word. -/
theorem Valid.run_permit? (h : s.Valid) (hplace : s.offset + s.samplesPerLine < wordLimit)
    (service : Service) :
    (s.permit? service.transmission strictness).run =
      some (s.permit service.transmission strictness) := by
  unfold permit? permit
  exact Checked.run_bind_eq rfl fun _ _ => Checked.run_bind_eq rfl fun _ _ =>
    Checked.run_bind_eq (run_permitRate? service) fun _ _ => Checked.run_bind_eq rfl fun _ _ =>
    Checked.run_bind_eq (run_permitPlace? hplace) fun _ _ => Checked.run_bind_eq rfl fun _ _ =>
    Checked.run_bind_eq (h.run_permitField? .first) fun _ _ => h.run_permitField? .second

/-! ## Candidates -/

theorem Valid.candidatesOn?_eq (h : s.Valid) (t : Transmission) (field : Field) :
    s.candidatesOn? t field = some (s.candidatesOn t field) := by
  unfold candidatesOn?
  split
  next => rfl
  next hknown =>
    simp only [Bool.or_eq_true, decide_eq_true_eq, not_or] at hknown
    rw [h.lastLine?_eq hknown.2 hknown.1.2, Option.map_some]

/-- The candidates of a consistent sampling are found without any number that is no word. -/
theorem Valid.candidates?_eq (h : s.Valid) (t : Transmission) :
    s.candidates? t = some (s.candidates t) := by
  unfold candidates? candidates
  split
  next =>
    rw [h.candidatesOn?_eq, h.candidatesOn?_eq]
    simp [Field.all]
  next hsync => rfl

end Blanking.Sampling

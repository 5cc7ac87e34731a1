import Mathlib.Data.List.Basic
import Blanking.Sampling.Permit

/-! # What a permitted service can rely on

A service that is permitted for a sampling has passed each of the checks. -/

namespace Blanking

/-- Checks in a row are passed if each of them is. -/
theorem bind_eq_ok {ε : Type} {first : Except ε Unit} {rest : Unit → Except ε Unit} :
    first >>= rest = .ok () ↔ first = .ok () ∧ rest () = .ok () := by
  cases first <;> simp [bind, Except.bind]

theorem eq_error_of_bind {ε : Type} {cause : ε} {first : Except ε Unit}
    {rest : Unit → Except ε Unit} (h : first >>= rest = .error cause) :
    first = .error cause ∨ rest () = .error cause := by
  cases first with
  | error => exact Or.inl h
  | ok => exact Or.inr h

/-- A check that is passed is not the one that refuses. -/
theorem rest_eq_error_of_bind {ε : Type} {cause : ε} {first : Except ε Unit}
    {rest : Unit → Except ε Unit} (hfirst : first = .ok ())
    (h : first >>= rest = .error cause) : rest () = .error cause :=
  (eq_error_of_bind h).resolve_left (by simp [hfirst])

namespace Sampling

/-- The checks that a permitted service has passed. -/
structure Permitted (s : Sampling) (t : Transmission) (strictness : Strictness) : Prop where
  standard : s.permitStandard t = .ok ()
  lineNumbers : s.permitLineNumbers t = .ok ()
  rate : s.permitRate t = .ok ()
  duration : s.permitDuration t strictness = .ok ()
  place : s.permitPlace t strictness = .ok ()
  fieldOrder : s.permitFieldOrder t = .ok ()
  fields : ∀ field, s.permitField t strictness field = .ok ()

theorem permit_eq_ok {s : Sampling} {t : Transmission} {strictness : Strictness}
    (h : s.permit t strictness = .ok ()) : s.Permitted t strictness := by
  simp only [permit, bind_eq_ok] at h
  obtain ⟨hstandard, hlines, hrate, hduration, hplace, horder, hfirst, hsecond⟩ := h
  refine ⟨hstandard, hlines, hrate, hduration, hplace, horder, ?_⟩
  intro field
  cases field
  · exact hfirst
  · exact hsecond

theorem permit_eq_ok_iff {s : Sampling} {t : Transmission} {strictness : Strictness} :
    s.permit t strictness = .ok () ↔ s.Permitted t strictness := by
  refine ⟨permit_eq_ok, fun h => ?_⟩
  simp only [permit, bind_eq_ok]
  exact ⟨h.standard, h.lineNumbers, h.rate, h.duration, h.place, h.fieldOrder, h.fields .first,
    h.fields .second⟩

theorem permits_iff {s : Sampling} {strictness : Strictness} {service : Service} :
    s.permits strictness service = true ↔ s.permit service.transmission strictness = .ok () := by
  unfold permits
  cases s.permit service.transmission strictness <;> simp [Except.isOk, Except.toBool]

theorem linesSuffice_reliable_iff {s : Sampling} {t : Transmission} {field : Field} :
    s.linesSuffice t .reliable field = true ↔
      t.first.on field ≤ s.lastLine field ∧ s.start.on field ≤ t.last.on field := by
  simp [linesSuffice]

theorem linesSuffice_strict_iff {s : Sampling} {t : Transmission} {field : Field} :
    s.linesSuffice t .strict field = true ↔
      s.start.on field ≤ t.first.on field ∧ t.last.on field ≤ s.lastLine field := by
  simp [linesSuffice]

/-- A field that carries the service must have lines. Their numbers may be unknown to a loose check
only, and known ones have to suffice. -/
theorem permitField_eq_ok_iff {s : Sampling} {t : Transmission} {strictness : Strictness}
    {field : Field} :
    s.permitField t strictness field = .ok () ↔ (t.onField field = true →
      s.count.on field ≠ 0 ∧ (s.start.on field = 0 → strictness = .loose) ∧
        (s.start.on field ≠ 0 → s.linesSuffice t strictness field = true)) := by
  unfold permitField
  split
  next hfield => simp_all
  next hfield =>
    have hfield : t.onField field = true := by simpa using hfield
    split
    next hcount => simp [hfield, hcount]
    next hcount =>
      split
      next hstart =>
        split
        next hloose => simp [hfield, hcount, hstart, hloose]
        next hknown => simp [hfield, hcount, hstart, hknown]
      next hstart =>
        split
        next hlines => simp [hfield, hcount, hstart, hlines]
        next hlines => simp [hfield, hcount, hstart, hlines]

/-- Where the fields cannot be told apart, a permitted service is sent on both. -/
theorem onField_of_permit {s : Sampling} {service : Service} {strictness : Strictness}
    (hsync : s.synchronous = false) (h : s.permit service.transmission strictness = .ok ())
    (field : Field) : service.transmission.onField field = true := by
  have horder := (permit_eq_ok h).fieldOrder
  unfold permitFieldOrder at horder
  split at horder
  next => exact absurd horder (by simp)
  next hfree =>
    rw [hsync, Bool.not_false, Bool.and_true, Bool.not_eq_true] at hfree
    revert hfree
    cases service <;> cases field <;> decide

end Sampling

/-! ## What is refused for its time -/

/-- Whether a refusal is about the part of a line that was sampled. -/
def PermitError.OfTime (service : Service) (cause : PermitError) : Prop :=
  (∃ signal sampling, cause = .signalTooLong service signal sampling) ∨
    (∃ start serviceStart, cause = .startsTooLate service start serviceStart) ∨
      ∃ stop serviceStop, cause = .endsTooEarly service stop serviceStop

namespace Sampling

section Time

variable {s : Sampling} {t : Transmission} {strictness : Strictness} {cause : PermitError}

theorem ofTime_of_permitDuration (h : s.permitDuration t strictness = .error cause) :
    cause.OfTime t.service := by
  dsimp only [permitDuration] at h
  split at h
  next => exact Or.inl ⟨_, _, (Except.error.inj h).symm⟩
  next => cases h

theorem ofTime_of_permitPlace (h : s.permitPlace t strictness = .error cause) :
    cause.OfTime t.service := by
  dsimp only [permitPlace] at h
  split at h
  next => cases h
  next =>
    split at h
    next => exact Or.inr (Or.inl ⟨_, _, (Except.error.inj h).symm⟩)
    next =>
      split at h
      next => exact Or.inr (Or.inr ⟨_, _, (Except.error.inj h).symm⟩)
      next => cases h

/-- A service that passes all checks but those of time is refused for its time only. -/
theorem ofTime_of_permit (hstandard : s.permitStandard t = .ok ())
    (hnumbers : s.permitLineNumbers t = .ok ()) (hrate : s.permitRate t = .ok ())
    (horder : s.permitFieldOrder t = .ok ())
    (hfields : ∀ field, s.permitField t strictness field = .ok ())
    (h : s.permit t strictness = .error cause) : cause.OfTime t.service := by
  rw [permit] at h
  have h := rest_eq_error_of_bind hstandard h
  have h := rest_eq_error_of_bind hnumbers h
  have h := rest_eq_error_of_bind hrate h
  obtain hduration | h := eq_error_of_bind h
  · exact ofTime_of_permitDuration hduration
  obtain hplace | h := eq_error_of_bind h
  · exact ofTime_of_permitPlace hplace
  have h := rest_eq_error_of_bind horder h
  have h := rest_eq_error_of_bind (hfields .first) h
  rw [hfields .second] at h
  cases h

end Time

end Sampling

end Blanking

import Mathlib.Data.List.Basic
import Blanking.Number.Word

/-! # Computing in machine words

A computation in words either comes to what it would come to with unbounded numbers, or to nothing.
That passes from the steps of a computation to the whole, and so does that there is a result. -/

namespace Blanking

theorem below?_eq_some_iff {limit value found : Nat} :
    below? limit value = some found ↔ value < limit ∧ found = value := by
  unfold below?
  split
  next hlt => simp [hlt, eq_comm]
  next hge => simp [hge]

theorem below?_eq {limit value : Nat} (h : value < limit) : below? limit value = some value :=
  if_pos h

namespace Checked

variable {ε ε' α β γ : Type} {checked : Checked ε α} {plain : Except ε α}

/-- Whether a computation in words comes to what another one comes to, if it comes to anything. -/
def Agrees (checked : Checked ε α) (plain : Except ε α) : Prop :=
  ∀ outcome, checked.run = some outcome → outcome = plain

theorem agrees_of_run_eq (h : checked.run = some plain) : checked.Agrees plain := by
  intro outcome houtcome
  exact Option.some.inj (houtcome.symm.trans h)

theorem run_bind {rest : α → Checked ε β} :
    (checked >>= rest).run =
      checked.run.bind fun outcome =>
        match outcome with
        | .ok value => (rest value).run
        | .error cause => some (.error cause) := by
  rw [ExceptT.run_bind]
  cases checked.run with
  | none => rfl
  | some outcome => cases outcome <;> rfl

theorem run_bind_of_ok {rest : α → Checked ε β} {value : α} (h : checked.run = some (.ok value)) :
    (checked >>= rest).run = (rest value).run := by
  rw [run_bind, h, Option.bind_some]

theorem run_lift (plain : Except ε α) : (liftM plain : Checked ε α).run = some plain := rfl

theorem run_ofOption (found : Option α) : (liftM found : Checked ε α).run = found.map .ok := by
  cases found <;> rfl

theorem run_ofOption_eq_some_iff {found : Option α} {outcome : Except ε α} :
    (liftM found : Checked ε α).run = some outcome ↔
      ∃ value, found = some value ∧ .ok value = outcome := by
  rw [run_ofOption, Option.map_eq_some_iff]

theorem run_adapt (wrap : ε → ε') :
    (checked.adapt wrap).run = checked.run.map (Except.mapError wrap) := rfl

theorem run_adapt_eq_ok_iff {wrap : ε → ε'} {value : α} :
    (checked.adapt wrap).run = some (.ok value) ↔ checked.run = some (.ok value) := by
  rw [run_adapt]
  cases checked.run with
  | none => simp
  | some outcome => cases outcome <;> simp [Except.mapError]

/-- A computation that comes to a value has come to one in its first step. -/
theorem bind_eq_ok {rest : α → Checked ε β} {value : β}
    (h : (checked >>= rest).run = some (.ok value)) :
    ∃ found, checked.run = some (.ok found) ∧ (rest found).run = some (.ok value) := by
  rw [run_bind] at h
  obtain ⟨outcome, houtcome, h⟩ := Option.bind_eq_some_iff.mp h
  cases outcome with
  | ok found => exact ⟨found, houtcome, h⟩
  | error cause => simp at h

theorem Agrees.bind {rest : α → Checked ε β} {rest' : α → Except ε β}
    (h : checked.Agrees plain)
    (hrest : ∀ value, plain = .ok value → (rest value).Agrees (rest' value)) :
    (checked >>= rest).Agrees (plain >>= rest') := by
  intro outcome houtcome
  rw [run_bind] at houtcome
  obtain ⟨first, hfirst, houtcome⟩ := Option.bind_eq_some_iff.mp houtcome
  obtain rfl := h first hfirst
  cases first with
  | ok value => exact hrest value rfl outcome houtcome
  | error cause => exact (Option.some.inj houtcome).symm

theorem run_bind_eq {rest : α → Checked ε β} {rest' : α → Except ε β}
    (h : checked.run = some plain)
    (hrest : ∀ value, plain = .ok value → (rest value).run = some (rest' value)) :
    (checked >>= rest).run = some (plain >>= rest') := by
  rw [run_bind, h]
  cases plain with
  | ok value => exact hrest value rfl
  | error cause => rfl

theorem Agrees.adapt (h : checked.Agrees plain) (wrap : ε → ε') :
    Agrees (checked.adapt wrap) (plain.mapError wrap) := by
  intro outcome houtcome
  rw [run_adapt] at houtcome
  obtain ⟨first, hfirst, rfl⟩ := Option.map_eq_some_iff.mp houtcome
  rw [h first hfirst]

theorem agrees_ofOption_bind {found : Option γ} {rest : γ → Checked ε α}
    (hrest : ∀ value, found = some value → (rest value).Agrees plain) :
    ((liftM found : Checked ε γ) >>= rest).Agrees plain := by
  intro outcome houtcome
  rw [run_bind, run_ofOption] at houtcome
  cases found with
  | none => simp at houtcome
  | some value => exact hrest value rfl outcome houtcome

theorem ofOption_bind_eq_some_iff {found : Option γ} {rest : γ → Checked ε α}
    {outcome : Except ε α} :
    ((liftM found : Checked ε γ) >>= rest).run = some outcome ↔
      ∃ value, found = some value ∧ (rest value).run = some outcome := by
  rw [run_bind, run_ofOption]
  cases found <;> simp

theorem run_ofOption_bind {value : γ} {rest : γ → Checked ε α} :
    ((liftM (some value) : Checked ε γ) >>= rest).run = (rest value).run := rfl

end Checked

end Blanking

import Mathlib.Data.Set.Function
import Mathlib.Order.Interval.Set.Defs
import Blanking.Proofs.Sampling.Lines

/-! # Rows and line numbers

Each sampled line has a row of its own in the buffer, and each row holds a line. A line whose number
is known is found again by that number. -/

namespace Blanking.Sampling

/-- The sampled lines, by field and index. -/
def lines (s : Sampling) : Set (Field × Nat) := {site | site.2 < s.count.on site.1}

variable {s : Sampling}

/-! ## Rows -/

theorem row_injective {field field' : Field} {index index' : Nat}
    (hindex : index < s.count.on field) (hindex' : index' < s.count.on field')
    (hrow : s.row field index = s.row field' index') : (field, index) = (field', index') := by
  unfold row at hrow
  split at hrow
  next => cases field <;> cases field' <;> simp [Field.index] at hrow ⊢ <;> omega
  next =>
    -- Rows of the second field begin where those of the first one end.
    cases field <;> cases field' <;>
      simp [PerField.on, position, base] at hindex hindex' hrow ⊢ <;> omega

theorem Valid.exists_row (h : s.Valid) {number : Nat} (hnumber : number < s.totalLines) :
    ∃ field, ∃ index < s.count.on field, s.row field index = number := by
  unfold row
  rw [totalLines] at hnumber
  split
  next hinterlaced =>
    have hcount := h.count_eq hinterlaced
    obtain heven | hodd := Nat.mod_two_eq_zero_or_one number
    · exact ⟨.first, number / 2, by rw [PerField.on]; omega, by rw [Field.index]; omega⟩
    · exact ⟨.second, number / 2, by rw [PerField.on]; omega, by rw [Field.index]; omega⟩
  next =>
    by_cases hfirst : number < s.count.first
    · exact ⟨.first, number, hfirst, Nat.zero_add number⟩
    · refine ⟨.second, number - s.count.first, by rw [PerField.on]; omega, ?_⟩
      rw [position, base]
      omega

theorem Valid.bijOn_row (h : s.Valid) :
    Set.BijOn (fun site => s.row site.1 site.2) s.lines (Set.Iio s.totalLines) := by
  refine ⟨fun site => h.row_lt, ?_, ?_⟩
  · rintro ⟨field, index⟩ hindex ⟨field', index'⟩ hindex' hrow
    exact row_injective hindex hindex' hrow
  · intro number hnumber
    obtain ⟨field, index, hindex, hrow⟩ := h.exists_row hnumber
    exact ⟨(field, index), hindex, hrow⟩

/-! ## Line numbers -/

theorem mem_of_locate? {line : Nat} {field : Field} {index : Nat}
    (hlocate : s.locate? line = some (field, index)) :
    0 < s.start.on field ∧ index < s.count.on field ∧ s.start.on field + index = line := by
  obtain ⟨found, hfind, hpair⟩ := Option.map_eq_some_iff.mp hlocate
  obtain ⟨rfl, rfl⟩ := Prod.mk.inj hpair
  have hfound := List.find?_some hfind
  simp only [Bool.and_eq_true, decide_eq_true_eq] at hfound
  omega

/-- Two lines of known numbers have different ones. -/
theorem Valid.start_add_injective (h : s.Valid) {field field' : Field} {index index' : Nat}
    (hstart : 0 < s.start.on field) (hstart' : 0 < s.start.on field')
    (hindex : index < s.count.on field) (hindex' : index' < s.count.on field')
    (hline : s.start.on field + index = s.start.on field' + index') :
    (field, index) = (field', index') := by
  cases field <;> cases field' <;> simp only [PerField.on] at hstart hstart' hindex hindex' hline
  · rw [Nat.add_left_cancel hline]
  · have hlt := h.start_first_add_lt hstart hstart' (Nat.zero_lt_of_lt hindex') hindex
    omega
  · have hlt := h.start_first_add_lt hstart' hstart (Nat.zero_lt_of_lt hindex) hindex'
    omega
  · rw [Nat.add_left_cancel hline]

theorem Valid.locate?_start_add (h : s.Valid) {field : Field} {index : Nat}
    (hstart : 0 < s.start.on field) (hindex : index < s.count.on field) :
    s.locate? (s.start.on field + index) = some (field, index) := by
  have hsome : (s.locate? (s.start.on field + index)).isSome := by
    rw [locate?, Option.isSome_map, List.find?_isSome]
    exact ⟨field, field.mem_all, by simp [hstart, hindex]⟩
  obtain ⟨⟨found, place⟩, hlocate⟩ := Option.isSome_iff_exists.mp hsome
  obtain ⟨hknown, hplace, hline⟩ := mem_of_locate? hlocate
  rw [hlocate, h.start_add_injective hknown hstart hplace hindex hline]

/-- Where the fields can be told apart, the line that is found under a number has that number. -/
theorem Valid.locate?_eq_some_iff (h : s.Valid) (hsync : s.synchronous = true) {line : Nat}
    {field : Field} {index : Nat} (hline : line ≠ 0) (hindex : index < s.count.on field) :
    s.locate? line = some (field, index) ↔ s.lineNumber field index = line := by
  rw [lineNumber, hsync, Bool.true_and]
  constructor
  · intro hlocate
    obtain ⟨hstart, _, hnumber⟩ := mem_of_locate? hlocate
    rw [if_pos (by simpa using hstart), hnumber]
  · intro hnumber
    split at hnumber
    next hstart =>
      rw [← hnumber]
      exact h.locate?_start_add (by simpa using hstart) hindex
    next => exact absurd hnumber.symm hline

/-! ## Lines of known numbers -/

/-- Whether a line of this number was sampled on a field. -/
def HasLine (s : Sampling) (field : Field) (line : Nat) : Prop :=
  0 < s.start.on field ∧ s.start.on field ≤ line ∧ line < s.start.on field + s.count.on field

theorem Valid.locate?_of_hasLine (h : s.Valid) {field : Field} {line : Nat}
    (hline : s.HasLine field line) :
    s.locate? line = some (field, line - s.start.on field) := by
  obtain ⟨hstart, hfirst, hlast⟩ := hline
  have hindex : line - s.start.on field < s.count.on field := by omega
  have hlocate := h.locate?_start_add hstart hindex
  rwa [Nat.add_sub_of_le hfirst] at hlocate

theorem Valid.eq_of_hasLine (h : s.Valid) {field field' : Field} {line : Nat}
    (hline : s.HasLine field line) (hline' : s.HasLine field' line) : field = field' := by
  have hlocate := h.locate?_of_hasLine hline
  rw [h.locate?_of_hasLine hline'] at hlocate
  exact (congrArg Prod.fst (Option.some.inj hlocate)).symm

end Blanking.Sampling

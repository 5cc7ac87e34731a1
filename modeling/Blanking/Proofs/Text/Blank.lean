import Mathlib.Data.List.Basic
import Mathlib.Data.List.DropRight
import Blanking.Text.Blank

/-! # Pieces of text

Text is cut at every separator, so what stands before one and what stands behind it are cut by
themselves. White space at the ends of a piece is never seen. -/

namespace Blanking.Text

/-! ## Pieces between separators -/

theorem split_eq_splitOn (separator : Char) (text : List Char) :
    split separator text = text.splitOn separator := by
  induction text with
  | nil => rfl
  | cons c rest ih =>
      rw [split, ih, List.splitOn_cons_eq_if_modifyHead]
      by_cases hc : c = separator
      · simp [hc]
      · rw [if_neg hc, if_neg (by simpa using hc)]
        cases hsplit : rest.splitOn separator with
        | nil => exact absurd hsplit (List.splitOn_ne_nil separator rest)
        | cons piece pieces => rfl

/-! ## Ends of a piece -/

theorem trim_eq (text : List Char) :
    trim text = (text.dropWhile isBlank).rdropWhile isBlank := rfl

@[simp]
theorem trim_trim (text : List Char) : trim (trim text) = trim text := by
  have hfront : (trim text).dropWhile isBlank = trim text := by
    rw [List.dropWhile_eq_self_iff]
    intro hpos hblank
    have hprefix : trim text <+: text.dropWhile isBlank := List.rdropWhile_prefix isBlank _
    have hdrop := hpos.trans_le hprefix.length_le
    refine List.dropWhile_get_zero_not isBlank text hdrop ?_
    rw [List.get_eq_getElem, ← hprefix.getElem hpos]
    exact hblank
  rw [trim_eq (trim text), hfront, trim_eq, List.rdropWhile_idempotent]

theorem trim_cons_of_blank {c : Char} (hc : isBlank c = true) (text : List Char) :
    trim (c :: text) = trim text := by
  rw [trim, trim, List.dropWhile_cons_of_pos hc]

theorem trim_eq_self {text : List Char} (h : ∀ c ∈ text, isBlank c = false) : trim text = text := by
  have hdrop {part : List Char} (hpart : ∀ c ∈ part, isBlank c = false) :
      part.dropWhile isBlank = part := by
    cases part with
    | nil => rfl
    | cons c rest =>
        exact List.dropWhile_cons_of_neg (by simpa using hpart c List.mem_cons_self)
  rw [trim, hdrop h, hdrop (fun c hc => h c (List.mem_reverse.mp hc)), List.reverse_reverse]

end Blanking.Text

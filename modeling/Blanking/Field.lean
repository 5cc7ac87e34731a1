/-! # The two fields of a frame

An interlaced frame is sent as two fields, one after the other. Whatever is known separately
for each of them is kept as a pair. -/

namespace Blanking

/-- One of the two fields of a frame. -/
inductive Field where
  | first
  | second
deriving DecidableEq, Repr

namespace Field

/-- Both fields in the order in which they are sent. -/
def all : List Field := [.first, .second]

/-- Fields are counted from zero. -/
def index : Field → Nat
  | .first => 0
  | .second => 1

/-- The number under which a reader of a report knows the field. -/
def number (field : Field) : Nat := field.index + 1

theorem mem_all (field : Field) : field ∈ all := by
  cases field <;> simp [all]

end Field

/-- A value for each field. -/
structure PerField (α : Type) where
  first : α
  second : α
deriving DecidableEq, Repr

namespace PerField

variable {α : Type}

def on (pair : PerField α) : Field → α
  | .first => pair.first
  | .second => pair.second

def both (value : α) : PerField α := ⟨value, value⟩

def modify (pair : PerField α) (field : Field) (change : α → α) : PerField α :=
  match field with
  | .first => { pair with first := change pair.first }
  | .second => { pair with second := change pair.second }

@[simp]
theorem on_both (value : α) (field : Field) : (both value).on field = value := by
  cases field <;> rfl

@[simp]
theorem on_modify_self (pair : PerField α) (field : Field) (change : α → α) :
    (pair.modify field change).on field = change (pair.on field) := by
  cases field <;> rfl

end PerField

end Blanking

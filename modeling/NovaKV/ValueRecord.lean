import NovaKV.Lib.LittleEndian

open NovaKV.Lib

namespace NovaKV

/-- Keys are byte strings, compared byte by byte as unsigned values. -/
abbrev Key := Bytes

inductive ValueType where
  | kValue
  | kDeletion
  deriving DecidableEq, Repr

structure ValueRecord where
  type : ValueType
  value : Bytes
  deriving DecidableEq, Repr

/-- What a reader sees of the newest record of a key: its value, or nothing when
there is no record or the record is a deletion. -/
def visible : Option ValueRecord → Option Bytes
  | some ⟨.kValue, value⟩ => some value
  | _ => none

@[simp] theorem visible_none : visible none = none := rfl

@[simp] theorem visible_value (value : Bytes) : visible (some ⟨.kValue, value⟩) = some value := rfl

@[simp] theorem visible_deletion (value : Bytes) : visible (some ⟨.kDeletion, value⟩) = none := rfl

/-- Below a newer record nothing older is seen. -/
theorem visible_or_congr {newer older other : Option ValueRecord}
    (h : newer = none → visible older = visible other) :
    visible (newer.or older) = visible (newer.or other) := by
  cases newer with
  | none => simpa using h rfl
  | some record => simp

/-- The record a table lookup reports: the stored one, with the value of a
deletion cleared. -/
def ValueRecord.cleared (record : ValueRecord) : ValueRecord :=
  match record.type with
  | .kValue => record
  | .kDeletion => ⟨.kDeletion, []⟩

@[simp] theorem visible_cleared (record : ValueRecord) :
    visible (some record.cleared) = visible (some record) := by
  obtain ⟨type, value⟩ := record
  cases type <;> rfl

@[simp] theorem visible_map_cleared (record : Option ValueRecord) :
    visible (record.map ValueRecord.cleared) = visible record := by
  cases record with
  | none => rfl
  | some record => exact visible_cleared record

@[simp] theorem ValueRecord.cleared_type (record : ValueRecord) : record.cleared.type = record.type := by
  obtain ⟨type, value⟩ := record
  cases type <;> rfl

end NovaKV

import NovaKV.Lib.Overwrite

open Std

namespace NovaKV

/-- One edit of the manifest, with the operands the operation uses. The level
operand exists only for `AddSST`; the other operations ignore it. -/
inductive ManifestEdit (ι : Type) where
  | SetNextFileNumber (next_file_number : ι)
  | AddSST (file_number : ι) (level : UInt32)
  | DelSST (file_number : ι)
  | AddWAL (wal_id : ι)
  | DelWAL (wal_id : ι)
  deriving DecidableEq, Repr

/-- The manifest in memory: the last allocated file number, the level of every
live table, and the logs that recovery replays. The two unordered containers
are compared as a map and as a set. -/
structure ManifestState (ι : Type) [Ord ι] where
  next_file_number : ι
  sst_levels : ExtTreeMap ι UInt32
  live_wals : ExtTreeSet ι

section

variable {ι : Type} [Ord ι] [TransOrd ι]

/-- The state of a freshly constructed manager. -/
def ManifestState.initial [OfNat ι 0] : ManifestState ι :=
  { next_file_number := 0, sst_levels := ∅, live_wals := ∅ }

def ManifestState.apply_edit (state : ManifestState ι) : ManifestEdit ι → ManifestState ι
  | .SetNextFileNumber id => { state with next_file_number := id }
  | .DelSST id => { state with sst_levels := state.sst_levels.erase id }
  | .AddWAL id => { state with live_wals := state.live_wals.insert id }
  | .DelWAL id => { state with live_wals := state.live_wals.erase id }
  | .AddSST id level => { state with sst_levels := state.sst_levels.insert id level }

/-- The state after a sequence of edits, oldest first. -/
def ManifestState.apply_edits (state : ManifestState ι) (edits : List (ManifestEdit ι)) :
    ManifestState ι :=
  edits.foldl ManifestState.apply_edit state

@[simp] theorem ManifestState.apply_edits_nil (state : ManifestState ι) :
    state.apply_edits [] = state := rfl

@[simp] theorem ManifestState.apply_edits_cons (state : ManifestState ι)
    (edit : ManifestEdit ι) (edits : List (ManifestEdit ι)) :
    state.apply_edits (edit :: edits) = (state.apply_edit edit).apply_edits edits := rfl

theorem ManifestState.apply_edits_append (state : ManifestState ι)
    (first second : List (ManifestEdit ι)) :
    state.apply_edits (first ++ second) = (state.apply_edits first).apply_edits second := by
  simp [apply_edits]

theorem ManifestState.apply_edits_concat (state : ManifestState ι)
    (edits : List (ManifestEdit ι)) (edit : ManifestEdit ι) :
    state.apply_edits (edits ++ [edit]) = (state.apply_edits edits).apply_edit edit := by
  simp [apply_edits_append]

/-- The independently writable parts of a manifest. -/
inductive ManifestCell (ι : Type) where
  | next
  | sst (file_number : ι)
  | wal (wal_id : ι)
  deriving DecidableEq

/-- What one part of a manifest holds. -/
inductive ManifestValue (ι : Type) where
  | number (n : ι)
  | level (level : Option UInt32)
  | live (live : Prop)

def ManifestState.read (state : ManifestState ι) : ManifestCell ι → ManifestValue ι
  | .next => .number state.next_file_number
  | .sst id => .level state.sst_levels[id]?
  | .wal id => .live (id ∈ state.live_wals)

def ManifestEdit.cell : ManifestEdit ι → ManifestCell ι
  | .SetNextFileNumber _ => .next
  | .AddSST id _ => .sst id
  | .DelSST id => .sst id
  | .AddWAL id => .wal id
  | .DelWAL id => .wal id

def ManifestEdit.value : ManifestEdit ι → ManifestValue ι
  | .SetNextFileNumber n => .number n
  | .AddSST _ level => .level (some level)
  | .DelSST _ => .level none
  | .AddWAL _ => .live True
  | .DelWAL _ => .live False

omit [Ord ι] [TransOrd ι] in
private theorem cell_ne_sst {id other : ι}
    (hne : ManifestCell.sst other ≠ ManifestCell.sst id) : id ≠ other := by
  rintro rfl
  exact hne rfl

omit [Ord ι] [TransOrd ι] in
private theorem cell_ne_wal {id other : ι}
    (hne : ManifestCell.wal other ≠ ManifestCell.wal id) : id ≠ other := by
  rintro rfl
  exact hne rfl

variable [LawfulEqOrd ι]

theorem ManifestState.ext_read {s t : ManifestState ι} (h : ∀ c, s.read c = t.read c) : s = t := by
  have hnext := h .next
  have hsst : s.sst_levels = t.sst_levels := by
    apply ExtTreeMap.ext_getElem?
    intro id
    simpa [read] using h (.sst id)
  have hwal : s.live_wals = t.live_wals := by
    apply ExtTreeSet.ext_mem
    intro id
    simpa [read] using h (.wal id)
  cases s
  cases t
  simp_all [read]

theorem ManifestState.read_apply_edit_self (edit : ManifestEdit ι) (state : ManifestState ι) :
    (state.apply_edit edit).read edit.cell = edit.value := by
  cases edit <;> simp [apply_edit, read, ManifestEdit.cell, ManifestEdit.value]

theorem ManifestState.read_apply_edit_other (edit : ManifestEdit ι) (state : ManifestState ι)
    (c : ManifestCell ι) (hne : c ≠ edit.cell) :
    (state.apply_edit edit).read c = state.read c := by
  cases edit with
  | SetNextFileNumber n => cases c <;> simp_all [apply_edit, read, ManifestEdit.cell]
  | AddSST id level =>
    cases c with
    | sst other => simp [apply_edit, read, ExtTreeMap.getElem?_insert, cell_ne_sst hne]
    | next => rfl
    | wal other => rfl
  | DelSST id =>
    cases c with
    | sst other => simp [apply_edit, read, ExtTreeMap.getElem?_erase, cell_ne_sst hne]
    | next => rfl
    | wal other => rfl
  | AddWAL id =>
    cases c with
    | wal other => simp [apply_edit, read, cell_ne_wal hne]
    | next => rfl
    | sst other => rfl
  | DelWAL id =>
    cases c with
    | wal other => simp [apply_edit, read, cell_ne_wal hne]
    | next => rfl
    | sst other => rfl

/-- Manifest edits overwrite cells, so the replay laws of `OverwriteModel` apply. -/
def manifestModel : Lib.OverwriteModel (ManifestState ι) (ManifestEdit ι)
    (ManifestCell ι) (ManifestValue ι) where
  apply edit state := state.apply_edit edit
  read := ManifestState.read
  cell := ManifestEdit.cell
  value := ManifestEdit.value
  read_apply_self := ManifestState.read_apply_edit_self
  read_apply_other := ManifestState.read_apply_edit_other
  ext _ _ := ManifestState.ext_read

/-- A snapshot that already contains a log replays that log to itself. -/
theorem ManifestState.apply_edits_idem (state : ManifestState ι) (edits : List (ManifestEdit ι)) :
    (state.apply_edits edits).apply_edits edits = state.apply_edits edits :=
  manifestModel.applyAll_idem edits state

end

end NovaKV

import NovaKV.Manifest.RoundTrip

open Std
open NovaKV.Lib

namespace NovaKV

/-- A little-endian number at a fixed place of a file. -/
def field (bytes : Bytes) (offset width : Nat) : Nat := leNat ((bytes.drop offset).take width)

/-- The file begins with a whole header of the right magic and version. -/
def HasHeader (bytes : Bytes) : Prop :=
  20 ≤ bytes.length ∧ field bytes 0 4 = kManifestMagic ∧ field bytes 4 4 = kManifestVersion

/-- The whole entries of a table list that should have `count`. -/
def listedTables (count : Nat) (stream : Bytes) : List (FileNumber × UInt32) :=
  (List.range (min count (stream.length / 12))).map fun i =>
    (UInt64.ofNat (field stream (12 * i) 8), UInt32.ofNat (field stream (12 * i + 8) 4))

/-- The whole entries of a log list that should have `count`. -/
def listedLogs (count : Nat) (stream : Bytes) : List FileNumber :=
  (List.range (min count (stream.length / 8))).map fun i => UInt64.ofNat (field stream (8 * i) 8)

/-- The state says what the readable part of a snapshot says: the next number, the
tables, and, if the table list is whole, the logs. -/
def ManifestState.Matches (state : ManifestState FileNumber) (bytes : Bytes) : Prop :=
  let count := field bytes 16 4
  state.next_file_number = UInt64.ofNat (field bytes 8 8) ∧
    state.sst_levels = (∅ : ExtTreeMap FileNumber UInt32).insertMany (listedTables count (bytes.drop 20)) ∧
    (20 + 12 * count ≤ bytes.length →
      state.live_wals = (∅ : ExtTreeSet FileNumber).insertMany
        (listedLogs (field bytes (20 + 12 * count) 4) (bytes.drop (24 + 12 * count))))

section

variable {bytes stream : Bytes}

theorem field_drop (bytes : Bytes) (start offset width : Nat) :
    field (bytes.drop start) offset width = field bytes (start + offset) width := by
  rw [field, field, List.drop_drop]

theorem readLE_eq_field (width : Nat) (stream : Bytes) : readLE width stream =
    if stream.length < width then none else some (field stream 0 width, stream.drop width) := by
  unfold readLE readBytes
  split <;> rfl

theorem load_sst_entry_eq (stream : Bytes) : load_sst_entry stream =
    if stream.length < 12 then none
    else some (UInt64.ofNat (field stream 0 8), UInt32.ofNat (field stream 8 4), stream.drop 12) := by
  unfold load_sst_entry
  rw [readLE_eq_field]
  by_cases hnumber : stream.length < 8
  · have hshort : stream.length < 12 := by omega
    simp [hnumber, hshort]
  · simp only [hnumber, if_false, Option.bind_eq_bind, Option.bind_some, readLE_eq_field, List.length_drop,
      field_drop, List.drop_drop]
    by_cases hlevel : stream.length < 12
    · have hrest : stream.length - 8 < 4 := by omega
      simp [hlevel, hrest]
    · have hrest : ¬ stream.length - 8 < 4 := by omega
      simp [hlevel, hrest]

theorem listedTables_succ (count : Nat) (h : 12 ≤ stream.length) :
    listedTables (count + 1) stream =
      (UInt64.ofNat (field stream 0 8), UInt32.ofNat (field stream 8 4)) ::
        listedTables count (stream.drop 12) := by
  have hcount : min (count + 1) (stream.length / 12) = min count ((stream.drop 12).length / 12) + 1 := by
    rw [List.length_drop]
    omega
  rw [listedTables, listedTables, hcount, List.range_succ_eq_map, List.map_cons, List.map_map]
  simp only [List.cons.injEq, true_and, Nat.mul_zero, Nat.zero_add]
  apply List.map_congr_left
  intro i _
  simp only [Function.comp, Nat.succ_eq_add_one, field_drop]
  congr 3
  all_goals omega

/-- The table loop reads the whole entries, and fails if there are too few. -/
theorem load_ssts_eq (count : Nat) (levels : ExtTreeMap FileNumber UInt32) (stream : Bytes) :
    load_ssts count levels stream = (levels.insertMany (listedTables count stream),
      if stream.length < 12 * count then none else some (stream.drop (12 * count))) := by
  induction count generalizing levels stream with
  | zero => simp [load_ssts, listedTables]
  | succ count ih =>
    rw [load_ssts, load_sst_entry_eq]
    by_cases hshort : stream.length < 12
    · have hnone : stream.length / 12 = 0 := by omega
      have hless : stream.length < 12 * (count + 1) := by omega
      simp [hshort, hless, listedTables, hnone]
    · simp only [hshort, if_false, ih, listedTables_succ count (Nat.le_of_not_lt hshort),
        ExtTreeMap.insertMany_cons, List.length_drop, List.drop_drop]
      have hiff : stream.length - 12 < 12 * count ↔ stream.length < 12 * (count + 1) := by omega
      simp only [hiff, show 12 + 12 * count = 12 * (count + 1) by omega]

theorem listedLogs_succ (count : Nat) (h : 8 ≤ stream.length) :
    listedLogs (count + 1) stream = UInt64.ofNat (field stream 0 8) :: listedLogs count (stream.drop 8) := by
  have hcount : min (count + 1) (stream.length / 8) = min count ((stream.drop 8).length / 8) + 1 := by
    rw [List.length_drop]
    omega
  rw [listedLogs, listedLogs, hcount, List.range_succ_eq_map, List.map_cons, List.map_map]
  simp only [List.cons.injEq, Nat.mul_zero, true_and]
  apply List.map_congr_left
  intro i _
  simp only [Function.comp, Nat.succ_eq_add_one, field_drop]
  congr 2
  omega

theorem load_wals_fst (count : Nat) (wals : ExtTreeSet FileNumber) (stream : Bytes) :
    (load_wals count wals stream).1 = wals.insertMany (listedLogs count stream) := by
  induction count generalizing wals stream with
  | zero => simp [load_wals, listedLogs]
  | succ count ih =>
    rw [load_wals, readLE_eq_field]
    by_cases hshort : stream.length < 8
    · have hnone : stream.length / 8 = 0 := by omega
      simp [hshort, listedLogs, hnone]
    · simp only [hshort, if_false, ih, listedLogs_succ count (Nat.le_of_not_lt hshort),
        ExtTreeSet.insertMany_cons]

theorem load_header_eq (bytes : Bytes) [Decidable (HasHeader bytes)] : load_header bytes =
    if HasHeader bytes then some (UInt64.ofNat (field bytes 8 8), field bytes 16 4, bytes.drop 20) else none := by
  unfold load_header
  simp only [readLE_eq_field, Option.bind_eq_bind]
  by_cases hmagic : bytes.length < 4
  · have hshort : ¬ HasHeader bytes := fun h => by have := h.1; omega
    simp [hmagic, hshort]
  by_cases hisMagic : field bytes 0 4 = kManifestMagic
  swap
  · have hother : ¬ HasHeader bytes := fun h => hisMagic h.2.1
    simp [hmagic, hisMagic, hother, guard]
  by_cases hversion : bytes.length < 8
  · have hshort : ¬ HasHeader bytes := fun h => by have := h.1; omega
    have hrest : bytes.length - 4 < 4 := by omega
    simp [hmagic, hisMagic, hshort, hrest, guard]
  have hrest : ¬ bytes.length - 4 < 4 := by omega
  by_cases hisVersion : field bytes 4 4 = kManifestVersion
  swap
  · have hother : ¬ HasHeader bytes := fun h => hisVersion h.2.2
    simp [hmagic, hisMagic, hrest, field_drop, hisVersion, hother, guard]
  by_cases hnext : bytes.length < 16
  · have hshort : ¬ HasHeader bytes := fun h => by have := h.1; omega
    have hless : bytes.length - 8 < 8 := by omega
    simp [hmagic, hisMagic, hrest, field_drop, hisVersion, hshort, hless, guard]
  have hless : ¬ bytes.length - 8 < 8 := by omega
  by_cases hcount : bytes.length < 20
  · have hshort : ¬ HasHeader bytes := fun h => by have := h.1; omega
    have hlast : bytes.length - 16 < 4 := by omega
    simp [hmagic, hisMagic, hrest, field_drop, hisVersion, hshort, hless, hlast, guard]
  · have hlast : ¬ bytes.length - 16 < 4 := by omega
    have hheader : HasHeader bytes := ⟨Nat.le_of_not_lt hcount, hisMagic, hisVersion⟩
    simp [hmagic, hisMagic, hrest, field_drop, hisVersion, hheader, hless, hlast, guard]

theorem ManifestState.mk_eq_iff {state : ManifestState FileNumber} {next_file_number : FileNumber}
    {sst_levels : ExtTreeMap FileNumber UInt32} {live_wals : ExtTreeSet FileNumber} :
    ({ next_file_number, sst_levels, live_wals } : ManifestState FileNumber) = state ↔
      state.next_file_number = next_file_number ∧ state.sst_levels = sst_levels ∧ state.live_wals = live_wals := by
  obtain ⟨next, levels, wals⟩ := state
  simp only [ManifestState.mk.injEq, eq_comm]

/-- `LoadState` changes nothing when it fails exactly where the state already says
what the file says: where there is no file or no whole header, and where the part that
can be read agrees with the state. -/
theorem load_state_rejected_unchanged_iff (state : ManifestState FileNumber) (manifest : Option Bytes)
    (hrejected : (load_state state manifest).1 = false) :
    (load_state state manifest).2 = state ↔
      ∀ bytes, manifest = some bytes → HasHeader bytes → state.Matches bytes := by
  classical
  cases manifest with
  | none => simp [load_state]
  | some bytes =>
    simp only [Option.some.injEq, forall_eq']
    by_cases hheader : HasHeader bytes
    swap
    · simp [load_state, load_header_eq, hheader]
    have hlength := hheader.1
    simp only [hheader, forall_const, ManifestState.Matches]
    simp only [load_state, load_header_eq, hheader, if_true, load_ssts_eq] at hrejected ⊢
    generalize field bytes 16 4 = count at *
    by_cases hshort : bytes.length < 20 + 12 * count
    · have hfew : (bytes.drop 20).length < 12 * count := by
        rw [List.length_drop]
        omega
      have hnot : ¬ 20 + 12 * count ≤ bytes.length := by omega
      simp only [hfew, if_true, hnot, false_implies, and_true]
      simp [ManifestState.mk_eq_iff]
    · have hmany : ¬ (bytes.drop 20).length < 12 * count := by
        rw [List.length_drop]
        omega
      have hwhole : 20 + 12 * count ≤ bytes.length := by omega
      simp only [hmany, if_false, readLE_eq_field, List.drop_drop, field_drop, Nat.add_zero, hwhole,
        forall_const] at hrejected ⊢
      by_cases hcut : (bytes.drop (20 + 12 * count)).length < 4
      · have hnone : listedLogs (field bytes (20 + 12 * count) 4) (bytes.drop (24 + 12 * count)) = [] := by
          have hempty : (bytes.drop (24 + 12 * count)).length = 0 := by
            rw [List.length_drop] at hcut ⊢
            omega
          simp [listedLogs, hempty]
        simp only [hcut, if_true, hnone, ManifestState.mk_eq_iff]
        rfl
      · have hstream : 20 + 12 * count + 4 = 24 + 12 * count := by omega
        simp only [hcut, if_false, hstream] at hrejected ⊢
        have hwals := load_wals_fst (field bytes (20 + 12 * count) 4) ∅ (bytes.drop (24 + 12 * count))
        split at hrejected
        · rename_i hloaded
          rw [hloaded] at hwals
          simp only [ManifestState.mk_eq_iff, ← hwals]
        · cases hrejected

/-- The snapshot of two tables. -/
def twoTables : ManifestState FileNumber where
  next_file_number := 7
  sst_levels := ((∅ : ExtTreeMap FileNumber UInt32).insert 3 0).insert 4 0
  live_wals := ∅

/-- What is left of its file when it is cut inside the second entry of the table list. -/
def cutTables : Bytes := (persist_state .forward twoTables).take 38

/-- A state that says what is left of the file says, and has a log besides, is not
changed by it. -/
theorem load_state_rejects_cut_tables :
    let state : ManifestState FileNumber :=
      { next_file_number := 7, sst_levels := (∅ : ExtTreeMap FileNumber UInt32).insert 3 0
        live_wals := (∅ : ExtTreeSet FileNumber).insert 5 }
    (load_state state (some cutTables)).1 = false ∧ (load_state state (some cutTables)).2 = state := by
  intro state
  have hrejected : (load_state state (some cutTables)).1 = false := by decide +kernel
  refine ⟨hrejected, (load_state_rejected_unchanged_iff _ _ hrejected).mpr ?_⟩
  rintro _ ⟨⟩ -
  have hlisted : listedTables (field cutTables 16 4) (cutTables.drop 20) = [(3, 0)] := by decide +kernel
  have hcut : ¬ 20 + 12 * field cutTables 16 4 ≤ cutTables.length := by decide +kernel
  refine ⟨by decide +kernel, ?_, fun hwhole => absurd hwhole hcut⟩
  rw [hlisted]
  rfl

/-- The initial state takes over the next number and the table whose entry is whole. -/
theorem load_state_takes_cut_tables :
    ¬ ∀ (state : ManifestState FileNumber) (manifest : Option Bytes),
      (load_state state manifest).1 = false → (load_state state manifest).2 = state := by
  intro hall
  have hunchanged := hall .initial (some cutTables) (by decide +kernel)
  have htaken : (3 : FileNumber) ∈ (load_state .initial (some cutTables)).2.sst_levels := by decide +kernel
  rw [hunchanged] at htaken
  exact ExtTreeMap.not_mem_empty htaken

end

end NovaKV

import NovaKV.Manifest.Codec

open Std
open NovaKV.Lib

namespace NovaKV

theorem ManifestEdit.op_u8_lt {ι : Type} (edit : ManifestEdit ι) : edit.op_u8 < 256 ^ 1 := by
  cases edit <;> simp [op_u8]

theorem ManifestEdit.payload_size_op (edit : ManifestEdit FileNumber) :
    payload_size edit.op_u8 = some edit.payload.length := by
  cases edit <;> simp [op_u8, payload_size, payload]

theorem ManifestEdit.payload_length_lt (edit : ManifestEdit FileNumber) :
    edit.payload.length < 256 ^ 4 := by
  cases edit <;> simp [payload]

theorem ManifestEdit.encode_length (edit : ManifestEdit FileNumber) :
    edit.encode.length = 13 + edit.payload.length := by
  simp [encode]
  omega

theorem read_payload_append (edit : ManifestEdit FileNumber) (rest : Bytes) :
    read_payload edit.op_u8 (edit.payload ++ rest) = some (edit, rest) := by
  cases edit <;>
    simp [read_payload, ManifestEdit.op_u8, ManifestEdit.payload,
      readLE_uint64, readLE_uint32]

/-- A complete record is read back as its edit, whatever follows it. -/
theorem replay_record_encode (edit : ManifestEdit FileNumber) (rest : Bytes) :
    replay_record (edit.encode ++ rest) = .edit edit rest := by
  simp only [replay_record, read_record_header, ManifestEdit.encode, List.append_assoc,
    readLE_leBytes _ (show kManifestMagic < 256 ^ 4 by decide),
    readLE_leBytes _ (show kManifestVersion < 256 ^ 4 by decide),
    readLE_leBytes _ edit.op_u8_lt, readLE_leBytes _ edit.payload_length_lt,
    Option.bind_eq_bind, Option.bind_some, edit.payload_size_op, read_payload_append]
  simp

private theorem read_payload_torn (edit : ManifestEdit FileNumber) {torn : Bytes}
    (hinit : torn <+: edit.payload) (hproper : torn ≠ edit.payload) :
    read_payload edit.op_u8 torn = none := by
  have hshort : torn.length < edit.payload.length :=
    Nat.lt_of_le_of_ne hinit.length_le fun heq => hproper (hinit.eq_of_length heq)
  cases edit with
  | AddSST id level =>
    rcases readLE_prefix_cases (show id.toNat < 256 ^ 8 from id.toNat_lt) hinit with hnone | ⟨tail, rfl, hread, htail⟩
    · simp [read_payload, hnone]
    · have htailShort : tail.length < 4 := by
        simp [ManifestEdit.payload] at hshort
        omega
      simp [read_payload, ManifestEdit.op_u8, hread, readLE_eq_none htailShort]
  | _ =>
    have hnone : readLE 8 torn = none := readLE_eq_none (by simpa [ManifestEdit.payload] using hshort)
    simp [read_payload, hnone]

/-- A record cut at any byte ends the replay without an error. -/
theorem replay_record_torn (edit : ManifestEdit FileNumber) {torn : Bytes}
    (hinit : torn <+: edit.encode) (hproper : torn ≠ edit.encode) :
    replay_record torn = .stop := by
  rcases readLE_prefix_cases (show kManifestMagic < 256 ^ 4 by decide) hinit
    with hmagic | ⟨afterMagic, rfl, hmagic, hinit⟩
  · simp [replay_record, hmagic]
  rcases readLE_prefix_cases (show kManifestVersion < 256 ^ 4 by decide) hinit
    with hversion | ⟨afterVersion, rfl, hversion, hinit⟩
  · simp [replay_record, hmagic, read_record_header, hversion]
  rcases readLE_prefix_cases edit.op_u8_lt hinit with hop | ⟨afterOp, rfl, hop, hinit⟩
  · simp [replay_record, hmagic, read_record_header, hversion, hop]
  rcases readLE_prefix_cases edit.payload_length_lt hinit with hsize | ⟨payload, rfl, hsize, hinit⟩
  · simp [replay_record, hmagic, read_record_header, hversion, hop, hsize]
  have htorn : payload ≠ edit.payload := by
    rintro rfl
    exact hproper rfl
  simp [replay_record, hmagic, read_record_header, hversion, hop, hsize, edit.payload_size_op,
    read_payload_torn edit hinit htorn]

/-- The replay loop applies every complete record and then continues with the
bytes after them. -/
theorem replay_loop_encode (edits : List (ManifestEdit FileNumber)) (fuel : Nat)
    (state : ManifestState FileNumber) (rest : Bytes) :
    replay_loop (edits.length + fuel) state (edits.flatMap ManifestEdit.encode ++ rest) =
      replay_loop fuel (state.apply_edits edits) rest := by
  induction edits generalizing state with
  | nil => simp
  | cons edit edits ih =>
    have hfuel : (edit :: edits).length + fuel = edits.length + fuel + 1 := by
      simp only [List.length_cons]
      omega
    rw [hfuel, replay_loop]
    simp only [List.flatMap_cons, List.append_assoc, replay_record_encode]
    exact ih (state.apply_edit edit)

theorem length_le_flatMap_encode (edits : List (ManifestEdit FileNumber)) :
    edits.length ≤ (edits.flatMap ManifestEdit.encode).length := by
  induction edits with
  | nil => simp
  | cons edit edits ih =>
    have := edit.encode_length
    simp only [List.length_cons, List.flatMap_cons, List.length_append]
    omega

theorem replay_loop_of_stop {stream : Bytes} (hstop : replay_record stream = .stop) (fuel : Nat)
    (state : ManifestState FileNumber) : replay_loop fuel state stream = (true, state) := by
  cases fuel <;> simp [replay_loop, hstop]

/-- A log of complete records with a torn tail replays to exactly the complete
records. -/
theorem ManifestManager.replay_log_torn (self : ManifestManager FileNumber) (manifest : Option Bytes)
    (edits : List (ManifestEdit FileNumber)) {tail : Bytes} (hstop : replay_record tail = .stop) :
    self.replay_log ⟨manifest, some (edits.flatMap ManifestEdit.encode ++ tail)⟩ =
      (true, { self with state := self.state.apply_edits edits }) := by
  have hlength := length_le_flatMap_encode edits
  obtain ⟨fuel, hfuel⟩ : ∃ fuel, (edits.flatMap ManifestEdit.encode ++ tail).length =
      edits.length + fuel := by
    refine ⟨(edits.flatMap ManifestEdit.encode ++ tail).length - edits.length, ?_⟩
    simp only [List.length_append]
    omega
  simp only [replay_log, hfuel, replay_loop_encode, replay_loop_of_stop hstop]

theorem replay_record_nil : replay_record [] = .stop := by
  simp [replay_record, readLE, readBytes]

private theorem load_sst_entry_encode (entry : FileNumber × UInt32) (rest : Bytes) :
    load_sst_entry (encode_sst_entry entry ++ rest) = some (entry.1, entry.2, rest) := by
  simp [load_sst_entry, encode_sst_entry, readLE_uint64,
    readLE_uint32]

private theorem load_ssts_encode (entries : List (FileNumber × UInt32))
    (levels : ExtTreeMap FileNumber UInt32) (rest : Bytes) :
    load_ssts entries.length levels (entries.flatMap encode_sst_entry ++ rest) =
      (levels.insertMany entries, some rest) := by
  induction entries generalizing levels with
  | nil => simp [load_ssts]
  | cons entry entries ih =>
    obtain ⟨file_number, level⟩ := entry
    simp only [List.length_cons, load_ssts, List.flatMap_cons, List.append_assoc,
      load_sst_entry_encode, ih, ExtTreeMap.insertMany_cons]

private theorem load_wals_encode (ids : List FileNumber) (wals : ExtTreeSet FileNumber) (rest : Bytes) :
    load_wals ids.length wals (ids.flatMap (fun wal_id => leBytes 8 wal_id.toNat) ++ rest) =
      (wals.insertMany ids, some rest) := by
  induction ids generalizing wals with
  | nil => simp [load_wals]
  | cons id ids ih =>
    simp only [List.length_cons, load_wals, List.flatMap_cons, List.append_assoc,
      readLE_uint64, UInt64.ofNat_toNat, ih, ExtTreeSet.insertMany_cons]

private theorem insertMany_toList_map (levels : ExtTreeMap FileNumber UInt32) :
    (∅ : ExtTreeMap FileNumber UInt32).insertMany levels.toList = levels := by
  apply ExtTreeMap.ext_getElem?
  intro id
  cases hid : levels[id]? with
  | some level =>
    exact ExtTreeMap.getElem?_insertMany_list_of_mem (by simp) ExtTreeMap.distinct_keys_toList
      (ExtTreeMap.mem_toList_iff_getElem?_eq_some.mpr hid)
  | none =>
    rw [ExtTreeMap.getElem?_insertMany_list_of_contains_eq_false]
    · simp
    · simpa using hid

private theorem insertMany_perm_set (wals : ExtTreeSet FileNumber) {ids : List FileNumber}
    (hperm : ids.Perm wals.toList) : (∅ : ExtTreeSet FileNumber).insertMany ids = wals := by
  apply ExtTreeSet.ext_mem
  intro id
  simp [ExtTreeSet.mem_insertMany_list, hperm.mem_iff]

/-- A snapshot is loaded back exactly, for every iteration order of the log set,
as long as the two counts fit their 32-bit fields. -/
theorem load_state_persist_state (before state : ManifestState FileNumber)
    (order : IterationOrder FileNumber) (hssts : state.sst_levels.size < 2 ^ 32)
    (hwals : state.live_wals.size < 2 ^ 32) :
    load_state before (some (persist_state order state)) = (true, state) := by
  have hids : (order.list state.live_wals.toList).length = state.live_wals.size := by
    rw [order.length_list, ExtTreeSet.length_toList]
  have hloadSsts := load_ssts_encode state.sst_levels.toList ∅
  have hloadWals := load_wals_encode (order.list state.live_wals.toList) ∅ []
  simp only [ExtTreeMap.length_toList, insertMany_toList_map] at hloadSsts
  simp only [hids, insertMany_perm_set state.live_wals (order.perm _), List.append_nil] at hloadWals
  have hheader : ∀ rest, load_header (leBytes 4 kManifestMagic ++ (leBytes 4 kManifestVersion ++
      (leBytes 8 state.next_file_number.toNat ++ (leBytes 4 state.sst_levels.size ++ rest)))) =
      some (state.next_file_number, state.sst_levels.size, rest) := by
    intro rest
    simp [load_header, readLE_leBytes _ (show kManifestMagic < 256 ^ 4 by decide),
      readLE_leBytes _ (show kManifestVersion < 256 ^ 4 by decide),
      readLE_uint64, readLE_leBytes _ (show _ < 256 ^ 4 from hssts)]
  simp only [load_state, persist_state, hheader, hloadSsts,
    readLE_leBytes _ (show state.live_wals.size < 256 ^ 4 from hwals), hloadWals]

end NovaKV

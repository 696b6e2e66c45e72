import NovaKV.Manifest.RoundTrip

open Std
open NovaKV.Lib

namespace NovaKV

/-- Four bytes whose first is not the first byte of the magic number are rejected. -/
theorem replay_record_fail_of_first {first second third fourth : UInt8} (rest : Bytes)
    (hfirst : first ≠ 0x78) :
    replay_record (first :: second :: third :: fourth :: rest) = .fail := by
  have hread : readLE 4 (first :: second :: third :: fourth :: rest) =
      some (leNat [first, second, third, fourth], rest) :=
    readLE_append_of_length rest (show ([first, second, third, fourth] : Bytes).length = 4 from rfl)
  have hmagic : leNat [first, second, third, fourth] ≠ kManifestMagic := by
    intro heq
    have hlow : first.toNat = 0x78 := by
      have := first.toNat_lt
      simp only [leNat, kManifestMagic] at heq
      omega
    exact hfirst (UInt8.toNat.inj hlow)
  simp [replay_record, hread, hmagic]

/-- Operands of any content are accepted once enough bytes follow the header. -/
theorem read_payload_eq_some {op size : Nat} {stream : Bytes} (hsize : payload_size op = some size)
    (hlength : size ≤ stream.length) : ∃ edit, read_payload op stream = some (edit, stream.drop size) := by
  have hread : ∀ width (s : Bytes), width ≤ s.length →
      readLE width s = some (leNat (s.take width), s.drop width) := by
    intro width s hs
    simp [readLE, readBytes, Nat.not_lt.mpr hs]
  unfold payload_size at hsize
  split at hsize <;> simp only [Option.some.injEq, reduceCtorEq] at hsize <;> subst hsize
  case h_2 =>
    have hrest : 4 ≤ (stream.drop 8).length := by
      rw [List.length_drop]
      omega
    simp [read_payload, hread 8 stream (by omega), hread 4 _ hrest]
  all_goals simp [read_payload, hread 8 stream hlength]

/-- The thirteen header bytes of a record. -/
theorem ManifestEdit.encode_eq (edit : ManifestEdit FileNumber) :
    ∃ op size : UInt8, edit.encode = [0x78, 0x56, 0x34, 0x12, 1, 0, 0, 0, op, size, 0, 0, 0] ++ edit.payload ∧
      payload_size op.toNat = some size.toNat ∧ edit.payload.length = size.toNat := by
  have hmagic : leBytes 4 kManifestMagic = [0x78, 0x56, 0x34, 0x12] := by decide
  have hversion : leBytes 4 kManifestVersion = [1, 0, 0, 0] := by decide
  have hshort : leBytes 4 8 = [8, 0, 0, 0] := by decide
  have hlong : leBytes 4 12 = [12, 0, 0, 0] := by decide
  cases edit with
  | SetNextFileNumber id => exact ⟨1, 8, by simp [encode, payload, hmagic, hversion, hshort]; rfl, rfl, rfl⟩
  | AddSST id level => exact ⟨2, 12, by simp [encode, payload, hmagic, hversion, hlong]; rfl, rfl, rfl⟩
  | DelSST id => exact ⟨3, 8, by simp [encode, payload, hmagic, hversion, hshort]; rfl, rfl, rfl⟩
  | AddWAL id => exact ⟨4, 8, by simp [encode, payload, hmagic, hversion, hshort]; rfl, rfl, rfl⟩
  | DelWAL id => exact ⟨5, 8, by simp [encode, payload, hmagic, hversion, hshort]; rfl, rfl, rfl⟩

private theorem readLE_four (a b c d : UInt8) (rest : Bytes) :
    readLE 4 (a :: b :: c :: d :: rest) = some (leNat [a, b, c, d], rest) :=
  readLE_append_of_length rest (show ([a, b, c, d] : Bytes).length = 4 from rfl)

private theorem readLE_one (a : UInt8) (rest : Bytes) :
    readLE 1 (a :: rest) = some (a.toNat, rest) := by
  simpa [leNat] using readLE_append_of_length rest (show ([a] : Bytes).length = 1 from rfl)

/-- A record cut inside its header and followed by another header is rejected:
some field of the mixture has an impossible value at every cut. -/
theorem replay_record_torn_header {torn payload : Bytes} {op size nextOp nextSize : UInt8}
    (rest : Bytes) (hop : payload_size op.toNat = some size.toNat)
    (hinit : torn <+: [0x78, 0x56, 0x34, 0x12, 1, 0, 0, 0, op, size, 0, 0, 0] ++ payload)
    (hlength : torn.length < 13) (hnonempty : torn ≠ []) :
    replay_record (torn ++ ([0x78, 0x56, 0x34, 0x12, 1, 0, 0, 0, nextOp, nextSize, 0, 0, 0] ++ rest)) =
      .fail := by
  have hpositive : 0 < torn.length := List.length_pos_iff.mpr hnonempty
  have htorn := List.prefix_iff_eq_take.mp hinit
  generalize torn.length = length at hlength hpositive htorn
  subst htorn
  have hsize : size.toNat < 256 := size.toNat_lt
  have hnext : nextOp.toNat < 256 := nextOp.toNat_lt
  interval_cases length <;>
    simp [replay_record, read_record_header, readLE_four, readLE_one, leNat, kManifestMagic, hop,
      show payload_size 1 = some 8 from rfl, show payload_size 18 = none from rfl,
      show payload_size 52 = none from rfl, show payload_size 86 = none from rfl,
      show payload_size 120 = none from rfl] <;> omega

theorem payload_size_cases {op size : Nat} (h : payload_size op = some size) :
    size = 8 ∨ size = 12 := by
  unfold payload_size at h
  split at h <;> simp_all

/-- No later offset of a record, up to the largest payload, looks like the start
of a record. -/
theorem replay_record_fail_inside {op size : UInt8} {payload : Bytes} (rest : Bytes)
    (hop : payload_size op.toNat = some size.toNat) (hpayload : 8 ≤ payload.length)
    {offset : Nat} (hpositive : 0 < offset) (hle : offset ≤ 12) :
    replay_record (([0x78, 0x56, 0x34, 0x12, 1, 0, 0, 0, op, size, 0, 0, 0] ++
      (payload ++ rest)).drop offset) = .fail := by
  have hopNe : op ≠ 0x78 := by
    rintro rfl
    exact absurd hop (by simp [payload_size])
  have hsizeNe : size ≠ 0x78 := by
    rintro rfl
    rcases payload_size_cases hop with h | h <;> simp at h
  obtain ⟨a, b, c, tail, rfl⟩ : ∃ a b c tail, payload = a :: b :: c :: tail := by
    rcases payload with _ | ⟨a, _ | ⟨b, _ | ⟨c, tail⟩⟩⟩
    · simp at hpayload
    · simp at hpayload
    · simp at hpayload
    · exact ⟨a, b, c, tail, rfl⟩
  interval_cases offset <;> exact replay_record_fail_of_first _ (by first | decide | assumption)

/-- A nonempty torn record followed by a complete one makes the replay fail, at
once or after one record made of bytes of both. -/
theorem replay_record_poisoned (edit next : ManifestEdit FileNumber) {torn : Bytes} (rest : Bytes)
    (hinit : torn <+: edit.encode) (hproper : torn ≠ edit.encode) (hnonempty : torn ≠ []) :
    replay_record (torn ++ (next.encode ++ rest)) = .fail ∨
      ∃ mixed after, replay_record (torn ++ (next.encode ++ rest)) = .edit mixed after ∧
        replay_record after = .fail := by
  obtain ⟨op, size, hencode, hop, hsize⟩ := edit.encode_eq
  obtain ⟨nextOp, nextSize, hnext, hnextOp, hnextSize⟩ := next.encode_eq
  rw [hencode] at hinit hproper
  rw [hnext, List.append_assoc]
  rcases prefix_append_cases hinit with hshort | ⟨tail, rfl, htail⟩
  · left
    exact replay_record_torn_header _ hop hinit (by simpa using hshort) hnonempty
  · right
    have htailLength : tail.length < size.toNat := by
      have hle := htail.length_le
      have hne : tail.length ≠ edit.payload.length := fun heq =>
        hproper (by rw [htail.eq_of_length heq])
      omega
    have hsizeLe : size.toNat ≤ 12 := by rcases payload_size_cases hop with h | h <;> omega
    have hnextPayload : 8 ≤ next.payload.length := by
      rcases payload_size_cases hnextOp with h | h <;> omega
    generalize hfollow : [0x78, 0x56, 0x34, 0x12, 1, 0, 0, 0, nextOp, nextSize, 0, 0, 0] ++
      (next.payload ++ rest) = follow
    have hfollowLength : 12 ≤ follow.length := by
      rw [← hfollow]
      simp
    have hlength : size.toNat ≤ (tail ++ follow).length := by
      rw [List.length_append]
      omega
    obtain ⟨mixed, hmixed⟩ := read_payload_eq_some hop hlength
    refine ⟨mixed, (tail ++ follow).drop size.toNat, ?_, ?_⟩
    · simp [replay_record, read_record_header, readLE_four, readLE_one, leNat, kManifestMagic,
        kManifestVersion, hop, hmixed]
    · rw [List.drop_append, List.drop_eq_nil_of_le (by omega), List.nil_append, ← hfollow]
      exact replay_record_fail_inside rest hnextOp hnextPayload (by omega) (by omega)

end NovaKV

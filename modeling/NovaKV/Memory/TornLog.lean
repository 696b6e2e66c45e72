import NovaKV.Memory.LogFile

open NovaKV.Lib

namespace NovaKV

/-- A buffer over which as many bytes as there are have been read. -/
def filled (kept buffer : Bytes) : Bytes := kept.take buffer.length ++ buffer.drop kept.length

/-- The record at the front of a body that may be cut short: missing bytes of a
scalar are those of the local variable, missing bytes of a string are zero. -/
def padded (locals : Uninitialized) (kept : Bytes) : LogRecord :=
  let k_len := leNat (filled (kept.drop 1) (leBytes 4 locals.k_len.toNat))
  let v_len := leNat (filled (kept.drop (5 + k_len)) (leBytes 4 locals.v_len.toNat))
  (kept.headD locals.t, filled (kept.drop 5) (List.replicate k_len 0),
    filled (kept.drop (9 + k_len)) (List.replicate v_len 0))

section

variable {locals : Uninitialized} {kept buffer : Bytes} {src : InputStream}

@[simp] theorem filled_length (kept buffer : Bytes) : (filled kept buffer).length = buffer.length := by
  rw [filled, List.length_append, List.length_take, List.length_drop]
  omega

theorem filled_nil (buffer : Bytes) : filled [] buffer = buffer := by simp [filled]

/-- A stream that has failed is at its end. -/
def InputStream.Exhausted (src : InputStream) : Prop := src.good = false → src.rest = []

/-- The stream behind a read. -/
def InputStream.behind (src : InputStream) (count : Nat) : InputStream :=
  ⟨src.rest.drop count, src.good && decide (count ≤ src.rest.length)⟩

theorem InputStream.Exhausted.behind (h : src.Exhausted) (count : Nat) : (src.behind count).Exhausted := by
  intro hbad
  simp only [InputStream.behind, Bool.and_eq_false_iff, decide_eq_false_iff_not, not_le] at hbad
  rcases hbad with hbad | hshort
  · simp [InputStream.behind, h hbad]
  · exact List.drop_eq_nil_iff.mpr hshort.le

theorem InputStream.Exhausted.read (h : src.Exhausted) (buffer : Bytes) :
    src.read buffer = (filled src.rest buffer, src.behind buffer.length) := by
  unfold InputStream.read
  cases hgood : src.good with
  | true => simp [InputStream.behind, filled, hgood]
  | false =>
    obtain ⟨rest, good⟩ := src
    cases hgood
    cases (show rest = [] from h rfl)
    simp [InputStream.behind, filled_nil]

/-- The body is read as the padded record, and the stream is still good only if
nothing was missing. -/
theorem load_body_padded (locals : Uninitialized) (kept : Bytes) :
    (load_body locals ⟨kept, true⟩).1 = padded locals kept ∧
      (load_body locals ⟨kept, true⟩).2.1 = (padded locals kept).payload ∧
      ((load_body locals ⟨kept, true⟩).2.2.good = true → (padded locals kept).payload.length ≤ kept.length) := by
  have hstart : InputStream.Exhausted ⟨kept, true⟩ := fun h => by cases h
  simp only [load_body, hstart.read, (hstart.behind _).read, ((hstart.behind _).behind _).read,
    (((hstart.behind _).behind _).behind _).read, ((((hstart.behind _).behind _).behind _).behind _).read]
  simp only [InputStream.behind, List.drop_drop, List.length_drop, List.length_singleton, leBytes_length,
    List.length_replicate, Bool.true_and, Bool.and_eq_true, decide_eq_true_eq]
  let k_field := filled (kept.drop 1) (leBytes 4 locals.k_len.toNat)
  let v_field := filled (kept.drop (1 + 4 + leNat k_field)) (leBytes 4 locals.v_len.toNat)
  have hk : leBytes 4 (leNat k_field) = k_field := by simpa [k_field] using leBytes_leNat k_field
  have hv : leBytes 4 (leNat v_field) = v_field := by simpa [v_field] using leBytes_leNat v_field
  have hhead : filled kept [locals.t] = [kept.headD locals.t] := by cases kept <;> simp [filled]
  have hpadded : padded locals kept = (kept.headD locals.t,
      filled (kept.drop (1 + 4)) (List.replicate (leNat k_field) 0),
      filled (kept.drop (1 + 4 + leNat k_field + 4)) (List.replicate (leNat v_field) 0)) := by
    rw [show 1 + 4 + leNat k_field + 4 = 9 + leNat k_field by omega]
    rfl
  rw [hpadded]
  refine ⟨?_, ?_, ?_⟩
  · rw [hhead]
    rfl
  · rw [hhead, LogRecord.payload, log_payload, filled_length, filled_length, List.length_replicate,
      List.length_replicate, hk, hv]
    rfl
  · intro hgood
    change (((1 ≤ kept.length ∧ 4 ≤ kept.length - 1) ∧ leNat k_field ≤ kept.length - (1 + 4)) ∧
      4 ≤ kept.length - (1 + 4 + leNat k_field)) ∧
        leNat v_field ≤ kept.length - (1 + 4 + leNat k_field + 4) at hgood
    simp only [LogRecord.payload, log_payload, List.length_cons, List.length_append, leBytes_length,
      filled_length, List.length_replicate]
    omega

theorem padded_fits (locals : Uninitialized) (kept : Bytes) : (padded locals kept).Fits := by
  simp only [padded, LogRecord.Fits, filled_length, List.length_replicate]
  have hlow : ∀ kept buffer : Bytes, buffer.length = 4 → leNat (filled kept buffer) < 2 ^ 32 := by
    intro kept buffer hlength
    simpa only [filled_length, hlength] using leNat_lt (filled kept buffer)
  exact ⟨hlow _ _ (leBytes_length _ _), hlow _ _ (leBytes_length _ _)⟩

theorem load_record_of_bad (hbad : src.good = false) : load_record locals src = none := by
  simp [load_record, hbad]

theorem load_record_of_short {rest : Bytes} (hshort : rest.length < 4) :
    load_record locals ⟨rest, true⟩ = none := by
  have hread : ((InputStream.read ⟨rest, true⟩ (List.replicate 4 0)).2).good = false := by
    simpa [InputStream.read] using hshort
  simp only [load_record, hread, Bool.not_false, if_true, ite_self]

/-- A pass of the loop on at least a whole checksum. -/
theorem load_record_of_checksum {rest : Bytes} (hlong : 4 ≤ rest.length) :
    load_record locals ⟨rest, true⟩ =
      if (calculate_crc32 (padded locals (rest.drop 4)).payload).toNat ≠ leNat (rest.take 4) then none
      else some (padded locals (rest.drop 4), (load_body locals ⟨rest.drop 4, true⟩).2.2) := by
  obtain ⟨hcall, hbody, -⟩ := load_body_padded locals (rest.drop 4)
  have hlength : (rest.take 4).length = (List.replicate 4 (0 : UInt8)).length := by
    rw [List.length_take, List.length_replicate]
    omega
  have hread : InputStream.read ⟨rest, true⟩ (List.replicate 4 0) = (rest.take 4, ⟨rest.drop 4, true⟩) := by
    have happend := @InputStream.read_append _ (rest.drop 4) _ hlength
    rwa [List.take_append_drop] at happend
  have hnonempty : rest.isEmpty = false := by
    rw [List.isEmpty_eq_false_iff]
    rintro rfl
    simp at hlong
  simp only [load_record, hread, hnonempty, hcall, hbody, Bool.not_true, Bool.false_or, Bool.false_eq_true,
    if_false]

theorem load_record_fits {record : LogRecord} {after : InputStream}
    (h : load_record locals src = some (record, after)) : record.Fits := by
  obtain ⟨rest, good⟩ := src
  cases good with
  | false =>
    rw [load_record_of_bad rfl] at h
    cases h
  | true =>
    by_cases hlong : 4 ≤ rest.length
    · rw [load_record_of_checksum hlong] at h
      split at h
      · cases h
      · cases h
        exact padded_fits locals _
    · rw [load_record_of_short (by omega)] at h
      cases h

theorem delivered_fits {record : LogRecord} (h : record ∈ delivered locals src) : record.Fits := by
  induction hlength : src.rest.length using Nat.strong_induction_on generalizing src with
  | _ n ih =>
    cases hrecord : load_record locals src with
    | none =>
      rw [delivered_of_none hrecord] at h
      cases h
    | some found =>
      obtain ⟨first, after⟩ := found
      rw [delivered_of_some hrecord] at h
      rcases List.mem_cons.mp h with rfl | hlater
      · exact load_record_fits hrecord
      · exact ih _ (hlength ▸ load_record_lt hrecord) hlater rfl

/-- Nothing is read behind a record that was cut short. -/
theorem delivered_behind_torn {record : LogRecord} (hcut : kept.length < record.payload.length)
    (hsame : padded locals kept = record) :
    delivered locals (load_body locals ⟨kept, true⟩).2.2 = [] := by
  refine delivered_of_none (load_record_of_bad ?_)
  by_contra hgood
  have hwhole := (load_body_padded locals kept).2.2 (by simpa using hgood)
  rw [hsame] at hwhole
  omega

theorem delivered_torn_record_iff (locals : Uninitialized) (last : LogRecord) {cut : Nat}
    (hcut : cut < last.encoded.length) :
    delivered locals ⟨last.encoded.take cut, true⟩ <+: [last] ↔
      cut < 4 ∨
        calculate_crc32 (padded locals (last.payload.take (cut - 4))).payload ≠ calculate_crc32 last.payload ∨
        padded locals (last.payload.take (cut - 4)) = last := by
  have hcrc : (leBytes 4 (calculate_crc32 last.payload).toNat).length = 4 := leBytes_length _ _
  have hencoded : last.encoded = leBytes 4 (calculate_crc32 last.payload).toNat ++ last.payload := rfl
  have hpayload : last.encoded.length = 4 + last.payload.length := by rw [hencoded, List.length_append, hcrc]
  by_cases hshort : cut < 4
  · have hlength : (last.encoded.take cut).length < 4 := by
      rw [List.length_take]
      omega
    simp only [delivered_of_none (load_record_of_short hlength), hshort, List.nil_prefix, true_or]
  · have hlength : 4 ≤ (last.encoded.take cut).length := by
      rw [List.length_take]
      omega
    have htake : (last.encoded.take cut).take 4 = leBytes 4 (calculate_crc32 last.payload).toNat := by
      rw [List.take_take, Nat.min_eq_left (by omega), hencoded, List.take_left' hcrc]
    have hdrop : (last.encoded.take cut).drop 4 = last.payload.take (cut - 4) := by
      rw [List.drop_take, hencoded, List.drop_left' hcrc]
    have hpass := @load_record_of_checksum locals _ hlength
    rw [htake, hdrop, leNat_leBytes_of_lt (UInt32.toNat_lt _)] at hpass
    simp only [hshort, false_or]
    by_cases hsum : calculate_crc32 (padded locals (last.payload.take (cut - 4))).payload =
        calculate_crc32 last.payload
    · rw [if_neg (by simp [hsum])] at hpass
      rw [delivered_of_some hpass]
      simp only [hsum, ne_eq, not_true, false_or]
      constructor
      · intro hinit
        exact (List.cons_prefix_cons.mp hinit).1
      · intro hsame
        have hkept : (last.payload.take (cut - 4)).length < last.payload.length := by
          rw [List.length_take]
          omega
        rw [delivered_behind_torn hkept hsame, hsame]
    · rw [if_pos fun h => hsum (UInt32.toNat_inj.mp h)] at hpass
      simp only [delivered_of_none hpass, List.nil_prefix, hsum, ne_eq, not_false_eq_true, true_or]

/-- What a log delivers when the file ends inside its last record: the earlier
records, and the last one or nothing, exactly if the earlier ones fit their length
fields and the cut record, padded, has another checksum or is the same again. -/
theorem delivered_torn_iff (locals : Uninitialized) (earlier : List LogRecord) (last : LogRecord) {cut : Nat}
    (hcut : 0 < cut ∧ cut < last.encoded.length) :
    (earlier <+: delivered locals ⟨log_file earlier ++ last.encoded.take cut, true⟩ ∧
      delivered locals ⟨log_file earlier ++ last.encoded.take cut, true⟩ <+: earlier ++ [last]) ↔
    (∀ record ∈ earlier, record.Fits) ∧
      (cut < 4 ∨
        calculate_crc32 (padded locals (last.payload.take (cut - 4))).payload ≠ calculate_crc32 last.payload ∨
        padded locals (last.payload.take (cut - 4)) = last) := by
  by_cases hfits : ∀ record ∈ earlier, record.Fits
  · rw [delivered_log_file hfits, List.prefix_append_right_inj]
    rw [and_iff_right (List.prefix_append _ _), and_iff_right hfits]
    exact delivered_torn_record_iff locals last hcut.2
  · have hmissing : ¬ earlier <+: delivered locals ⟨log_file earlier ++ last.encoded.take cut, true⟩ :=
      fun hinit => hfits fun record hrecord => delivered_fits (hinit.subset hrecord)
    simp only [hmissing, hfits, false_and]

end

/-- A value cut off whose zeros do not have the checksum of the value, behind another record. -/
theorem delivered_torn_without_value :
    [(1, [96], [97, 98])] <+:
        delivered ⟨0, 0, 0⟩ ⟨log_file [(1, [96], [97, 98])] ++ (LogRecord.encoded (1, [97], [98])).take 14, true⟩ ∧
      delivered ⟨0, 0, 0⟩ ⟨log_file [(1, [96], [97, 98])] ++ (LogRecord.encoded (1, [97], [98])).take 14, true⟩ <+:
        [(1, [96], [97, 98]), (1, [97], [98])] := by
  have hcut : 0 < 14 ∧ 14 < (LogRecord.encoded (1, [97], [98])).length := by decide
  have hfits : ∀ record ∈ [(1, [96], [97, 98])], LogRecord.Fits record := by
    rintro _ (_ | ⟨_, ⟨⟩⟩)
    exact ⟨by decide, by decide⟩
  refine (delivered_torn_iff ⟨0, 0, 0⟩ [(1, [96], [97, 98])] (1, [97], [98]) hcut).mpr ⟨hfits, .inr (.inl ?_)⟩
  decide +kernel

/-- A value that is a multiple of the checksum's polynomial has the checksum of
zeros: cut off in front of its value, the record is delivered with zeros in it. -/
theorem delivered_torn_invents_record :
    ¬ delivered ⟨0, 0, 0⟩ ⟨(LogRecord.encoded (1, [97], [0x01, 0x96, 0x30, 0x07, 0x77])).take 14, true⟩ <+:
      [(1, [97], [0x01, 0x96, 0x30, 0x07, 0x77])] := by
  rw [delivered_torn_record_iff ⟨0, 0, 0⟩ (1, [97], [0x01, 0x96, 0x30, 0x07, 0x77]) (by decide)]
  decide +kernel

end NovaKV

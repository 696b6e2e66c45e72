import NovaKV.Memory.Checksum
import NovaKV.Memory.LogFile

open NovaKV.Lib

namespace NovaKV

/-- The file is changed in at most four consecutive bytes, at the offsets from
`lo` up to `hi`. -/
structure Burst (file corrupted : Bytes) (lo hi : Nat) : Prop where
  length_eq : corrupted.length = file.length
  short : hi ≤ lo + 4
  outside : ∀ i, i < lo ∨ hi ≤ i → corrupted[i]? = file[i]?
  changed : corrupted ≠ file

/-- Where the checksum, the type, the key and the value of a record stand in its
encoding, as ranges of offsets. -/
def LogRecord.fields (record : LogRecord) : List (Nat × Nat) :=
  [(0, 4), (4, 5), (9, 9 + record.2.1.length),
    (13 + record.2.1.length, 13 + record.2.1.length + record.2.2.length)]

/-- The same bytes with at most four consecutive ones changed. -/
structure Spoiled (field field' : Bytes) : Prop where
  split : ∃ first window window' last, field = first ++ (window ++ last) ∧
    field' = first ++ (window' ++ last) ∧ window.length = window'.length ∧ window.length ≤ 4
  changed : field ≠ field'

theorem Spoiled.length_eq {field field' : Bytes} (h : Spoiled field field') :
    field'.length = field.length := by
  obtain ⟨first, window, window', last, rfl, rfl, hlength, -⟩ := h.split
  simp only [List.length_append, hlength]

/-- A burst inside one field spoils that field and nothing else. -/
theorem Burst.spoiled {before field after corrupted : Bytes} {lo hi : Nat}
    (h : Burst (before ++ (field ++ after)) corrupted lo hi) (hlo : before.length ≤ lo)
    (hhi : hi ≤ before.length + field.length) :
    ∃ field', corrupted = before ++ (field' ++ after) ∧ Spoiled field field' := by
  have hle : lo ≤ hi := by
    by_contra hlt
    refine h.changed (List.ext_getElem? fun i => h.outside i ?_)
    omega
  have hhead : corrupted.take lo = before ++ field.take (lo - before.length) := by
    have htake : corrupted.take lo = (before ++ (field ++ after)).take lo := by
      refine List.ext_getElem? fun i => ?_
      rw [List.getElem?_take, List.getElem?_take]
      split
      · exact h.outside i (.inl ‹_›)
      · rfl
    rw [htake, List.take_append, List.take_of_length_le hlo,
      List.take_append_of_le_length (by omega)]
  have htail : corrupted.drop hi = field.drop (hi - before.length) ++ after := by
    have hdrop : corrupted.drop hi = (before ++ (field ++ after)).drop hi := by
      refine List.ext_getElem? fun i => ?_
      rw [List.getElem?_drop, List.getElem?_drop]
      exact h.outside _ (.inr (by omega))
    rw [hdrop, List.drop_append, List.drop_eq_nil_of_le (by omega), List.nil_append,
      List.drop_append_of_le_length (by omega)]
  let first := field.take (lo - before.length)
  let window := (field.drop (lo - before.length)).take (hi - lo)
  let last := field.drop (hi - before.length)
  have hfield : field = first ++ (window ++ last) := by
    have hlast : last = (field.drop (lo - before.length)).drop (hi - lo) := by
      rw [List.drop_drop, show lo - before.length + (hi - lo) = hi - before.length by omega]
    rw [hlast, List.take_append_drop, List.take_append_drop]
  have hcorrupted : corrupted = before ++ ((first ++ ((corrupted.drop lo).take (hi - lo) ++ last)) ++ after) := by
    calc corrupted
        = corrupted.take lo ++ ((corrupted.drop lo).take (hi - lo) ++ (corrupted.drop lo).drop (hi - lo)) := by
          rw [List.take_append_drop, List.take_append_drop]
      _ = (before ++ first) ++ ((corrupted.drop lo).take (hi - lo) ++ (last ++ after)) := by
          rw [hhead, List.drop_drop, show lo + (hi - lo) = hi by omega, htail]
      _ = _ := by simp only [List.append_assoc]
  have hlength := h.length_eq
  simp only [List.length_append] at hlength
  refine ⟨_, hcorrupted, ⟨first, window, _, last, hfield, rfl, ?_, ?_⟩, ?_⟩
  · simp only [window, List.length_take, List.length_drop]
    omega
  · have hshort := h.short
    simp only [window, List.length_take]
    omega
  · intro hsame
    refine h.changed ?_
    rw [hcorrupted, ← hsame]

/-- Spoiling a part of the body changes the checksum. -/
theorem Spoiled.checksum_ne {field field' : Bytes} (h : Spoiled field field') (before after : Bytes) :
    calculate_crc32 (before ++ (field' ++ after)) ≠ calculate_crc32 (before ++ (field ++ after)) := by
  obtain ⟨first, window, window', last, rfl, rfl, hlength, hshort⟩ := h.split
  have hne : window' ≠ window := by
    rintro rfl
    exact h.changed rfl
  have hburst := calculate_crc32_burst hlength.symm (hlength ▸ hshort) hne (before ++ first) (last ++ after)
  simpa only [List.append_assoc] using hburst

/-- A record with one spoiled part: a checksum, and a body of the same layout that
does not have it. -/
structure LogRecord.Spoils (record : LogRecord) (crc : Bytes) (spoiled : LogRecord) : Prop where
  crc_length : crc.length = 4
  key_length : spoiled.2.1.length = record.2.1.length
  value_length : spoiled.2.2.length = record.2.2.length
  mismatch : (calculate_crc32 spoiled.payload).toNat ≠ leNat crc

theorem LogRecord.encoded_eq (record : LogRecord) :
    record.encoded = leBytes 4 (calculate_crc32 record.payload).toNat ++ record.payload := rfl

theorem leNat_checksum (record : LogRecord) :
    leNat (leBytes 4 (calculate_crc32 record.payload).toNat) = (calculate_crc32 record.payload).toNat :=
  leNat_leBytes_of_lt (UInt32.toNat_lt _)

/-- A burst in one part of the body, where any bytes of the same length make a
record of the same layout. -/
theorem Burst.spoils_body {before after corrupted front field back : Bytes} {record : LogRecord} {lo hi : Nat}
    (h : Burst (before ++ (record.encoded ++ after)) corrupted lo hi)
    (hpayload : record.payload = front ++ (field ++ back))
    (hlo : before.length + (4 + front.length) ≤ lo)
    (hhi : hi ≤ before.length + (4 + front.length + field.length))
    (hlayout : ∀ field' : Bytes, field'.length = field.length → ∃ spoiled : LogRecord,
      spoiled.payload = front ++ (field' ++ back) ∧ spoiled.2.1.length = record.2.1.length ∧
        spoiled.2.2.length = record.2.2.length) :
    ∃ crc spoiled, corrupted = before ++ (crc ++ (LogRecord.payload spoiled ++ after)) ∧
      record.Spoils crc spoiled := by
  let crc := leBytes 4 (calculate_crc32 record.payload).toNat
  have hcrc : crc.length = 4 := leBytes_length _ _
  have hfile : before ++ (record.encoded ++ after) =
      (before ++ (crc ++ front)) ++ (field ++ (back ++ after)) := by
    rw [LogRecord.encoded_eq]
    nth_rewrite 2 [hpayload]
    simp only [List.append_assoc, crc]
  rw [hfile] at h
  obtain ⟨field', rfl, hspoiled⟩ := h.spoiled (by simp only [List.length_append]; omega)
    (by simp only [List.length_append]; omega)
  obtain ⟨spoiled, hbody, hkey, hvalue⟩ := hlayout field' hspoiled.length_eq
  refine ⟨crc, spoiled, ?_, hcrc, hkey, hvalue, ?_⟩
  · simp only [hbody, List.append_assoc]
  · intro hsame
    rw [leNat_checksum, hbody, hpayload] at hsame
    exact hspoiled.checksum_ne front back (UInt32.toNat_inj.mp hsame)

/-- Wherever a burst falls, the record keeps its layout and loses its checksum. -/
theorem Burst.spoils {before after corrupted : Bytes} {record : LogRecord} {lo hi : Nat} {field : Nat × Nat}
    (h : Burst (before ++ (record.encoded ++ after)) corrupted lo hi) (hfield : field ∈ record.fields)
    (hlo : before.length + field.1 ≤ lo) (hhi : hi ≤ before.length + field.2) :
    ∃ crc spoiled, corrupted = before ++ (crc ++ (LogRecord.payload spoiled ++ after)) ∧
      record.Spoils crc spoiled := by
  obtain ⟨type, key, value⟩ := record
  let crc := leBytes 4 (calculate_crc32 (LogRecord.payload (type, key, value))).toNat
  have hcrc : crc.length = 4 := leBytes_length _ _
  simp only [LogRecord.fields, List.mem_cons, List.not_mem_nil, or_false] at hfield
  rcases hfield with rfl | rfl | rfl | rfl
  · have hfile : before ++ (LogRecord.encoded (type, key, value) ++ after) =
        before ++ (crc ++ (LogRecord.payload (type, key, value) ++ after)) := by
      simp only [LogRecord.encoded_eq, List.append_assoc, crc]
    rw [hfile] at h
    obtain ⟨crc', rfl, hspoiled⟩ := h.spoiled (by omega) (by omega)
    refine ⟨crc', (type, key, value), rfl, hspoiled.length_eq.trans hcrc, rfl, rfl, ?_⟩
    intro hsame
    refine hspoiled.changed (leNat_injective hspoiled.length_eq.symm ?_)
    rw [← hsame, leNat_checksum]
  · have hpayload : LogRecord.payload (type, key, value) =
        [] ++ ([type] ++ (leBytes 4 key.length ++ (key ++ (leBytes 4 value.length ++ value)))) := rfl
    refine h.spoils_body hpayload hlo hhi fun type' hlength => ?_
    obtain ⟨type', rfl⟩ := List.length_eq_one_iff.mp hlength
    exact ⟨(type', key, value), rfl, rfl, rfl⟩
  · have hpayload : LogRecord.payload (type, key, value) =
        (type :: leBytes 4 key.length) ++ (key ++ (leBytes 4 value.length ++ value)) := rfl
    have hfront : (type :: leBytes 4 key.length).length = 5 := by simp
    refine h.spoils_body hpayload (by omega) (by omega) fun key' hlength => ?_
    refine ⟨(type, key', value), ?_, hlength, rfl⟩
    rw [LogRecord.payload, log_payload, hlength]
    rfl
  · have hpayload : LogRecord.payload (type, key, value) =
        (type :: (leBytes 4 key.length ++ (key ++ leBytes 4 value.length))) ++ (value ++ []) := by
      simp [LogRecord.payload, log_payload]
    have hfront : (type :: (leBytes 4 key.length ++ (key ++ leBytes 4 value.length))).length =
        9 + key.length := by
      simp only [List.length_cons, List.length_append, leBytes_length]
      omega
    refine h.spoils_body hpayload (by omega) (by omega) fun value' hlength => ?_
    refine ⟨(type, key, value'), ?_, rfl, hlength⟩
    simp [LogRecord.payload, log_payload, hlength]

/-- A burst of at most four bytes inside the checksum, the type, the key or the
value of a record is noticed: loading stops in front of that record. -/
theorem delivered_burst (locals : Uninitialized) {before after : List LogRecord} {record : LogRecord}
    {corrupted : Bytes} {lo hi : Nat} {field : Nat × Nat}
    (hfits : ∀ other ∈ before ++ record :: after, other.Fits) (hfield : field ∈ record.fields)
    (hlo : (log_file before).length + field.1 ≤ lo) (hhi : hi ≤ (log_file before).length + field.2)
    (hburst : Burst (log_file (before ++ record :: after)) corrupted lo hi) :
    delivered locals ⟨corrupted, true⟩ = before := by
  have hfile : log_file (before ++ record :: after) =
      log_file before ++ (record.encoded ++ log_file after) := by
    simp only [log_file, List.flatMap_append, List.flatMap_cons]
  rw [hfile] at hburst
  obtain ⟨crc, spoiled, rfl, hspoils⟩ := hburst.spoils hfield hlo hhi
  have hrecord : record.Fits := hfits record (by simp)
  have hspoiled : spoiled.Fits := by
    rw [LogRecord.Fits, hspoils.key_length, hspoils.value_length]
    exact hrecord
  rw [delivered_log_file fun other hother => hfits other (List.mem_append_left _ hother),
    delivered_of_none (load_record_mismatch hspoiled hspoils.crc_length hspoils.mismatch), List.append_nil]

/-- One changed byte in the value of the second of three records. -/
theorem delivered_burst_in_value :
    delivered ⟨0, 0, 0⟩ ⟨(log_file [(1, [96], [97]), (1, [97], [98]), (2, [98], [])]).set 29 99, true⟩ =
      [(1, [96], [97])] := by
  let before : List LogRecord := [(1, [96], [97])]
  let record : LogRecord := (1, [97], [98])
  let after : List LogRecord := [(2, [98], [])]
  have hburst : Burst (log_file (before ++ record :: after)) ((log_file (before ++ record :: after)).set 29 99) 29 30 := by
    refine ⟨List.length_set, by omega, fun i hi => List.getElem?_set_ne (by omega), fun hsame => ?_⟩
    have hbyte := congrArg (·[29]?) hsame
    revert hbyte
    decide +kernel
  have hfits : ∀ other ∈ before ++ record :: after, LogRecord.Fits other := by
    intro other hother
    have hcases : other = (1, [96], [97]) ∨ other = (1, [97], [98]) ∨ other = (2, [98], []) := by
      simpa [before, record, after] using hother
    rcases hcases with rfl | rfl | rfl
    all_goals exact ⟨by decide, by decide⟩
  have hfield : (14, 15) ∈ record.fields := by decide
  exact delivered_burst _ hfits hfield (by decide) (by decide) hburst

end NovaKV

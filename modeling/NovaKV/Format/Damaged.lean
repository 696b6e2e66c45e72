import NovaKV.Format.Layout
import NovaKV.Format.RoundTrip

open NovaKV.Lib

namespace NovaKV.Format

/-- The filter block of a file, empty where the footer names none or one that is refused. -/
def filter_of (file : Bytes) (handle : BlockHandle) : Bytes :=
  if handle.size = 0 ∨ handle.offset + handle.size > UInt64.ofNat file.length then []
  else slice file handle.offset.toNat handle.size.toNat

/-- The reader that the footer and the index of a file describe. -/
def reader_of (file : Bytes) (footer : Footer) (entries : List IndexEntry) : SSTableReader where
  file_size := UInt64.ofNat file.length
  footer := footer
  index_entries := entries
  filter_data := filter_of file footer.filter_handle

/-- The filter handle is empty or refused, or it does not wrap around. -/
def FilterInside (file : Bytes) (handle : BlockHandle) : Prop :=
  handle.size = 0 ∨ handle.offset + handle.size > UInt64.ofNat file.length ∨
    handle.offset.toNat + handle.size.toNat ≤ file.length

/-- Everything that the handles and lengths of a file lead to is inside it: the entries
of the index, the filter, and of each data block the fields that fit its size and, for
every key that the filter lets through, the entries up to that key. -/
structure WellLaid (file : Bytes) (footer : Footer) (entries : List IndexEntry) : Prop where
  decoded : Footer.decode_from (slice file (file.length - kEncodedLength) kEncodedLength) = some footer
  index : Indexed file footer.index_handle.offset.toNat footer.index_handle.size.toNat 0 entries
  filter : FilterInside file footer.filter_handle
  walked : ∀ entry ∈ entries, Walked file entry.handle.offset.toNat entry.handle.size.toNat 0
  scanned : ∀ key entry, (reader_of file footer entries).find_block key = some entry →
    (filter_of file footer.filter_handle = [] ∨ key_may_match key (filter_of file footer.filter_handle)) →
    Scanned file key entry.handle.offset.toNat entry.handle.size.toNat 0

section

variable {file : Bytes} {footer : Footer} {entries : List IndexEntry} {reader : SSTableReader}

theorem read_index_block_iff (hfile : file.length < 2 ^ 63) {handle : BlockHandle} :
    (read_index_block (UInt64.ofNat file.length) handle).Yields file (some entries) ↔
      ¬ handle.offset + handle.size > UInt64.ofNat file.length - UInt64.ofNat kEncodedLength ∧
        Indexed file handle.offset.toNat handle.size.toNat 0 entries ∧ entries ≠ [] := by
  rw [read_index_block]
  by_cases hcheck : handle.offset + handle.size > UInt64.ofNat file.length - UInt64.ofNat kEncodedLength
  · rw [if_pos hcheck]
    exact iff_of_false (by rintro ⟨⟩) fun h => h.1 hcheck
  · rw [if_neg hcheck, Fetch.yields_bind]
    have hread : ∀ result, (read_index_entries handle.offset handle.size positions 0 []).Yields file result ↔
        Indexed file handle.offset.toNat handle.size.toNat 0 result := by
      intro result
      rw [read_index_entries_iff (reached_zero hfile _) (passes_positions hfile _)]
      simp
    simp only [hread]
    constructor
    · rintro ⟨result, hindexed, hresult⟩
      by_cases hempty : result = []
      · rw [if_pos hempty] at hresult
        cases hresult
      · rw [if_neg hempty] at hresult
        cases hresult
        exact ⟨hcheck, hindexed, hempty⟩
    · rintro ⟨-, hindexed, hentries⟩
      refine ⟨entries, hindexed, ?_⟩
      rw [if_neg hentries]
      rfl

theorem read_filter_block_iff (hfile : file.length < 2 ^ 63) {handle : BlockHandle} {filter : Bytes} :
    (read_filter_block (UInt64.ofNat file.length) handle).Yields file filter ↔
      FilterInside file handle ∧ filter = filter_of file handle := by
  rw [read_filter_block, filter_of, FilterInside]
  by_cases hzero : handle.size = 0
  · rw [if_pos hzero, if_pos (.inl hzero)]
    exact ⟨fun h => ⟨.inl hzero, h.symm⟩, fun h => h.2.symm⟩
  rw [if_neg hzero]
  by_cases hrefused : handle.offset + handle.size > UInt64.ofNat file.length
  · rw [if_pos hrefused, if_pos (.inr hrefused)]
    exact ⟨fun h => ⟨.inr (.inl hrefused), h.symm⟩, fun h => h.2.symm⟩
  have hpositive : 0 < handle.size.toNat := by
    rw [Nat.pos_iff_ne_zero]
    exact fun h => hzero (UInt64.toNat_inj.mp h)
  rw [if_neg hrefused, if_neg (not_or.mpr ⟨hzero, hrefused⟩)]
  simp only [hzero, hrefused, false_or]
  by_cases hlong : string_max_size < handle.size.toNat
  · rw [if_pos hlong]
    rw [string_max_size] at hlong
    exact iff_of_false id fun h => by omega
  · rw [if_neg hlong]
    have hunfold : (Fetch.bytes handle.offset handle.size.toNat).Yields file filter ↔
        Range.Inside file ⟨handle.offset, handle.size.toNat⟩ ∧
          slice file handle.offset.toNat handle.size.toNat = filter := Iff.rfl
    rw [hunfold, inside_iff hpositive]
    exact and_congr_right fun _ => eq_comm

/-- The footer of a file that is long enough for one. -/
theorem footer_word (hfile : file.length < 2 ^ 63) (hlong : kEncodedLength ≤ file.length) :
    (UInt64.ofNat file.length - UInt64.ofNat kEncodedLength).toNat = file.length - kEncodedLength := by
  rw [← UInt64.ofNat_sub hlong, word_ofNat (by omega)]

theorem too_short_iff (hfile : file.length < 2 ^ 63) :
    UInt64.ofNat file.length < UInt64.ofNat kEncodedLength ↔ file.length < kEncodedLength := by
  rw [UInt64.lt_iff_toNat_lt, word_ofNat (by omega), word_ofNat (by decide)]

theorem footer_inside (hfile : file.length < 2 ^ 63) (hlong : kEncodedLength ≤ file.length) :
    Range.Inside file ⟨UInt64.ofNat file.length - UInt64.ofNat kEncodedLength, kEncodedLength⟩ := by
  rw [inside_iff (by decide), footer_word hfile hlong]
  omega

/-- What a reader that `Open` returns after reading inside the file has been made from. -/
theorem open_yields_some (hfile : file.length < 2 ^ 63)
    (h : (SSTableReader.open (UInt64.ofNat file.length)).Yields file (some reader)) :
    ∃ footer entries,
      Footer.decode_from (slice file (file.length - kEncodedLength) kEncodedLength) = some footer ∧
      Indexed file footer.index_handle.offset.toNat footer.index_handle.size.toNat 0 entries ∧
      FilterInside file footer.filter_handle ∧ reader = reader_of file footer entries := by
  by_cases hlong : kEncodedLength ≤ file.length
  · rw [SSTableReader.open, if_neg (fun h => absurd ((too_short_iff hfile).mp h) (by omega))] at h
    obtain ⟨footer_buf, ⟨-, hbuf⟩, h⟩ := Fetch.yields_bind.mp h
    rw [footer_word hfile hlong] at hbuf
    cases (show slice file (file.length - kEncodedLength) kEncodedLength = footer_buf from hbuf)
    cases hfooter : Footer.decode_from (slice file (file.length - kEncodedLength) kEncodedLength) with
    | none =>
      rw [hfooter] at h
      cases h
    | some footer =>
      rw [hfooter] at h
      obtain ⟨result, hindex, hrest⟩ := Fetch.yields_bind.mp h
      cases result with
      | none => cases hrest
      | some entries =>
        obtain ⟨filter, hfilter, hreader⟩ := Fetch.yields_bind.mp hrest
        obtain ⟨hinside, rfl⟩ := (read_filter_block_iff hfile).mp hfilter
        cases hreader
        exact ⟨footer, entries, rfl, ((read_index_block_iff hfile).mp hindex).2.1, hinside, rfl⟩
  · rw [SSTableReader.open, if_pos ((too_short_iff hfile).mpr (by omega))] at h
    cases h

/-- A file with all of that is opened. -/
theorem open_yields_of (hfile : file.length < 2 ^ 63) (hlong : kEncodedLength ≤ file.length)
    (hfooter : Footer.decode_from (slice file (file.length - kEncodedLength) kEncodedLength) = some footer)
    (hindex : (read_index_block (UInt64.ofNat file.length) footer.index_handle).Yields file (some entries))
    (hfilter : FilterInside file footer.filter_handle) :
    (SSTableReader.open (UInt64.ofNat file.length)).Yields file (some (reader_of file footer entries)) := by
  rw [SSTableReader.open, if_neg (fun h => absurd ((too_short_iff hfile).mp h) (by omega))]
  refine Fetch.yields_bind.mpr ⟨_, ⟨footer_inside hfile hlong, rfl⟩, ?_⟩
  rw [footer_word hfile hlong, hfooter]
  exact hindex.bind (((read_filter_block_iff hfile).mpr ⟨hfilter, rfl⟩).bind rfl)

/-- `Open` reads inside a file whose index and filter are inside it. -/
theorem open_safe (hfile : file.length < 2 ^ 63)
    (hfooter : Footer.decode_from (slice file (file.length - kEncodedLength) kEncodedLength) = some footer)
    (hindexed : Indexed file footer.index_handle.offset.toNat footer.index_handle.size.toNat 0 entries)
    (hfilter : FilterInside file footer.filter_handle) :
    (SSTableReader.open (UInt64.ofNat file.length)).Safe file := by
  by_cases hlong : kEncodedLength ≤ file.length
  · rw [SSTableReader.open, if_neg (fun h => absurd ((too_short_iff hfile).mp h) (by omega)),
      Fetch.bytes_bind_safe, footer_word hfile hlong, hfooter]
    refine ⟨footer_inside hfile hlong, Fetch.safe_bind.mpr ⟨?_, ?_⟩⟩
    · rw [read_index_block]
      split
      · trivial
      · have hread : (read_index_entries footer.index_handle.offset footer.index_handle.size positions 0 []).Yields
            file entries :=
          (read_index_entries_iff (reached_zero hfile _) (passes_positions hfile _)).mpr ⟨entries, rfl, hindexed⟩
        exact Fetch.safe_bind.mpr ⟨hread.safe, fun _ _ => trivial⟩
    · intro result _
      cases result with
      | none => trivial
      | some found =>
        have hread := (read_filter_block_iff hfile).mpr ⟨hfilter, rfl⟩
        exact Fetch.safe_bind.mpr ⟨hread.safe, fun _ _ => trivial⟩
  · rw [SSTableReader.open, if_pos ((too_short_iff hfile).mpr (by omega))]
    trivial

theorem get_record_safe_iff (hfile : file.length < 2 ^ 63) {key : Bytes} :
    (reader.get_record key).Safe file ↔ ∀ entry, reader.find_block key = some entry →
      (reader.filter_data = [] ∨ key_may_match key reader.filter_data) →
      Scanned file key entry.handle.offset.toNat entry.handle.size.toNat 0 := by
  have hblocked : (!reader.filter_data.isEmpty && !key_may_match key reader.filter_data) = true ↔
      ¬ (reader.filter_data = [] ∨ key_may_match key reader.filter_data) := by
    simp [not_or]
  rw [SSTableReader.get_record]
  by_cases hpasses : reader.filter_data = [] ∨ key_may_match key reader.filter_data
  · rw [if_neg (fun h => hblocked.mp h hpasses)]
    cases hfind : reader.find_block key with
    | none => exact iff_of_true trivial (by rintro _ ⟨⟩)
    | some entry =>
      simp only [Option.some_inj, forall_eq', hpasses, forall_const]
      exact scan_block_safe_iff (reached_zero hfile _) (passes_positions hfile _)
  · rw [if_pos (hblocked.mpr hpasses)]
    exact iff_of_true trivial fun _ _ h => absurd h hpasses

/-- The ranges that a mapped table is read at. -/
structure ReadsInside (mem : Memory) (file : Bytes) (reader : SSTableReader) : Prop where
  opening : ∀ range ∈ ((SSTableReader.open (UInt64.ofNat file.length)).run mem).2, range.Inside file
  get_record : ∀ key, ∀ range ∈ ((reader.get_record key).run mem).2, range.Inside file
  for_each : ∀ range ∈ (reader.for_each.run mem).2, range.Inside file

/-- Once `Open` has returned a reader of a file, `Open` has read inside it, and so do
`GetRecord` for every key and `ForEach`, if and only if the file is laid out well. -/
theorem reads_inside_iff {mem : Memory} (hfile : file.length < 2 ^ 63) (hmaps : Maps mem file)
    (hopen : ((SSTableReader.open (UInt64.ofNat file.length)).run mem).1 = some (some reader)) :
    ReadsInside mem file reader ↔ ∃ footer entries, WellLaid file footer entries := by
  constructor
  · rintro ⟨hopening, hget, heach⟩
    have hyields := Fetch.yields_of_run hmaps ((Fetch.ranges_inside_iff hmaps _).mp hopening) hopen
    obtain ⟨footer, entries, hfooter, hindexed, hfilter, rfl⟩ := open_yields_some hfile hyields
    refine ⟨footer, entries, hfooter, hindexed, hfilter, ?_, ?_⟩
    · exact (walk_blocks_safe_iff hfile).mp ((Fetch.ranges_inside_iff hmaps _).mp heach)
    · intro key
      exact (get_record_safe_iff hfile).mp ((Fetch.ranges_inside_iff hmaps _).mp (hget key))
  · rintro ⟨footer, entries, hfooter, hindexed, hfilter, hwalked, hscanned⟩
    have hsafe := open_safe hfile hfooter hindexed hfilter
    obtain ⟨footer', entries', hfooter', hindexed', -, rfl⟩ :=
      open_yields_some hfile (Fetch.yields_of_run hmaps hsafe hopen)
    obtain rfl : footer = footer' := Option.some_inj.mp (hfooter.symm.trans hfooter')
    obtain rfl : entries = entries' := by
      have hread : ∀ found, Indexed file footer.index_handle.offset.toNat footer.index_handle.size.toNat 0 found →
          (read_index_entries footer.index_handle.offset footer.index_handle.size positions 0 []).Yields file found :=
        fun found h =>
          (read_index_entries_iff (reached_zero hfile _) (passes_positions hfile _)).mpr ⟨found, rfl, h⟩
      exact (hread _ hindexed).unique (hread _ hindexed')
    refine ⟨(Fetch.ranges_inside_iff hmaps _).mpr hsafe, ?_, ?_⟩
    · intro key
      exact (Fetch.ranges_inside_iff hmaps _).mpr ((get_record_safe_iff hfile).mpr (hscanned key))
    · exact (Fetch.ranges_inside_iff hmaps _).mpr ((walk_blocks_safe_iff hfile).mpr hwalked)

/-- A built table is read inside its file. -/
theorem built_reads_inside (table : SSTable) (hrecords : table.records ≠ []) (hfits : Fits table.records)
    (hsize : (sstable_file table.records).length < 2 ^ 63) {mem : Memory}
    (hmaps : Maps mem (sstable_file table.records)) :
    ∃ reader : SSTableReader,
      ((SSTableReader.open (UInt64.ofNat (sstable_file table.records).length)).run mem).1 = some (some reader) ∧
      ReadsInside mem (sstable_file table.records) reader := by
  obtain ⟨reader, hopen, hwalk, hget⟩ := built_table_yields table hrecords hfits hsize
  exact ⟨reader, Fetch.run_of_yields hmaps hopen, (Fetch.ranges_inside_iff hmaps _).mpr hopen.safe,
    fun key => (Fetch.ranges_inside_iff hmaps _).mpr (hget key).safe,
    (Fetch.ranges_inside_iff hmaps _).mpr hwalk.safe⟩

end

/-- A table with two blocks and a filter is laid out well. -/
theorem reads_inside_two_blocks :
    ∃ reader footer entries,
      ((SSTableReader.open (UInt64.ofNat (sstable_file wideTable.records).length)).run
        (.ofFile (sstable_file wideTable.records))).1 = some (some reader) ∧
      ReadsInside (.ofFile (sstable_file wideTable.records)) (sstable_file wideTable.records) reader ∧
      WellLaid (sstable_file wideTable.records) footer entries := by
  have hmaps : Maps (.ofFile (sstable_file wideTable.records)) (sstable_file wideTable.records) :=
    maps_ofFile (Nat.lt_trans wideTable_length (by decide))
  obtain ⟨reader, hopen, hinside⟩ :=
    built_reads_inside wideTable (List.cons_ne_nil _ _) wideTable_fits wideTable_length hmaps
  obtain ⟨footer, entries, hlaid⟩ := (reads_inside_iff wideTable_length hmaps hopen).mp hinside
  exact ⟨reader, footer, entries, hopen, hinside, hlaid⟩

/-- A file with one index entry, no data and no filter. -/
def one_entry_footer : Footer := ⟨⟨0, 25⟩, ⟨0, 0⟩⟩

def one_entry_file (handle : BlockHandle) : Bytes := encoded_index [⟨[], handle⟩] ++ one_entry_footer.encode_to

section

variable (handle : BlockHandle)

theorem one_entry_index_length : (encoded_index [⟨[], handle⟩]).length = 25 := by
  simp [encoded_index, block_entry_length, encode_length]

theorem one_entry_length : (one_entry_file handle).length = 65 := by
  rw [one_entry_file, List.length_append, one_entry_index_length, footer_length, kEncodedLength]

theorem one_entry_decoded : Footer.decode_from (slice (one_entry_file handle)
    ((one_entry_file handle).length - kEncodedLength) kEncodedLength) = some one_entry_footer := by
  have hslice : slice (one_entry_file handle) 25 kEncodedLength = one_entry_footer.encode_to := by
    have hbetween := slice_between (encoded_index [⟨[], handle⟩]) one_entry_footer.encode_to []
      (one_entry_index_length handle) (footer_length _)
    rwa [List.append_nil] at hbetween
  rw [one_entry_length, kEncodedLength]
  exact (congrArg Footer.decode_from hslice).trans (decode_from_encode_to _)

theorem one_entry_index : (read_index_block (UInt64.ofNat (one_entry_file handle).length)
    one_entry_footer.index_handle).Yields (one_entry_file handle) (some [⟨[], handle⟩]) := by
  have hyields := @read_index_block_yields (one_entry_file handle) one_entry_footer.encode_to
    (by rw [one_entry_length]; decide) 0 [⟨[], handle⟩] (List.cons_ne_nil _ _) (by simp)
    (by rw [one_entry_length, one_entry_index_length]; decide) ⟨[], [], by simp [one_entry_file], rfl⟩
  rw [one_entry_index_length] at hyields
  exact hyields

theorem one_entry_opens : ((SSTableReader.open (UInt64.ofNat (one_entry_file handle).length)).run
    (Memory.ofFile (one_entry_file handle))).1 =
      some (some (reader_of (one_entry_file handle) one_entry_footer [⟨[], handle⟩])) := by
  have hlength := one_entry_length handle
  refine Fetch.run_of_yields (maps_ofFile (by omega)) (open_yields_of (by omega) ?_ (one_entry_decoded handle)
    (one_entry_index handle) (.inl rfl))
  rw [hlength]
  decide

end

/-- An index entry that names a block behind the end of the file is opened, and its
block is read. -/
theorem block_read_outside :
    ¬ ∀ (file : Bytes) (mem : Memory) (reader : SSTableReader), file.length < 2 ^ 63 → Maps mem file →
      ((SSTableReader.open (UInt64.ofNat file.length)).run mem).1 = some (some reader) →
      ReadsInside mem file reader := by
  intro hall
  have hlength := one_entry_length ⟨4096, 100⟩
  have hfile : (one_entry_file ⟨4096, 100⟩).length < 2 ^ 63 := by omega
  have hmaps : Maps (Memory.ofFile (one_entry_file ⟨4096, 100⟩)) (one_entry_file ⟨4096, 100⟩) :=
    maps_ofFile (by omega)
  have hinside := (hall _ _ _ hfile hmaps (one_entry_opens _)).for_each
  have hwalked := (walk_blocks_safe_iff hfile).mp ((Fetch.ranges_inside_iff hmaps _).mp hinside) _ List.mem_cons_self
  rw [walked_iff rfl rfl, hlength] at hwalked
  exact absurd (hwalked (by decide)).1 (by decide)

end NovaKV.Format

import NovaKV.Format.Entries
import NovaKV.Store.Table

open Std
open NovaKV.Lib

namespace NovaKV.Format

/-- Keys and values fit their 32-bit length fields. -/
def Fits (records : List (Key × ValueRecord)) : Prop :=
  ∀ record ∈ records, record.1.length < 2 ^ 32 ∧ record.2.value.length < 2 ^ 32

theorem slice_between (before field after : Bytes) {offset count : Nat} (hoffset : before.length = offset)
    (hcount : field.length = count) : slice (before ++ (field ++ after)) offset count = field := by
  subst hoffset hcount
  exact Holds.slice ⟨before, after, rfl, rfl⟩

theorem footer_length (footer : Footer) : footer.encode_to.length = kEncodedLength := by
  simp [Footer.encode_to, encode_length, kEncodedLength]

/-- The five words of a footer are found at their offsets. -/
theorem slice_words {w1 w2 w3 w4 w5 : Bytes} (h1 : w1.length = 8) (h2 : w2.length = 8) (h3 : w3.length = 8)
    (h4 : w4.length = 8) (h5 : w5.length = 8) :
    slice (w1 ++ (w2 ++ (w3 ++ (w4 ++ w5)))) 0 8 = w1 ∧ slice (w1 ++ (w2 ++ (w3 ++ (w4 ++ w5)))) 8 8 = w2 ∧
      slice (w1 ++ (w2 ++ (w3 ++ (w4 ++ w5)))) 16 8 = w3 ∧ slice (w1 ++ (w2 ++ (w3 ++ (w4 ++ w5)))) 24 8 = w4 ∧
      slice (w1 ++ (w2 ++ (w3 ++ (w4 ++ w5)))) 32 8 = w5 := by
  refine ⟨slice_between [] w1 _ rfl h1, slice_between w1 w2 _ h1 h2, ?_, ?_, ?_⟩
  · have hthird : slice ((w1 ++ w2) ++ (w3 ++ (w4 ++ w5))) 16 8 = w3 :=
      slice_between _ w3 _ (by simp [h1, h2]) h3
    rwa [List.append_assoc] at hthird
  · have hfourth : slice ((w1 ++ (w2 ++ w3)) ++ (w4 ++ w5)) 24 8 = w4 :=
      slice_between _ w4 _ (by simp [h1, h2, h3]) h4
    rwa [List.append_assoc, List.append_assoc] at hfourth
  · have hfifth : slice ((w1 ++ (w2 ++ (w3 ++ w4))) ++ (w5 ++ [])) 32 8 = w5 :=
      slice_between _ w5 _ (by simp [h1, h2, h3, h4]) h5
    rwa [List.append_nil, List.append_assoc, List.append_assoc, List.append_assoc] at hfifth

theorem word_read_back (n : UInt64) : UInt64.ofNat (leNat (leBytes 8 n.toNat)) = n := by
  rw [leNat_leBytes_of_lt n.toNat_lt, UInt64.ofNat_toNat]

theorem decode_from_encode_to (footer : Footer) : Footer.decode_from footer.encode_to = some footer := by
  obtain ⟨⟨o1, s1⟩, ⟨o2, s2⟩⟩ := footer
  have hmagic : leNat (leBytes 8 kMagicNumber) = kMagicNumber := by
    rw [leNat_leBytes_of_lt]
    norm_num [kMagicNumber]
  have hlength := footer_length ⟨⟨o1, s1⟩, ⟨o2, s2⟩⟩
  have hwords : Footer.encode_to ⟨⟨o1, s1⟩, ⟨o2, s2⟩⟩ = leBytes 8 o1.toNat ++ (leBytes 8 s1.toNat ++
      (leBytes 8 o2.toNat ++ (leBytes 8 s2.toNat ++ leBytes 8 kMagicNumber))) := by
    simp only [Footer.encode_to, BlockHandle.encode, List.append_assoc]
  obtain ⟨h1, h2, h3, h4, h5⟩ := slice_words (leBytes_length 8 o1.toNat) (leBytes_length 8 s1.toNat)
    (leBytes_length 8 o2.toNat) (leBytes_length 8 s2.toNat) (leBytes_length 8 kMagicNumber)
  rw [Footer.decode_from, if_neg (by rw [hlength]; exact Nat.lt_irrefl _), hwords]
  simp only [h1, h2, h3, h4, h5, hmagic, if_true, word_read_back]

section

variable {file rest : Bytes} {blocks : List (List (Key × ValueRecord))}

/-- Where a block of the data stands, its offset and size taken as machine words. -/
structure BlockAt (file : Bytes) (start : Nat) (block : List (Key × ValueRecord)) (rest : Bytes) : Prop where
  small : file.length < 2 ^ 63
  fits : Fits block
  passes : block.length < positions
  size : (0 : UInt64).toNat + (encoded_block block).length = (UInt64.ofNat (encoded_block block).length).toNat
  holds : Holds file (UInt64.ofNat start + 0).toNat (encoded_block block ++ rest)

theorem blockAt_of_holds {start : Nat} {block : List (Key × ValueRecord)} (hfile : file.length < 2 ^ 63)
    (hfits : Fits block) (h : Holds file start (encoded_block block ++ rest)) : BlockAt file start block rest := by
  have hle := h.append.1.le
  have hcount := length_le_encoded_block block
  have hoffset : (UInt64.ofNat start + 0).toNat = start := by
    rw [UInt64.add_zero, word_ofNat (by omega)]
  refine ⟨hfile, hfits, ?_, ?_, by rwa [hoffset]⟩
  · rw [positions]
    omega
  · rw [word_ofNat (by omega)]
    simp

theorem Fits.append {first second : List (Key × ValueRecord)} (h : Fits (first ++ second)) :
    Fits first ∧ Fits second :=
  ⟨fun record hrecord => h record (List.mem_append_left _ hrecord),
    fun record hrecord => h record (List.mem_append_right _ hrecord)⟩

/-- `ForEach` visits the blocks that the index lists. -/
theorem walk_blocks_yields (hfile : file.length < 2 ^ 63) {start : Nat} (hfits : Fits blocks.flatten)
    (h : Holds file start (encoded_block blocks.flatten ++ rest)) :
    (walk_blocks (index_of start blocks)).Yields file (blocks.flatten.map reported) := by
  induction blocks generalizing start with
  | nil => rfl
  | cons block blocks ih =>
    rw [List.flatten_cons] at hfits
    rw [List.flatten_cons, encoded_block_append, List.append_assoc] at h
    have hblock := blockAt_of_holds hfile hfits.append.1 h
    rw [index_of, walk_blocks]
    refine (walk_block_yields hfile hblock.fits hblock.passes hblock.size hblock.holds).bind ?_
    refine (ih hfits.append.2 h.append.2).bind ?_
    rw [List.flatten_cons, List.map_append]
    rfl

/-- The last key of a block is the key of a record in it. -/
theorem mem_index_of {start : Nat} (hnonempty : ∀ block ∈ blocks, block ≠ []) {entry : IndexEntry}
    (hentry : entry ∈ index_of start blocks) :
    ∃ record ∈ blocks.flatten, entry.last_key = record.1 := by
  induction blocks generalizing start with
  | nil => cases hentry
  | cons block blocks ih =>
    rcases List.mem_cons.mp hentry with rfl | hentry
    · have hblock := hnonempty block List.mem_cons_self
      refine ⟨block.getLast hblock, ?_, ?_⟩
      · rw [List.flatten_cons]
        exact List.mem_append_left _ (List.getLast_mem hblock)
      · simp [List.getLast?_eq_some_getLast hblock]
    · obtain ⟨record, hrecord, hkey⟩ :=
        ih (fun other hother => hnonempty other (List.mem_cons_of_mem _ hother)) hentry
      refine ⟨record, ?_, hkey⟩
      rw [List.flatten_cons]
      exact List.mem_append_right _ hrecord

/-- The keys of a block go up to its last key. -/
theorem le_last_key {block : List (Key × ValueRecord)}
    (hsorted : block.Pairwise fun a b => compare a.1 b.1 = .lt) {record : Key × ValueRecord}
    (hrecord : record ∈ block) : compare record.1 ((block.getLast?.map Prod.fst).getD []) ≠ .gt := by
  rcases List.eq_nil_or_concat block with rfl | ⟨before, last, rfl⟩
  · cases hrecord
  · rw [List.concat_eq_append] at hsorted hrecord ⊢
    rw [List.getLast?_concat, Option.map_some, Option.getD_some]
    rcases List.mem_append.mp hrecord with hbefore | hlast
    · rw [(List.pairwise_append.mp hsorted).2.2 record hbefore last (List.mem_singleton_self _)]
      decide
    · rw [List.mem_singleton.mp hlast, compare_self]
      decide

theorem lookup_eq_none_of_ne {records : List (Key × ValueRecord)} {key : Key}
    (h : ∀ record ∈ records, record.1 ≠ key) : records.lookup key = none := by
  rw [List.lookup_eq_none_iff]
  intro record hrecord
  simpa [bne_iff_ne] using (h record hrecord).symm

/-- `GetRecord` looks for the key in the one block that can have it. -/
theorem find_block_yields (hfile : file.length < 2 ^ 63) {start : Nat} (hfits : Fits blocks.flatten)
    (hnonempty : ∀ block ∈ blocks, block ≠ [])
    (hsorted : blocks.flatten.Pairwise fun a b => compare a.1 b.1 = .lt) (key : Key)
    (h : Holds file start (encoded_block blocks.flatten ++ rest)) :
    match ((index_of start blocks).filter fun entry => !(compare entry.last_key key == .lt)).head? with
    | none => blocks.flatten.lookup key = none
    | some entry => (scan_block key entry.handle.offset entry.handle.size positions 0).Yields file
        ((blocks.flatten.lookup key).map fun record => record.cleared.stored) := by
  induction blocks generalizing start with
  | nil => rfl
  | cons block blocks ih =>
    have hblock := hnonempty block List.mem_cons_self
    rw [List.flatten_cons] at hfits hsorted
    rw [List.flatten_cons, encoded_block_append, List.append_assoc] at h
    obtain ⟨hfirst, hlater, hacross⟩ := List.pairwise_append.mp hsorted
    rw [index_of, List.flatten_cons, List.lookup_append]
    by_cases hbelow : compare ((block.getLast?.map Prod.fst).getD []) key = .lt
    · have hnone : block.lookup key = none := by
        refine lookup_eq_none_of_ne fun record hrecord hkey => ?_
        have hle := le_last_key hfirst hrecord
        rw [hkey, OrientedCmp.gt_of_lt hbelow] at hle
        exact hle rfl
      rw [List.filter_cons_of_neg (by simp [hbelow]), hnone, Option.none_or]
      exact ih hfits.append.2 (fun other hother => hnonempty other (List.mem_cons_of_mem _ hother)) hlater
        h.append.2
    · have hnone : blocks.flatten.lookup key = none := by
        refine lookup_eq_none_of_ne fun record hrecord hkey => hbelow ?_
        have hlt := hacross _ (List.getLast_mem hblock) record hrecord
        rw [hkey] at hlt
        simpa [List.getLast?_eq_some_getLast hblock] using hlt
      have hat := blockAt_of_holds hfile hfits.append.1 h
      rw [List.filter_cons_of_pos (by simpa using hbelow), List.head?_cons, hnone, Option.or_none]
      exact scan_block_yields hfile key hat.fits hat.passes hat.size hat.holds

theorem index_of_sorted {start : Nat} (hnonempty : ∀ block ∈ blocks, block ≠ [])
    (hsorted : blocks.flatten.Pairwise fun a b => compare a.1 b.1 = .lt) :
    (index_of start blocks).Pairwise fun a b => compare a.last_key b.last_key = .lt := by
  induction blocks generalizing start with
  | nil => exact .nil
  | cons block blocks ih =>
    have hblock := hnonempty block List.mem_cons_self
    have hothers := fun other hother => hnonempty other (List.mem_cons_of_mem _ hother)
    rw [List.flatten_cons] at hsorted
    obtain ⟨-, hlater, hacross⟩ := List.pairwise_append.mp hsorted
    refine .cons (fun entry hentry => ?_) (ih hothers hlater)
    obtain ⟨record, hrecord, hkey⟩ := mem_index_of hothers hentry
    rw [hkey]
    simpa [List.getLast?_eq_some_getLast hblock] using hacross _ (List.getLast_mem hblock) record hrecord

theorem partitioned_index {entries : List IndexEntry} (key : Key)
    (hsorted : entries.Pairwise fun a b => compare a.last_key b.last_key = .lt) :
    Partitioned entries fun entry => compare entry.last_key key == .lt := by
  refine hsorted.imp ?_
  intro a b hlt hbelow
  rw [beq_iff_eq] at hbelow ⊢
  exact TransCmp.lt_trans hlt hbelow

theorem read_index_block_yields (hfile : file.length < 2 ^ 63) {start : Nat} {entries : List IndexEntry}
    (hentries : entries ≠ []) (hfits : ∀ entry ∈ entries, entry.last_key.length < 2 ^ 32)
    (hroom : start + (encoded_index entries).length + kEncodedLength ≤ file.length)
    (h : Holds file start (encoded_index entries ++ rest)) :
    (read_index_block (UInt64.ofNat file.length)
      ⟨UInt64.ofNat start, UInt64.ofNat (encoded_index entries).length⟩).Yields file (some entries) := by
  rw [kEncodedLength] at hroom
  have hcount := length_le_encoded_index entries
  have hinside : ¬ UInt64.ofNat start + UInt64.ofNat (encoded_index entries).length >
      UInt64.ofNat file.length - UInt64.ofNat kEncodedLength := by
    rw [kEncodedLength, ← UInt64.ofNat_add, ← UInt64.ofNat_sub (by omega), gt_iff_lt, UInt64.lt_iff_toNat_lt,
      word_ofNat (by omega), word_ofNat (by omega)]
    omega
  have hoffset : (UInt64.ofNat start + 0).toNat = start := by
    rw [UInt64.add_zero, word_ofNat (by omega)]
  have hwidth : (0 : UInt64).toNat + (encoded_index entries).length =
      (UInt64.ofNat (encoded_index entries).length).toNat := by
    rw [word_ofNat (by omega)]
    simp
  have hread : (read_index_entries (UInt64.ofNat start) (UInt64.ofNat (encoded_index entries).length)
      positions 0 []).Yields file ([] ++ entries) := by
    refine read_index_entries_yields hfile hfits ?_ hwidth (hoffset ▸ h)
    rw [positions]
    omega
  rw [read_index_block, if_neg hinside]
  refine hread.bind ?_
  rw [List.nil_append, if_neg hentries]
  rfl

theorem read_filter_block_yields (hfile : file.length < 2 ^ 63) {start : Nat} {filter : Bytes}
    (hfilter : filter ≠ []) (h : Holds file start filter) :
    (read_filter_block (UInt64.ofNat file.length) ⟨UInt64.ofNat start, UInt64.ofNat filter.length⟩).Yields
      file filter := by
  have hle := h.le
  have hpos := List.length_pos_iff.mpr hfilter
  have hwidth : (UInt64.ofNat filter.length).toNat = filter.length := word_ofNat (by omega)
  have hoffset : (UInt64.ofNat start).toNat = start := word_ofNat (by omega)
  have hnonzero : UInt64.ofNat filter.length ≠ 0 := by
    intro hzero
    rw [hzero] at hwidth
    exact absurd hwidth.symm (Nat.ne_of_gt hpos)
  have hinside : ¬ UInt64.ofNat start + UInt64.ofNat filter.length > UInt64.ofNat file.length := by
    rw [← UInt64.ofNat_add, gt_iff_lt, UInt64.lt_iff_toNat_lt, word_ofNat (by omega), word_ofNat (by omega)]
    omega
  have hshort : ¬ string_max_size < filter.length := by
    rw [string_max_size]
    omega
  rw [read_filter_block, if_neg hnonzero, if_neg hinside, hwidth, if_neg hshort]
  exact Fetch.bytes_yields (hoffset.symm ▸ h) rfl

/-- The reader of a built table. -/
def table_reader (blocks : List (List (Key × ValueRecord))) : SSTableReader :=
  let data := encoded_block blocks.flatten
  let filter := create_filter 10 (blocks.flatten.map Prod.fst)
  let index := encoded_index (index_of 0 blocks)
  { file_size := UInt64.ofNat (table_file blocks).length
    footer :=
      { index_handle := ⟨UInt64.ofNat (data.length + filter.length), UInt64.ofNat index.length⟩
        filter_handle := ⟨UInt64.ofNat data.length, UInt64.ofNat filter.length⟩ }
    index_entries := index_of 0 blocks
    filter_data := filter }

theorem open_yields (hfits : Fits blocks.flatten) (hnonempty : ∀ block ∈ blocks, block ≠ []) (hblocks : blocks ≠ [])
    (hsize : (table_file blocks).length < 2 ^ 63) :
    (SSTableReader.open (UInt64.ofNat (table_file blocks).length)).Yields (table_file blocks)
      (some (table_reader blocks)) := by
  let data := encoded_block blocks.flatten
  let filter := create_filter 10 (blocks.flatten.map Prod.fst)
  let index := encoded_index (index_of 0 blocks)
  let footer := (table_reader blocks).footer
  have hfile : table_file blocks = data ++ (filter ++ (index ++ footer.encode_to)) := rfl
  have hlength : (table_file blocks).length = data.length + filter.length + index.length + 40 := by
    rw [hfile]
    simp only [List.length_append, footer_length, kEncodedLength]
    omega
  have hfooter : Holds (table_file blocks) ((table_file blocks).length - 40) footer.encode_to := by
    refine ⟨data ++ (filter ++ index), [], by simp [hfile], ?_⟩
    rw [hlength]
    simp only [List.length_append]
    omega
  have hindex : Holds (table_file blocks) (data.length + filter.length) (index ++ footer.encode_to) :=
    ⟨data ++ filter, [], by simp [hfile], by simp⟩
  have hfilter : Holds (table_file blocks) data.length filter :=
    ⟨data, index ++ footer.encode_to, by simp [hfile], rfl⟩
  have hnames : blocks.flatten.map Prod.fst ≠ [] := by
    obtain ⟨block, others, rfl⟩ := List.exists_cons_of_ne_nil hblocks
    have hblock := hnonempty block List.mem_cons_self
    simp [hblock]
  have hkeys : ∀ entry ∈ index_of 0 blocks, entry.last_key.length < 2 ^ 32 := by
    intro entry hentry
    obtain ⟨record, hrecord, hkey⟩ := mem_index_of hnonempty hentry
    rw [hkey]
    exact (hfits record hrecord).1
  have hentries : index_of 0 blocks ≠ [] := by
    obtain ⟨block, others, rfl⟩ := List.exists_cons_of_ne_nil hblocks
    exact List.cons_ne_nil _ _
  have hread : (Fetch.bytes (UInt64.ofNat (table_file blocks).length - UInt64.ofNat kEncodedLength)
      kEncodedLength).Yields (table_file blocks) footer.encode_to := by
    refine Fetch.bytes_yields ?_ (footer_length footer)
    rw [kEncodedLength, ← UInt64.ofNat_sub (by omega), word_ofNat (by omega)]
    exact hfooter
  have hlong : ¬ UInt64.ofNat (table_file blocks).length < UInt64.ofNat kEncodedLength := by
    rw [UInt64.lt_iff_toNat_lt, word_ofNat (by omega), word_ofNat (by decide), kEncodedLength]
    omega
  rw [SSTableReader.open, if_neg hlong]
  refine hread.bind ?_
  rw [decode_from_encode_to]
  refine (read_index_block_yields hsize hentries hkeys ?_ hindex).bind ?_
  · rw [hlength]
    exact Nat.le_refl _
  refine (read_filter_block_yields hsize ?_ hfilter).bind rfl
  rw [show filter = filter_array 10 (blocks.flatten.map Prod.fst) ++ [UInt8.ofNat (hash_count 10)] from if_neg hnames]
  simp

theorem table_file_holds_data (blocks : List (List (Key × ValueRecord))) :
    ∃ after, Holds (table_file blocks) 0 (encoded_block blocks.flatten ++ after) :=
  ⟨_, [], [], (List.append_nil _).symm, rfl⟩

/-- Lookups through the reader of a built table. -/
theorem get_record_yields (hfits : Fits blocks.flatten) (hnonempty : ∀ block ∈ blocks, block ≠ [])
    (hsorted : blocks.flatten.Pairwise fun a b => compare a.1 b.1 = .lt)
    (hsize : (table_file blocks).length < 2 ^ 63) (key : Key) :
    ((table_reader blocks).get_record key).Yields (table_file blocks)
      ((blocks.flatten.lookup key).map fun record => record.cleared.stored) := by
  obtain ⟨after, hdata⟩ := table_file_holds_data blocks
  have hfound := find_block_yields hsize hfits hnonempty hsorted key hdata
  have hblock : (table_reader blocks).find_block key =
      ((index_of 0 blocks).filter fun entry => !(compare entry.last_key key == .lt)).head? := by
    have hentries : (table_reader blocks).index_entries = index_of 0 blocks := rfl
    rw [SSTableReader.find_block, ← List.head?_drop, hentries,
      drop_lowerBound (partitioned_index key (index_of_sorted hnonempty hsorted))]
  rw [SSTableReader.get_record]
  by_cases hblocked : (!(table_reader blocks).filter_data.isEmpty &&
      !key_may_match key (table_reader blocks).filter_data) = true
  · have habsent : blocks.flatten.lookup key = none := by
      refine lookup_eq_none_of_ne fun record hrecord hkey => ?_
      have hmatch : key_may_match key (create_filter 10 (blocks.flatten.map Prod.fst)) = true := by
        refine key_may_match_of_mem ?_ (List.mem_map.mpr ⟨record, hrecord, hkey⟩)
        have hcount := length_le_encoded_block blocks.flatten
        have hle := hdata.append.1.le
        rw [List.length_map]
        omega
      rw [Bool.and_eq_true, Bool.not_eq_true'] at hblocked
      exact absurd hmatch (by simpa [table_reader] using hblocked.2)
    rw [if_pos hblocked, habsent]
    rfl
  · rw [if_neg hblocked, hblock]
    generalize ((index_of 0 blocks).filter fun entry => !(compare entry.last_key key == .lt)).head? = found at hfound
    cases found with
    | none =>
      rw [show blocks.flatten.lookup key = none from hfound]
      rfl
    | some entry => exact hfound

end

/-- What a reader of a built table file reads of it. -/
theorem built_table_yields (table : SSTable) (hrecords : table.records ≠ []) (hfits : Fits table.records)
    (hsize : (sstable_file table.records).length < 2 ^ 63) :
    ∃ reader : SSTableReader,
      (SSTableReader.open (UInt64.ofNat (sstable_file table.records).length)).Yields (sstable_file table.records)
        (some reader) ∧
      reader.for_each.Yields (sstable_file table.records) (table.records.map reported) ∧
      ∀ key, (reader.get_record key).Yields (sstable_file table.records)
        ((table.records.lookup key).map fun record => record.cleared.stored) := by
  obtain ⟨blocks, hflatten, hnonempty, hfile⟩ := sstable_file_eq hrecords
  have hblocks : blocks ≠ [] := by
    rintro rfl
    exact hrecords hflatten.symm
  have hsorted := table.sorted
  rw [hfile] at hsize ⊢
  rw [← hflatten] at hfits hsorted ⊢
  obtain ⟨after, hdata⟩ := table_file_holds_data blocks
  exact ⟨table_reader blocks, open_yields hfits hnonempty hblocks hsize, walk_blocks_yields hsize hfits hdata,
    get_record_yields hfits hnonempty hsorted hsize⟩

/-- A table file is read back: opening it succeeds, `ForEach` reports the records
in order, and `GetRecord` answers for exactly the keys in it. -/
theorem sstable_round_trip (table : SSTable) (hrecords : table.records ≠ []) (hfits : Fits table.records)
    (hsize : (sstable_file table.records).length < 2 ^ 63) {mem : Memory}
    (hmaps : Maps mem (sstable_file table.records)) :
    ∃ reader : SSTableReader,
      ((SSTableReader.open (UInt64.ofNat (sstable_file table.records).length)).run mem).1 = some (some reader) ∧
      (reader.for_each.run mem).1 = some (table.records.map reported) ∧
      (∀ key record, (key, record) ∈ table.records →
        ((reader.get_record key).run mem).1 = some (some record.cleared.stored)) ∧
      ∀ key, (∀ record ∈ table.records, record.1 ≠ key) → ((reader.get_record key).run mem).1 = some none := by
  obtain ⟨reader, hopen, hwalk, hyields⟩ := built_table_yields table hrecords hfits hsize
  have hget : ∀ key, ((reader.get_record key).run mem).1 =
      some ((table.records.lookup key).map fun record => record.cleared.stored) :=
    fun key => Fetch.run_of_yields hmaps (hyields key)
  refine ⟨reader, Fetch.run_of_yields hmaps hopen, Fetch.run_of_yields hmaps hwalk, ?_, ?_⟩
  · intro key record hrecord
    have hdistinct : table.records.Pairwise fun a b => a.1 ≠ b.1 := by
      refine table.sorted.imp fun hlt heq => ?_
      rw [heq, compare_self] at hlt
      cases hlt
    rw [hget, (lookup_eq_some_iff_mem hdistinct).mpr hrecord, Option.map_some]
  · intro key habsent
    rw [hget, lookup_eq_none_of_ne habsent, Option.map_none]

/-- A value that fills a block. -/
def wideValue : Bytes := List.replicate 4096 7

example : ((SSTableBuilder.new ⟨[]⟩).add [97] wideValue .kValue).data_block.buffer.length ≥ 4096 := by decide +kernel

/-- A table of two blocks. -/
def wideTable : SSTable :=
  ⟨[([97], ⟨.kValue, wideValue⟩), ([98], ⟨.kDeletion, []⟩), ([100], ⟨.kValue, [1, 2]⟩)], by decide⟩

theorem wideTable_fits : Fits wideTable.records := by
  intro record hrecord
  have hcases : record = ([97], ⟨.kValue, wideValue⟩) ∨ record = ([98], ⟨.kDeletion, []⟩) ∨
      record = ([100], ⟨.kValue, [1, 2]⟩) := by
    simpa [wideTable] using hrecord
  rcases hcases with rfl | rfl | rfl
  · exact ⟨by decide, by decide +kernel⟩
  all_goals exact ⟨by decide, by decide⟩

theorem wideTable_length : (sstable_file wideTable.records).length < 2 ^ 63 := by decide +kernel

theorem sstable_round_trip_two_blocks :
    ∃ reader : SSTableReader,
      ((SSTableReader.open (UInt64.ofNat (sstable_file wideTable.records).length)).run
        (.ofFile (sstable_file wideTable.records))).1 = some (some reader) ∧
      (reader.for_each.run (.ofFile (sstable_file wideTable.records))).1 =
        some [([97], ⟨1, wideValue⟩), ([98], ⟨2, []⟩), ([100], ⟨1, [1, 2]⟩)] ∧
      ((reader.get_record [98]).run (.ofFile (sstable_file wideTable.records))).1 = some (some ⟨2, []⟩) ∧
      ((reader.get_record [100]).run (.ofFile (sstable_file wideTable.records))).1 = some (some ⟨1, [1, 2]⟩) ∧
      ((reader.get_record [99]).run (.ofFile (sstable_file wideTable.records))).1 = some none := by
  obtain ⟨reader, hopen, heach, hget, habsent⟩ := sstable_round_trip wideTable (List.cons_ne_nil _ _) wideTable_fits
    wideTable_length (maps_ofFile (Nat.lt_trans wideTable_length (by decide)))
  exact ⟨reader, hopen, heach, hget [98] ⟨.kDeletion, []⟩ (by simp [wideTable]),
    hget [100] ⟨.kValue, [1, 2]⟩ (by simp [wideTable]), habsent [99] (by simp [wideTable])⟩

end NovaKV.Format

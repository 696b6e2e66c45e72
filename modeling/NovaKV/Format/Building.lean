import NovaKV.Format.SSTableBuilder

open NovaKV.Lib

namespace NovaKV.Format

/-- The bytes of a data block. -/
def encoded_block (records : List (Key × ValueRecord)) : Bytes :=
  records.flatMap fun record => block_entry record.1 record.2.value record.2.type.to_u8

/-- The bytes of an index block. -/
def encoded_index (entries : List IndexEntry) : Bytes :=
  entries.flatMap fun entry => block_entry entry.last_key entry.handle.encode ValueType.kValue.to_u8

/-- The index of data blocks that are laid out from an offset on. -/
def index_of (offset : Nat) : List (List (Key × ValueRecord)) → List IndexEntry
  | [] => []
  | block :: blocks =>
    { last_key := (block.getLast?.map Prod.fst).getD []
      handle := ⟨UInt64.ofNat offset, UInt64.ofNat (encoded_block block).length⟩ } ::
      index_of (offset + (encoded_block block).length) blocks

theorem block_entry_length (key value : Bytes) (type : UInt8) :
    (block_entry key value type).length = 9 + key.length + value.length := by
  simp only [block_entry, List.length_append, List.length_cons, leBytes_length]
  omega

theorem encoded_block_append (first second : List (Key × ValueRecord)) :
    encoded_block (first ++ second) = encoded_block first ++ encoded_block second :=
  List.flatMap_append

theorem encoded_block_eq_nil {records : List (Key × ValueRecord)} : encoded_block records = [] ↔ records = [] := by
  constructor
  · intro h
    cases records with
    | nil => rfl
    | cons record records =>
      have hlength := congrArg List.length h
      rw [encoded_block, List.flatMap_cons, List.length_append, block_entry_length] at hlength
      simp at hlength
  · rintro rfl
    rfl

theorem length_le_encoded_block (records : List (Key × ValueRecord)) :
    9 * records.length ≤ (encoded_block records).length := by
  induction records with
  | nil => exact Nat.le_refl _
  | cons record records ih =>
    have hblock : encoded_block (record :: records) =
        block_entry record.1 record.2.value record.2.type.to_u8 ++ encoded_block records := rfl
    rw [hblock, List.length_append, block_entry_length, List.length_cons]
    omega

theorem length_le_encoded_index (entries : List IndexEntry) :
    entries.length ≤ (encoded_index entries).length := by
  induction entries with
  | nil => exact Nat.le_refl _
  | cons entry entries ih =>
    have hblock : encoded_index (entry :: entries) =
        block_entry entry.last_key entry.handle.encode ValueType.kValue.to_u8 ++ encoded_index entries := rfl
    rw [hblock, List.length_append, block_entry_length, List.length_cons]
    omega

theorem index_of_concat (offset : Nat) (blocks : List (List (Key × ValueRecord)))
    (block : List (Key × ValueRecord)) :
    index_of offset (blocks ++ [block]) =
      index_of offset blocks ++ index_of (offset + (encoded_block blocks.flatten).length) [block] := by
  induction blocks generalizing offset with
  | nil => rfl
  | cons first blocks ih =>
    rw [List.cons_append, index_of, ih, List.flatten_cons, encoded_block_append, List.length_append,
      Nat.add_assoc]
    rfl

theorem index_block_buffer (entries : List IndexEntry) : (index_block entries).buffer = encoded_index entries := by
  have hfold : ∀ (entries : List IndexEntry) (builder : BlockBuilder),
      (entries.foldl (fun builder entry =>
        builder.add entry.last_key entry.handle.encode ValueType.kValue.to_u8) builder).buffer =
        builder.buffer ++ encoded_index entries := by
    intro entries
    induction entries with
    | nil => simp [encoded_index]
    | cons entry entries ih =>
      intro builder
      rw [List.foldl_cons, ih, BlockBuilder.add, List.append_assoc]
      rfl
  exact hfold entries .new

/-- What a builder has done with the records added so far: the full blocks are in
the file and in the index, the rest is in the current block. -/
structure SSTableBuilder.Holds (builder : SSTableBuilder) (records : List (Key × ValueRecord))
    (blocks : List (List (Key × ValueRecord))) (current : List (Key × ValueRecord)) : Prop where
  split : blocks.flatten ++ current = records
  nonempty : ∀ block ∈ blocks, block ≠ []
  file : builder.file.content = encoded_block blocks.flatten
  buffer : builder.data_block.buffer = encoded_block current
  index : builder.index_entries = index_of 0 blocks
  keys : builder.keys = records.map Prod.fst
  last_key : current ≠ [] → current.getLast?.map Prod.fst = some builder.last_key
  started : records ≠ [] → current ≠ []

namespace SSTableBuilder

variable {builder : SSTableBuilder} {records current : List (Key × ValueRecord)}
  {blocks : List (List (Key × ValueRecord))}

/-- Writing the current block moves it to the full ones. -/
theorem Holds.write_data_block (h : builder.Holds records blocks current) (hcurrent : current ≠ []) :
    builder.write_data_block.file.content = encoded_block (blocks ++ [current]).flatten ∧
      builder.write_data_block.data_block.buffer = encoded_block [] ∧
      builder.write_data_block.index_entries = index_of 0 (blocks ++ [current]) ∧
      builder.write_data_block.keys = records.map Prod.fst := by
  refine ⟨?_, rfl, ?_, h.keys⟩
  · rw [SSTableBuilder.write_data_block, WritableFile.append, h.file, h.buffer, List.flatten_append,
      encoded_block_append, List.flatten_singleton]
  · rw [SSTableBuilder.write_data_block, index_of_concat, h.index, index_of, h.last_key hcurrent, h.buffer,
      WritableFile.size, h.file, Nat.zero_add]
    rfl

theorem Holds.add (h : builder.Holds records blocks current) (record : Key × ValueRecord) :
    ∃ blocks' current',
      (builder.add record.1 record.2.value record.2.type).Holds (records ++ [record]) blocks' current' := by
  by_cases hfull : builder.data_block.buffer.length ≥ 4096
  · have hcurrent : current ≠ [] := by
      rintro rfl
      rw [h.buffer] at hfull
      simp [encoded_block] at hfull
    obtain ⟨hfile, hbuffer, hindex, hkeys⟩ := h.write_data_block hcurrent
    refine ⟨blocks ++ [current], [record], ?_⟩
    rw [SSTableBuilder.add, if_pos hfull]
    exact
      { split := by rw [List.flatten_append, List.flatten_singleton, h.split]
        nonempty := by
          intro block hblock
          rcases List.mem_append.mp hblock with hblock | hblock
          · exact h.nonempty block hblock
          · exact List.mem_singleton.mp hblock ▸ hcurrent
        file := hfile
        buffer := by
          rw [BlockBuilder.add, hbuffer]
          simp [encoded_block]
        index := hindex
        keys := by rw [hkeys, List.map_append, List.map_singleton]
        last_key := fun _ => rfl
        started := fun _ => List.cons_ne_nil _ _ }
  · refine ⟨blocks, current ++ [record], ?_⟩
    rw [SSTableBuilder.add, if_neg hfull]
    exact
      { split := by rw [← List.append_assoc, h.split]
        nonempty := h.nonempty
        file := h.file
        buffer := by
          rw [BlockBuilder.add, h.buffer, encoded_block_append]
          simp [encoded_block]
        index := h.index
        keys := by rw [h.keys, List.map_append, List.map_singleton]
        last_key := fun _ => by simp
        started := fun _ => by simp }

theorem holds_added (records : List (Key × ValueRecord)) :
    ∃ blocks current, (records.foldl (fun builder record => builder.add record.1 record.2.value record.2.type)
      (SSTableBuilder.new ⟨[]⟩)).Holds records blocks current := by
  induction records using List.reverseRecOn with
  | nil =>
    exact ⟨[], [], { split := rfl, nonempty := by simp, file := rfl, buffer := rfl, index := rfl, keys := rfl
                     last_key := fun h => absurd rfl h, started := fun h => absurd rfl h }⟩
  | append_singleton records record ih =>
    obtain ⟨blocks, current, h⟩ := ih
    rw [List.foldl_append]
    exact h.add record

end SSTableBuilder

/-- A table file: data blocks, filter, index and footer. -/
def table_file (blocks : List (List (Key × ValueRecord))) : Bytes :=
  let data := encoded_block blocks.flatten
  let filter := create_filter 10 (blocks.flatten.map Prod.fst)
  let index := encoded_index (index_of 0 blocks)
  let footer : Footer :=
    { index_handle := ⟨UInt64.ofNat (data.length + filter.length), UInt64.ofNat index.length⟩
      filter_handle := ⟨UInt64.ofNat data.length, UInt64.ofNat filter.length⟩ }
  data ++ (filter ++ (index ++ footer.encode_to))

/-- The builder splits the records into nonempty blocks and lays these out. -/
theorem sstable_file_eq {records : List (Key × ValueRecord)} (hrecords : records ≠ []) :
    ∃ blocks, blocks.flatten = records ∧ (∀ block ∈ blocks, block ≠ []) ∧
      sstable_file records = table_file blocks := by
  obtain ⟨blocks, current, h⟩ := SSTableBuilder.holds_added records
  let builder := records.foldl (fun builder record => builder.add record.1 record.2.value record.2.type)
    (SSTableBuilder.new ⟨[]⟩)
  have hcurrent := h.started hrecords
  obtain ⟨hfile, -, hindex, hkeys⟩ := h.write_data_block hcurrent
  refine ⟨blocks ++ [current], ?_, ?_, ?_⟩
  · rw [List.flatten_append, List.flatten_singleton, h.split]
  · intro block hblock
    rcases List.mem_append.mp hblock with hblock | hblock
    · exact h.nonempty block hblock
    · exact List.mem_singleton.mp hblock ▸ hcurrent
  · have hkept : (blocks ++ [current]).flatten = records := by
      rw [List.flatten_append, List.flatten_singleton, h.split]
    have hbuffer : builder.data_block.buffer ≠ [] := by
      rw [h.buffer]
      exact fun hempty => hcurrent (encoded_block_eq_nil.mp hempty)
    have hnames : records.map Prod.fst ≠ [] := by simpa using hrecords
    have hsize : ∀ a b c : Nat, UInt64.ofNat (a + (b + c)) - UInt64.ofNat (a + b) = UInt64.ofNat c := by
      intro a b c
      rw [← Nat.add_assoc, ← UInt64.ofNat_sub (Nat.le_add_right _ c), Nat.add_sub_cancel_left]
    rw [sstable_file, SSTableBuilder.finish, if_neg hbuffer]
    simp only [SSTableBuilder.write_filter_block, hkeys, hnames, if_false, SSTableBuilder.write_index_block,
      WritableFile.append, WritableFile.size, hfile, hindex, index_block_buffer, table_file, hkept,
      List.length_append, hsize, List.append_assoc]

end NovaKV.Format

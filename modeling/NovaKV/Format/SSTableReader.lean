import NovaKV.Format.SSTableBuilder
import NovaKV.Lib.LowerBound

open NovaKV.Lib

namespace NovaKV.Format

/-- An open table. The mapping itself is read through `Fetch`. -/
structure SSTableReader where
  file_size : UInt64
  footer : Footer
  index_entries : List IndexEntry
  filter_data : Bytes

/-- The loops below depend on a 64-bit position alone: one that is still running
after as many passes as there are positions never ends. -/
@[irreducible] def positions : Nat := 2 ^ 64

/-- The longest `std::string`; asking for more throws `std::length_error`. -/
def string_max_size : Nat := 2 ^ 63 - 1

/-- The loop of `ReadIndexBlock` from a position on. -/
def read_index_entries (offset size : UInt64) : Nat → UInt64 → List IndexEntry → Fetch (List IndexEntry)
  | 0, _, _ => .stuck
  | passes + 1, pos, entries =>
    if pos < size then do
      let key_len ← Fetch.number (offset + pos) 4
      let pos := pos + 4
      let last_key ← Fetch.bytes (offset + pos) key_len
      let pos := pos + UInt64.ofNat key_len
      let _ ← Fetch.bytes (offset + pos) 1
      let pos := pos + 1
      let _ ← Fetch.bytes (offset + pos) 4
      let pos := pos + 4
      let handle_offset ← Fetch.number (offset + pos) 8
      let pos := pos + 8
      let handle_size ← Fetch.number (offset + pos) 8
      let pos := pos + 8
      let handle : BlockHandle := ⟨UInt64.ofNat handle_offset, UInt64.ofNat handle_size⟩
      read_index_entries offset size passes pos (entries ++ [⟨last_key, handle⟩])
    else return entries

/-- `ReadIndexBlock`: the entries, or nothing where it returns false. -/
def read_index_block (file_size : UInt64) (handle : BlockHandle) : Fetch (Option (List IndexEntry)) :=
  if handle.offset + handle.size > file_size - UInt64.ofNat kEncodedLength then return none
  else do
    let entries ← read_index_entries handle.offset handle.size positions 0 []
    return if entries = [] then none else some entries

/-- `ReadFilterBlock`: what `filter_data_` holds afterwards. -/
def read_filter_block (file_size : UInt64) (handle : BlockHandle) : Fetch Bytes :=
  if handle.size = 0 then return []
  else if handle.offset + handle.size > file_size then return []
  else if string_max_size < handle.size.toNat then .stuck
  else Fetch.bytes handle.offset handle.size.toNat

/-- `Open` on a mapped file of this size. -/
def SSTableReader.open (size : UInt64) : Fetch (Option SSTableReader) :=
  if size < UInt64.ofNat kEncodedLength then return none
  else do
    let footer_buf ← Fetch.bytes (size - UInt64.ofNat kEncodedLength) kEncodedLength
    match Footer.decode_from footer_buf with
    | none => return none
    | some footer =>
      match ← read_index_block size footer.index_handle with
      | none => return none
      | some entries =>
        let filter ← read_filter_block size footer.filter_handle
        return some { file_size := size, footer := footer, index_entries := entries, filter_data := filter }

/-- The loop of `GetRecord` over a data block. -/
def scan_block (key : Bytes) (offset size : UInt64) : Nat → UInt64 → Fetch (Option StoredRecord)
  | 0, _ => .stuck
  | passes + 1, pos =>
    if pos < size then do
      let curr_key_len ← Fetch.number (offset + pos) 4
      let pos := pos + 4
      let curr_key ← Fetch.bytes (offset + pos) curr_key_len
      let pos := pos + UInt64.ofNat curr_key_len
      let vtype ← Fetch.bytes (offset + pos) 1
      let type := vtype.headD 0
      let pos := pos + 1
      let val_len ← Fetch.number (offset + pos) 4
      let pos := pos + 4
      if curr_key = key then
        if type = ValueType.kValue.to_u8 then do
          let value ← Fetch.bytes (offset + pos) val_len
          return some ⟨type, value⟩
        else return some ⟨type, []⟩
      else scan_block key offset size passes (pos + UInt64.ofNat val_len)
    else return none

/-- The index entry that `std::lower_bound` finds for a key. -/
def SSTableReader.find_block (self : SSTableReader) (key : Bytes) : Option IndexEntry :=
  self.index_entries[lowerBound self.index_entries fun entry => compare entry.last_key key == .lt]?

/-- `GetRecord`: the record, or nothing where it returns false. -/
def SSTableReader.get_record (self : SSTableReader) (key : Bytes) : Fetch (Option StoredRecord) :=
  if !self.filter_data.isEmpty && !key_may_match key self.filter_data then return none
  else match self.find_block key with
    | none => return none
    | some entry => scan_block key entry.handle.offset entry.handle.size positions 0

/-- The loop of `ForEach` over one data block: the arguments of the callback, key
first. -/
def walk_block (offset size : UInt64) : Nat → UInt64 → Fetch (List (Bytes × StoredRecord))
  | 0, _ => .stuck
  | passes + 1, pos =>
    if pos < size then
      if pos + 4 > size then return []
      else do
        let key_len ← Fetch.number (offset + pos) 4
        let pos := pos + 4
        if pos + UInt64.ofNat key_len > size then return []
        else do
          let key ← Fetch.bytes (offset + pos) key_len
          let pos := pos + UInt64.ofNat key_len
          if pos + 1 > size then return []
          else do
            let vtype ← Fetch.bytes (offset + pos) 1
            let pos := pos + 1
            if pos + 4 > size then return []
            else do
              let val_len ← Fetch.number (offset + pos) 4
              let pos := pos + 4
              if pos + UInt64.ofNat val_len > size then return []
              else do
                let value ← Fetch.bytes (offset + pos) val_len
                let pos := pos + UInt64.ofNat val_len
                let rest ← walk_block offset size passes pos
                return (key, ⟨vtype.headD 0, value⟩) :: rest
    else return []

def walk_blocks : List IndexEntry → Fetch (List (Bytes × StoredRecord))
  | [] => return []
  | entry :: entries => do
    let block ← walk_block entry.handle.offset entry.handle.size positions 0
    let rest ← walk_blocks entries
    return block ++ rest

/-- `ForEach`. -/
def SSTableReader.for_each (self : SSTableReader) : Fetch (List (Bytes × StoredRecord)) :=
  walk_blocks self.index_entries

end NovaKV.Format

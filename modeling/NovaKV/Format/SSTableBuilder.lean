import NovaKV.Format.BloomFilter
import NovaKV.Lib.Fetch
import NovaKV.Memory.WalHandler

open NovaKV.Lib

namespace NovaKV.Format

structure BlockHandle where
  offset : UInt64
  size : UInt64

structure IndexEntry where
  last_key : Bytes
  handle : BlockHandle

structure Footer where
  index_handle : BlockHandle
  filter_handle : BlockHandle

def kMagicNumber : Nat := 0xDEADC0DEFA112026

def kEncodedLength : Nat := 40

/-- The two words of a handle, as the footer and the index block have them. -/
def BlockHandle.encode (self : BlockHandle) : Bytes :=
  leBytes 8 self.offset.toNat ++ leBytes 8 self.size.toNat

def Footer.encode_to (self : Footer) : Bytes :=
  self.index_handle.encode ++ (self.filter_handle.encode ++ leBytes 8 kMagicNumber)

def Footer.decode_from (input : Bytes) : Option Footer :=
  if input.length < kEncodedLength then none
  else
    let word := fun offset => UInt64.ofNat (leNat (slice input offset 8))
    if leNat (slice input 32 8) = kMagicNumber then
      some { index_handle := ⟨word 0, word 8⟩, filter_handle := ⟨word 16, word 24⟩ }
    else none

/-- What `BlockBuilder::Add` appends: the key behind its length, the type, and the
value behind its length. -/
def block_entry (key value : Bytes) (type : UInt8) : Bytes :=
  leBytes 4 key.length ++ (key ++ (type :: (leBytes 4 value.length ++ value)))

structure BlockBuilder where
  buffer : Bytes

def BlockBuilder.new : BlockBuilder := ⟨[]⟩

def BlockBuilder.add (self : BlockBuilder) (key value : Bytes) (type : UInt8) : BlockBuilder :=
  ⟨self.buffer ++ block_entry key value type⟩

/-- A file opened on a path where there was none. -/
structure WritableFile where
  content : Bytes

def WritableFile.append (self : WritableFile) (data : Bytes) : WritableFile := ⟨self.content ++ data⟩

def WritableFile.size (self : WritableFile) : UInt64 := UInt64.ofNat self.content.length

structure SSTableBuilder where
  file : WritableFile
  data_block : BlockBuilder
  last_key : Bytes
  index_entries : List IndexEntry
  keys : List Bytes
  filter_handle : BlockHandle

def SSTableBuilder.new (file : WritableFile) : SSTableBuilder :=
  { file := file, data_block := .new, last_key := [], index_entries := [], keys := []
    filter_handle := ⟨0, 0⟩ }

def SSTableBuilder.write_data_block (self : SSTableBuilder) : SSTableBuilder :=
  let content := self.data_block.buffer
  let handle : BlockHandle := ⟨self.file.size, UInt64.ofNat content.length⟩
  { self with
    file := self.file.append content
    data_block := .new
    index_entries := self.index_entries ++ [⟨self.last_key, handle⟩] }

/-- A block that has reached 4096 bytes is written before the next record is added. -/
def SSTableBuilder.add (self : SSTableBuilder) (key value : Bytes) (type : ValueType) : SSTableBuilder :=
  let self := if self.data_block.buffer.length ≥ 4096 then self.write_data_block else self
  { self with
    data_block := self.data_block.add key value type.to_u8
    keys := self.keys ++ [key]
    last_key := key }

def SSTableBuilder.write_filter_block (self : SSTableBuilder) : SSTableBuilder :=
  if self.keys = [] then self
  else
    let filter_data := create_filter 10 self.keys
    { self with
      filter_handle := ⟨self.file.size, UInt64.ofNat filter_data.length⟩
      file := self.file.append filter_data }

/-- The index block: a block whose values are the handles of the data blocks. -/
def index_block (entries : List IndexEntry) : BlockBuilder :=
  entries.foldl (fun builder entry => builder.add entry.last_key entry.handle.encode ValueType.kValue.to_u8) .new

def SSTableBuilder.write_index_block (self : SSTableBuilder) : SSTableBuilder :=
  { self with file := self.file.append (index_block self.index_entries).buffer }

def SSTableBuilder.finish (self : SSTableBuilder) : WritableFile :=
  let self := if self.data_block.buffer = [] then self else self.write_data_block
  let self := self.write_filter_block
  let offset := self.file.size
  let self := self.write_index_block
  let index_handle : BlockHandle := ⟨offset, self.file.size - offset⟩
  self.file.append (Footer.encode_to { index_handle := index_handle, filter_handle := self.filter_handle })

/-- The file built from a list of records. -/
def sstable_file (records : List (Key × ValueRecord)) : Bytes :=
  (records.foldl (fun builder record => builder.add record.1 record.2.value record.2.type)
    (SSTableBuilder.new ⟨[]⟩)).finish.content

end NovaKV.Format

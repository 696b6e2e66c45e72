import NovaKV.Lib.LittleEndian
import NovaKV.Lib.Unordered
import NovaKV.Manifest.Manager

open Std
open NovaKV.Lib

namespace NovaKV

/-- `uint64_t` numbers name the files on disk. -/
abbrev FileNumber := UInt64

def kManifestMagic : Nat := 0x12345678

def kManifestVersion : Nat := 1

/-- The two manifest files of a directory, as bytes. -/
structure ManifestFiles where
  manifest : Option Bytes
  log : Option Bytes

/-- The value of the `ManifestOp` enumerator. -/
def ManifestEdit.op_u8 {ι : Type} : ManifestEdit ι → Nat
  | .SetNextFileNumber _ => 1
  | .AddSST _ _ => 2
  | .DelSST _ => 3
  | .AddWAL _ => 4
  | .DelWAL _ => 5

/-- The payload size of an operation code; no size for an unknown code. -/
def payload_size : Nat → Option Nat
  | 1 => some 8
  | 2 => some 12
  | 3 => some 8
  | 4 => some 8
  | 5 => some 8
  | _ => none

def ManifestEdit.payload : ManifestEdit FileNumber → Bytes
  | .SetNextFileNumber id => leBytes 8 id.toNat
  | .AddSST id level => leBytes 8 id.toNat ++ leBytes 4 level.toNat
  | .DelSST id => leBytes 8 id.toNat
  | .AddWAL id => leBytes 8 id.toNat
  | .DelWAL id => leBytes 8 id.toNat

/-- The bytes `AppendEdit` writes: magic, version, operation, payload size and
payload. -/
def ManifestEdit.encode (edit : ManifestEdit FileNumber) : Bytes :=
  leBytes 4 kManifestMagic ++ (leBytes 4 kManifestVersion ++ (leBytes 1 edit.op_u8 ++
    (leBytes 4 edit.payload.length ++ edit.payload)))

/-- Read the operands that follow a header. -/
def read_payload (op : Nat) (stream : Bytes) : Option (ManifestEdit FileNumber × Bytes) := do
  let (id, stream) ← readLE 8 stream
  let id := UInt64.ofNat id
  match op with
  | 1 => some (.SetNextFileNumber id, stream)
  | 2 =>
    let (level, stream) ← readLE 4 stream
    some (.AddSST id (UInt32.ofNat level), stream)
  | 3 => some (.DelSST id, stream)
  | 4 => some (.AddWAL id, stream)
  | 5 => some (.DelWAL id, stream)
  | _ => none

/-- Outcome of one iteration of the replay loop: a truncated record ends the
replay, a malformed one fails it, a complete one yields its edit. -/
inductive ReplayStep where
  | stop
  | fail
  | edit (edit : ManifestEdit FileNumber) (rest : Bytes)

/-- Version, operation and payload size of a record header. -/
def read_record_header (stream : Bytes) : Option (Nat × Nat × Nat × Bytes) := do
  let (version, stream) ← readLE 4 stream
  let (op, stream) ← readLE 1 stream
  let (size, stream) ← readLE 4 stream
  some (version, op, size, stream)

def replay_record (stream : Bytes) : ReplayStep :=
  match readLE 4 stream with
  | none => .stop
  | some (magic, stream) =>
    if magic ≠ kManifestMagic then .fail
    else match read_record_header stream with
      | none => .stop
      | some (version, op, log_payload_size, stream) =>
        match payload_size op with
        | none => .fail
        | some size =>
          if log_payload_size ≠ size then .fail
          else if version ≠ kManifestVersion then .fail
          else match read_payload op stream with
            | none => .stop
            | some (edit, rest) => .edit edit rest

/-- The replay loop. Every complete record consumes bytes, so the number of
bytes bounds the number of iterations. -/
def replay_loop : Nat → ManifestState FileNumber → Bytes → Bool × ManifestState FileNumber
  | 0, state, _ => (true, state)
  | fuel + 1, state, stream =>
    match replay_record stream with
    | .stop => (true, state)
    | .fail => (false, state)
    | .edit edit rest => replay_loop fuel (state.apply_edit edit) rest

def ManifestManager.replay_log (self : ManifestManager FileNumber) (files : ManifestFiles) :
    Bool × ManifestManager FileNumber :=
  match files.log with
  | none => (true, self)
  | some bytes =>
    let (ok, state) := replay_loop bytes.length self.state bytes
    (ok, { self with state })

/-- Magic, version, counter and table count of a snapshot. -/
def load_header (bytes : Bytes) : Option (FileNumber × Nat × Bytes) := do
  let (magic, stream) ← readLE 4 bytes
  guard (magic = kManifestMagic)
  let (version, stream) ← readLE 4 stream
  guard (version = kManifestVersion)
  let (next_file_number, stream) ← readLE 8 stream
  let (sst_count, stream) ← readLE 4 stream
  some (UInt64.ofNat next_file_number, sst_count, stream)

def load_sst_entry (stream : Bytes) : Option (FileNumber × UInt32 × Bytes) := do
  let (file_number, stream) ← readLE 8 stream
  let (level, stream) ← readLE 4 stream
  some (UInt64.ofNat file_number, UInt32.ofNat level, stream)

/-- The table loop of `LoadState`. Entries read before a short read stay in the
map. -/
def load_ssts : Nat → ExtTreeMap FileNumber UInt32 → Bytes →
    ExtTreeMap FileNumber UInt32 × Option Bytes
  | 0, levels, stream => (levels, some stream)
  | count + 1, levels, stream =>
    match load_sst_entry stream with
    | none => (levels, none)
    | some (file_number, level, stream) => load_ssts count (levels.insert file_number level) stream

/-- The log loop of `LoadState`. -/
def load_wals : Nat → ExtTreeSet FileNumber → Bytes → ExtTreeSet FileNumber × Option Bytes
  | 0, wals, stream => (wals, some stream)
  | count + 1, wals, stream =>
    match readLE 8 stream with
    | none => (wals, none)
    | some (wal_id, stream) => load_wals count (wals.insert (UInt64.ofNat wal_id)) stream

/-- `LoadState` changes the passed state field by field, also when it fails
half-way. -/
def load_state (state : ManifestState FileNumber) (manifest : Option Bytes) :
    Bool × ManifestState FileNumber :=
  match manifest with
  | none => (false, state)
  | some bytes =>
    match load_header bytes with
    | none => (false, state)
    | some (next_file_number, sst_count, stream) =>
      match load_ssts sst_count ∅ stream with
      | (sst_levels, none) => (false, { state with next_file_number, sst_levels })
      | (sst_levels, some stream) =>
        match readLE 4 stream with
        | none => (false, { next_file_number, sst_levels, live_wals := ∅ })
        | some (wal_count, stream) =>
          match load_wals wal_count ∅ stream with
          | (live_wals, none) => (false, { next_file_number, sst_levels, live_wals })
          | (live_wals, some _) => (true, { next_file_number, sst_levels, live_wals })

def ManifestManager.load (self : ManifestManager FileNumber) (files : ManifestFiles) :
    Bool × ManifestManager FileNumber :=
  let (ok, state) := load_state self.state files.manifest
  (ok, { state, edits_since_checkpoint := 0 })

def encode_sst_entry (entry : FileNumber × UInt32) : Bytes :=
  leBytes 8 entry.1.toNat ++ leBytes 4 entry.2.toNat

/-- The bytes `PersistState` writes. Tables are sorted by number; logs come in
the iteration order of the hash set. -/
def persist_state (order : IterationOrder FileNumber) (state : ManifestState FileNumber) : Bytes :=
  leBytes 4 kManifestMagic ++ (leBytes 4 kManifestVersion ++
    (leBytes 8 state.next_file_number.toNat ++ (leBytes 4 state.sst_levels.size ++
      (state.sst_levels.toList.flatMap encode_sst_entry ++ (leBytes 4 state.live_wals.size ++
        (order.list state.live_wals.toList).flatMap fun wal_id => leBytes 8 wal_id.toNat)))))

def ManifestManager.new : ManifestManager FileNumber :=
  { state := .initial, edits_since_checkpoint := 0 }

/-- A new manager that runs `Load` and then `ReplayLog`. There is no manager
when either returns false. -/
def ManifestManager.recover (files : ManifestFiles) : Option (ManifestManager FileNumber) :=
  let (loaded, manager) := new.load files
  if loaded then
    let (replayed, manager) := manager.replay_log files
    if replayed then some manager else none
  else none

end NovaKV

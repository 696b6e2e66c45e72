import NovaKV.Store.Compaction

open Std
open NovaKV.Lib

namespace NovaKV

/-- The number of records at which a memtable is full. -/
def kMemTableLimit : Nat := 10000

/-- Where `BackgroundLoop` stands: in `bg_cv_.wait`, in one pass of the loop, or
past the loop. -/
inductive BgThread where
  | waiting
  | running
  | exited
  deriving DecidableEq

/-- Where the one call of `MinorCompaction` stands, made by the background thread
or, after that thread is joined, by the destructor. `idle` is no call, or one
that has returned. -/
inductive Flusher where
  | idle
  | called
  | prepared (ctx : MinorCtx)
  | built (ctx : MinorCtx) (reader : Option SSTableReader)
  | compact_called
  | compacting

/-- The thread inside a `CompactL0ToL1` call. -/
inductive Owner where
  | flusher
  | caller
  deriving DecidableEq

/-- A `CompactL0ToL1` call past its preparation: `reader` is absent until the
output has been dealt with, which may leave no reader. -/
structure CompactCall where
  owner : Owner
  ctx : L0ToL1Ctx
  reader : Option (Option SSTableReader)

/-- A database and the threads working on it. `writer` is the `Put` that has left
the block under `state_mu_` and not yet written its record; `write_mu_` admits
one at a time. -/
structure DBImpl where
  levels : Levels
  mem : Option MemTable
  imm : Option MemTable
  active_wal_id : Nat
  imm_wal_id : Nat
  bg_stopped : Bool
  bg_compaction_scheduled : Bool
  bg : BgThread
  flusher : Flusher
  writer : Option WalRecord
  calls : List CompactCall

/-- `Get`: the value found, or nothing when it returns false. -/
def DBImpl.get (self : DBImpl) (key : Key) : Option Bytes :=
  match self.mem.bind (·.get key) with
  | some record => visible (some record)
  | none =>
    match self.imm.bind (·.get key) with
    | some record => visible (some record)
    | none =>
      match search_level self.levels.l0 key with
      | some record => visible (some record)
      | none => visible (search_level self.levels.l1 key)

/-- The block of `Put` under `state_mu_`. A full memtable becomes the immutable
one and a new one with a log of its own takes its place; while the previous
immutable memtable is unflushed, `Put` waits and takes no step. -/
def DBImpl.put_lock (self : DBImpl) (key : Key) (record : ValueRecord) : Option (FileM DBImpl) :=
  if self.bg_stopped || self.writer.isSome then none
  else match self.mem with
    | none => none
    | some mem =>
      if mem.count < kMemTableLimit then
        some (return { self with writer := some (key, record) })
      else if self.imm.isSome then none
      else some do
        let manifest ← perform (self.levels.manifest.allocate_file_number {})
        let new_wal_id := manifest.state.next_file_number
        let new_mem ← MemTable.new new_wal_id
        let manifest ← perform (manifest.add_wal {} new_wal_id)
        return { self with
          levels := { self.levels with manifest := manifest }
          imm_wal_id := self.active_wal_id
          imm := some mem
          mem := some new_mem
          active_wal_id := new_wal_id
          bg_compaction_scheduled := true
          writer := some (key, record) }

/-- The write at the end of `Put`. -/
def DBImpl.put_write (self : DBImpl) : Option (FileM DBImpl) :=
  match self.writer, self.mem with
  | some (key, record), some mem => some do
    let mem ← mem.put key record
    return { self with mem := some mem, writer := none }
  | _, _ => none

/-- `BackgroundLoop` gets past its wait. -/
def DBImpl.bg_wake (self : DBImpl) : Option (FileM DBImpl) :=
  if self.bg = .waiting then
    if self.bg_stopped then some (return { self with bg := .exited })
    else if self.bg_compaction_scheduled then
      some (return { self with bg := .running, flusher := .called })
    else none
  else none

/-- The end of one pass of `BackgroundLoop`. -/
def DBImpl.bg_reset (self : DBImpl) : Option (FileM DBImpl) :=
  match self.bg, self.flusher with
  | .running, .idle => some (return { self with bg := .waiting, bg_compaction_scheduled := false })
  | _, _ => none

/-- The first block of `MinorCompaction`. -/
def DBImpl.minor_prepare (self : DBImpl) : Option (FileM DBImpl) :=
  match self.flusher with
  | .called => some <|
    match self.imm with
    | none => return { self with flusher := .idle }
    | some imm => do
      let manifest ← perform (self.levels.manifest.allocate_file_number {})
      return { self with
        levels := { self.levels with manifest := manifest }
        flusher := .prepared
          { flushing_imm := imm, old_wal_id := self.imm_wal_id
            new_sst_id := manifest.state.next_file_number } }
  | _ => none

def DBImpl.minor_build (self : DBImpl) (ok : Bool) : Option (FileM DBImpl) :=
  match self.flusher with
  | .prepared ctx => some do
    let reader ← build_minor_sst ctx ok
    return { self with flusher := .built ctx reader }
  | _ => none

/-- The last block of `MinorCompaction`, which without a new table changes nothing. -/
def DBImpl.minor_install (self : DBImpl) : Option (FileM DBImpl) :=
  match self.flusher with
  | .built ctx reader => some <|
    match reader with
    | none => return { self with flusher := .idle }
    | some reader => do
      let l0 := self.levels.l0 ++ [reader]
      let manifest ← perform (self.levels.manifest.add_sst {} ctx.new_sst_id 0)
      let manifest ← perform (manifest.remove_wal {} ctx.old_wal_id)
      Program.emit (.remove_wal ctx.old_wal_id)
      return { self with
        levels := { self.levels with manifest := manifest, l0 := l0 }
        imm := none
        imm_wal_id := 0
        flusher := if l0.length ≥ 2 then .compact_called else .idle }
  | _ => none

/-- A `CompactL0ToL1` call returns; for the flusher `MinorCompaction` returns with it. -/
def Flusher.after (self : Flusher) : Owner → Flusher
  | .flusher => .idle
  | .caller => self

/-- Whether a thread enters `CompactL0ToL1`: the flusher after a flush that filled
level 0, a caller at any time before the destructor starts. -/
def DBImpl.may_compact (self : DBImpl) (owner : Owner) : Bool :=
  match owner, self.flusher with
  | .flusher, .compact_called => true
  | .flusher, _ => false
  | .caller, _ => !self.bg_stopped

/-- The first block of `CompactL0ToL1`. -/
def DBImpl.compact_prepare (self : DBImpl) (owner : Owner) (order : IterationOrder (Nat × UInt32)) :
    Option (FileM DBImpl) :=
  if !self.may_compact owner then none
  else some do
    let (levels, ctx) ← self.levels.prepare_l0_to_l1 order
    match ctx with
    | none => return { self with levels := levels, flusher := self.flusher.after owner }
    | some ctx =>
      return { self with
        levels := levels
        flusher := match owner with
          | .flusher => .compacting
          | .caller => self.flusher
        calls := self.calls ++ [{ owner := owner, ctx := ctx, reader := none }] }

/-- The building step of the call at `index`. A failed build ends the call. -/
def DBImpl.compact_build (self : DBImpl) (index : Nat) (ok : Bool) : Option (FileM DBImpl) :=
  match self.calls[index]? with
  | some ⟨owner, ctx, none⟩ => some <|
    if ctx.has_output then do
      match ← build_l0_to_l1_sst ctx ok with
      | some reader =>
        return { self with calls := self.calls.set index ⟨owner, ctx, some (some reader)⟩ }
      | none =>
        return { self with calls := self.calls.eraseIdx index, flusher := self.flusher.after owner }
    else return { self with calls := self.calls.set index ⟨owner, ctx, some none⟩ }
  | _ => none

/-- The last block of the call at `index`. A rejected output file is removed. -/
def DBImpl.compact_install (self : DBImpl) (index : Nat) : Option (FileM DBImpl) :=
  match self.calls[index]? with
  | some ⟨owner, ctx, some reader⟩ => some do
    let (levels, installed) ← self.levels.install_l0_to_l1 ctx reader
    if !installed then
      match ctx.new_sst_id with
      | some id => Program.emit (.remove_sst id)
      | none => pure ()
    return { self with
      levels := levels
      calls := self.calls.eraseIdx index
      flusher := self.flusher.after owner }
  | _ => none

/-- The destructor stops the background thread; no caller is inside the API. -/
def DBImpl.stop (self : DBImpl) : Option (FileM DBImpl) :=
  if self.bg_stopped || self.writer.isSome || self.calls.any (·.owner = .caller) then none
  else some (return { self with bg_stopped := true })

/-- The destructor, with the background thread joined, hands the memtable to one
last `MinorCompaction`. -/
def DBImpl.last_flush (self : DBImpl) : Option (FileM DBImpl) :=
  match self.bg, self.flusher, self.mem with
  | .exited, .idle, some mem =>
    if mem.count > 0 then
      some (return { self with
        imm := some mem, imm_wal_id := self.active_wal_id, mem := none, flusher := .called })
    else none
  | _, _, _ => none

/-- The steps of the threads, each atomic under `state_mu_` or, for the builds and
the write of a record, free of other access to the same data. -/
inductive Act where
  | put_lock (key : Key) (record : ValueRecord)
  | put_write
  | bg_wake
  | bg_reset
  | minor_prepare
  | minor_build (ok : Bool)
  | minor_install
  | compact_prepare (owner : Owner) (order : IterationOrder (Nat × UInt32))
  | compact_build (index : Nat) (ok : Bool)
  | compact_install (index : Nat)
  | stop
  | last_flush

/-- What an action does, when it can happen. -/
def DBImpl.program (self : DBImpl) : Act → Option (FileM DBImpl)
  | .put_lock key record => self.put_lock key record
  | .put_write => self.put_write
  | .bg_wake => self.bg_wake
  | .bg_reset => self.bg_reset
  | .minor_prepare => self.minor_prepare
  | .minor_build ok => self.minor_build ok
  | .minor_install => self.minor_install
  | .compact_prepare owner order => self.compact_prepare owner order
  | .compact_build index ok => self.compact_build index ok
  | .compact_install index => self.compact_install index
  | .stop => self.stop
  | .last_flush => self.last_flush

/-- The `Put` that an action completes. -/
def DBImpl.completes (self : DBImpl) : Act → List WalRecord
  | .put_write => self.writer.toList
  | _ => []

/-- Whether an action runs `InstallL0ToL1` past its checks. -/
def DBImpl.installs (self : DBImpl) : Act → Bool
  | .compact_install index =>
    match self.calls[index]? with
    | some ⟨_, ctx, some reader⟩ =>
      self.levels.inputs_unchanged ctx &&
        (ctx.merged_l0_records.isEmpty || !ctx.has_output || reader.isSome)
    | _ => false
  | _ => false

/-- No new table file fails to open. -/
def Act.io_ok : Act → Bool
  | .minor_build ok => ok
  | .compact_build _ ok => ok
  | _ => true

/-- The actions that belong to the destructor. -/
def Act.is_destructor : Act → Bool
  | .stop => true
  | .last_flush => true
  | _ => false

/-- A running database and its directory. -/
structure System where
  db : DBImpl
  disk : Disk

def System.step (self : System) (act : Act) : Option System :=
  (self.db.program act).map fun program =>
    { db := (program self.disk).1, disk := program.final self.disk }

/-- The state after a run of actions, each of which can happen when its turn comes. -/
def System.run (self : System) : List Act → Option System
  | [] => some self
  | act :: acts => (self.step act).bind fun next => next.run acts

/-- The `Put`s completed along a run, oldest first. -/
def System.puts (self : System) : List Act → List WalRecord
  | [] => []
  | act :: acts => self.db.completes act ++ ((self.step act).map (·.puts acts)).getD []

end NovaKV

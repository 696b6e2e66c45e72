import NovaKV.Store.Merge
import NovaKV.Store.Recovery

open Std
open NovaKV.Lib

namespace NovaKV

/-- The files of a directory other than its manifest. -/
structure Data where
  wals : ExtTreeMap Nat (List WalRecord)
  ssts : ExtTreeMap Nat SSTable

def Disk.data (self : Disk) : Data := { wals := self.wals, ssts := self.ssts }

/-- A context that `PrepareL0ToL1` makes of these levels. -/
structure L0ToL1Ctx.PreparedFrom (ctx : L0ToL1Ctx) (levels : Levels)
    (order : IterationOrder (Nat × UInt32)) : Prop where
  l0 : levels.l0 ≠ []
  merged : ctx.merged_l0_records = merge_records levels.l0
  output : ctx.output_records = NovaKV.output_records levels.l1 (merge_records levels.l0)
  inputs : ctx.l0_input_ids = l0_ids order levels.manifest.state
  count : ctx.expected_l0_reader_count = levels.l0.length
  has_output : ctx.has_output = !ctx.output_records.isEmpty
  new_sst_id : ctx.new_sst_id.isSome

/-- What each action may do to a database and the files other than its manifest. -/
inductive Transition (db : DBImpl) (data : Data) : Act → DBImpl → Data → Prop
  | put_room {mem key record} (running : db.bg_stopped = false) (free : db.writer = none)
      (mem_eq : db.mem = some mem) (room : mem.count < kMemTableLimit) :
      Transition db data (.put_lock key record) { db with writer := some (key, record) } data
  | rotate {mem key record manifest id} (running : db.bg_stopped = false) (free : db.writer = none)
      (mem_eq : db.mem = some mem) (full : kMemTableLimit ≤ mem.count) (flushed : db.imm = none) :
      Transition db data (.put_lock key record)
        { db with
          levels := { db.levels with manifest := manifest }
          imm_wal_id := db.active_wal_id
          imm := some mem
          mem := some { wal := id, table := ∅ }
          active_wal_id := id
          bg_compaction_scheduled := true
          writer := some (key, record) }
        { data with wals := data.wals.insertIfNew id [] }
  | put_write {mem key record} (writing : db.writer = some (key, record)) (mem_eq : db.mem = some mem) :
      Transition db data .put_write
        { db with mem := some { mem with table := mem.table.insert key record }, writer := none }
        { data with wals := data.wals.insert mem.wal (data.wals[mem.wal]?.getD [] ++ [(key, record)]) }
  | bg_exit (waiting : db.bg = .waiting) (stopped : db.bg_stopped = true) :
      Transition db data .bg_wake { db with bg := .exited } data
  | bg_wake (waiting : db.bg = .waiting) (running : db.bg_stopped = false)
      (scheduled : db.bg_compaction_scheduled = true) :
      Transition db data .bg_wake { db with bg := .running, flusher := .called } data
  | bg_reset (running : db.bg = .running) (idle : db.flusher = .idle) :
      Transition db data .bg_reset { db with bg := .waiting, bg_compaction_scheduled := false } data
  | minor_skip (called : db.flusher = .called) (flushed : db.imm = none) :
      Transition db data .minor_prepare { db with flusher := .idle } data
  | minor_prepare {imm manifest id} (called : db.flusher = .called) (imm_eq : db.imm = some imm) :
      Transition db data .minor_prepare
        { db with
          levels := { db.levels with manifest := manifest }
          flusher := .prepared { flushing_imm := imm, old_wal_id := db.imm_wal_id, new_sst_id := id } }
        data
  | minor_build {ctx reader ok} (prepared : db.flusher = .prepared ctx) (opens : ok = true)
      (opened : SSTableReader.open ctx.new_sst_id (.of_map ctx.flushing_imm.table) = some reader) :
      Transition db data (.minor_build ok) { db with flusher := .built ctx (some reader) }
        { data with ssts := data.ssts.insert ctx.new_sst_id (.of_map ctx.flushing_imm.table) }
  | minor_build_fail {ctx ok} (prepared : db.flusher = .prepared ctx)
      (failed : ok = true → ctx.flushing_imm.table.isEmpty = true) :
      Transition db data (.minor_build ok) { db with flusher := .built ctx none }
        { data with ssts := data.ssts.erase ctx.new_sst_id }
  | minor_fail {ctx} (built : db.flusher = .built ctx none) :
      Transition db data .minor_install { db with flusher := .idle } data
  | minor_install {ctx reader manifest} (built : db.flusher = .built ctx (some reader)) :
      Transition db data .minor_install
        { db with
          levels := { db.levels with manifest := manifest, l0 := db.levels.l0 ++ [reader] }
          imm := none
          imm_wal_id := 0
          flusher := if (db.levels.l0 ++ [reader]).length ≥ 2 then .compact_called else .idle }
        { data with wals := data.wals.erase ctx.old_wal_id }
  | compact_decline {owner order} (may : db.may_compact owner = true) :
      Transition db data (.compact_prepare owner order) { db with flusher := db.flusher.after owner } data
  | compact_prepare {owner order ctx manifest} (may : db.may_compact owner = true)
      (prepared : ctx.PreparedFrom db.levels order) :
      Transition db data (.compact_prepare owner order)
        { db with
          levels := { db.levels with manifest := manifest }
          flusher := match owner with
            | .flusher => .compacting
            | .caller => db.flusher
          calls := db.calls ++ [{ owner := owner, ctx := ctx, reader := none }] }
        data
  | compact_skip {index ok owner ctx} (call : db.calls[index]? = some ⟨owner, ctx, none⟩)
      (empty : ctx.has_output = false) :
      Transition db data (.compact_build index ok)
        { db with calls := db.calls.set index ⟨owner, ctx, some none⟩ } data
  | compact_build {index ok owner ctx id reader} (call : db.calls[index]? = some ⟨owner, ctx, none⟩)
      (output : ctx.has_output = true) (number : ctx.new_sst_id = some id) (opens : ok = true)
      (opened : SSTableReader.open id (.of_map ctx.output_records) = some reader) :
      Transition db data (.compact_build index ok)
        { db with calls := db.calls.set index ⟨owner, ctx, some (some reader)⟩ }
        { data with ssts := data.ssts.insert id (.of_map ctx.output_records) }
  | compact_fail {index ok owner ctx ssts} (call : db.calls[index]? = some ⟨owner, ctx, none⟩)
      (removed : ssts = data.ssts ∨ ∃ id, ctx.new_sst_id = some id ∧ ssts = data.ssts.erase id) :
      Transition db data (.compact_build index ok)
        { db with calls := db.calls.eraseIdx index, flusher := db.flusher.after owner }
        { data with ssts := ssts }
  | compact_install {index owner ctx reader manifest}
      (call : db.calls[index]? = some ⟨owner, ctx, some (some reader)⟩)
      (unchanged : db.levels.inputs_unchanged ctx = true)
      (output : ctx.merged_l0_records.isEmpty = false ∧ ctx.has_output = true) :
      Transition db data (.compact_install index)
        { db with
          levels := { manifest := manifest, l0 := [], l1 := db.levels.l1 ++ [reader] }
          calls := db.calls.eraseIdx index
          flusher := db.flusher.after owner }
        { data with ssts := ctx.l0_input_ids.foldl (fun ssts id => ssts.erase id) data.ssts }
  | compact_consume {index owner ctx reader manifest}
      (call : db.calls[index]? = some ⟨owner, ctx, some reader⟩)
      (unchanged : db.levels.inputs_unchanged ctx = true)
      (empty : ctx.merged_l0_records.isEmpty = true ∨ ctx.has_output = false) :
      Transition db data (.compact_install index)
        { db with
          levels := { db.levels with manifest := manifest, l0 := [] }
          calls := db.calls.eraseIdx index
          flusher := db.flusher.after owner }
        { data with ssts := ctx.l0_input_ids.foldl (fun ssts id => ssts.erase id) data.ssts }
  | compact_reject {index owner ctx reader ssts} (call : db.calls[index]? = some ⟨owner, ctx, some reader⟩)
      (rejected : db.levels.inputs_unchanged ctx = false ∨ (ctx.has_output = true ∧ reader = none))
      (removed : ssts = match ctx.new_sst_id with
        | some id => data.ssts.erase id
        | none => data.ssts) :
      Transition db data (.compact_install index)
        { db with calls := db.calls.eraseIdx index, flusher := db.flusher.after owner }
        { data with ssts := ssts }
  | stop (running : db.bg_stopped = false) (free : db.writer = none)
      (alone : ∀ call ∈ db.calls, call.owner = .flusher) :
      Transition db data .stop { db with bg_stopped := true } data
  | last_flush {mem} (exited : db.bg = .exited) (idle : db.flusher = .idle) (mem_eq : db.mem = some mem)
      (nonempty : 0 < mem.count) :
      Transition db data .last_flush
        { db with imm := some mem, imm_wal_id := db.active_wal_id, mem := none, flusher := .called } data

/-- Started on these files, a program ends with a result and files that satisfy
`post`, whatever happens to the manifest. -/
def Data.Yields {α : Type} (data : Data) (program : FileM α) (post : α → Data → Prop) : Prop :=
  program.Yields Disk.data data post

section

variable {α β : Type} {data : Data}

theorem Data.Yields.pure {a : α} {post : α → Data → Prop} (h : post a data) :
    data.Yields (Pure.pure a) post :=
  Program.Yields.pure h

theorem Data.Yields.seq {program : FileM α} {next : α → FileM β} {post : β → Data → Prop}
    (h : data.Yields program fun a data' => data'.Yields (next a) post) :
    data.Yields (program >>= next) post :=
  Program.Yields.seq h

theorem Data.Yields.read {post : Disk → Data → Prop} (h : ∀ disk, disk.data = data → post disk data) :
    data.Yields Program.read post :=
  Program.Yields.read h

theorem Data.Yields.perform {outcome : α × List (ManifestEffect Nat)} {post : α → Data → Prop}
    (h : post outcome.1 data) : data.Yields (perform outcome) post := by
  rintro disk rfl
  have hdata : ∀ (effects : List (ManifestEffect Nat)) (disk : Disk),
      (applyAll disk (effects.map DiskEffect.manifest)).data = disk.data := by
    intro effects
    induction effects with
    | nil => exact fun _ => rfl
    | cons effect effects ih =>
      intro disk
      rw [List.map_cons, applyAll_cons, ih]
      cases effect <;> rfl
  change post outcome.1 (applyAll disk (outcome.2.map DiskEffect.manifest)).data
  rw [hdata]
  exact h

theorem Data.Yields.create_wal {id : Nat} {post : Unit → Data → Prop}
    (h : post () { data with wals := data.wals.insertIfNew id [] }) :
    data.Yields (Program.emit (.create_wal id)) post :=
  Program.Yields.emit (by rintro disk rfl; rfl) h

theorem Data.Yields.append_wal {id : Nat} {record : WalRecord} {post : Unit → Data → Prop}
    (h : post () { data with wals := data.wals.insert id (data.wals[id]?.getD [] ++ [record]) }) :
    data.Yields (Program.emit (.append_wal id record)) post :=
  Program.Yields.emit (by rintro disk rfl; rfl) h

theorem Data.Yields.remove_wal {id : Nat} {post : Unit → Data → Prop}
    (h : post () { data with wals := data.wals.erase id }) :
    data.Yields (Program.emit (.remove_wal id)) post :=
  Program.Yields.emit (by rintro disk rfl; rfl) h

theorem Data.Yields.create_sst {id : Nat} {table : SSTable} {post : Unit → Data → Prop}
    (h : post () { data with ssts := data.ssts.insert id table }) :
    data.Yields (Program.emit (.create_sst id table)) post :=
  Program.Yields.emit (by rintro disk rfl; rfl) h

theorem Data.Yields.remove_sst {id : Nat} {post : Unit → Data → Prop}
    (h : post () { data with ssts := data.ssts.erase id }) :
    data.Yields (Program.emit (.remove_sst id)) post :=
  Program.Yields.emit (by rintro disk rfl; rfl) h

theorem insert_erase_self (ssts : ExtTreeMap Nat SSTable) (id : Nat) (table : SSTable) :
    (ssts.erase id).insert id table = ssts.insert id table := by
  apply ExtTreeMap.ext_getElem?
  intro other
  by_cases hother : id = other <;> simp [ExtTreeMap.getElem?_insert, ExtTreeMap.getElem?_erase, hother]

theorem erase_insert_self (ssts : ExtTreeMap Nat SSTable) (id : Nat) (table : SSTable) :
    (ssts.insert id table).erase id = ssts.erase id := by
  apply ExtTreeMap.ext_getElem?
  intro other
  by_cases hother : id = other <;> simp [ExtTreeMap.getElem?_insert, ExtTreeMap.getElem?_erase, hother]

/-- The end of `write_sst`, once no file with the number is left. -/
theorem Data.Yields.create_opened {id : Nat} {table : SSTable} {ok : Bool}
    {post : Option SSTableReader → Data → Prop} {before : Data} (hwals : before.wals = data.wals)
    (hssts : before.ssts.insert id table = data.ssts.insert id table)
    (hsome : ∀ reader, ok = true → SSTableReader.open id table = some reader →
      post (some reader) { data with ssts := data.ssts.insert id table })
    (hnone : (ok = true → table.records = []) → post none { data with ssts := data.ssts.erase id }) :
    before.Yields (do
      Program.emit (.create_sst id table)
      match if ok then SSTableReader.open id table else none with
      | some reader => return some reader
      | none => do
        Program.emit (.remove_sst id)
        return none) post := by
  refine .seq (.create_sst ?_)
  rw [hwals, hssts]
  cases hopened : (if ok then SSTableReader.open id table else none) with
  | some reader =>
    split at hopened
    · exact .pure (hsome reader ‹_› hopened)
    · cases hopened
  | none =>
    refine .seq (.remove_sst (.pure ?_))
    rw [erase_insert_self]
    apply hnone
    intro hok
    by_contra hrecords
    rw [if_pos hok, SSTableReader.open_of_nonempty hrecords] at hopened
    cases hopened

theorem Data.Yields.write_sst {id : Nat} {table : SSTable} {ok : Bool}
    {post : Option SSTableReader → Data → Prop}
    (hsome : ∀ reader, ok = true → SSTableReader.open id table = some reader →
      post (some reader) { data with ssts := data.ssts.insert id table })
    (hnone : (ok = true → table.records = []) → post none { data with ssts := data.ssts.erase id }) :
    data.Yields (write_sst id table ok) post := by
  refine .seq (.read ?_)
  intro disk _
  by_cases hstale : id ∈ disk.ssts
  · rw [if_pos hstale]
    exact .seq (.remove_sst (@create_opened data id table ok post _ rfl (insert_erase_self _ _ _) hsome hnone))
  · rw [if_neg hstale]
    exact .create_opened rfl rfl hsome hnone

theorem Data.Yields.consume_l0 {manifest : ManifestManager Nat} {ids : List Nat}
    {post : ManifestManager Nat → Data → Prop}
    (h : ∀ manifest, post manifest { data with ssts := ids.foldl (fun ssts id => ssts.erase id) data.ssts }) :
    data.Yields (consume_l0 manifest ids) post := by
  induction ids generalizing data manifest with
  | nil => exact .pure (h manifest)
  | cons id ids ih => exact .seq (.perform (.seq (.remove_sst (ih h))))

/-- The end of a call whose output is dropped. -/
theorem Data.Yields.reject_install {db : DBImpl} {index : Nat} {owner : Owner} {ctx : L0ToL1Ctx}
    {reader : Option SSTableReader} (hcall : db.calls[index]? = some ⟨owner, ctx, some reader⟩)
    (hrejected : db.levels.inputs_unchanged ctx = false ∨ (ctx.has_output = true ∧ reader = none)) :
    data.Yields (do
      if !false then
        match ctx.new_sst_id with
        | some id => Program.emit (.remove_sst id)
        | none => Pure.pure ()
      return { db with calls := db.calls.eraseIdx index, flusher := db.flusher.after owner })
      (Transition db data (.compact_install index)) := by
  rw [Bool.not_false, if_pos rfl]
  cases hid : ctx.new_sst_id with
  | none => exact .seq (.pure (.pure (.compact_reject hcall hrejected (by rw [hid]))))
  | some id => exact .seq (.remove_sst (.pure (.compact_reject hcall hrejected (by rw [hid]))))

end

section

variable {db : DBImpl} {data : Data} {program : FileM DBImpl}

theorem DBImpl.put_lock_transition {key : Key} {record : ValueRecord}
    (hprogram : db.put_lock key record = some program) :
    data.Yields program (Transition db data (.put_lock key record)) := by
  unfold DBImpl.put_lock at hprogram
  split at hprogram
  · cases hprogram
  rename_i hguard
  obtain ⟨hrunning, hfree⟩ : db.bg_stopped = false ∧ db.writer = none := by simpa using hguard
  split at hprogram
  · cases hprogram
  rename_i mem hmem
  split at hprogram
  · cases hprogram
    exact .pure (.put_room hrunning hfree hmem ‹_›)
  rename_i hfull
  split at hprogram
  · cases hprogram
  rename_i himm
  cases hprogram
  refine .seq (.perform (.seq (.seq (.create_wal (.pure (.seq (.perform (.pure ?_))))))))
  exact .rotate hrunning hfree hmem (Nat.le_of_not_lt hfull) (by simpa using himm)

theorem DBImpl.put_write_transition (hprogram : db.put_write = some program) :
    data.Yields program (Transition db data .put_write) := by
  unfold DBImpl.put_write at hprogram
  split at hprogram
  · cases hprogram
    exact .seq (.seq (.append_wal (.pure (.pure (.put_write ‹_› ‹_›)))))
  · cases hprogram

theorem DBImpl.bg_wake_transition (hprogram : db.bg_wake = some program) :
    data.Yields program (Transition db data .bg_wake) := by
  unfold DBImpl.bg_wake at hprogram
  split at hprogram
  · split at hprogram
    · cases hprogram
      exact .pure (.bg_exit ‹_› ‹_›)
    · rename_i hrunning
      split at hprogram
      · cases hprogram
        exact .pure (.bg_wake ‹_› (by simpa using hrunning) ‹_›)
      · cases hprogram
  · cases hprogram

theorem DBImpl.bg_reset_transition (hprogram : db.bg_reset = some program) :
    data.Yields program (Transition db data .bg_reset) := by
  unfold DBImpl.bg_reset at hprogram
  split at hprogram
  · cases hprogram
    exact .pure (.bg_reset ‹_› ‹_›)
  · cases hprogram

theorem DBImpl.minor_prepare_transition (hprogram : db.minor_prepare = some program) :
    data.Yields program (Transition db data .minor_prepare) := by
  unfold DBImpl.minor_prepare at hprogram
  split at hprogram
  · cases hprogram
    split
    · exact .pure (.minor_skip ‹_› ‹_›)
    · exact .seq (.perform (.pure (.minor_prepare ‹_› ‹_›)))
  · cases hprogram

theorem DBImpl.minor_build_transition {ok : Bool} (hprogram : db.minor_build ok = some program) :
    data.Yields program (Transition db data (.minor_build ok)) := by
  unfold DBImpl.minor_build at hprogram
  split at hprogram
  · cases hprogram
    refine .seq (.write_sst ?_ ?_)
    · exact fun reader hok hopened => .pure (.minor_build ‹_› hok hopened)
    · refine fun hempty => .pure (.minor_build_fail ‹_› fun hok => ?_)
      by_contra hnonempty
      exact records_of_map_ne_nil (by simpa using hnonempty) (hempty hok)
  · cases hprogram

theorem DBImpl.minor_install_transition (hprogram : db.minor_install = some program) :
    data.Yields program (Transition db data .minor_install) := by
  unfold DBImpl.minor_install at hprogram
  split at hprogram
  · cases hprogram
    split
    · exact .pure (.minor_fail ‹_›)
    · exact .seq (.perform (.seq (.perform (.seq (.remove_wal (.pure (.minor_install ‹_›)))))))
  · cases hprogram

theorem DBImpl.compact_prepare_transition {owner : Owner} {order : IterationOrder (Nat × UInt32)}
    (hprogram : db.compact_prepare owner order = some program) :
    data.Yields program (Transition db data (.compact_prepare owner order)) := by
  unfold DBImpl.compact_prepare at hprogram
  split at hprogram
  · cases hprogram
  rename_i hmay
  have hmay : db.may_compact owner = true := by simpa using hmay
  cases hprogram
  unfold Levels.prepare_l0_to_l1
  by_cases hl0 : db.levels.l0 = []
  · simp only [if_pos hl0]
    exact .seq (.pure (.pure (.compact_decline hmay)))
  simp only [if_neg hl0, merge_records_isEmpty hl0]
  split
  · exact .seq (.pure (.pure (.compact_decline hmay)))
  · exact .seq (.seq (.perform (.pure (.pure (.compact_prepare hmay ⟨hl0, rfl, rfl, rfl, rfl, rfl, rfl⟩)))))

theorem DBImpl.compact_build_transition {index : Nat} {ok : Bool}
    (hprogram : db.compact_build index ok = some program) :
    data.Yields program (Transition db data (.compact_build index ok)) := by
  unfold DBImpl.compact_build at hprogram
  split at hprogram
  · rename_i owner ctx hcall
    cases hprogram
    by_cases hhas : ctx.has_output = true
    · rw [if_pos hhas]
      cases hid : ctx.new_sst_id with
      | none =>
        rw [build_l0_to_l1_sst_without_id hid]
        exact .seq (.pure (.pure (.compact_fail hcall (.inl rfl))))
      | some id =>
        rw [build_l0_to_l1_sst_eq_write hhas hid]
        refine .seq (.write_sst ?_ ?_)
        · exact fun reader hok hopened => .pure (.compact_build hcall hhas hid hok hopened)
        · exact fun _ => .pure (.compact_fail hcall (.inr ⟨id, hid, rfl⟩))
    · rw [if_neg hhas]
      exact .pure (.compact_skip hcall (by simpa using hhas))
  · cases hprogram

theorem DBImpl.compact_install_transition {index : Nat} (hprogram : db.compact_install index = some program) :
    data.Yields program (Transition db data (.compact_install index)) := by
  unfold DBImpl.compact_install at hprogram
  split at hprogram
  · rename_i owner ctx reader hcall
    cases hprogram
    cases hunchanged : db.levels.inputs_unchanged ctx with
    | false =>
      rw [Levels.install_of_changed hunchanged]
      exact .seq (.pure (.reject_install hcall (.inl hunchanged)))
    | true =>
      by_cases hempty : ctx.merged_l0_records.isEmpty = true ∨ ctx.has_output = false
      · rw [Levels.install_without_output hunchanged hempty]
        refine .seq (.seq (.consume_l0 fun manifest => .pure ?_))
        exact .pure (.compact_consume hcall hunchanged hempty)
      · obtain ⟨hmerged, hhas⟩ : ctx.merged_l0_records.isEmpty = false ∧ ctx.has_output = true := by
          simpa only [not_or, Bool.not_eq_true, Bool.not_eq_false] using hempty
        cases reader with
        | none =>
          rw [Levels.install_without_reader hmerged hhas]
          exact .seq (.pure (.reject_install hcall (.inr ⟨hhas, rfl⟩)))
        | some reader =>
          rw [Levels.install_with_reader hunchanged hmerged hhas]
          refine .seq (.seq (.perform (.seq (.consume_l0 fun manifest => .pure ?_))))
          exact .pure (.compact_install hcall hunchanged ⟨hmerged, hhas⟩)
  · cases hprogram

theorem DBImpl.stop_transition (hprogram : db.stop = some program) :
    data.Yields program (Transition db data .stop) := by
  unfold DBImpl.stop at hprogram
  split at hprogram
  · cases hprogram
  · rename_i hguard
    cases hprogram
    simp only [Bool.or_eq_true, not_or, Bool.not_eq_true, List.any_eq_false] at hguard
    refine .pure (.stop hguard.1.1 (by simpa using hguard.1.2) ?_)
    intro call hcall
    have hother := hguard.2 call hcall
    cases howner : call.owner with
    | flusher => rfl
    | caller => simp [howner] at hother

theorem DBImpl.last_flush_transition (hprogram : db.last_flush = some program) :
    data.Yields program (Transition db data .last_flush) := by
  unfold DBImpl.last_flush at hprogram
  split at hprogram
  · split at hprogram
    · cases hprogram
      exact .pure (.last_flush ‹_› ‹_› ‹_› ‹_›)
    · cases hprogram
  · cases hprogram

/-- Every step of a database is one of the transitions. -/
theorem DBImpl.transition {act : Act} (hprogram : db.program act = some program) :
    data.Yields program (Transition db data act) := by
  cases act with
  | put_lock key record => exact DBImpl.put_lock_transition hprogram
  | put_write => exact DBImpl.put_write_transition hprogram
  | bg_wake => exact DBImpl.bg_wake_transition hprogram
  | bg_reset => exact DBImpl.bg_reset_transition hprogram
  | minor_prepare => exact DBImpl.minor_prepare_transition hprogram
  | minor_build ok => exact DBImpl.minor_build_transition hprogram
  | minor_install => exact DBImpl.minor_install_transition hprogram
  | compact_prepare owner order => exact DBImpl.compact_prepare_transition hprogram
  | compact_build index ok => exact DBImpl.compact_build_transition hprogram
  | compact_install index => exact DBImpl.compact_install_transition hprogram
  | stop => exact DBImpl.stop_transition hprogram
  | last_flush => exact DBImpl.last_flush_transition hprogram

end

theorem Act.ne_last_flush {act : Act} (h : act.is_destructor = false) : act ≠ .last_flush := by
  rintro rfl
  cases h

theorem System.step_eq_some {self next : System} {act : Act} (h : self.step act = some next) :
    ∃ program, self.db.program act = some program ∧ next.db = (program self.disk).1 ∧
      next.disk = program.final self.disk := by
  obtain ⟨program, hprogram, rfl⟩ := Option.map_eq_some_iff.mp h
  exact ⟨program, hprogram, rfl, rfl⟩

theorem System.step_transition {self next : System} {act : Act} (h : self.step act = some next) :
    Transition self.db self.disk.data act next.db next.disk.data := by
  obtain ⟨program, hprogram, hdb, hdisk⟩ := System.step_eq_some h
  rw [hdb, hdisk]
  exact DBImpl.transition hprogram self.disk rfl

theorem Transition.writer_put_lock {data data' : Data} {db db' : DBImpl} {key : Key} {record : ValueRecord}
    (ht : Transition db data (.put_lock key record) db' data') : db'.writer = some (key, record) := by
  cases ht <;> rfl

theorem System.puts_cons {self mid : System} {act : Act} {acts : List Act} (hstep : self.step act = some mid) :
    self.puts (act :: acts) = self.db.completes act ++ mid.puts acts := by
  simp [System.puts, hstep]

theorem System.puts_append {self mid : System} {first : List Act} (h : self.run first = some mid)
    (second : List Act) : self.puts (first ++ second) = self.puts first ++ mid.puts second := by
  induction first generalizing self with
  | nil =>
    cases h
    rfl
  | cons act acts ih =>
    obtain ⟨next, hstep, hrest⟩ := Option.bind_eq_some_iff.mp h
    rw [List.cons_append, System.puts_cons hstep, System.puts_cons hstep, ih hrest, List.append_assoc]

/-- A property of states that every transition keeps holds along every run. -/
theorem System.run_induction {invariant : System → Prop} {self next : System} {acts : List Act}
    (hstep : ∀ (system system' : System), ∀ act ∈ acts, invariant system →
      system.step act = some system' → invariant system')
    (h : invariant self) (hrun : self.run acts = some next) : invariant next := by
  induction acts generalizing self with
  | nil =>
    cases hrun
    exact h
  | cons act acts ih =>
    obtain ⟨mid, hmid, hrest⟩ := Option.bind_eq_some_iff.mp hrun
    refine ih ?_ (hstep self mid act List.mem_cons_self h hmid) hrest
    exact fun system system' act hact => hstep system system' act (List.mem_cons_of_mem _ hact)

end NovaKV

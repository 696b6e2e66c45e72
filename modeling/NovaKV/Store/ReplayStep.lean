import NovaKV.Store.PutStep
import NovaKV.Store.Replay

open Std
open NovaKV.Lib

namespace NovaKV

/-- A step that keeps the session and writes these records. -/
def Replayed (remnant : Remnant) (writes : List WalRecord) (db' : DBImpl) (remnant' : Remnant) : Prop :=
  db'.Replaying remnant' ∧ remnant'.written = remnant.written ++ writes

theorem Flusher.after_eq_prepared {flusher : Flusher} {owner : Owner} {ctx : MinorCtx}
    (h : flusher.after owner = .prepared ctx) : flusher = .prepared ctx := by
  cases owner with
  | flusher => cases h
  | caller => exact h

theorem Flusher.compacting_eq_prepared {flusher : Flusher} {owner : Owner} {ctx : MinorCtx}
    (h : (match owner with
      | .flusher => Flusher.compacting
      | .caller => flusher) = .prepared ctx) : flusher = .prepared ctx := by
  cases owner with
  | flusher => cases h
  | caller => exact h

section

variable {db : DBImpl} {remnant : Remnant} {program : FileM DBImpl}

/-- The table file is written and opened, and removed again where that fails. -/
theorem Remnant.Replays.create_opened {id : Nat} {table : SSTable} {ok : Bool}
    {post : Option SSTableReader → Remnant → Prop} (h : remnant.Replays)
    (htable : Covers remnant.records table.get_record)
    (hpost : ∀ (reader : Option SSTableReader) (ssts : ExtTreeMap Nat SSTable),
      (∀ opened, reader = some opened → opened.table = table) → { remnant with ssts := ssts }.Replays →
      post reader { remnant with ssts := ssts }) :
    remnant.Triple (do
      Program.emit (.create_sst id table)
      match if ok then SSTableReader.open id table else none with
      | some reader => return some reader
      | none => do
        Program.emit (.remove_sst id)
        return none) post Remnant.Replays := by
  have hcreated : { remnant with ssts := remnant.ssts.insert id table }.Replays := h.insert_sst htable
  refine .seq (.create_sst h hcreated ?_)
  cases hopened : (if ok then SSTableReader.open id table else none) with
  | some reader =>
    refine .pure hcreated (hpost _ _ ?_ hcreated)
    rintro _ ⟨⟩
    split at hopened
    · exact (SSTableReader.open_eq_some hopened).2
    · cases hopened
  | none =>
    have hremoved := hcreated.erase_sst id
    refine .seq (.remove_sst hcreated hremoved (.pure hremoved (hpost _ _ ?_ hremoved)))
    intro opened heq
    cases heq

/-- A table that shows nothing new appears, and perhaps goes away again. -/
theorem Remnant.Replays.write_sst {id : Nat} {table : SSTable} {ok : Bool}
    {post : Option SSTableReader → Remnant → Prop} (h : remnant.Replays)
    (htable : Covers remnant.records table.get_record)
    (hpost : ∀ (reader : Option SSTableReader) (ssts : ExtTreeMap Nat SSTable),
      (∀ opened, reader = some opened → opened.table = table) → { remnant with ssts := ssts }.Replays →
      post reader { remnant with ssts := ssts }) :
    remnant.Triple (write_sst id table ok) post Remnant.Replays := by
  refine .seq (.read h ?_)
  intro disk hdisk
  by_cases hstale : id ∈ disk.ssts
  · rw [if_pos hstale]
    have hremoved := h.erase_sst id
    exact .seq (.remove_sst h hremoved (hremoved.create_opened htable fun reader ssts => hpost reader ssts))
  · rw [if_neg hstale]
    exact h.create_opened htable hpost

/-- The loop of `consume_l0`. -/
theorem Remnant.Replays.consume_l0 {manifest : ManifestManager Nat} {ids : List Nat}
    {post : ManifestManager Nat → Remnant → Prop} (h : remnant.Replays)
    (hnext : remnant.next = manifest.state.next_file_number)
    (hpost : ∀ (manifest' : ManifestManager Nat) (ssts : ExtTreeMap Nat SSTable),
      remnant.next = manifest'.state.next_file_number → { remnant with ssts := ssts }.Replays →
      post manifest' { remnant with ssts := ssts }) :
    remnant.Triple (consume_l0 manifest ids) post Remnant.Replays := by
  induction ids generalizing remnant manifest with
  | nil => exact .pure h (hpost manifest remnant.ssts hnext h)
  | cons id ids ih =>
    have hremoved := h.erase_sst id
    refine .seq (@Remnant.Triple.record _ _ manifest (.remove_sst id) _ nofun h.snapshot hnext h ?_)
    intro hkept
    refine .seq (.remove_sst h hremoved ?_)
    exact ih hremoved hkept hpost

theorem DBImpl.Replaying.put_lock {key : Key} {record : ValueRecord} (h : db.Replaying remnant)
    (hprogram : db.put_lock key record = some program) :
    remnant.Triple program (Replayed remnant []) Remnant.Replays := by
  unfold DBImpl.put_lock at hprogram
  split at hprogram
  · cases hprogram
  obtain ⟨levels, mem, imm, active_wal_id, imm_wal_id, stopped, scheduled, bg, flusher, writer, calls⟩ := db
  cases mem with
  | none => cases hprogram
  | some mem =>
    simp only at hprogram
    split at hprogram
    · cases hprogram
      exact .pure h.replays ⟨⟨h.replays, h.next, h.logged, h.mem, h.levels, h.flush, h.outputs, h.built⟩, by simp⟩
    cases imm with
    | some imm => cases hprogram
    | none =>
    cases hprogram
    obtain ⟨old, immLog, memLog, hlogged⟩ := h.logged
    have hfresh : ∀ id ∈ remnant.wals, id < remnant.next + 1 :=
      fun id hid => Nat.lt_succ_of_le (h.replays.wals_le id hid)
    have hallocated := h.replays.set_next (Nat.le_succ remnant.next)
    have hcreated := hallocated.create_wal (Nat.le_refl _) hfresh
    have hrecords := @Remnant.records_create_wal remnant (remnant.next + 1) hfresh
    refine .seq (.allocate h.replays.snapshot h.next h.replays hallocated ?_)
    intro manifest hmanifest
    rw [hmanifest]
    refine .seq (.seq (.create_wal hallocated hcreated (.pure hcreated ?_)))
    refine .seq (@Remnant.Triple.record _ _ manifest (.add_wal _) _ (by simp) h.replays.snapshot hmanifest.symm hcreated
      ?_)
    intro hkept
    refine .pure hcreated ⟨⟨hcreated, hkept, ⟨old, memLog, [], hlogged.rotate hfresh⟩, rfl, ?_, ?_, ?_, ?_⟩, by simp⟩
    · exact hrecords ▸ h.levels
    · intro ctx hctx
      cases h.flush ctx hctx
    · exact hrecords ▸ h.outputs
    · exact hrecords ▸ h.built

theorem DBImpl.Replaying.put_write (h : db.Replaying remnant) (hprogram : db.put_write = some program) :
    remnant.Triple program (Replayed remnant (db.completes .put_write)) Remnant.Replays := by
  obtain ⟨levels, mem, imm, active_wal_id, imm_wal_id, stopped, scheduled, bg, flusher, writer, calls⟩ := db
  cases writer with
  | none => cases hprogram
  | some write =>
  cases mem with
  | none => cases hprogram
  | some mem =>
  obtain ⟨key, record⟩ := write
  cases hprogram
  obtain ⟨old, immLog, memLog, hlogged⟩ := h.logged
  have hentries := hlogged.entries
  rw [Option.toList_some, List.map_singleton, ← List.append_assoc] at hentries
  obtain ⟨hafter, hrecords⟩ := h.replays.append_wal hentries (key, record)
  have hlater : ∀ {find : Key → Option ValueRecord}, Covers remnant.records find → Covers (Remnant.records
      { remnant with
        wals := remnant.wals.insert mem.wal (remnant.wals[mem.wal]?.getD [] ++ [(key, record)])
        written := remnant.written ++ [(key, record)] }) find := by
    intro find hfind
    rw [hrecords]
    exact hfind.mono _
  refine .seq (.seq (.append_wal h.replays hafter (.pure hafter (.pure hafter ⟨?_, rfl⟩))))
  exact ⟨hafter, h.next, ⟨old, immLog, _, hlogged.append key record⟩, rfl,
    fun reader hreader => hlater (h.levels reader hreader), h.flush,
    fun call hcall => hlater (h.outputs call hcall),
    fun call hcall reader hreader => hlater (h.built call hcall reader hreader)⟩

theorem DBImpl.Replaying.bg_wake (h : db.Replaying remnant) (hprogram : db.bg_wake = some program) :
    remnant.Triple program (Replayed remnant []) Remnant.Replays := by
  unfold DBImpl.bg_wake at hprogram
  split at hprogram
  · split at hprogram
    · cases hprogram
      exact .pure h.replays ⟨⟨h.replays, h.next, h.logged, h.mem, h.levels, h.flush, h.outputs, h.built⟩, by simp⟩
    · split at hprogram
      · cases hprogram
        exact .pure h.replays ⟨⟨h.replays, h.next, h.logged, h.mem, h.levels, nofun, h.outputs, h.built⟩, by simp⟩
      · cases hprogram
  · cases hprogram

theorem DBImpl.Replaying.bg_reset (h : db.Replaying remnant) (hprogram : db.bg_reset = some program) :
    remnant.Triple program (Replayed remnant []) Remnant.Replays := by
  unfold DBImpl.bg_reset at hprogram
  split at hprogram
  · cases hprogram
    exact .pure h.replays ⟨⟨h.replays, h.next, h.logged, h.mem, h.levels, h.flush, h.outputs, h.built⟩, by simp⟩
  · cases hprogram

theorem DBImpl.Replaying.stop (h : db.Replaying remnant) (hprogram : db.stop = some program) :
    remnant.Triple program (Replayed remnant []) Remnant.Replays := by
  unfold DBImpl.stop at hprogram
  split at hprogram
  · cases hprogram
  · cases hprogram
    exact .pure h.replays ⟨⟨h.replays, h.next, h.logged, h.mem, h.levels, h.flush, h.outputs, h.built⟩, by simp⟩

theorem DBImpl.Replaying.minor_prepare (h : db.Replaying remnant) (hprogram : db.minor_prepare = some program) :
    remnant.Triple program (Replayed remnant []) Remnant.Replays := by
  obtain ⟨levels, mem, imm, active_wal_id, imm_wal_id, stopped, scheduled, bg, flusher, writer, calls⟩ := db
  unfold DBImpl.minor_prepare at hprogram
  split at hprogram
  · cases hprogram
    cases imm with
    | none =>
      exact .pure h.replays ⟨⟨h.replays, h.next, h.logged, h.mem, h.levels, nofun, h.outputs, h.built⟩, by simp⟩
    | some imm =>
      have hallocated := h.replays.set_next (Nat.le_succ remnant.next)
      refine .seq (.allocate h.replays.snapshot h.next h.replays hallocated ?_)
      intro manifest hmanifest
      refine .pure hallocated ⟨⟨hallocated, hmanifest.symm, h.logged, h.mem, h.levels, ?_, h.outputs, h.built⟩, by simp⟩
      rintro _ ⟨⟩
      rfl
  · cases hprogram

theorem DBImpl.Replaying.minor_build {ok : Bool} (h : db.Replaying remnant)
    (hprogram : db.minor_build ok = some program) :
    remnant.Triple program (Replayed remnant []) Remnant.Replays := by
  unfold DBImpl.minor_build at hprogram
  split at hprogram
  · rename_i ctx hprepared
    cases hprogram
    refine .seq (h.replays.write_sst (h.imm_covered (h.flush ctx hprepared)).of_map ?_)
    intro reader ssts _ hssts
    exact .pure hssts ⟨⟨hssts, h.next, h.logged, h.mem, h.levels, nofun, h.outputs, h.built⟩, by simp⟩
  · cases hprogram

theorem DBImpl.Replaying.compact_prepare {owner : Owner} {order : IterationOrder (Nat × UInt32)}
    (h : db.Replaying remnant) (hprogram : db.compact_prepare owner order = some program) :
    remnant.Triple program (Replayed remnant []) Remnant.Replays := by
  unfold DBImpl.compact_prepare at hprogram
  split at hprogram
  · cases hprogram
  cases hprogram
  have hreturn : Replayed remnant [] { db with levels := db.levels, flusher := db.flusher.after owner } remnant :=
    ⟨⟨h.replays, h.next, h.logged, h.mem, h.levels, fun ctx hctx => h.flush ctx (Flusher.after_eq_prepared hctx),
      h.outputs, h.built⟩, by simp⟩
  unfold Levels.prepare_l0_to_l1
  by_cases hl0 : db.levels.l0 = []
  · simp only [if_pos hl0]
    exact .seq (.pure h.replays (.pure h.replays hreturn))
  simp only [if_neg hl0, merge_records_isEmpty hl0]
  split
  · exact .seq (.pure h.replays (.pure h.replays hreturn))
  have hallocated := h.replays.set_next (Nat.le_succ remnant.next)
  refine .seq (.seq (.allocate h.replays.snapshot h.next h.replays hallocated ?_))
  intro manifest hmanifest
  refine .pure hallocated (.pure hallocated
    ⟨⟨hallocated, hmanifest.symm, h.logged, h.mem, h.levels,
      fun ctx hctx => h.flush ctx (Flusher.compacting_eq_prepared hctx), ?_, ?_⟩, by simp⟩)
  · intro call hcall
    rcases List.mem_append.mp hcall with hcall | hcall
    · exact h.outputs call hcall
    · cases List.mem_singleton.mp hcall
      exact Covers.output_records h.levels
  · intro call hcall reader hreader
    rcases List.mem_append.mp hcall with hcall | hcall
    · exact h.built call hcall reader hreader
    · cases List.mem_singleton.mp hcall
      cases hreader

theorem DBImpl.Replaying.compact_build {index : Nat} {ok : Bool} (h : db.Replaying remnant)
    (hprogram : db.compact_build index ok = some program) :
    remnant.Triple program (Replayed remnant []) Remnant.Replays := by
  unfold DBImpl.compact_build at hprogram
  split at hprogram
  · rename_i owner ctx hcall
    cases hprogram
    have houtput : Covers remnant.records fun key => ctx.output_records[key]? :=
      h.outputs ⟨owner, ctx, none⟩ (List.mem_of_getElem? hcall)
    have hset : ∀ (ssts : ExtTreeMap Nat SSTable) (reader : Option SSTableReader),
        { remnant with ssts := ssts }.Replays →
        (∀ opened, reader = some opened → Covers remnant.records opened.table.get_record) →
        Replayed remnant [] { db with calls := db.calls.set index ⟨owner, ctx, some reader⟩ }
          { remnant with ssts := ssts } := by
      intro ssts reader hssts hreader
      refine ⟨⟨hssts, h.next, h.logged, h.mem, h.levels, h.flush, ?_, ?_⟩, by simp⟩
      · intro call hmem
        rcases List.mem_or_eq_of_mem_set hmem with hold | rfl
        · exact h.outputs call hold
        · exact houtput
      · intro call hmem opened hopened
        rcases List.mem_or_eq_of_mem_set hmem with hold | rfl
        · exact h.built call hold opened hopened
        · exact hreader opened (Option.some.inj hopened)
    have hended : ∀ ssts : ExtTreeMap Nat SSTable, { remnant with ssts := ssts }.Replays →
        Replayed remnant [] { db with calls := db.calls.eraseIdx index, flusher := db.flusher.after owner }
          { remnant with ssts := ssts } := by
      intro ssts hssts
      exact ⟨⟨hssts, h.next, h.logged, h.mem, h.levels,
        fun ctx hctx => h.flush ctx (Flusher.after_eq_prepared hctx),
        fun call hmem => h.outputs call (List.mem_of_mem_eraseIdx hmem),
        fun call hmem => h.built call (List.mem_of_mem_eraseIdx hmem)⟩, by simp⟩
    split
    · rename_i hhas
      cases hid : ctx.new_sst_id with
      | none =>
        rw [build_l0_to_l1_sst_without_id hid]
        exact .seq (.pure h.replays (.pure h.replays (hended remnant.ssts h.replays)))
      | some id =>
        rw [build_l0_to_l1_sst_eq_write hhas hid]
        refine .seq (h.replays.write_sst houtput.of_map ?_)
        intro reader ssts hreader hssts
        cases reader with
        | some reader =>
          refine .pure hssts (hset ssts (some reader) hssts ?_)
          rintro _ ⟨⟩
          rw [hreader reader rfl]
          exact houtput.of_map
        | none => exact .pure hssts (hended ssts hssts)
    · exact .pure h.replays (hset remnant.ssts none h.replays nofun)
  · cases hprogram

/-- The end of a call that leaves these levels. -/
theorem DBImpl.Replaying.end_call {index : Nat} {owner : Owner} {levels : Levels} {ssts : ExtTreeMap Nat SSTable}
    (h : db.Replaying remnant) (hssts : { remnant with ssts := ssts }.Replays)
    (hnext : remnant.next = levels.manifest.state.next_file_number)
    (hlevels : ∀ reader ∈ levels.l0 ++ levels.l1, Covers remnant.records reader.table.get_record) :
    Replayed remnant []
      { db with levels := levels, calls := db.calls.eraseIdx index, flusher := db.flusher.after owner }
      { remnant with ssts := ssts } :=
  ⟨⟨hssts, hnext, h.logged, h.mem, hlevels, fun ctx hctx => h.flush ctx (Flusher.after_eq_prepared hctx),
    fun call hmem => h.outputs call (List.mem_of_mem_eraseIdx hmem),
    fun call hmem => h.built call (List.mem_of_mem_eraseIdx hmem)⟩, by simp⟩

theorem Levels.install_replays {levels : Levels} {ctx : L0ToL1Ctx} {reader : Option SSTableReader}
    {post : Levels × Bool → Remnant → Prop} (h : remnant.Replays)
    (hnext : remnant.next = levels.manifest.state.next_file_number)
    (hlevels : ∀ reader ∈ levels.l0 ++ levels.l1, Covers remnant.records reader.table.get_record)
    (hreader : ∀ opened, reader = some opened → Covers remnant.records opened.table.get_record)
    (hpost : ∀ (levels' : Levels) (installed : Bool) (ssts : ExtTreeMap Nat SSTable),
      { remnant with ssts := ssts }.Replays → remnant.next = levels'.manifest.state.next_file_number →
      (∀ reader ∈ levels'.l0 ++ levels'.l1, Covers remnant.records reader.table.get_record) →
      post (levels', installed) { remnant with ssts := ssts }) :
    remnant.Triple (levels.install_l0_to_l1 ctx reader) post Remnant.Replays := by
  cases hunchanged : levels.inputs_unchanged ctx with
  | false =>
    rw [Levels.install_of_changed hunchanged]
    exact .pure h (hpost levels false remnant.ssts h hnext hlevels)
  | true =>
    by_cases hempty : ctx.merged_l0_records.isEmpty = true ∨ ctx.has_output = false
    · rw [Levels.install_without_output hunchanged hempty]
      refine .seq (h.consume_l0 hnext ?_)
      intro manifest ssts hmanifest hssts
      exact .pure hssts (hpost _ true ssts hssts hmanifest
        fun reader hmem => hlevels reader (List.mem_append_right _ hmem))
    · simp only [not_or, Bool.not_eq_true, Bool.not_eq_false] at hempty
      cases reader with
      | none =>
        rw [Levels.install_without_reader hempty.1 hempty.2]
        exact .pure h (hpost levels false remnant.ssts h hnext hlevels)
      | some opened =>
        rw [Levels.install_with_reader hunchanged hempty.1 hempty.2]
        refine .seq (@Remnant.Triple.record _ _ levels.manifest (.add_sst _ _) _ nofun h.snapshot hnext h ?_)
        intro hadded
        refine .seq (h.consume_l0 hadded ?_)
        intro manifest ssts hmanifest hssts
        refine .pure hssts (hpost _ true ssts hssts hmanifest ?_)
        intro other hother
        rw [List.nil_append, List.mem_append, List.mem_singleton] at hother
        rcases hother with hother | rfl
        · exact hlevels other (List.mem_append_right _ hother)
        · exact hreader _ rfl

theorem DBImpl.Replaying.compact_install {index : Nat} (h : db.Replaying remnant)
    (hprogram : db.compact_install index = some program) :
    remnant.Triple program (Replayed remnant []) Remnant.Replays := by
  unfold DBImpl.compact_install at hprogram
  split at hprogram
  · rename_i owner ctx reader hcall
    cases hprogram
    refine .seq (Levels.install_replays h.replays h.next h.levels ?_ ?_)
    · rintro opened rfl
      exact h.built ⟨owner, ctx, some (some opened)⟩ (List.mem_of_getElem? hcall) opened rfl
    intro levels installed ssts hssts hnext hlevels
    have hremoved : ∀ id, { remnant with ssts := ssts.erase id }.Replays := fun id => hssts.erase_sst id
    cases installed with
    | true => exact .pure hssts (h.end_call hssts hnext hlevels)
    | false =>
      simp only [Bool.not_false, if_true]
      cases ctx.new_sst_id with
      | none => exact .pure hssts (h.end_call hssts hnext hlevels)
      | some id =>
        exact .seq (.remove_sst hssts (hremoved id) (.pure (hremoved id) (h.end_call (hremoved id) hnext hlevels)))
  · cases hprogram

/-- Until the log of the flushed memtable is removed, a flush that is installed changes
nothing. -/
theorem DBImpl.Replaying.minor_install (h : db.Replaying remnant) (hprogram : db.minor_install = some program) :
    remnant.Triple program (fun _ _ => True) fun remnant' => remnant'.wals = remnant.wals → remnant'.Replays := by
  unfold DBImpl.minor_install at hprogram
  split at hprogram
  · rename_i ctx reader hbuilt
    cases hprogram
    have hkept : remnant.wals = remnant.wals → remnant.Replays := fun _ => h.replays
    cases reader with
    | none => exact .pure hkept trivial
    | some reader =>
      have hremoved : ∀ id, remnant.wals.erase id = remnant.wals →
          { remnant with wals := remnant.wals.erase id }.Replays := by
        intro id hsame
        rw [hsame]
        exact h.replays
      refine .seq (@Remnant.Triple.record _ _ db.levels.manifest (.add_sst _ _) _ nofun h.replays.snapshot h.next hkept ?_)
      intro hadded
      refine .seq (@Remnant.Triple.record _ _ _ (.remove_wal _) _ nofun h.replays.snapshot hadded hkept ?_)
      intro _
      exact .seq (.remove_wal hkept (hremoved _) (.pure (hremoved _) trivial))
  · cases hprogram

/-- Every action but the installation of a flush and the destructor's last flush keeps
the session. -/
theorem DBImpl.Replaying.step {act : Act} (h : db.Replaying remnant) (hprogram : db.program act = some program)
    (hinstall : act ≠ .minor_install) (hlast : act ≠ .last_flush) :
    remnant.Triple program (Replayed remnant (db.completes act)) Remnant.Replays := by
  cases act with
  | put_lock key record => exact h.put_lock hprogram
  | put_write => exact h.put_write hprogram
  | bg_wake => exact h.bg_wake hprogram
  | bg_reset => exact h.bg_reset hprogram
  | minor_prepare => exact h.minor_prepare hprogram
  | minor_build ok => exact h.minor_build hprogram
  | minor_install => exact absurd rfl hinstall
  | compact_prepare owner order => exact h.compact_prepare hprogram
  | compact_build index ok => exact h.compact_build hprogram
  | compact_install index => exact h.compact_install hprogram
  | stop => exact h.stop hprogram
  | last_flush => exact absurd rfl hlast

end

end NovaKV

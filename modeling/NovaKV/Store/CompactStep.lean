import NovaKV.Store.FlushStep

open Std
open NovaKV.Lib

namespace NovaKV

section

variable {levels : Levels} {imm : Option MemTable} {imm_wal_id : Nat} {flusher : Flusher}
  {calls : List CompactCall} {files : Files}

/-- A compaction call that ends hands the flusher back, if it was the flusher's. -/
theorem Working.after (h : Working levels imm imm_wal_id flusher calls files) (owner : Owner) :
    Working levels imm imm_wal_id (flusher.after owner) calls files := by
  cases owner with
  | flusher => exact h.set_flusher trivial rfl
  | caller => exact h

/-- A compaction call gets under way. -/
theorem Working.add_call {call : CompactCall} (h : Working levels imm imm_wal_id flusher calls files)
    (hok : call.Ok levels files) (hle : call.ctx.new_id ≤ files.state.next_file_number)
    (hunlisted : call.ctx.new_id ∉ files.state.sst_levels)
    (hfresh : call.ctx.new_id ∉ reserved flusher calls)
    (hinputs : ∀ id ∈ flusher.reserved, id ∉ call.ctx.l0_input_ids) :
    Working levels imm imm_wal_id flusher (calls ++ [call]) files := by
  have hreserved : reserved flusher (calls ++ [call]) = reserved flusher calls ++ [call.ctx.new_id] := by
    simp [reserved]
  have hextend : ∀ ctx : MinorCtx, ctx.new_sst_id ∈ flusher.reserved →
      ctx.Ok imm imm_wal_id levels.l0 calls → ctx.Ok imm imm_wal_id levels.l0 (calls ++ [call]) := by
    intro ctx hid hctx
    refine ⟨hctx.imm, hctx.old_wal_id, hctx.newest, ?_⟩
    intro other hother
    rcases List.mem_append.mp hother with hother | hother
    · exact hctx.no_input other hother
    · rw [List.mem_singleton.mp hother]
      exact hinputs _ hid
  refine ⟨h.stored, ?_, ?_, ?_, ?_, ?_, h.imm_nonempty⟩
  · have hflush := h.flush
    cases flusher with
    | prepared ctx => exact hextend ctx (by simp [Flusher.reserved]) hflush
    | built ctx reader => exact ⟨hextend ctx (by simp [Flusher.reserved]) hflush.1, hflush.2⟩
    | _ => trivial
  · intro other hother
    rcases List.mem_append.mp hother with hother | hother
    · exact h.compactions other hother
    · rw [List.mem_singleton.mp hother]
      exact hok
  · rw [hreserved, List.nodup_append]
    refine ⟨h.distinct, List.nodup_singleton _, ?_⟩
    rintro id hid other hother rfl
    rw [List.mem_singleton] at hother
    exact hfresh (hother ▸ hid)
  · intro id hid
    rw [hreserved, List.mem_append, List.mem_singleton] at hid
    rcases hid with hid | rfl
    · exact h.reserved_le id hid
    · exact hle
  · intro id hid
    rw [hreserved, List.mem_append, List.mem_singleton] at hid
    rcases hid with hid | rfl
    · exact h.unlisted id hid
    · exact hunlisted

/-- A compaction prepared from the current levels. -/
theorem Working.prepare_l0_to_l1 {call : CompactCall} {order : IterationOrder (Nat × UInt32)}
    {manifest : ManifestManager Nat} (h : Working levels imm imm_wal_id flusher calls files)
    (hl0 : levels.l0 ≠ []) (hmanifest : files.allocated.state = manifest.state)
    (hinputs : call.ctx.l0_input_ids = l0_ids order levels.manifest.state)
    (hmerged : call.ctx.merged_l0_records = merge_records levels.l0)
    (houtput : call.ctx.output_records = output_records levels.l1 (merge_records levels.l0))
    (hhas : call.ctx.has_output = !call.ctx.output_records.isEmpty)
    (hid : call.ctx.new_sst_id = some manifest.state.next_file_number) (hreader : call.reader = none) :
    Working { levels with manifest := manifest } imm imm_wal_id flusher (calls ++ [call])
      files.allocated := by
  have hlists := h.stored.holds.lists
  have hids : call.ctx.l0_input_ids.Perm (levels.l0.map SSTableReader.file_number) := by
    rw [hinputs, ← h.stored.synced]
    exact hlists.l0_ids_perm order
  have hnew : call.ctx.new_id = files.state.next_file_number + 1 := by
    rw [L0ToL1Ctx.new_id, hid, ← hmanifest]
    rfl
  have hmem : ∀ id ∈ call.ctx.l0_input_ids, ∃ r ∈ levels.l0, r.file_number = id :=
    fun id hid => List.mem_map.mp (hids.mem_iff.mp hid)
  refine (h.allocated hmanifest).add_call ⟨?_, ?_, ?_, ?_, hhas, ?_, ?_⟩ ?_ ?_ ?_ ?_
  · intro hnil
    rw [hnil] at hids
    exact hl0 (List.map_eq_nil_iff.mp (List.perm_nil.mp hids.symm))
  · intro id hid
    obtain ⟨r, hr, rfl⟩ := hmem id hid
    exact (hlists.le_next0 hr).trans (Nat.le_succ _)
  · rw [L0ToL1Ctx.new_id, hid]
    rfl
  · rw [hmerged]
    exact merge_records_isEmpty hl0
  · intro _
    refine ⟨houtput, ?_⟩
    intro r hr
    rw [hnew]
    exact Nat.lt_succ_of_le (hlists.le_next1 hr)
  · rw [hreader]
    nofun
  · rw [hnew]
    rfl
  · intro hlisted
    have hle := hlists.bounded _ hlisted
    omega
  · intro hreserved
    have hle := h.reserved_le _ hreserved
    omega
  · intro id hreserved hinput
    obtain ⟨r, hr, rfl⟩ := hmem id hinput
    have hflush := h.flush
    cases flusher with
    | prepared ctx =>
      rw [Flusher.reserved, List.mem_singleton] at hreserved
      exact Nat.ne_of_lt (hflush.newest r hr) hreserved
    | built ctx reader =>
      rw [Flusher.reserved, List.mem_singleton] at hreserved
      exact Nat.ne_of_lt (hflush.1.newest r hr) hreserved
    | _ => cases hreserved

/-- A call ends, with or without its output file. -/
theorem Working.remove_call {call : CompactCall} {index : Nat}
    (h : Working levels imm imm_wal_id flusher calls files) (hcall : calls[index]? = some call) :
    Working levels imm imm_wal_id flusher (calls.eraseIdx index) files ∧
      call.ctx.new_id ∉ reserved flusher (calls.eraseIdx index) := by
  obtain ⟨hindex, rfl⟩ := List.getElem?_eq_some_iff.mp hcall
  have hperm : (reserved flusher calls).Perm
      (calls[index].ctx.new_id :: reserved flusher (calls.eraseIdx index)) := by
    have hcalls := (List.getElem_cons_eraseIdx_perm hindex).symm.map (·.ctx.new_id)
    exact (hcalls.append_left flusher.reserved).trans List.perm_middle
  have hdistinct := hperm.nodup_iff.mp h.distinct
  rw [List.nodup_cons] at hdistinct
  have hsub : ∀ id ∈ reserved flusher (calls.eraseIdx index), id ∈ reserved flusher calls :=
    fun id hid => hperm.mem_iff.mpr (List.mem_cons_of_mem _ hid)
  have hrestrict : ∀ ctx : MinorCtx, ctx.Ok imm imm_wal_id levels.l0 calls →
      ctx.Ok imm imm_wal_id levels.l0 (calls.eraseIdx index) := by
    intro ctx hctx
    exact ⟨hctx.imm, hctx.old_wal_id, hctx.newest,
      fun other hother => hctx.no_input other (List.mem_of_mem_eraseIdx hother)⟩
  refine ⟨⟨h.stored, ?_, ?_, hdistinct.2, ?_, ?_, h.imm_nonempty⟩, hdistinct.1⟩
  · have hflush := h.flush
    cases flusher with
    | prepared ctx => exact hrestrict ctx hflush
    | built ctx reader => exact ⟨hrestrict ctx hflush.1, hflush.2⟩
    | _ => trivial
  · exact fun other hother => h.compactions other (List.mem_of_mem_eraseIdx hother)
  · exact fun id hid => h.reserved_le id (hsub id hid)
  · exact fun id hid => h.unlisted id (hsub id hid)

/-- A table file that no one has a use for goes away. -/
theorem Working.erase_sst {id : Nat} (h : Working levels imm imm_wal_id flusher calls files)
    (hunlisted : id ∉ files.state.sst_levels) (hfree : id ∉ reserved flusher calls) :
    Working levels imm imm_wal_id flusher calls { files with ssts := files.ssts.erase id } where
  stored := ⟨h.stored.snapshot, h.stored.synced, h.stored.holds.erase_sst hunlisted⟩
  flush := by
    have hflush := h.flush
    cases flusher with
    | prepared ctx => exact hflush
    | built ctx reader =>
      obtain ⟨hctx, r, hr, hnumber, htable, hfile⟩ := hflush
      refine ⟨hctx, r, hr, hnumber, htable, ?_⟩
      have hne : id ≠ ctx.new_sst_id := by
        rintro rfl
        exact hfree (by simp [reserved, Flusher.reserved])
      simp [ExtTreeMap.getElem?_erase, hne, hfile]
    | _ => trivial
  compactions call hcall := by
    refine (h.compactions call hcall).mono (Nat.le_refl _) (fun _ => ⟨rfl, rfl⟩) fun _ => ?_
    have hne : id ≠ call.ctx.new_id := by
      rintro rfl
      exact hfree (List.mem_append_right _ (List.mem_map_of_mem hcall))
    simp [ExtTreeMap.getElem?_erase, hne]
  distinct := h.distinct
  reserved_le := h.reserved_le
  unlisted := h.unlisted
  imm_nonempty := h.imm_nonempty

/-- A call moves on with the same context. -/
theorem Working.set_call {call call' : CompactCall} {index : Nat}
    (h : Working levels imm imm_wal_id flusher calls files) (hcall : calls[index]? = some call)
    (hctx : call'.ctx = call.ctx) (hok : call'.Ok levels files) :
    Working levels imm imm_wal_id flusher (calls.set index call') files := by
  obtain ⟨hindex, rfl⟩ := List.getElem?_eq_some_iff.mp hcall
  have hreserved : reserved flusher (calls.set index call') = reserved flusher calls := by
    rw [reserved, reserved, List.map_set, hctx]
    congr 1
    apply List.ext_getElem?
    intro i
    rw [List.getElem?_set]
    by_cases hi : index = i
    · subst hi
      simp [hindex]
    · simp [hi]
  have hmem : ∀ other ∈ calls.set index call', other = call' ∨ other ∈ calls := by
    intro other hother
    exact (List.mem_or_eq_of_mem_set hother).symm
  have hupdate : ∀ ctx : MinorCtx, ctx.Ok imm imm_wal_id levels.l0 calls →
      ctx.Ok imm imm_wal_id levels.l0 (calls.set index call') := by
    intro ctx hminor
    refine ⟨hminor.imm, hminor.old_wal_id, hminor.newest, ?_⟩
    intro other hother
    rcases hmem other hother with rfl | hother
    · rw [hctx]
      exact hminor.no_input _ (List.getElem_mem hindex)
    · exact hminor.no_input other hother
  refine ⟨h.stored, ?_, ?_, hreserved ▸ h.distinct, hreserved ▸ h.reserved_le,
    hreserved ▸ h.unlisted, h.imm_nonempty⟩
  · have hflush := h.flush
    cases flusher with
    | prepared ctx => exact hupdate ctx hflush
    | built ctx reader => exact ⟨hupdate ctx hflush.1, hflush.2⟩
    | _ => trivial
  · intro other hother
    rcases hmem other hother with rfl | hother
    · exact hok
    · exact h.compactions other hother

/-- The output of a call is built under the number reserved for it. -/
theorem Working.build_call {call : CompactCall} {index : Nat} {table : SSTable}
    (h : Working levels imm imm_wal_id flusher calls files) (hcall : calls[index]? = some call)
    (hreader : call.reader = none) :
    Working levels imm imm_wal_id flusher calls
      { files with ssts := files.ssts.insert call.ctx.new_id table } := by
  have hmem : call ∈ calls := List.mem_of_getElem? hcall
  have hreserved : call.ctx.new_id ∈ reserved flusher calls :=
    List.mem_append_right _ (List.mem_map_of_mem hmem)
  have hdistinct := h.distinct
  rw [reserved, List.nodup_append] at hdistinct
  refine h.insert_sst (h.unlisted _ hreserved) (h.reserved_le _ hreserved) ?_ rfl ?_
  · have hflush := h.flush
    cases flusher with
    | prepared ctx => exact hflush
    | built ctx reader =>
      obtain ⟨hctx, r, hr, hnumber, htable, hfile⟩ := hflush
      refine ⟨hctx, r, hr, hnumber, htable, ?_⟩
      have hne : call.ctx.new_id ≠ ctx.new_sst_id :=
        (hdistinct.2.2 _ (by simp [Flusher.reserved]) _ (List.mem_map_of_mem hmem)).symm
      simp [ExtTreeMap.getElem?_insert, hne, hfile]
    | _ => trivial
  · intro other hother hbuilt heq
    have hsame : other = call := List.inj_on_of_nodup_map hdistinct.2.1 hother hmem heq
    rw [hsame, hreader] at hbuilt
    cases hbuilt

end

section

variable {db : DBImpl} {files : Files} {old : List (Nat × List WalRecord)} {flushed : Bool}
  {immLog memLog : List WalRecord} {contents : Key → Option Bytes} {program : FileM DBImpl}

theorem DBImpl.Session.compact_prepare {owner : Owner} {order : IterationOrder (Nat × UInt32)}
    (h : db.Session files old flushed immLog memLog contents)
    (hprogram : db.compact_prepare owner order = some program) :
    files.Triple program (Kept old flushed contents files) (Safe (db.Covered old flushed) contents files) := by
  obtain ⟨levels, mem, imm, active_wal_id, imm_wal_id, stopped, scheduled, bg, flusher, writer, calls⟩ := db
  unfold DBImpl.compact_prepare at hprogram
  split at hprogram
  · cases hprogram
  cases hprogram
  have hstored := h.working.stored
  have hreturn : Kept old flushed contents files
      { levels := levels, mem := mem, imm := imm, active_wal_id := active_wal_id
        imm_wal_id := imm_wal_id, bg_stopped := stopped, bg_compaction_scheduled := scheduled, bg := bg
        flusher := flusher.after owner, writer := writer, calls := calls } files :=
    ⟨⟨_, _, h.working.after owner, h.logged, h.view⟩, rfl⟩
  unfold Levels.prepare_l0_to_l1
  by_cases hl0 : levels.l0 = []
  · simp only [if_pos hl0]
    exact .seq (.pure h.safe (.pure h.safe hreturn))
  simp only [if_neg hl0, merge_records_isEmpty hl0]
  split
  · exact .seq (.pure h.safe (.pure h.safe hreturn))
  refine .seq (.seq (.allocate hstored.synced hstored.snapshot h.safe h.safe.allocated ?_))
  intro manifest hmanifest
  refine .pure h.safe.allocated (.pure h.safe.allocated ⟨⟨_, _, ?_, h.logged, h.view⟩, rfl⟩)
  cases owner with
  | flusher =>
    exact Working.set_flusher (h.working.prepare_l0_to_l1 hl0 hmanifest rfl rfl rfl rfl rfl rfl) trivial rfl
  | caller => exact h.working.prepare_l0_to_l1 hl0 hmanifest rfl rfl rfl rfl rfl rfl

theorem DBImpl.Session.compact_build {index : Nat}
    (h : db.Session files old flushed immLog memLog contents)
    (hprogram : db.compact_build index true = some program) :
    files.Triple program (Kept old flushed contents files) (Safe (db.Covered old flushed) contents files) := by
  obtain ⟨levels, mem, imm, active_wal_id, imm_wal_id, stopped, scheduled, bg, flusher, writer, calls⟩ := db
  unfold DBImpl.compact_build at hprogram
  split at hprogram
  · rename_i owner ctx hcall
    cases hprogram
    have hmem : ⟨owner, ctx, none⟩ ∈ calls := List.mem_of_getElem? hcall
    have hok := h.working.compactions _ hmem
    by_cases hhas : ctx.has_output = true
    · have hnonempty : ctx.output_records.isEmpty = false := by
        have houtput := hok.has_output
        simpa [hhas] using houtput
      have hrecords := records_of_map_ne_nil hnonempty
      have hreserved : ctx.new_id ∈ reserved flusher calls :=
        List.mem_append_right _ (List.mem_map_of_mem hmem)
      have hunlisted := h.working.unlisted _ hreserved
      have hcreated := h.safe.insert_sst (.of_map ctx.output_records) hunlisted
        (h.working.reserved_le _ hreserved)
      rw [if_pos hhas, build_l0_to_l1_sst_eq_write hhas hok.new_sst_id]
      refine .seq (.write_sst hrecords h.safe (h.safe.erase_sst hunlisted) hcreated ?_)
      refine .pure hcreated ⟨⟨_, _, ?_, h.logged, h.view⟩, rfl⟩
      refine (h.working.build_call hcall rfl).set_call hcall rfl ?_
      refine ⟨hok.inputs, hok.inputs_le, hok.new_sst_id, hok.merged, hok.has_output, hok.current, ?_⟩
      rintro _ ⟨⟩
      exact .inr ⟨_, rfl, rfl, rfl, hhas, by simp⟩
    · rw [if_neg hhas]
      refine .pure h.safe ⟨⟨_, _, ?_, h.logged, h.view⟩, rfl⟩
      refine h.working.set_call hcall rfl ?_
      refine ⟨hok.inputs, hok.inputs_le, hok.new_sst_id, hok.merged, hok.has_output, hok.current, ?_⟩
      rintro _ ⟨⟩
      exact .inl ⟨rfl, by simpa using hhas⟩
  · cases hprogram

end

end NovaKV

import NovaKV.Store.CompactStep

open Std
open NovaKV.Lib

namespace NovaKV

/-- A directory after some tables left the manifest and their files were removed. -/
def Files.consumed (self : Files) (ids : List Nat) : Files :=
  { self with
    state := self.state.apply_edits (ids.map .DelSST)
    ssts := ids.foldl (fun ssts id => ssts.erase id) self.ssts }

theorem getElem?_foldl_erase (ssts : ExtTreeMap Nat SSTable) (ids : List Nat) (id : Nat) :
    (ids.foldl (fun ssts id => ssts.erase id) ssts)[id]? = if id ∈ ids then none else ssts[id]? := by
  induction ids generalizing ssts with
  | nil => rfl
  | cons other ids ih =>
    rw [List.foldl_cons, ih]
    by_cases hid : id ∈ ids
    · simp [hid]
    · by_cases hother : other = id
      · simp [hother]
      · simp [ExtTreeMap.getElem?_erase, hother, Ne.symm hother, hid]

/-- The loop of `consume_l0`. A crash finds some of the inputs gone, and possibly
one more out of the manifest whose file remains. -/
theorem Files.Triple.consume_l0 {files : Files} {crash : Files → Prop} {manifest : ManifestManager Nat}
    {ids : List Nat} {post : ManifestManager Nat → Files → Prop}
    (hsync : files.state = manifest.state) (hsnapshot : files.snapshot = true)
    (hdone : ∀ done, done <+: ids → crash (files.consumed done))
    (hedited : ∀ done id, done ++ [id] <+: ids → crash ((files.consumed done).commit (.DelSST id)))
    (hpost : ∀ next, (files.consumed ids).state = next.state → post next (files.consumed ids)) :
    files.Triple (consume_l0 manifest ids) post crash := by
  induction ids generalizing files manifest with
  | nil => exact .pure (hdone [] (List.prefix_refl _)) (hpost manifest hsync)
  | cons id ids ih =>
    refine .seq (.remove_sst_edit hsync hsnapshot (hdone [] List.nil_prefix)
      (hedited [] id (by simp)) ?_)
    intro manifest' hmanifest'
    refine .seq (.remove_sst (hedited [] id (by simp)) (hdone [id] (by simp)) ?_)
    refine ih hmanifest' hsnapshot ?_ ?_ hpost
    · exact fun done hinit => hdone (id :: done) (by simpa using hinit)
    · exact fun done other hinit => hedited (id :: done) other (by simpa using hinit)

section

variable {levels : Levels} {imm : Option MemTable} {imm_wal_id : Nat} {flusher : Flusher}
  {calls : List CompactCall} {files : Files}

/-- What the check at the start of `InstallL0ToL1` establishes. -/
theorem Levels.Stored.inputs_perm {ctx : L0ToL1Ctx} (h : levels.Stored files)
    (hunchanged : levels.inputs_unchanged ctx = true) :
    ctx.l0_input_ids.Perm (levels.l0.map SSTableReader.file_number) := by
  simp only [Levels.inputs_unchanged, Bool.and_eq_true, beq_iff_eq] at hunchanged
  have hcurrent := h.holds.lists.l0_ids_perm .forward
  rw [h.synced] at hcurrent
  calc ctx.l0_input_ids.Perm ctx.l0_input_ids.mergeSort := (List.mergeSort_perm _ _).symm
    _ = (l0_ids .forward levels.manifest.state).mergeSort := hunchanged.2
    List.Perm _ (l0_ids .forward levels.manifest.state) := List.mergeSort_perm _ _
    List.Perm _ _ := hcurrent

/-- Some tables of level 0 are gone for good. -/
theorem Files.Holds.consumed {l0 l1 : List SSTableReader} {ids : List Nat} (h : files.Holds l0 l1)
    (hids : ∀ r ∈ l1, r.file_number ∉ ids) :
    (files.consumed ids).Holds (l0.filter fun r => r.file_number ∉ ids) l1 where
  lists := h.lists.delete hids
  tables r hr := by
    have hkept : r ∈ l0 ++ l1 ∧ r.file_number ∉ ids := by
      rcases List.mem_append.mp hr with hr | hr
      · rw [List.mem_filter] at hr
        exact ⟨List.mem_append_left _ hr.1, by simpa using hr.2⟩
      · exact ⟨List.mem_append_right _ hr, hids r hr⟩
    change (ids.foldl (fun ssts id => ssts.erase id) files.ssts)[r.file_number]? = _
    rw [getElem?_foldl_erase, if_neg hkept.2]
    exact h.tables r hkept.1
  ssts_le id hid := by
    change id ∈ ids.foldl (fun ssts id => ssts.erase id) files.ssts at hid
    rw [ExtTreeMap.mem_iff_isSome_getElem?, getElem?_foldl_erase] at hid
    change id ≤ (files.state.apply_edits (ids.map .DelSST)).next_file_number
    rw [next_file_number_apply_edits_del]
    apply h.ssts_le
    rw [ExtTreeMap.mem_iff_isSome_getElem?]
    split at hid
    · cases hid
    · exact hid
  wals_le id hid := by
    change id ≤ (files.state.apply_edits (ids.map .DelSST)).next_file_number
    rw [next_file_number_apply_edits_del]
    exact h.wals_le id hid

theorem filter_not_mem_eq_nil {l0 : List SSTableReader} {ids : List Nat}
    (hids : ids.Perm (l0.map SSTableReader.file_number)) :
    (l0.filter fun r => r.file_number ∉ ids) = [] := by
  rw [List.filter_eq_nil_iff]
  intro r hr
  simpa using hids.mem_iff.mpr (List.mem_map_of_mem hr)

/-- The manifest edit that installs a compacted table. -/
theorem Files.Holds.add_l1 {l0 l1 : List SSTableReader} {reader : SSTableReader}
    (h : files.Holds l0 l1) (hnewest : ∀ r ∈ l1, r.file_number < reader.file_number)
    (hunlisted : reader.file_number ∉ files.state.sst_levels)
    (hfile : files.ssts[reader.file_number]? = some reader.table) :
    (files.commit (.AddSST reader.file_number 1)).Holds l0 (l1 ++ [reader]) where
  lists := by
    refine h.lists.add_l1 hnewest ?_ (h.ssts_le _ (by simp [ExtTreeMap.mem_iff_isSome_getElem?, hfile]))
    intro r hr heq
    exact hunlisted (heq ▸ h.listed (List.mem_append_left _ hr))
  tables r hr := by
    rw [← List.append_assoc, List.mem_append, List.mem_singleton] at hr
    rcases hr with hr | rfl
    · exact h.tables r hr
    · exact hfile
  ssts_le := h.ssts_le
  wals_le := h.wals_le

/-- Level 0 is emptied: compactions prepared from it will not be installed. -/
theorem Working.empty_l0 {levels' : Levels} {files' : Files}
    (h : Working levels imm imm_wal_id flusher calls files) (hstored : levels'.Stored files')
    (hl0 : levels'.l0 = [])
    (hnext : files'.state.next_file_number = files.state.next_file_number)
    (hssts : ∀ id ∈ reserved flusher calls, files'.ssts[id]? = files.ssts[id]?)
    (hunlisted : ∀ id ∈ reserved flusher calls, id ∉ files'.state.sst_levels) :
    Working levels' imm imm_wal_id flusher calls files' where
  stored := hstored
  flush := by
    rw [hl0]
    have hflush := h.flush
    cases flusher with
    | prepared ctx => exact ⟨hflush.imm, hflush.old_wal_id, nofun, hflush.no_input⟩
    | built ctx reader =>
      obtain ⟨hctx, r, hr, hnumber, htable, hfile⟩ := hflush
      refine ⟨⟨hctx.imm, hctx.old_wal_id, nofun, hctx.no_input⟩, r, hr, hnumber, htable, ?_⟩
      rw [hssts _ (by simp [reserved, Flusher.reserved]), hfile]
    | _ => trivial
  compactions call hcall := by
    refine (h.compactions call hcall).mono (Nat.le_of_eq hnext.symm) ?_ ?_
    · intro hperm
      rw [hl0, List.map_nil, List.perm_nil] at hperm
      exact absurd hperm (h.compactions call hcall).inputs
    · exact fun _ => hssts _ (List.mem_append_right _ (List.mem_map_of_mem hcall))
  distinct := h.distinct
  reserved_le := hnext ▸ h.reserved_le
  unlisted := hunlisted
  imm_nonempty := h.imm_nonempty

/-- What a finished installation of a table numbered `new_id` has done. -/
structure Installed (levels : Levels) (files : Files) (new_id : Nat) (levels' : Levels)
    (files' : Files) : Prop where
  stored : levels'.Stored files'
  l0 : levels'.l0 = []
  next : files'.state.next_file_number = files.state.next_file_number
  wals : files'.wals = files.wals
  written : files'.written = files.written
  ssts : ∀ id, id ∉ files.state.sst_levels → id ≠ new_id → files'.ssts[id]? = files.ssts[id]?
  unlisted : ∀ id, id ∉ files.state.sst_levels → id ≠ new_id → id ∉ files'.state.sst_levels
  view : ∀ key, visible (levels'.search key) = visible (levels.search key)

/-- Consuming level 0 once the new table, if any, is listed. -/
theorem Levels.Stored.consume {manifest manifest' : ManifestManager Nat} {l0 l1 l1' : List SSTableReader}
    {files files' : Files} {ids : List Nat} {new_id : Nat} (hids : ids.Perm (l0.map SSTableReader.file_number))
    (h : Levels.Stored { manifest := manifest, l0 := l0, l1 := l1 } files)
    (hlisted : files'.Holds l0 l1') (hsnapshot : files'.snapshot = true)
    (hnext : files'.state.next_file_number = files.state.next_file_number)
    (hwals : files'.wals = files.wals) (hwritten : files'.written = files.written)
    (hssts : files'.ssts = files.ssts)
    (hlevels : ∀ id ∈ files'.state.sst_levels, id = new_id ∨ id ∈ files.state.sst_levels)
    (hview : ∀ key, visible (search_levels [] l1' key) = visible (search_levels l0 l1 key))
    (hmanifest : (files'.consumed ids).state = manifest'.state) :
    Installed { manifest := manifest, l0 := l0, l1 := l1 } files new_id
      { manifest := manifest', l0 := [], l1 := l1' } (files'.consumed ids) where
  stored := by
    refine ⟨hsnapshot, hmanifest, ?_⟩
    have hdisjoint : ∀ r ∈ l1', r.file_number ∉ ids := by
      intro r hr hid
      obtain ⟨s, hs, heq⟩ := List.mem_map.mp (hids.mem_iff.mp hid)
      exact hlisted.lists.disjoint hs hr heq
    have hholds := hlisted.consumed hdisjoint
    rwa [filter_not_mem_eq_nil hids] at hholds
  l0 := rfl
  next := by
    change (files'.state.apply_edits (ids.map .DelSST)).next_file_number = _
    rw [next_file_number_apply_edits_del, hnext]
  wals := hwals
  written := hwritten
  ssts id hunlisted _ := by
    have hid : id ∉ ids := by
      intro hid
      obtain ⟨s, hs, rfl⟩ := List.mem_map.mp (hids.mem_iff.mp hid)
      exact hunlisted (h.holds.listed (List.mem_append_left _ hs))
    change (ids.foldl (fun ssts id => ssts.erase id) files'.ssts)[id]? = _
    rw [getElem?_foldl_erase, if_neg hid, hssts]
  unlisted id hunlisted hne hid := by
    change id ∈ (files'.state.apply_edits (ids.map .DelSST)).sst_levels at hid
    rw [ExtTreeMap.mem_iff_isSome_getElem?, getElem?_apply_edits_del] at hid
    split at hid
    · cases hid
    · rw [← ExtTreeMap.mem_iff_isSome_getElem?] at hid
      exact (hlevels id hid).elim hne hunlisted
  view := hview

/-- `InstallL0ToL1` of a compaction whose inputs are still level 0. -/
theorem Levels.Stored.install {call : CompactCall} {reader : Option SSTableReader}
    (h : levels.Stored files) (hok : call.Ok levels files)
    (hunlisted : call.ctx.new_id ∉ files.state.sst_levels) (hreader : call.reader = some reader)
    (hunchanged : levels.inputs_unchanged call.ctx = true) :
    files.Triple (levels.install_l0_to_l1 call.ctx reader)
      (fun result files' => result.2 = true ∧ Installed levels files call.ctx.new_id result.1 files')
      (fun _ => True) := by
  have hids := h.inputs_perm hunchanged
  obtain ⟨houtput, hnewest⟩ := hok.current hids
  obtain ⟨manifest, l0, l1⟩ := levels
  rcases hok.reader reader hreader with ⟨rfl, hhas⟩ | ⟨r, rfl, hnumber, htable, hhas, hfile⟩
  · have hempty : (output_records l1 (merge_records l0)).isEmpty = true := by
      have hempty := hok.has_output
      rw [hhas, houtput] at hempty
      simpa using hempty
    rw [Levels.install_without_output hunchanged (.inr hhas)]
    refine .seq (.consume_l0 h.synced h.snapshot (fun _ _ => trivial) (fun _ _ _ => trivial) ?_)
    intro manifest' hmanifest'
    exact .pure trivial ⟨rfl, h.consume hids h.holds h.snapshot rfl rfl rfl rfl (fun _ => .inr)
      (visible_search_consumed hempty) hmanifest'⟩
  · have hnew : call.ctx.new_sst_id.getD 0 = r.file_number := hnumber.symm
    rw [Levels.install_with_reader hunchanged hok.merged hhas, hnew]
    refine .seq (.add_sst h.synced h.snapshot trivial trivial ?_)
    intro manifest1 hmanifest1
    refine .seq (.consume_l0 hmanifest1 h.snapshot (fun _ _ => trivial) (fun _ _ _ => trivial) ?_)
    intro manifest2 hmanifest2
    rw [← hnumber] at hunlisted hfile hnewest ⊢
    refine .pure trivial ⟨rfl, h.consume hids (h.holds.add_l1 hnewest hunlisted hfile) h.snapshot rfl
      rfl rfl rfl ?_ (visible_search_installed (houtput ▸ htable)) hmanifest2⟩
    intro id hid
    change id ∈ files.state.sst_levels.insert r.file_number 1 at hid
    rw [ExtTreeMap.mem_insert] at hid
    exact hid.imp_left fun heq => (LawfulEqCmp.eq_of_compare heq).symm

end

section

variable {db : DBImpl} {files : Files} {old : List (Nat × List WalRecord)} {flushed : Bool}
  {immLog memLog : List WalRecord} {contents : Key → Option Bytes} {program : FileM DBImpl}

/-- A compaction whose inputs have changed is dropped together with its output file. -/
theorem DBImpl.Session.reject_install {index : Nat} {call : CompactCall} {reader : Option SSTableReader}
    (h : db.Session files old flushed immLog memLog contents) (hcall : db.calls[index]? = some call)
    (hreader : call.reader = some reader) (hchanged : db.levels.inputs_unchanged call.ctx = false)
    (hprogram : db.compact_install index = some program) :
    files.Triple program (Kept old flushed contents files) (Safe (db.Covered old flushed) contents files) := by
  obtain ⟨owner, ctx, _⟩ := call
  cases hreader
  have hok := h.working.compactions _ (List.mem_of_getElem? hcall)
  obtain ⟨hworking, hfree⟩ := h.working.remove_call hcall
  have hreserved : ctx.new_id ∈ reserved db.flusher db.calls :=
    List.mem_append_right _ (List.mem_map_of_mem (List.mem_of_getElem? hcall))
  have hunlisted := h.working.unlisted _ hreserved
  have herased := h.safe.erase_sst hunlisted
  simp only [DBImpl.compact_install, hcall, Option.some.injEq] at hprogram
  subst hprogram
  have hnew : ctx.new_sst_id = some ctx.new_id := hok.new_sst_id
  rw [Levels.install_of_changed hchanged]
  refine .seq (.pure h.safe ?_)
  simp only [Bool.not_false, if_true, hnew]
  refine .seq (.remove_sst h.safe herased (.pure herased ⟨⟨_, _, ?_, h.logged, h.view⟩, rfl⟩))
  exact (hworking.erase_sst hunlisted hfree).after owner

/-- A compaction whose inputs are still level 0 replaces them by its output. -/
theorem DBImpl.Session.accept_install {index : Nat} {call : CompactCall} {reader : Option SSTableReader}
    (h : db.Session files old flushed immLog memLog contents) (hcall : db.calls[index]? = some call)
    (hreader : call.reader = some reader) (hunchanged : db.levels.inputs_unchanged call.ctx = true)
    (hprogram : db.compact_install index = some program) :
    files.Triple program (Kept old flushed contents files) (fun _ => True) := by
  obtain ⟨owner, ctx, _⟩ := call
  cases hreader
  have hok := h.working.compactions _ (List.mem_of_getElem? hcall)
  obtain ⟨hworking, hfree⟩ := h.working.remove_call hcall
  have hreserved : ctx.new_id ∈ reserved db.flusher db.calls :=
    List.mem_append_right _ (List.mem_map_of_mem (List.mem_of_getElem? hcall))
  simp only [DBImpl.compact_install, hcall, Option.some.injEq] at hprogram
  subst hprogram
  refine (h.working.stored.install hok (h.working.unlisted _ hreserved) rfl hunchanged).bind ?_
  rintro ⟨levels', installed⟩ files' ⟨rfl, hinstalled⟩
  simp only [Bool.not_true, Bool.false_eq_true, if_false]
  have hne : ∀ id ∈ reserved db.flusher (db.calls.eraseIdx index), id ≠ ctx.new_id := by
    rintro id hid rfl
    exact hfree hid
  refine .pure trivial ⟨⟨immLog, memLog, ?_, ?_, ?_⟩, hinstalled.written⟩
  · refine (hworking.empty_l0 hinstalled.stored hinstalled.l0 hinstalled.next ?_ ?_).after owner
    · exact fun id hid => hinstalled.ssts id (hworking.unlisted id hid) (hne id hid)
    · exact fun id hid => hinstalled.unlisted id (hworking.unlisted id hid) (hne id hid)
  · change NovaKV.Logged _ _ _ _ files'.wals _ _ _ _
    rw [hinstalled.wals]
    exact h.logged
  · intro key
    rw [← h.view key, DBImpl.get_eq, DBImpl.get_eq]
    exact visible_or_congr fun _ => hinstalled.view key

theorem DBImpl.Session.compact_install {index : Nat}
    (h : db.Session files old flushed immLog memLog contents)
    (hprogram : db.compact_install index = some program) :
    files.Triple program (Kept old flushed contents files)
      (Safe (db.installs (.compact_install index) = false ∧ db.Covered old flushed) contents files) := by
  cases hcall : db.calls[index]? with
  | none => simp [DBImpl.compact_install, hcall] at hprogram
  | some call =>
    cases hreader : call.reader with
    | none =>
      obtain ⟨owner, ctx, _⟩ := call
      cases hreader
      simp [DBImpl.compact_install, hcall] at hprogram
    | some reader =>
      cases hunchanged : db.levels.inputs_unchanged call.ctx with
      | false =>
        refine (h.reject_install hcall hreader hunchanged hprogram).mono (fun _ _ => id) ?_
        exact fun files' hsafe hcovered => hsafe hcovered.2
      | true =>
        refine (h.accept_install hcall hreader hunchanged hprogram).mono (fun _ _ => id) ?_
        rintro files' - ⟨hinstalls, -⟩
        have hok := h.working.compactions _ (List.mem_of_getElem? hcall)
        obtain ⟨owner, ctx, _⟩ := call
        cases hreader
        rcases hok.reader reader rfl with ⟨rfl, hhas⟩ | ⟨r, rfl, -⟩
        · have hhas' : ctx.has_output = false := hhas
          simp [DBImpl.installs, hcall, hunchanged, hhas'] at hinstalls
        · simp [DBImpl.installs, hcall, hunchanged] at hinstalls

end

end NovaKV

import NovaKV.Store.PutStep

open Std
open NovaKV.Lib

namespace NovaKV

section

variable {db : DBImpl} {files : Files} {old : List (Nat × List WalRecord)} {flushed : Bool}
  {immLog memLog : List WalRecord} {contents : Key → Option Bytes} {program : FileM DBImpl}

theorem DBImpl.Session.bg_wake (h : db.Session files old flushed immLog memLog contents)
    (hprogram : db.bg_wake = some program) :
    files.Triple program (Kept old flushed contents files) (Safe (db.Covered old flushed) contents files) := by
  unfold DBImpl.bg_wake at hprogram
  split at hprogram
  · split at hprogram
    · cases hprogram
      exact .pure h.safe ⟨⟨_, _, h.working, h.logged, h.view⟩, rfl⟩
    · split at hprogram
      · cases hprogram
        exact .pure h.safe ⟨⟨_, _, h.working.set_flusher trivial rfl, h.logged, h.view⟩, rfl⟩
      · cases hprogram
  · cases hprogram

theorem DBImpl.Session.bg_reset (h : db.Session files old flushed immLog memLog contents)
    (hprogram : db.bg_reset = some program) :
    files.Triple program (Kept old flushed contents files) (Safe (db.Covered old flushed) contents files) := by
  unfold DBImpl.bg_reset at hprogram
  split at hprogram
  · cases hprogram
    exact .pure h.safe ⟨⟨_, _, h.working, h.logged, h.view⟩, rfl⟩
  · cases hprogram

theorem DBImpl.Session.stop (h : db.Session files old flushed immLog memLog contents)
    (hprogram : db.stop = some program) :
    files.Triple program (Kept old flushed contents files) (Safe (db.Covered old flushed) contents files) := by
  unfold DBImpl.stop at hprogram
  split at hprogram
  · cases hprogram
  · cases hprogram
    exact .pure h.safe ⟨⟨_, _, h.working, h.logged, h.view⟩, rfl⟩

/-- A flush takes a number above all others. -/
theorem Working.prepare_minor {levels : Levels} {imm_wal_id : Nat} {calls : List CompactCall}
    {flusher : Flusher} {imm : MemTable} {manifest : ManifestManager Nat}
    (h : Working levels (some imm) imm_wal_id flusher calls files)
    (hmanifest : files.allocated.state = manifest.state) :
    Working { levels with manifest := manifest } (some imm) imm_wal_id
      (.prepared
        { flushing_imm := imm, old_wal_id := imm_wal_id
          new_sst_id := manifest.state.next_file_number }) calls files.allocated := by
  have hnext : manifest.state.next_file_number = files.state.next_file_number + 1 := by
    rw [← hmanifest, Files.allocated_next]
  have hidle : Working { levels with manifest := manifest } (some imm) imm_wal_id .idle calls
      files.allocated := (h.allocated hmanifest).set_flusher trivial rfl
  have hfresh : ∀ id ∈ reserved .idle calls, id ≤ files.state.next_file_number :=
    fun id hid => h.reserved_le id (List.mem_append_right _ hid)
  refine ⟨hidle.stored, ⟨rfl, rfl, ?_, ?_⟩, hidle.compactions, ?_, ?_, ?_, hidle.imm_nonempty⟩
  · intro r hr
    rw [hnext]
    exact Nat.lt_succ_of_le (h.stored.holds.lists.le_next0 hr)
  · intro call hcall hid
    have hle : manifest.state.next_file_number ≤ files.state.next_file_number :=
      (h.compactions call hcall).inputs_le _ hid
    omega
  · rw [reserved, Flusher.reserved, List.singleton_append, List.nodup_cons]
    refine ⟨?_, hidle.distinct⟩
    intro hid
    have hle : manifest.state.next_file_number ≤ files.state.next_file_number :=
      hfresh _ hid
    omega
  · intro id hid
    rcases List.mem_cons.mp hid with rfl | hid
    · rw [hnext, Files.allocated_next]
    · exact hidle.reserved_le id hid
  · intro id hid
    rcases List.mem_cons.mp hid with rfl | hid
    · intro hlisted
      have hle : manifest.state.next_file_number ≤ files.state.next_file_number :=
        h.stored.holds.lists.bounded _ hlisted
      omega
    · exact hidle.unlisted id hid

theorem DBImpl.Session.minor_prepare (h : db.Session files old flushed immLog memLog contents)
    (hprogram : db.minor_prepare = some program) :
    files.Triple program (Kept old flushed contents files) (Safe (db.Covered old flushed) contents files) := by
  obtain ⟨levels, mem, imm, active_wal_id, imm_wal_id, stopped, scheduled, bg, flusher, writer, calls⟩ := db
  unfold DBImpl.minor_prepare at hprogram
  split at hprogram
  · rename_i hflusher
    cases hprogram
    have hstored := h.working.stored
    cases imm with
    | none =>
      exact .pure h.safe ⟨⟨_, _, h.working.set_flusher trivial rfl, h.logged, h.view⟩, rfl⟩
    | some imm =>
      refine .seq (.allocate hstored.synced hstored.snapshot h.safe h.safe.allocated ?_)
      intro manifest hmanifest
      exact .pure h.safe.allocated
        ⟨⟨_, _, h.working.prepare_minor hmanifest, h.logged, h.view⟩, rfl⟩
  · cases hprogram

/-- The table of a flush is built under the number reserved for it. -/
theorem Working.build_minor {levels : Levels} {imm : Option MemTable} {imm_wal_id : Nat}
    {calls : List CompactCall} {ctx : MinorCtx}
    (h : Working levels imm imm_wal_id (.prepared ctx) calls files)
    (hrecords : (SSTable.of_map ctx.flushing_imm.table).records ≠ []) :
    Working levels imm imm_wal_id (.built ctx (some ⟨ctx.new_sst_id, _, hrecords⟩)) calls
      { files with ssts := files.ssts.insert ctx.new_sst_id (.of_map ctx.flushing_imm.table) } := by
  have hmem : ctx.new_sst_id ∈ reserved (.prepared ctx) calls := by simp [reserved, Flusher.reserved]
  refine h.insert_sst (h.unlisted _ hmem) (h.reserved_le _ hmem) ?_ rfl ?_
  · exact ⟨h.flush, _, rfl, rfl, rfl, by simp⟩
  · intro call hcall _ heq
    have hdistinct := h.distinct
    rw [reserved, Flusher.reserved, List.singleton_append, List.nodup_cons] at hdistinct
    exact hdistinct.1 (heq ▸ List.mem_map_of_mem hcall)

theorem DBImpl.Session.minor_build (h : db.Session files old flushed immLog memLog contents)
    (hprogram : db.minor_build true = some program) :
    files.Triple program (Kept old flushed contents files) (Safe (db.Covered old flushed) contents files) := by
  obtain ⟨levels, mem, imm, active_wal_id, imm_wal_id, stopped, scheduled, bg, flusher, writer, calls⟩ := db
  cases flusher with
  | prepared ctx =>
    cases hprogram
    have hctx : ctx.Ok imm imm_wal_id levels.l0 calls := h.working.flush
    have hrecords := records_of_map_ne_nil (h.working.imm_nonempty _ hctx.imm)
    have hmem : ctx.new_sst_id ∈ reserved (.prepared ctx) calls := by simp [reserved, Flusher.reserved]
    have hunlisted := h.working.unlisted _ hmem
    have hcreated := h.safe.insert_sst (.of_map ctx.flushing_imm.table) hunlisted
      (h.working.reserved_le _ hmem)
    refine .seq (.write_sst hrecords h.safe (h.safe.erase_sst hunlisted) hcreated ?_)
    exact .pure hcreated ⟨⟨_, _, h.working.build_minor hrecords, h.logged, h.view⟩, rfl⟩
  | _ => cases hprogram

/-- Installing a flushed table moves the memtable's records below the other memtable. -/
theorem visible_search_flushed {l0 l1 : List SSTableReader} {reader : SSTableReader}
    {table : ExtTreeMap Key ValueRecord} (htable : reader.table = .of_map table)
    (newer : Option ValueRecord) (key : Key) :
    visible (newer.or (search_levels (l0 ++ [reader]) l1 key)) =
      visible ((newer.or table[key]?).or (search_levels l0 l1 key)) := by
  rw [Option.or_assoc]
  apply visible_or_congr
  intro _
  rw [search_levels, search_level_concat, SSTable.get_record, htable, SSTable.lookup_of_map,
    search_levels]
  cases table[key]? <;> simp

theorem Working.install_minor {levels : Levels} {imm : Option MemTable} {imm_wal_id : Nat}
    {calls : List CompactCall} {ctx : MinorCtx} {reader : SSTableReader} {flusher : Flusher}
    {manifest : ManifestManager Nat} {state : ManifestState Nat}
    {wals : ExtTreeMap Nat (List WalRecord)}
    (h : Working levels imm imm_wal_id (.built ctx (some reader)) calls files)
    (hstate : state = manifest.state)
    (hlevels : state.sst_levels = files.state.sst_levels.insert ctx.new_sst_id 0)
    (hnext : state.next_file_number = files.state.next_file_number)
    (hwals : ∀ id ∈ wals, id ∈ files.wals) (hreserved : flusher.reserved = [])
    (hok : flusher.Ok none 0 (levels.l0 ++ [reader]) calls files.ssts) :
    Working { levels with manifest := manifest, l0 := levels.l0 ++ [reader] } none 0 flusher calls
      { files with state := state, wals := wals } := by
  obtain ⟨hctx, r, hr, hnumber, htable, hfile⟩ := h.flush
  cases hr
  have hunlisted : ctx.new_sst_id ∉ files.state.sst_levels :=
    h.unlisted _ (by simp [reserved, Flusher.reserved])
  have hholds : (files.commit (.AddSST ctx.new_sst_id 0)).Holds (levels.l0 ++ [reader]) levels.l1 := by
    rw [← hnumber] at hunlisted hfile ⊢
    exact h.stored.holds.add_l0 (by rw [hnumber]; exact hctx.newest) hunlisted hfile
  have hrest : ∀ id ∈ reserved flusher calls,
      id ∈ reserved (.built ctx (some reader)) calls ∧ id ≠ ctx.new_sst_id := by
    intro id hid
    have hdistinct := h.distinct
    rw [reserved, Flusher.reserved, List.singleton_append, List.nodup_cons] at hdistinct
    rw [reserved, hreserved, List.nil_append] at hid
    exact ⟨List.mem_append_right _ hid, fun heq => hdistinct.1 (heq ▸ hid)⟩
  refine ⟨⟨h.stored.snapshot, hstate, ?_⟩, hok, ?_, ?_, ?_, ?_, by rintro _ ⟨⟩⟩
  · refine (hholds.set_state hlevels (Nat.le_of_eq hnext.symm)).set_wals ?_
    intro id hid
    exact hnext ▸ h.stored.holds.wals_le id (hwals id hid)
  · intro call hcall
    refine (h.compactions call hcall).mono (Nat.le_of_eq hnext.symm) ?_ fun _ => rfl
    intro hperm
    have hmem : reader.file_number ∈ call.ctx.l0_input_ids := hperm.mem_iff.mpr (by simp)
    exact absurd (hnumber ▸ hmem) (hctx.no_input call hcall)
  · have hdistinct := h.distinct
    rw [reserved, List.nodup_append] at hdistinct
    simpa [reserved, hreserved] using hdistinct.2.1
  · intro id hid
    rw [hnext]
    exact h.reserved_le id (hrest id hid).1
  · intro id hid
    rw [hlevels, ExtTreeMap.mem_insert, not_or]
    refine ⟨?_, h.unlisted id (hrest id hid).1⟩
    simpa using (hrest id hid).2.symm

/-- The log of a flushed memtable is removed. -/
theorem Logged.remove_imm {mem : Option MemTable} {imm : MemTable} {active_wal_id imm_wal_id : Nat}
    {wals : ExtTreeMap Nat (List WalRecord)}
    (h : Logged mem (some imm) active_wal_id imm_wal_id wals old flushed immLog memLog) :
    Logged mem none active_wal_id 0 (wals.erase imm_wal_id) old true [] memLog where
  entries := by
    have hentries := h.entries
    rw [Option.toList_some, List.map_singleton, List.singleton_append, h.imm_wal imm rfl] at hentries
    rw [toList_erase_of_mem hentries]
    rfl
  imm_wal := nofun
  mem_wal := h.mem_wal
  imm_table := nofun
  mem_table m hm key := by simpa [carried] using h.mem_table m hm key

/-- Between the manifest edit and the removal of the log, the flushed records are
in the new table and in the log that is replayed over it. -/
theorem DBImpl.Session.recovers_installed {reader : SSTableReader} {ctx : MinorCtx}
    (h : db.Session files old flushed immLog memLog contents)
    (hflusher : db.flusher = .built ctx (some reader)) (hcovered : db.Covered old flushed) :
    (files.commit (.AddSST ctx.new_sst_id 0)).Recovers contents := by
  have hflush := h.working.flush
  rw [hflusher] at hflush
  obtain ⟨hctx, r, hr, hnumber, htable, hfile⟩ := hflush
  cases hr
  have hunlisted : ctx.new_sst_id ∉ files.state.sst_levels :=
    h.working.unlisted _ (by simp [hflusher, reserved, Flusher.reserved])
  refine ⟨h.working.stored.snapshot, db.levels.l0 ++ [reader], db.levels.l1, ?_, ?_⟩
  · rw [← hnumber] at hunlisted hfile ⊢
    exact h.working.stored.holds.add_l0 (by rw [hnumber]; exact hctx.newest) hunlisted hfile
  · intro key
    have hrecords : (files.commit (.AddSST ctx.new_sst_id 0)).records = files.records := rfl
    rw [hrecords, h.logged.latest_records hcovered.1 hcovered.2, ← h.view key, DBImpl.get_eq,
      visible_search_flushed htable, hctx.imm, Option.bind_some]
    congr 2
    rw [Option.or_assoc]
    congr 1
    exact Option.or_self

theorem DBImpl.Session.minor_install (h : db.Session files old flushed immLog memLog contents)
    (hprogram : db.minor_install = some program) :
    files.Triple program (Kept old true contents files)
      (fun files' => Safe (db.Covered old flushed ∧ (old = [] ∨ files'.wals = files.wals)) contents files files') := by
  obtain ⟨levels, mem, imm, active_wal_id, imm_wal_id, stopped, scheduled, bg, flusher, writer, calls⟩ := db
  cases flusher with
  | built ctx reader =>
    cases hprogram
    obtain ⟨hctx, r, rfl, hnumber, htable, hfile⟩ := h.working.flush
    have himm : imm = some ctx.flushing_imm := hctx.imm
    subst himm
    have holdWal : ctx.old_wal_id = imm_wal_id := hctx.old_wal_id
    have hstored := h.working.stored
    let safe (wals : ExtTreeMap Nat (List WalRecord)) : Prop :=
      (Exact old flushed ∧ mem.isSome) ∧ (old = [] ∨ wals = files.wals)
    have hbefore : Safe (safe files.wals) contents files files := fun hsafe => h.safe hsafe.1
    have hadded : Safe (safe files.wals) contents files (files.commit (.AddSST ctx.new_sst_id 0)) :=
      fun hsafe => ⟨h.recovers_installed rfl hsafe.1, rfl⟩
    have hdeleted : Safe (safe files.wals) contents files
        ((files.commit (.AddSST ctx.new_sst_id 0)).commit (.DelWAL ctx.old_wal_id)) :=
      fun hsafe => ⟨(hadded hsafe).1.set_state rfl (Nat.le_refl _), rfl⟩
    refine .seq (.add_sst hstored.synced hstored.snapshot hbefore hadded ?_)
    intro manifest hmanifest
    refine .seq (.remove_wal_edit hmanifest hstored.snapshot hadded hdeleted ?_)
    intro manifest' hmanifest'
    have hsession : ∀ flusher' : Flusher, flusher'.reserved = [] →
        flusher'.Ok none 0 (levels.l0 ++ [r]) calls files.ssts → DBImpl.Session
        { levels := { levels with manifest := manifest', l0 := levels.l0 ++ [r] }, mem := mem, imm := none
          active_wal_id := active_wal_id, imm_wal_id := 0, bg_stopped := stopped
          bg_compaction_scheduled := scheduled, bg := bg, flusher := flusher', writer := writer
          calls := calls }
        { files with
          state := ((files.commit (.AddSST ctx.new_sst_id 0)).commit (.DelWAL ctx.old_wal_id)).state
          wals := files.wals.erase ctx.old_wal_id }
        old true [] memLog contents := by
      intro flusher' hreserved hok
      refine ⟨?_, ?_, ?_⟩
      · exact h.working.install_minor hmanifest' rfl rfl
          (fun id hid => ExtTreeMap.mem_of_mem_erase hid) hreserved hok
      · rw [holdWal]
        exact h.logged.remove_imm
      · intro key
        rw [← h.view key, DBImpl.get_eq, DBImpl.get_eq]
        simp only [Option.bind_none, Option.or_none, Option.bind_some, Levels.search, MemTable.get]
        exact visible_search_flushed htable _ key
    have hafter : Safe (safe (files.wals.erase ctx.old_wal_id)) contents files
        { files with
          state := ((files.commit (.AddSST ctx.new_sst_id 0)).commit (.DelWAL ctx.old_wal_id)).state
          wals := files.wals.erase ctx.old_wal_id } := by
      rintro ⟨hcovered, hold | hkept⟩
      · exact ⟨(hsession .idle rfl trivial).recovers (.inl hold) hcovered.2, rfl⟩
      · rw [hkept]
        exact hdeleted ⟨hcovered, .inr rfl⟩
    refine .seq (.remove_wal hdeleted hafter (.pure hafter ⟨⟨[], memLog, ?_⟩, rfl⟩))
    split
    · exact hsession _ rfl trivial
    · exact hsession _ rfl trivial
  | _ => cases hprogram

end

end NovaKV

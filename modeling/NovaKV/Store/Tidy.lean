import NovaKV.Store.Run
import NovaKV.Store.Threads

open Std
open NovaKV.Lib

namespace NovaKV

/-- A table with this number is built and not installed yet. -/
def DBImpl.Built (db : DBImpl) (id : Nat) : Prop :=
  (∃ ctx reader, db.flusher = .built ctx (some reader) ∧ ctx.new_sst_id = id) ∨
    ∃ call ∈ db.calls, ∃ reader, call.reader = some (some reader) ∧ call.ctx.new_sst_id = some id

/-- Every table file is in a level or waits to be installed. -/
def DBImpl.Tidy (db : DBImpl) (ssts : ExtTreeMap Nat SSTable) : Prop :=
  ∀ id ∈ ssts, id ∈ db.levels.l0.map SSTableReader.file_number ∨
    id ∈ db.levels.l1.map SSTableReader.file_number ∨ db.Built id

section

variable {db db' : DBImpl} {data data' : Data} {files : Files}

theorem mem_eraseIdx_of_ne {calls : List CompactCall} {index : Nat} {call other : CompactCall}
    (hcall : calls[index]? = some call) (hother : other ∈ calls) (hne : other ≠ call) :
    other ∈ calls.eraseIdx index := by
  obtain ⟨hindex, rfl⟩ := List.getElem?_eq_some_iff.mp hcall
  exact (List.mem_cons.mp ((List.getElem_cons_eraseIdx_perm hindex).mem_iff.mpr hother)).resolve_left hne

theorem mem_set_of_ne {calls : List CompactCall} {index : Nat} {call other : CompactCall}
    (hcall : calls[index]? = some call) (hother : other ∈ calls) (hne : other ≠ call) (new : CompactCall) :
    other ∈ calls.set index new := by
  have herased := mem_eraseIdx_of_ne hcall hother hne
  obtain ⟨hindex, -⟩ := List.getElem?_eq_some_iff.mp hcall
  exact (List.set_perm_cons_eraseIdx hindex new).mem_iff.mpr (List.mem_cons_of_mem _ herased)

/-- A call that ends hands the flusher back without a flush of its own. -/
theorem DBImpl.Threads.built_after (h : db.Threads) {call : CompactCall} (hcall : call ∈ db.calls)
    {ctx : MinorCtx} {reader : SSTableReader} (hbuilt : db.flusher = .built ctx (some reader)) :
    db.flusher.after call.owner = .built ctx (some reader) := by
  cases howner : call.owner with
  | flusher =>
    have hcompacting := h.compacting_of_owner hcall howner
    rw [hbuilt] at hcompacting
    cases hcompacting
  | caller => exact hbuilt

/-- The tables that other flushes and calls have built are still waiting when a call ends. -/
theorem DBImpl.Built.remove_call {id index : Nat} {call : CompactCall} {levels : Levels} (h : db.Built id)
    (hthreads : db.Threads) (hcall : db.calls[index]? = some call) :
    { db with levels := levels, calls := db.calls.eraseIdx index, flusher := db.flusher.after call.owner }.Built id ∨
      ∃ reader, call.reader = some (some reader) ∧ call.ctx.new_sst_id = some id := by
  rcases h with ⟨ctx, reader, hflusher, hid⟩ | ⟨other, hother, reader, hreader, hid⟩
  · exact .inl (.inl ⟨ctx, reader, hthreads.built_after (List.mem_of_getElem? hcall) hflusher, hid⟩)
  · by_cases heq : other = call
    · subst heq
      exact .inr ⟨reader, hreader, hid⟩
    · exact .inl (.inr ⟨other, mem_eraseIdx_of_ne hcall hother heq, reader, hreader, hid⟩)

/-- A call that has built nothing yet moves on. -/
theorem DBImpl.Built.set_call {id index : Nat} {call new : CompactCall} (h : db.Built id)
    (hcall : db.calls[index]? = some call) (hreader : call.reader = none) :
    { db with calls := db.calls.set index new }.Built id := by
  rcases h with hflusher | ⟨other, hother, reader, hbuilt, hid⟩
  · exact .inl hflusher
  · refine .inr ⟨other, mem_set_of_ne hcall hother ?_ new, reader, hbuilt, hid⟩
    rintro rfl
    rw [hreader] at hbuilt
    cases hbuilt

/-- The flusher moves on without having built a table. -/
theorem DBImpl.Built.set_flusher {id : Nat} {flusher : Flusher} {calls : List CompactCall} (h : db.Built id)
    (hnone : ∀ ctx reader, db.flusher ≠ .built ctx (some reader)) (hcalls : ∀ call ∈ db.calls, call ∈ calls) :
    { db with flusher := flusher, calls := calls }.Built id := by
  rcases h with ⟨ctx, reader, hflusher, -⟩ | ⟨other, hother, hbuilt⟩
  · exact absurd hflusher (hnone ctx reader)
  · exact .inr ⟨other, hcalls other hother, hbuilt⟩

/-- A compaction is prepared: a call without a table is added. -/
theorem DBImpl.Built.prepare_call {id : Nat} {owner : Owner} {call : CompactCall} {levels : Levels}
    (h : db.Built id) :
    db.may_compact owner = true →
      { db with
        levels := levels
        flusher := match owner with
          | .flusher => .compacting
          | .caller => db.flusher
        calls := db.calls ++ [call] }.Built id := by
  intro hmay
  cases owner with
  | flusher =>
    exact h.set_flusher (by simp [DBImpl.may_compact_flusher hmay]) fun _ => List.mem_append_left _
  | caller =>
    rcases h with hflusher | ⟨other, hother, hreader⟩
    · exact .inl hflusher
    · exact .inr ⟨other, List.mem_append_left _ hother, hreader⟩

/-- A step that leaves the levels alone is tidy when each file it leaves was there or
is built by it, and what was built before and is still there waits on. -/
theorem DBImpl.Tidy.keep {ssts : ExtTreeMap Nat SSTable} (h : db.Tidy data.ssts)
    (hl0 : db'.levels.l0 = db.levels.l0) (hl1 : db'.levels.l1 = db.levels.l1)
    (hssts : ∀ id ∈ ssts, id ∈ data.ssts ∨ db'.Built id)
    (hbuilt : ∀ id ∈ ssts, db.Built id → db'.Built id) : db'.Tidy ssts := by
  intro id hid
  rw [hl0, hl1]
  rcases hssts id hid with hold | hnew
  · exact (h id hold).imp_right (Or.imp_right (hbuilt id hid))
  · exact .inr (.inr hnew)

/-- A step that neither creates nor removes a table file. -/
theorem DBImpl.Tidy.keep_files (h : db.Tidy data.ssts) (hl0 : db'.levels.l0 = db.levels.l0)
    (hl1 : db'.levels.l1 = db.levels.l1) (hbuilt : ∀ id, db.Built id → db'.Built id) : db'.Tidy data.ssts :=
  h.keep hl0 hl1 (fun _ => .inl) fun id _ => hbuilt id

theorem DBImpl.Tidy.minor_build {ctx : MinorCtx} {reader : SSTableReader} {table : SSTable}
    (h : db.Tidy data.ssts) (hprepared : db.flusher = .prepared ctx) :
    { db with flusher := .built ctx (some reader) }.Tidy (data.ssts.insert ctx.new_sst_id table) := by
  refine h.keep rfl rfl ?_ fun _ _ hbuilt => hbuilt.set_flusher (by simp [hprepared]) fun _ => id
  intro id hid
  rw [ExtTreeMap.mem_insert] at hid
  rcases hid with heq | hid
  · exact .inr (.inl ⟨_, _, rfl, LawfulEqCmp.eq_of_compare heq⟩)
  · exact .inl hid

/-- The table that a flush has built moves into level 0. -/
theorem DBImpl.Tidy.minor_install {ctx : MinorCtx} {reader : SSTableReader} (h : db.Tidy data.ssts)
    (hworking : db.Working files) (hbuilt : db.flusher = .built ctx (some reader))
    (hl0 : db'.levels.l0 = db.levels.l0 ++ [reader]) (hl1 : db'.levels.l1 = db.levels.l1)
    (hcalls : db'.calls = db.calls) : db'.Tidy data.ssts := by
  have hflush := hworking.flush
  rw [hbuilt] at hflush
  obtain ⟨-, r, hr, hnumber, -⟩ := hflush
  cases hr
  intro id hid
  rw [hl0, hl1]
  rcases h id hid with hl0 | hl1 | ⟨ctx', reader', hflusher, hid'⟩ | hcall
  · exact .inl (by simp only [List.map_append, List.mem_append, hl0, true_or])
  · exact .inr (.inl hl1)
  · rw [hbuilt] at hflusher
    cases hflusher
    exact .inl (by simp [hnumber, hid'])
  · exact .inr (.inr (.inr (by rwa [hcalls])))

theorem DBImpl.Tidy.compact_build {index id : Nat} {owner : Owner} {ctx : L0ToL1Ctx} {reader : SSTableReader}
    {table : SSTable} (h : db.Tidy data.ssts) (hcall : db.calls[index]? = some ⟨owner, ctx, none⟩)
    (hnumber : ctx.new_sst_id = some id) :
    { db with calls := db.calls.set index ⟨owner, ctx, some (some reader)⟩ }.Tidy
      (data.ssts.insert id table) := by
  refine h.keep rfl rfl ?_ fun _ _ hbuilt => hbuilt.set_call hcall rfl
  intro other hother
  rw [ExtTreeMap.mem_insert] at hother
  rcases hother with heq | hother
  · have hindex := (List.getElem?_eq_some_iff.mp hcall).1
    refine .inr (.inr ⟨_, List.mem_set hindex _, reader, rfl, ?_⟩)
    rw [hnumber, LawfulEqCmp.eq_of_compare heq]
  · exact .inl hother

/-- The files that an installation leaves are in level 1 or were built before: the
inputs were all of level 0. -/
theorem DBImpl.Tidy.left_by_install {id : Nat} {ctx : L0ToL1Ctx} (h : db.Tidy data.ssts)
    (hworking : db.Working files) (hunchanged : db.levels.inputs_unchanged ctx = true)
    (hid : id ∈ ctx.l0_input_ids.foldl (fun ssts id => ssts.erase id) data.ssts) :
    id ∈ db.levels.l1.map SSTableReader.file_number ∨ db.Built id := by
  have hids := hworking.stored.inputs_perm hunchanged
  rw [ExtTreeMap.mem_iff_isSome_getElem?, getElem?_foldl_erase] at hid
  split at hid
  · cases hid
  · exact (h id (ExtTreeMap.mem_iff_isSome_getElem?.mpr hid)).resolve_left fun hl0 =>
      absurd (hids.mem_iff.mpr hl0) ‹_›

theorem DBImpl.Tidy.compact_install {index : Nat} {owner : Owner} {ctx : L0ToL1Ctx} {reader : SSTableReader}
    {manifest : ManifestManager Nat} (h : db.Tidy data.ssts) (hthreads : db.Threads)
    (hworking : db.Working files) (hcall : db.calls[index]? = some ⟨owner, ctx, some (some reader)⟩)
    (hunchanged : db.levels.inputs_unchanged ctx = true) :
    { db with
      levels := { manifest := manifest, l0 := [], l1 := db.levels.l1 ++ [reader] }
      calls := db.calls.eraseIdx index
      flusher := db.flusher.after owner }.Tidy
      (ctx.l0_input_ids.foldl (fun ssts id => ssts.erase id) data.ssts) := by
  have hok := hworking.compactions _ (List.mem_of_getElem? hcall)
  intro id hid
  rcases h.left_by_install hworking hunchanged hid with hl1 | hbuilt
  · exact .inr (.inl (by simp only [List.map_append, List.mem_append, hl1, true_or]))
  rcases hbuilt.remove_call hthreads hcall with hbuilt | ⟨_, -, hnumber⟩
  · exact .inr (.inr hbuilt)
  rcases hok.reader _ rfl with ⟨hnone, -⟩ | ⟨r, hr, hfile, -⟩
  · cases hnone
  · cases hr
    have hid' : reader.file_number = id := by
      rw [hfile, L0ToL1Ctx.new_id, hnumber]
      rfl
    exact .inr (.inl (by simp [hid']))

theorem DBImpl.Tidy.compact_consume {index : Nat} {owner : Owner} {ctx : L0ToL1Ctx}
    {reader : Option SSTableReader} {manifest : ManifestManager Nat} (h : db.Tidy data.ssts)
    (hthreads : db.Threads) (hworking : db.Working files)
    (hcall : db.calls[index]? = some ⟨owner, ctx, some reader⟩)
    (hunchanged : db.levels.inputs_unchanged ctx = true)
    (hempty : ctx.merged_l0_records.isEmpty = true ∨ ctx.has_output = false) :
    { db with
      levels := { db.levels with manifest := manifest, l0 := [] }
      calls := db.calls.eraseIdx index
      flusher := db.flusher.after owner }.Tidy
      (ctx.l0_input_ids.foldl (fun ssts id => ssts.erase id) data.ssts) := by
  have hok := hworking.compactions _ (List.mem_of_getElem? hcall)
  intro id hid
  rcases h.left_by_install hworking hunchanged hid with hl1 | hbuilt
  · exact .inr (.inl hl1)
  rcases hbuilt.remove_call hthreads hcall with hbuilt | ⟨r, hr, -⟩
  · exact .inr (.inr hbuilt)
  -- A call without an output has not built a table.
  cases hr
  rcases hok.reader _ rfl with ⟨hnone, -⟩ | ⟨_, -, -, -, hhas, -⟩
  · cases hnone
  · have hmerged : ctx.merged_l0_records.isEmpty = false := hok.merged
    have hhas : ctx.has_output = true := hhas
    simp [hmerged, hhas] at hempty

/-- A rejected call removes the table that it had built. -/
theorem DBImpl.Tidy.compact_reject {index : Nat} {owner : Owner} {ctx : L0ToL1Ctx}
    {reader : Option SSTableReader} (h : db.Tidy data.ssts) (hthreads : db.Threads)
    (hworking : db.Working files) (hcall : db.calls[index]? = some ⟨owner, ctx, some reader⟩) :
    { db with calls := db.calls.eraseIdx index, flusher := db.flusher.after owner }.Tidy
      (match ctx.new_sst_id with
        | some id => data.ssts.erase id
        | none => data.ssts) := by
  have hnew : ctx.new_sst_id = some ctx.new_id := (hworking.compactions _ (List.mem_of_getElem? hcall)).new_sst_id
  rw [hnew]
  refine h.keep rfl rfl (fun id hid => .inl (ExtTreeMap.mem_of_mem_erase hid)) fun id hid hbuilt => ?_
  refine (hbuilt.remove_call hthreads hcall).resolve_right ?_
  rintro ⟨_, -, hnumber⟩
  rw [hnew, Option.some.injEq] at hnumber
  rw [ExtTreeMap.mem_erase] at hid
  exact hid.1 (by rw [hnumber]; exact ReflCmp.compare_self)

theorem DBImpl.Tidy.step {act : Act} (h : db.Tidy data.ssts) (hthreads : db.Threads)
    (hworking : db.Working files) (hstep : Transition db data act db' data') : db'.Tidy data'.ssts := by
  cases hstep with
  | put_room => exact h
  | rotate => exact h
  | put_write => exact h
  | bg_exit => exact h
  | bg_wake hwaiting =>
    refine h.keep_files rfl rfl fun _ hbuilt => hbuilt.set_flusher ?_ fun _ => id
    simp [hthreads.waiting hwaiting]
  | bg_reset => exact h
  | minor_skip hcalled =>
    exact h.keep_files rfl rfl fun _ hbuilt => hbuilt.set_flusher (by simp [hcalled]) fun _ => id
  | minor_prepare hcalled =>
    exact h.keep_files rfl rfl fun _ hbuilt => hbuilt.set_flusher (by simp [hcalled]) fun _ => id
  | minor_build hprepared => exact h.minor_build hprepared
  | minor_build_fail hprepared =>
    refine h.keep rfl rfl ?_ fun _ _ hbuilt => hbuilt.set_flusher (by simp [hprepared]) fun _ => id
    exact fun id hid => .inl (ExtTreeMap.mem_of_mem_erase hid)
  | minor_fail hbuilt =>
    exact h.keep_files rfl rfl fun _ hold => hold.set_flusher (by simp [hbuilt]) fun _ => id
  | minor_install hbuilt => exact h.minor_install hworking hbuilt rfl rfl rfl
  | @compact_decline owner _ hmay =>
    refine h.keep_files rfl rfl fun _ hbuilt => ?_
    cases owner with
    | flusher => exact hbuilt.set_flusher (by simp [DBImpl.may_compact_flusher hmay]) fun _ => id
    | caller => exact hbuilt
  | compact_prepare hmay => exact h.keep_files rfl rfl fun _ hbuilt => hbuilt.prepare_call hmay
  | compact_skip hcall => exact h.keep_files rfl rfl fun _ hbuilt => hbuilt.set_call hcall rfl
  | compact_build hcall _ hnumber => exact h.compact_build hcall hnumber
  | @compact_fail index ok owner ctx ssts hcall hremoved =>
    have hssts : ∀ id ∈ ssts, id ∈ data.ssts := by
      rcases hremoved with rfl | ⟨number, -, rfl⟩
      · exact fun _ => id
      · exact fun _ => ExtTreeMap.mem_of_mem_erase
    refine h.keep rfl rfl (fun id hid => .inl (hssts id hid)) fun id _ hbuilt => ?_
    exact (hbuilt.remove_call hthreads hcall).resolve_right (by simp)
  | compact_install hcall hunchanged => exact h.compact_install hthreads hworking hcall hunchanged
  | compact_consume hcall hunchanged hempty =>
    exact h.compact_consume hthreads hworking hcall hunchanged hempty
  | compact_reject hcall _ hremoved =>
    subst hremoved
    exact h.compact_reject hthreads hworking hcall
  | stop => exact h
  | last_flush _ hidle =>
    exact h.keep_files rfl rfl fun _ hbuilt => hbuilt.set_flusher (by simp [hidle]) fun _ => id

end

end NovaKV

import NovaKV.Store.InStep
import NovaKV.Store.LastWriteWins

open Std
open NovaKV.Lib

namespace NovaKV

/-- A compaction whose inputs are still the current level 0 has the output that
compacting the current levels gives. -/
structure CompactCall.Faithful (call : CompactCall) (levels : Levels) : Prop where
  merged : call.ctx.merged_l0_records.isEmpty = false
  has_output : call.ctx.has_output = !call.ctx.output_records.isEmpty
  current : call.ctx.l0_input_ids.Perm (levels.l0.map SSTableReader.file_number) →
    call.ctx.output_records = output_records levels.l1 (merge_records levels.l0)
  reader : ∀ r, call.reader = some (some r) → r.table = .of_map call.ctx.output_records

/-- A flush under way is one of the immutable memtable. -/
def Flusher.Faithful (self : Flusher) (imm : Option MemTable) : Prop :=
  match self with
  | .prepared ctx => imm = some ctx.flushing_imm
  | .built ctx reader =>
    imm = some ctx.flushing_imm ∧ ∀ r, reader = some r → r.table = .of_map ctx.flushing_imm.table
  | _ => True

/-- What is about to be installed has the contents that it stands for. -/
structure DBImpl.Faithful (db : DBImpl) : Prop where
  flush : db.flusher.Faithful db.imm
  compactions : ∀ call ∈ db.calls, call.Faithful db.levels

section

variable {db db' : DBImpl} {data data' : Data} {past : List DiskEffect} {act : Act}

theorem DBImpl.Opened.faithful (h : db.Opened) : db.Faithful where
  flush := by
    rw [h.flusher]
    trivial
  compactions := by simp [h.calls]

theorem Flusher.Faithful.after {flusher : Flusher} {imm : Option MemTable} (h : flusher.Faithful imm)
    (owner : Owner) : (flusher.after owner).Faithful imm := by
  cases owner with
  | flusher => trivial
  | caller => exact h

/-- A flush under way has an immutable memtable to flush. -/
theorem Flusher.Faithful.of_none {flusher : Flusher} (h : flusher.Faithful none) (imm : Option MemTable) :
    flusher.Faithful imm := by
  cases flusher with
  | prepared ctx => cases h
  | built ctx reader => cases h.1
  | _ => trivial

/-- Level 0 has changed and will not have the inputs again. -/
theorem CompactCall.Faithful.outdated {call : CompactCall} {levels levels' : Levels} (h : call.Faithful levels)
    (hchanged : ¬ call.ctx.l0_input_ids.Perm (levels'.l0.map SSTableReader.file_number)) :
    call.Faithful levels' :=
  { h with current := fun hperm => absurd hperm hchanged }

theorem CompactCall.Faithful.prepared {owner : Owner} {ctx : L0ToL1Ctx}
    {order : IterationOrder (Nat × UInt32)} (h : ctx.PreparedFrom db.levels order) :
    CompactCall.Faithful { owner := owner, ctx := ctx, reader := none } db.levels where
  merged := by
    rw [h.merged]
    exact merge_records_isEmpty h.l0
  has_output := h.has_output
  current _ := h.output
  reader := nofun

/-- Calls return. -/
theorem DBImpl.Faithful.calls_sub (h : db.Faithful) {calls : List CompactCall} {flusher : Flusher}
    (hflusher : flusher.Faithful db.imm) (hcalls : ∀ call ∈ calls, call ∈ db.calls) :
    DBImpl.Faithful { db with flusher := flusher, calls := calls } where
  flush := hflusher
  compactions call hcall := h.compactions call (hcalls call hcall)

theorem DBImpl.Faithful.set_reader (h : db.Faithful) {index : Nat} {owner : Owner} {ctx : L0ToL1Ctx}
    {reader : Option SSTableReader} (hcall : db.calls[index]? = some ⟨owner, ctx, none⟩)
    (hreader : ∀ r, reader = some r → r.table = .of_map ctx.output_records) :
    DBImpl.Faithful { db with calls := db.calls.set index ⟨owner, ctx, some reader⟩ } where
  flush := h.flush
  compactions call hmem := by
    rcases List.mem_or_eq_of_mem_set hmem with hold | rfl
    · exact h.compactions call hold
    · refine { h.compactions _ (List.mem_of_getElem? hcall) with reader := ?_ }
      rintro r ⟨⟩
      exact hreader r rfl

/-- Every transition keeps what is under way faithful. -/
theorem DBImpl.Faithful.step (h : db.Faithful) (hin : db.InStep data past)
    (ht : Transition db data act db' data') : db'.Faithful := by
  have hgone : ∀ {levels : Levels}, levels.l0 = [] → ∀ call ∈ db.calls, call.Faithful levels := by
    intro levels hnone call hcall
    refine (h.compactions call hcall).outdated ?_
    rw [hnone]
    exact fun hperm => (hin.compactions call hcall).inputs hperm.eq_nil
  cases ht with
  | put_room => exact ⟨h.flush, h.compactions⟩
  | rotate _ _ _ _ flushed =>
    have hflush := h.flush
    rw [flushed] at hflush
    exact ⟨hflush.of_none _, fun call hcall => { h.compactions call hcall with }⟩
  | put_write => exact ⟨h.flush, h.compactions⟩
  | bg_exit => exact ⟨h.flush, h.compactions⟩
  | bg_wake => exact ⟨trivial, h.compactions⟩
  | bg_reset => exact ⟨h.flush, h.compactions⟩
  | minor_skip => exact ⟨trivial, h.compactions⟩
  | minor_prepare called imm_eq => exact ⟨imm_eq, fun call hcall => { h.compactions call hcall with }⟩
  | minor_build prepared opens opened =>
    have hflush := h.flush
    rw [prepared] at hflush
    refine ⟨⟨hflush, ?_⟩, h.compactions⟩
    rintro r ⟨⟩
    exact (SSTableReader.open_eq_some opened).2
  | minor_build_fail prepared =>
    have hflush := h.flush
    rw [prepared] at hflush
    exact ⟨⟨hflush, nofun⟩, h.compactions⟩
  | minor_fail => exact ⟨trivial, h.compactions⟩
  | @minor_install ctx reader _ built =>
    refine ⟨?_, ?_⟩
    · dsimp only
      split <;> trivial
    · intro call hcall
      refine (h.compactions call hcall).outdated ?_
      intro hperm
      obtain ⟨hnumber, -⟩ := hin.built _ _ built
      have hreserved : ctx.new_sst_id ∈ db.flusher.reserved := by simp [built, Flusher.reserved]
      refine (hin.compactions call hcall).no_input _ hreserved (hperm.mem_iff.mpr ?_)
      exact List.mem_map.mpr ⟨reader, List.mem_append_right _ List.mem_cons_self, hnumber⟩
  | compact_decline => exact h.calls_sub (h.flush.after _) fun _ => id
  | @compact_prepare owner _ _ _ _ prepared =>
    refine ⟨?_, ?_⟩
    · cases owner with
      | flusher => trivial
      | caller => exact h.flush
    · intro call hcall
      rcases List.mem_append.mp hcall with hold | hnew
      · exact { h.compactions call hold with }
      · rw [List.mem_singleton.mp hnew]
        exact { CompactCall.Faithful.prepared prepared with }
  | compact_skip call _ => exact h.set_reader call nofun
  | compact_build call _ number _ opened =>
    refine h.set_reader call ?_
    rintro r ⟨⟩
    exact (SSTableReader.open_eq_some opened).2
  | compact_fail => exact h.calls_sub (h.flush.after _) fun _ => List.mem_of_mem_eraseIdx
  | compact_install => exact ⟨h.flush.after _, fun call hcall => hgone rfl call (List.mem_of_mem_eraseIdx hcall)⟩
  | compact_consume => exact ⟨h.flush.after _, fun call hcall => hgone rfl call (List.mem_of_mem_eraseIdx hcall)⟩
  | compact_reject => exact h.calls_sub (h.flush.after _) fun _ => List.mem_of_mem_eraseIdx
  | stop => exact ⟨h.flush, h.compactions⟩
  | last_flush => exact ⟨trivial, h.compactions⟩

theorem DBImpl.get_congr (hmem : db'.mem = db.mem) (himm : db'.imm = db.imm)
    (hsearch : ∀ key, visible (db'.levels.search key) = visible (db.levels.search key)) : db'.get = db.get := by
  funext key
  rw [DBImpl.get_eq, DBImpl.get_eq, hmem, himm]
  exact visible_or_congr fun _ => hsearch key

/-- A completed `Put` shows at its key and nowhere else; no other transition of an
open database changes what `Get` shows. -/
theorem DBImpl.Faithful.view (h : db.Faithful) (hin : db.InStep data past)
    (ht : Transition db data act db' data') (hact : act.is_destructor = false) :
    db'.get = overwrite db.get (db.completes act) := by
  cases ht with
  | put_room => rfl
  | rotate _ _ mem_eq _ flushed =>
    funext key
    simp only [DBImpl.completes, overwrite_nil, DBImpl.get_eq, mem_eq, flushed, MemTable.get, Option.bind_some,
      ExtTreeMap.getElem?_empty, Option.none_or, Option.bind_none, Option.or_none]
    rfl
  | @put_write mem key record writing mem_eq =>
    funext other
    rw [DBImpl.completes, writing, Option.toList_some, overwrite_singleton, DBImpl.get_eq, DBImpl.get_eq]
    simp only [mem_eq, Option.bind_some, MemTable.get, ExtTreeMap.getElem?_insert]
    by_cases hkey : other = key
    · simp [hkey]
    · simp [hkey, Ne.symm hkey]
  | bg_exit => rfl
  | bg_wake => rfl
  | bg_reset => rfl
  | minor_skip => rfl
  | minor_prepare => rfl
  | minor_build => rfl
  | minor_build_fail => rfl
  | minor_fail => rfl
  | minor_install built =>
    have hflush := h.flush
    rw [built] at hflush
    obtain ⟨himm, htable⟩ := hflush
    funext key
    have hnone : db.completes .minor_install = [] := rfl
    rw [hnone, overwrite_nil, DBImpl.get_eq, DBImpl.get_eq]
    simp only [himm, Option.bind_none, Option.or_none, Option.bind_some, Levels.search]
    exact visible_search_flushed (htable _ rfl) _ key
  | compact_decline => rfl
  | compact_prepare => rfl
  | compact_skip => rfl
  | compact_build => rfl
  | compact_fail => rfl
  | compact_install call unchanged _ =>
    have hcall := h.compactions _ (List.mem_of_getElem? call)
    have houtput := hcall.current (db.levels.perm_of_unchanged hin.lists unchanged)
    have htable := hcall.reader _ rfl
    rw [houtput] at htable
    exact DBImpl.get_congr rfl rfl (visible_search_installed htable)
  | compact_consume call unchanged empty =>
    have hcall := h.compactions _ (List.mem_of_getElem? call)
    have houtput := hcall.current (db.levels.perm_of_unchanged hin.lists unchanged)
    refine DBImpl.get_congr rfl rfl (visible_search_consumed ?_)
    rw [← houtput]
    rcases empty with hmerged | hnone
    · rw [hcall.merged] at hmerged
      cases hmerged
    · simpa [hnone] using hcall.has_output.symm
  | compact_reject => rfl
  | stop => cases hact
  | last_flush => cases hact

/-- In every state that sessions lead to, what is under way is faithful. -/
theorem History.faithful {running : Option DBImpl} {disk : Disk} {trace : List DiskEffect}
    (h : History (fun disk _ => disk.ScansInts) running disk trace) :
    ∀ db, running = some db → db.Faithful := by
  induction h with
  | boot before _ order hopens =>
    rintro _ ⟨⟩
    obtain ⟨opened, _, heq, hopened, -⟩ :=
      DBImpl.open_eq order ((DBImpl.InStep.preserved.history before).1 rfl).opens
    rw [heq] at hopens
    cases hopens
    exact hopened.faithful
  | step before hprogram ih =>
    rintro _ ⟨⟩
    have hin := ((DBImpl.InStep.preserved.history before).2 _ rfl).holds.2
    exact (ih _ rfl).step hin (DBImpl.transition hprogram _ rfl)
  | _ => exact nofun

/-- A step of an open database changes what `Get` shows by the `Put` that it completes. -/
theorem History.view_step {self next : System} {trace : List DiskEffect} {act : Act}
    (h : History (fun disk _ => disk.ScansInts) (some self.db) self.disk trace)
    (hstep : self.step act = some next) (hact : act.is_destructor = false) :
    next.db.get = overwrite self.db.get (self.db.completes act) := by
  have hin := ((DBImpl.InStep.preserved.history h).2 _ rfl).holds.2
  exact (h.faithful _ rfl).view hin (System.step_transition hstep) hact

end

end NovaKV

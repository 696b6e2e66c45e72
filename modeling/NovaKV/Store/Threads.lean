import NovaKV.Store.Transition

open Std
open NovaKV.Lib

namespace NovaKV

def Flusher.is_compacting : Flusher → Bool
  | .compacting => true
  | _ => false

/-- `MinorCompaction` has dealt with the immutable memtable, or has returned. -/
def Flusher.past_install : Flusher → Bool
  | .idle => true
  | .compact_called => true
  | .compacting => true
  | _ => false

/-- How the threads fit together: the flusher has one compaction call exactly while
it compacts, and the background thread waits with no flush under way. -/
structure DBImpl.Threads (db : DBImpl) : Prop where
  owned : db.calls.countP (·.owner = .flusher) = if db.flusher.is_compacting then 1 else 0
  waiting : db.bg = .waiting → db.flusher = .idle
  stopped : db.bg = .exited → db.bg_stopped = true
  callers : db.bg_stopped = true → ∀ call ∈ db.calls, call.owner = .flusher
  writer : db.bg_stopped = true → db.writer = none

section

variable {db db' : DBImpl} {data data' : Data}

/-- A call of the flusher is under way only while it compacts. -/
theorem DBImpl.Threads.compacting_of_owner (h : db.Threads) {call : CompactCall}
    (hcall : call ∈ db.calls) (howner : call.owner = .flusher) : db.flusher = .compacting := by
  have hpos : 0 < db.calls.countP (·.owner = .flusher) :=
    List.countP_pos_iff.mpr ⟨call, hcall, by simpa using howner⟩
  rw [h.owned] at hpos
  cases hflusher : db.flusher with
  | compacting => rfl
  | _ => simp [hflusher, Flusher.is_compacting] at hpos

/-- With the flusher idle and the database closing, no compaction is under way. -/
theorem DBImpl.Threads.calls_eq_nil (h : db.Threads) (hstopped : db.bg_stopped = true)
    (hidle : db.flusher = .idle) : db.calls = [] := by
  rw [List.eq_nil_iff_forall_not_mem]
  intro call hcall
  have hcompacting := h.compacting_of_owner hcall (h.callers hstopped call hcall)
  rw [hidle] at hcompacting
  cases hcompacting

theorem DBImpl.Opened.threads (h : db.Opened) : db.Threads where
  owned := by simp [h.calls, h.flusher, Flusher.is_compacting]
  waiting _ := h.flusher
  stopped := by simp [h.bg]
  callers := by simp [h.bg_stopped]
  writer := by simp [h.bg_stopped]

/-- The end of a call of either owner. -/
theorem DBImpl.Threads.remove_call (h : db.Threads) {index : Nat} {call : CompactCall} {levels : Levels}
    (hcall : db.calls[index]? = some call) :
    { db with
      levels := levels, calls := db.calls.eraseIdx index, flusher := db.flusher.after call.owner }.Threads := by
  obtain ⟨hindex, rfl⟩ := List.getElem?_eq_some_iff.mp hcall
  have hcount := (List.getElem_cons_eraseIdx_perm hindex).countP_eq (·.owner = .flusher)
  rw [List.countP_cons, h.owned] at hcount
  cases howner : db.calls[index].owner with
  | flusher =>
    have hcompacting := h.compacting_of_owner (List.getElem_mem hindex) howner
    refine ⟨?_, fun _ => rfl, h.stopped, ?_, h.writer⟩
    · simpa [howner, hcompacting, Flusher.is_compacting, Flusher.after] using hcount
    · exact fun hstopped call hcall => h.callers hstopped call (List.mem_of_mem_eraseIdx hcall)
  | caller =>
    refine ⟨?_, h.waiting, h.stopped, ?_, h.writer⟩
    · change (db.calls.eraseIdx index).countP _ = if db.flusher.is_compacting then 1 else 0
      simpa [howner] using hcount
    · exact fun hstopped call hcall => h.callers hstopped call (List.mem_of_mem_eraseIdx hcall)

/-- A call that moves on keeps its owner. -/
theorem DBImpl.Threads.set_call (h : db.Threads) {index : Nat} {owner : Owner} {ctx : L0ToL1Ctx}
    {before : Option (Option SSTableReader)} (hcall : db.calls[index]? = some ⟨owner, ctx, before⟩)
    (after : Option (Option SSTableReader)) :
    { db with calls := db.calls.set index ⟨owner, ctx, after⟩ }.Threads := by
  obtain ⟨hindex, hget⟩ := List.getElem?_eq_some_iff.mp hcall
  refine ⟨?_, h.waiting, h.stopped, ?_, h.writer⟩
  · have hafter := (List.set_perm_cons_eraseIdx hindex ⟨owner, ctx, after⟩).countP_eq (·.owner = .flusher)
    have hbefore := (List.getElem_cons_eraseIdx_perm hindex).countP_eq (·.owner = .flusher)
    rw [hget, List.countP_cons] at hbefore
    rw [List.countP_cons] at hafter
    rw [← h.owned]
    exact hafter.trans hbefore
  · intro hstopped call hmem
    rcases List.mem_or_eq_of_mem_set hmem with hmem | rfl
    · exact h.callers hstopped call hmem
    · exact h.callers hstopped ⟨owner, ctx, before⟩ (List.mem_of_getElem? hcall)

theorem DBImpl.may_compact_flusher (h : db.may_compact .flusher = true) : db.flusher = .compact_called := by
  cases hflusher : db.flusher <;> simp_all [DBImpl.may_compact]

theorem DBImpl.may_compact_caller (h : db.may_compact .caller = true) : db.bg_stopped = false := by
  cases hflusher : db.flusher <;> simp_all [DBImpl.may_compact]

/-- The background thread does not wait while a flush is under way. -/
theorem DBImpl.Threads.not_waiting (h : db.Threads) (hbusy : db.flusher ≠ .idle) : db.bg ≠ .waiting :=
  fun hwaiting => hbusy (h.waiting hwaiting)

theorem DBImpl.Threads.step {act : Act} (h : db.Threads) (hstep : Transition db data act db' data') :
    db'.Threads := by
  have howned := h.owned
  cases hstep with
  | put_room hrunning => exact ⟨h.owned, h.waiting, h.stopped, h.callers, by simp [hrunning]⟩
  | rotate hrunning => exact ⟨h.owned, h.waiting, h.stopped, h.callers, by simp [hrunning]⟩
  | put_write => exact ⟨h.owned, h.waiting, h.stopped, h.callers, fun _ => rfl⟩
  | bg_exit _ hstopped => exact ⟨h.owned, nofun, fun _ => hstopped, h.callers, h.writer⟩
  | bg_wake hwaiting =>
    rw [h.waiting hwaiting] at howned
    exact ⟨howned, nofun, nofun, h.callers, h.writer⟩
  | bg_reset _ hidle => exact ⟨h.owned, fun _ => hidle, nofun, h.callers, h.writer⟩
  | minor_skip hcalled =>
    rw [hcalled] at howned
    exact ⟨howned, fun _ => rfl, h.stopped, h.callers, h.writer⟩
  | minor_prepare hcalled =>
    rw [hcalled] at howned
    have hbusy := h.not_waiting (by rw [hcalled]; nofun)
    exact ⟨howned, fun hwaiting => absurd hwaiting hbusy, h.stopped, h.callers, h.writer⟩
  | minor_build hprepared =>
    rw [hprepared] at howned
    have hbusy := h.not_waiting (by rw [hprepared]; nofun)
    exact ⟨howned, fun hwaiting => absurd hwaiting hbusy, h.stopped, h.callers, h.writer⟩
  | minor_build_fail hprepared =>
    rw [hprepared] at howned
    have hbusy := h.not_waiting (by rw [hprepared]; nofun)
    exact ⟨howned, fun hwaiting => absurd hwaiting hbusy, h.stopped, h.callers, h.writer⟩
  | minor_fail hbuilt =>
    rw [hbuilt] at howned
    exact ⟨howned, fun _ => rfl, h.stopped, h.callers, h.writer⟩
  | minor_install hbuilt =>
    rw [hbuilt] at howned
    have hbusy := h.not_waiting (by rw [hbuilt]; nofun)
    refine ⟨?_, fun hwaiting => absurd hwaiting hbusy, h.stopped, h.callers, h.writer⟩
    simp only
    split <;> exact howned
  | @compact_decline owner _ hmay =>
    cases owner with
    | flusher =>
      rw [DBImpl.may_compact_flusher hmay] at howned
      exact ⟨howned, fun _ => rfl, h.stopped, h.callers, h.writer⟩
    | caller => exact ⟨howned, h.waiting, h.stopped, h.callers, h.writer⟩
  | @compact_prepare owner _ ctx _ hmay =>
    cases owner with
    | flusher =>
      have hcalled := DBImpl.may_compact_flusher hmay
      rw [hcalled] at howned
      have hbusy := h.not_waiting (by rw [hcalled]; nofun)
      refine ⟨?_, fun hwaiting => absurd hwaiting hbusy, h.stopped, ?_, h.writer⟩
      · simpa [Flusher.is_compacting] using howned
      · intro hstopped call hcall
        rcases List.mem_append.mp hcall with hcall | hcall
        · exact h.callers hstopped call hcall
        · rw [List.mem_singleton.mp hcall]
    | caller =>
      have hrunning := DBImpl.may_compact_caller hmay
      refine ⟨?_, h.waiting, h.stopped, by simp [hrunning], h.writer⟩
      rw [← howned]
      simp
  | compact_skip hcall => exact h.set_call hcall _
  | compact_build hcall => exact h.set_call hcall _
  | compact_fail hcall => exact h.remove_call hcall
  | compact_install hcall => exact h.remove_call hcall
  | compact_consume hcall => exact h.remove_call hcall
  | compact_reject hcall => exact h.remove_call hcall
  | stop _ hfree halone => exact ⟨h.owned, h.waiting, fun _ => rfl, fun _ => halone, fun _ => hfree⟩
  | last_flush hexited hidle =>
    rw [hidle] at howned
    exact ⟨howned, by simp [hexited], h.stopped, h.callers, h.writer⟩

end

end NovaKV

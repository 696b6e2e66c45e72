import NovaKV.Store.Filling
import NovaKV.Store.Run

open Std
open NovaKV.Lib

namespace NovaKV

theorem visible_eq_some_iff (record : Option ValueRecord) (value : Bytes) :
    visible record = some value ↔ record = some ⟨.kValue, value⟩ := by
  cases record with
  | none => simp
  | some record =>
    obtain ⟨type, value'⟩ := record
    cases type <;> simp

theorem visible_eq_none_iff (record : Option ValueRecord) :
    visible record = none ↔ record = none ∨ ∃ value, record = some ⟨.kDeletion, value⟩ := by
  cases record with
  | none => simp
  | some record =>
    obtain ⟨type, value⟩ := record
    cases type <;> simp

/-- What a run on an empty directory leads to. -/
theorem System.session_from_empty {order : IterationOrder Nat} {start now : System} {acts : List Act}
    (hopen : System.open order Disk.empty = some start) (hrun : start.run acts = some now)
    (hacts : ∀ act ∈ acts, act.io_ok = true ∧ act.is_destructor = false) :
    ∃ old flushed immLog memLog, now.db.Session now.disk.files old flushed immLog memLog fun key =>
      visible (latest (start.puts acts) key) := by
  obtain ⟨system, hsystem, -, -, hsession⟩ := System.open_of_loads order Disk.empty_loads
  rw [hopen] at hsystem
  cases hsystem
  rw [Disk.empty_shows] at hsession
  have hsteps : ∀ act ∈ acts, act.io_ok = true ∧ act ≠ .last_flush :=
    fun act hact => ⟨(hacts act hact).1, Act.ne_last_flush (hacts act hact).2⟩
  obtain ⟨flushed, ⟨⟨immLog, memLog, hnow⟩, -⟩, -⟩ := System.run_session hsession hrun hsteps
  refine ⟨_, flushed, immLog, memLog, hnow.working, hnow.logged, ?_⟩
  intro key
  rw [hnow.view key, overwrite_none]

/-- Within one session on a directory that was empty, `Get` shows at every point
of every run the latest `Put` completed on the key: its value, or nothing when
there is none or it is a deletion. -/
theorem System.get_eq_latest_put {order : IterationOrder Nat} {start now : System} {acts : List Act}
    (hopen : System.open order Disk.empty = some start) (hrun : start.run acts = some now)
    (hacts : ∀ act ∈ acts, act.io_ok = true ∧ act.is_destructor = false) (key : Key) :
    (∀ value, now.db.get key = some value ↔
      latest (start.puts acts) key = some ⟨.kValue, value⟩) ∧
    (now.db.get key = none ↔
      latest (start.puts acts) key = none ∨
        ∃ value, latest (start.puts acts) key = some ⟨.kDeletion, value⟩) := by
  obtain ⟨_, _, _, _, hnow⟩ := System.session_from_empty hopen hrun hacts
  have hget : now.db.get key = visible (latest (start.puts acts) key) := hnow.view key
  rw [hget]
  exact ⟨fun value => visible_eq_some_iff _ value, visible_eq_none_iff _⟩

/-- A full memtable is rotated by a `Put` that overwrites its first key and flushed; the
flushed table is compacted, and its second key is deleted. -/
def overwritingActs : List Act :=
  firstFlushActs ⟨.kValue, [1]⟩ [] ⟨.kValue, [2]⟩ ++ (compactActs ++ fillActs ⟨.kDeletion, []⟩ 1 1)

theorem get_after_overwritingActs :
    ∃ start now, System.open .forward Disk.empty = some start ∧ start.run overwritingActs = some now ∧
      now.db.get [] = some [2] ∧ now.db.get [0] = none ∧ now.db.get [0, 0] = some [1] := by
  obtain ⟨start, flushed, wal, _, reader, hopen, hflush, hflushed, hputs⟩ :=
    System.run_firstFlushActs ⟨.kValue, [1]⟩ [] ⟨.kValue, [2]⟩
  have hopened := System.open_opened hopen
  have hids : (l0_ids .forward flushed.db.levels.manifest.state).length = flushed.db.levels.l0.length := by
    obtain ⟨_, _, _, _, hsession⟩ := System.session_from_empty hopen hflush fun _ => firstFlushActs_ok
    exact hsession.working.stored.l0_ids_length .forward
  obtain ⟨compacted, levels', hcompact, hcompacted⟩ := @System.run_compactActs flushed
    (by rw [hflushed]; exact hopened.bg_stopped) (by rw [hflushed]; exact hopened.calls) (by simp [hflushed]) hids
  rw [hflushed] at hcompacted
  let mem : MemTable := { wal := wal, table := (∅ : ExtTreeMap Key ValueRecord).insert [] ⟨.kValue, [2]⟩ }
  have hkeys : ∀ key ∈ mem.table, key.length < 1 := by
    intro key hkey
    rw [← LawfulEqCmp.eq_of_compare (ExtTreeMap.mem_insert.mp hkey |>.resolve_right ExtTreeMap.not_mem_empty)]
    decide
  have hroom : mem.count + 1 ≤ kMemTableLimit := by
    simp [mem, MemTable.count, ExtTreeMap.size_insert, kMemTableLimit]
  obtain ⟨now, -, hdelete, -, -, -⟩ := @System.run_fillActs ⟨.kDeletion, []⟩ compacted mem 1 1
    (by rw [hcompacted]) (by rw [hcompacted]) (by rw [hcompacted]; exact hopened.bg_stopped) hkeys hroom
  have hrun : start.run overwritingActs = some now := by
    rw [overwritingActs, System.run_append hflush, System.run_append hcompact, hdelete]
  have hwritten : start.puts overwritingActs =
      fillRecords ⟨.kValue, [1]⟩ 0 10000 ++ [([], ⟨.kValue, [2]⟩)] ++ [([0], ⟨.kDeletion, []⟩)] := by
    rw [overwritingActs, System.puts_append hflush, System.puts_append hcompact, hputs,
      System.puts_of_quiet (by simp [compactActs]), System.puts_fillActs hdelete]
    rfl
  have hacts : ∀ act ∈ overwritingActs, act.io_ok = true ∧ act.is_destructor = false := by
    intro act hact
    simp only [overwritingActs, List.mem_append] at hact
    rcases hact with hact | hact | hact
    · exact firstFlushActs_ok hact
    · revert act
      simp [compactActs, Act.io_ok, Act.is_destructor]
    · exact fillActs_ok hact
  refine ⟨start, now, hopen, hrun, ((System.get_eq_latest_put hopen hrun hacts []).1 [2]).mpr ?_,
    (System.get_eq_latest_put hopen hrun hacts [0]).2.mpr ?_,
    ((System.get_eq_latest_put hopen hrun hacts [0, 0]).1 [1]).mpr ?_⟩
  · rw [hwritten, latest_concat_of_ne _ _ (by decide), latest_concat_self]
  · rw [hwritten, latest_concat_self]
    exact .inr ⟨[], rfl⟩
  · rw [hwritten, latest_concat_of_ne _ _ (by decide), latest_concat_of_ne _ _ (by decide)]
    exact @latest_fillRecords ⟨.kValue, [1]⟩ 0 10000 2 (by decide) (by decide)

end NovaKV

import NovaKV.Network.Executor
import NovaKV.Store.View

open Std
open NovaKV.Lib

namespace NovaKV

/-- A step of the background thread, or of a call of `CompactL0ToL1`. -/
def Act.is_background : Act → Bool
  | .put_lock _ _ => false
  | .put_write => false
  | .stop => false
  | .last_flush => false
  | _ => true

/-- A program of calls on an open database, between and during which the background
threads take steps. -/
inductive DBCalls.Runs {α : Type} : System → DBCalls α → System → α → Prop
  | done {system result} : Runs system (.done result) system result
  | background {system next last calls result act} (background : act.is_background = true)
      (step : system.step act = some next) (rest : Runs next calls last result) :
      Runs system calls last result
  | put {system locked waited written last key record next result acts}
      (lock : system.step (.put_lock key record) = some locked) (wait : locked.run acts = some waited)
      (background : ∀ act ∈ acts, act.is_background = true) (write : waited.step .put_write = some written)
      (rest : Runs written next last result) : Runs system (.put key record next) last result
  | get {system last key next result} (rest : Runs system (next (system.db.get key)) last result) :
      Runs system (.get key next) last result
  | new_iterator {system last next result} (rest : Runs system (next system.db.new_iterator) last result) :
      Runs system (.new_iterator next) last result

/-- What a request does to an ordered map, and its reply. -/
def Request.serve (map : ExtTreeMap Key Bytes) : Request → ExtTreeMap Key Bytes × Reply
  | .set key value => (map.insert key value, .ok)
  | .get key => (map, .value map[key]?)
  | .del key => (map.erase key, .ok)
  | .rscan start_key => (map, .rows (map.toList.filter fun row => compare row.1 start_key ≠ .lt))
  | .bad message => (map, .error message)

/-- An ordered map serves commands one after another. -/
def serve (map : ExtTreeMap Key Bytes) : List (List Bytes) → ExtTreeMap Key Bytes × List Reply
  | [] => (map, [])
  | command :: commands =>
    let (next, reply) := (request command).serve map
    let (last, replies) := serve next commands
    (last, reply :: replies)

/-- The keys and values that a database shows. -/
def DBImpl.contents (self : DBImpl) : ExtTreeMap Key Bytes := .ofList self.new_iterator.rows

section

variable {db : DBImpl} {system next last : System} {map : ExtTreeMap Key Bytes} {trace : List DiskEffect}

/-- A map with the contents of a database lists the rows of an iterator. -/
theorem DBImpl.rows_eq (hmap : ∀ key : Key, map[key]? = db.get key) : map.toList = db.new_iterator.rows := by
  obtain ⟨hsorted, hmem⟩ := db.new_iterator_rows
  exact toList_eq_of_sorted hsorted fun key value => by rw [hmap, hmem]

theorem DBImpl.getElem?_contents (db : DBImpl) (key : Key) : db.contents[key]? = db.get key := by
  obtain ⟨hsorted, hmem⟩ := db.new_iterator_rows
  have hdistinct : db.new_iterator.rows.Pairwise fun a b => ¬ compare a.1 b.1 = .eq :=
    hsorted.imp fun hlt heq => by simp [hlt] at heq
  cases hget : db.get key with
  | some value =>
    exact ExtTreeMap.getElem?_ofList_of_mem (k := key) ReflCmp.compare_self hdistinct ((hmem key value).mpr hget)
  | none =>
    refine ExtTreeMap.getElem?_ofList_of_contains_eq_false ?_
    rw [List.contains_eq_mem, decide_eq_false_iff_not, List.mem_map]
    rintro ⟨⟨_, value⟩, hrow, rfl⟩
    rw [hmem, hget] at hrow
    cases hrow

theorem DBImpl.contents_eq (hmap : ∀ key : Key, map[key]? = db.get key) : db.contents = map := by
  apply ExtTreeMap.ext_getElem?
  intro key
  rw [db.getElem?_contents, hmap]

theorem Act.is_background.spec {act : Act} (h : act.is_background = true) (db : DBImpl) :
    act.is_destructor = false ∧ db.completes act = [] := by
  cases act <;> first | exact ⟨rfl, rfl⟩ | cases h

theorem Transition.writer {data data' : Data} {db' : DBImpl} {act : Act} (ht : Transition db data act db' data')
    (hact : act.is_background = true) : db'.writer = db.writer := by
  cases ht <;> first | rfl | cases hact

theorem History.stepped {opening : Disk → List DiskEffect → Prop} {act : Act}
    (h : History opening (some system.db) system.disk trace) (hstep : system.step act = some next) :
    ∃ trace', History opening (some next.db) next.disk trace' := by
  obtain ⟨program, hprogram, rfl⟩ := Option.map_eq_some_iff.mp hstep
  exact ⟨_, .step h hprogram⟩

/-- Two states of an open database between which only background threads took steps. -/
structure Idle (system next : System) : Prop where
  history : ∃ trace, History (fun disk _ => disk.ScansInts) (some next.db) next.disk trace
  view : next.db.get = system.db.get
  writer : next.db.writer = system.db.writer

theorem History.idle_step {act : Act} (h : History (fun disk _ => disk.ScansInts) (some system.db) system.disk trace)
    (hact : act.is_background = true) (hstep : system.step act = some next) : Idle system next where
  history := h.stepped hstep
  view := by
    obtain ⟨hdestructor, hnone⟩ := Act.is_background.spec hact system.db
    rw [h.view_step hstep hdestructor, hnone, overwrite_nil]
  writer := (System.step_transition hstep).writer hact

theorem Idle.trans {middle : System} (hfirst : Idle system middle) (hsecond : Idle middle next) :
    Idle system next where
  history := hsecond.history
  view := hsecond.view.trans hfirst.view
  writer := hsecond.writer.trans hfirst.writer

theorem History.idle_run {acts : List Act}
    (h : History (fun disk _ => disk.ScansInts) (some system.db) system.disk trace)
    (hacts : ∀ act ∈ acts, act.is_background = true) (hrun : system.run acts = some next) : Idle system next := by
  induction acts generalizing system trace with
  | nil =>
    cases hrun
    exact ⟨⟨_, h⟩, rfl, rfl⟩
  | cons act acts ih =>
    obtain ⟨middle, hstep, hrest⟩ := Option.bind_eq_some_iff.mp hrun
    have hfirst := h.idle_step (hacts act List.mem_cons_self) hstep
    obtain ⟨_, hmiddle⟩ := hfirst.history
    exact hfirst.trans (ih hmiddle (fun other hother => hacts other (List.mem_cons_of_mem _ hother)) hrest)

/-- One whole `Put`, with steps of the background threads inside it. -/
theorem History.put {locked waited written : System} {key : Key} {record : ValueRecord} {acts : List Act}
    (h : History (fun disk _ => disk.ScansInts) (some system.db) system.disk trace)
    (hlock : system.step (.put_lock key record) = some locked) (hwait : locked.run acts = some waited)
    (hacts : ∀ act ∈ acts, act.is_background = true) (hwrite : waited.step .put_write = some written) :
    (∃ trace', History (fun disk _ => disk.ScansInts) (some written.db) written.disk trace') ∧
      written.db.get = overwrite system.db.get [(key, record)] := by
  obtain ⟨_, hlocked⟩ := h.stepped hlock
  have hidle := hlocked.idle_run hacts hwait
  obtain ⟨_, hwaited⟩ := hidle.history
  refine ⟨hwaited.stepped hwrite, ?_⟩
  have hwriter : waited.db.completes .put_write = [(key, record)] := by
    rw [DBImpl.completes, hidle.writer, (System.step_transition hlock).writer_put_lock]
    rfl
  rw [hwaited.view_step hwrite rfl, hwriter, hidle.view, h.view_step hlock rfl]
  rfl

end

end NovaKV

import NovaKV.Store.Reopening
import NovaKV.Store.Restart

open Std
open NovaKV.Lib

namespace NovaKV

/-- A run of a session without I/O failure, up to the destructor's last flush. Unless
it `flushes`, it installs no flushed memtable. -/
structure SessionRun (flushes : Bool) (start : System) (acts : List Act) (last : System) : Prop where
  run : start.run acts = some last
  steps : ∀ act ∈ acts, act.io_ok = true ∧ act ≠ .last_flush
  unflushed : flushes = false → .minor_install ∉ acts

/-- What a session on the directory `found` leaves when it crashes: in its
constructor, between two steps, or among the file effects of a step that is not
`InstallL0ToL1`. Unless the session `flushes`, the crash comes before any flush is
complete. -/
inductive CrashedSession (flushes : Bool) (found : Disk) : Disk → Prop
  | opening {order done} (crash : done <+: ((DBImpl.open order) found).2) :
      CrashedSession flushes found (applyAll found done)
  | between {order start acts last} (opens : System.open order found = some start)
      (session : SessionRun flushes start acts last) : CrashedSession flushes found last.disk
  | inside {order start acts last act program done} (opens : System.open order found = some start)
      (session : SessionRun flushes start acts last) (program_eq : last.db.program act = some program)
      (step : act.io_ok = true ∧ act ≠ .last_flush) (outside : last.db.installs act = false)
      (crash : done <+: (program last.disk).2)
      (unflushed : flushes = false → act = .minor_install → done ≠ (program last.disk).2) :
      CrashedSession flushes found (applyAll last.disk done)

/-- If the manifest lists no table, then what the tables in the directory show has a
record in a log. -/
def Disk.ScansLogged (self : Disk) : Prop :=
  self.recovered.sst_levels.isEmpty = true →
    ∀ (id : Nat) (table : SSTable), self.ssts[id]? = some table → Covers (records self.wals.toList) table.get_record

/-- A directory from which the next session recovers all that was written. -/
def Disk.Recoverable (self : Disk) : Prop :=
  self.files = Disk.empty.files ∨ self.files.Recovers (overwrite (fun _ => none) self.written) ∨ self.remnant.Replays

section

variable {flushes : Bool} {found disk : Disk} {start last : System} {acts : List Act} {l0 l1 : List SSTableReader}
  {order : IterationOrder Nat}

theorem SessionRun.mem_isSome (h : SessionRun flushes start acts last) (hmem : start.db.mem.isSome) :
    last.db.mem.isSome := by
  refine @System.run_induction (fun system => system.db.mem.isSome) _ _ _ ?_ hmem h.run
  intro system system' act hact hmem hstep
  exact (System.step_transition hstep).mem_isSome (h.steps act hact).2 hmem

theorem SessionRun.append {mid : System} {rest : List Act} (hfirst : SessionRun flushes start acts mid)
    (hrest : SessionRun flushes mid rest last) : SessionRun flushes start (acts ++ rest) last where
  run := by rw [System.run_append hfirst.run, hrest.run]
  steps act hact := (List.mem_append.mp hact).elim (hfirst.steps act) (hrest.steps act)
  unflushed hnone := by
    rw [List.mem_append, not_or]
    exact ⟨hfirst.unflushed hnone, hrest.unflushed hnone⟩

/-- Where the manifest lists no table, the logs decide what shows. -/
theorem Files.Recovers.replays (h : disk.files.Recovers (overwrite (fun _ => none) disk.written))
    (hlisted : disk.recovered.sst_levels.isEmpty = true) (hscan : disk.ScansLogged) : disk.remnant.Replays := by
  obtain ⟨hsnapshot, l0, l1, hholds, hview⟩ := h
  obtain ⟨rfl, rfl⟩ := hholds.lists.isEmpty_iff.mp hlisted
  refine ⟨hsnapshot, hholds.wals_le, ?_, hscan hlisted⟩
  intro key
  have hkey := hview key
  rw [overwrite_none] at hkey
  exact (congrArg visible (Option.or_none).symm).trans hkey

/-- The directory loads as the levels it holds, or its logs decide what shows. -/
theorem Disk.Recoverable.loads (h : disk.Recoverable) (hscan : disk.ScansLogged) :
    (∃ l0 l1, disk.files.Loads l0 l1 ∧ disk.files.shows l0 l1 = overwrite (fun _ => none) disk.written) ∨
      disk.remnant.Replays := by
  rcases h with hfresh | hrecovers | hreplays
  · left
    have hwritten : disk.written = [] := congrArg Files.written hfresh
    rw [hfresh, hwritten]
    exact ⟨[], [], Disk.empty_loads, Disk.empty_shows⟩
  · by_cases hlisted : disk.recovered.sst_levels.isEmpty = true
    · exact .inr (hrecovers.replays hlisted hscan)
    · left
      obtain ⟨hsnapshot, l0, l1, hholds, hview⟩ := hrecovers
      refine ⟨l0, l1, ⟨hholds, ?_, ?_⟩, funext hview⟩
      · intro hnone
        rw [hsnapshot] at hnone
        cases hnone
      · exact fun hl0 hl1 => absurd (hholds.lists.isEmpty_iff.mpr ⟨hl0, hl1⟩) hlisted
  · exact .inr hreplays

/-- A session on a directory that loads as the levels it holds. -/
theorem SessionRun.loaded (h : SessionRun flushes start acts last) (hopen : System.open order found = some start)
    (hloads : found.files.Loads l0 l1) (hshows : found.files.shows l0 l1 = overwrite (fun _ => none) found.written)
    (hfirst : flushes = true → found.wals.toList = []) :
    last.disk.written = found.written ++ start.puts acts ∧ ∃ flushed immLog memLog,
      last.db.Session last.disk.files found.wals.toList flushed immLog memLog
        (overwrite (fun _ => none) last.disk.written) ∧ last.db.Covered found.wals.toList flushed := by
  obtain ⟨system, hsystem, hopened, hsame, hstart⟩ := System.open_of_loads order hloads
  rw [hopen] at hsystem
  cases hsystem
  rw [hshows] at hstart
  obtain ⟨flushed, ⟨⟨immLog, memLog, hlast⟩, hwritten⟩, hkept⟩ := System.run_session hstart h.run h.steps
  have happended : last.disk.written = found.written ++ start.puts acts := by
    rw [← show start.disk.written = found.written from hsame.written]
    exact hwritten
  rw [← overwrite_append, ← happended] at hlast
  refine ⟨happended, flushed, immLog, memLog, hlast, ?_, h.mem_isSome hopened.mem⟩
  cases flushes with
  | true => exact .inl (hfirst rfl)
  | false => exact .inr (hkept fun act hact heq => h.unflushed rfl (heq ▸ hact))

/-- A run in which nothing is flushed, of a session that holds all logs in memory. -/
theorem System.run_replaying {self : System} (h : self.db.Replaying self.disk.remnant)
    (hrun : self.run acts = some last) (hacts : ∀ act ∈ acts, act ≠ .minor_install ∧ act ≠ .last_flush) :
    last.disk.written = self.disk.written ++ self.puts acts ∧ last.db.Replaying last.disk.remnant := by
  induction acts generalizing self with
  | nil =>
    cases hrun
    exact ⟨(List.append_nil _).symm, h⟩
  | cons act acts ih =>
    obtain ⟨mid, hstep, hrest⟩ := Option.bind_eq_some_iff.mp hrun
    obtain ⟨program, hprogram, rfl⟩ := Option.map_eq_some_iff.mp hstep
    obtain ⟨hinstall, hlast⟩ := hacts act List.mem_cons_self
    obtain ⟨hmid, hwritten⟩ := (h.step hprogram hinstall hlast self.disk rfl).2
    obtain ⟨hafter, hend⟩ := ih hmid hrest fun a ha => hacts a (List.mem_cons_of_mem _ ha)
    refine ⟨?_, hend⟩
    rw [hafter, System.puts_cons hstep, ← List.append_assoc]
    exact congrArg (· ++ _) hwritten

/-- A session on a directory whose logs decide what shows. -/
theorem SessionRun.replaying (h : SessionRun false start acts last) (hopen : System.open order found = some start)
    (hreplays : found.remnant.Replays) :
    last.disk.written = found.written ++ start.puts acts ∧ last.db.Replaying last.disk.remnant := by
  obtain ⟨-, db, hdb, -, hstart, hwritten⟩ := (@Remnant.Replays.open _ order hreplays) found rfl
  obtain ⟨_, hresult, rfl⟩ := Option.map_eq_some_iff.mp hopen
  rw [hdb] at hresult
  cases hresult
  rw [List.append_nil] at hwritten
  have hacts : ∀ act ∈ acts, act ≠ .minor_install ∧ act ≠ .last_flush :=
    fun act hact => ⟨fun heq => h.unflushed rfl (heq ▸ hact), (h.steps act hact).2⟩
  obtain ⟨hlast, hend⟩ := System.run_replaying hstart h.run hacts
  refine ⟨?_, hend⟩
  rw [hlast]
  exact congrArg (· ++ _) hwritten

/-- A part of the last block of `MinorCompaction` that is not all of it leaves the logs. -/
theorem DBImpl.minor_install_wals {db : DBImpl} {program : FileM DBImpl} {done : List DiskEffect}
    (hprogram : db.minor_install = some program) (hdone : done <+: (program disk).2)
    (hpart : done ≠ (program disk).2) : (applyAll disk done).wals = disk.wals := by
  unfold DBImpl.minor_install at hprogram
  split at hprogram
  · rename_i ctx reader _
    cases hprogram
    cases reader with
    | none => exact absurd (List.prefix_nil.mp hdone) hpart
    | some reader =>
      let added := db.levels.manifest.add_sst {} ctx.new_sst_id 0
      let removed := added.1.remove_wal {} ctx.old_wal_id
      change done <+: added.2.map DiskEffect.manifest ++ (removed.2.map DiskEffect.manifest ++
        ([.remove_wal ctx.old_wal_id] ++ [])) at hdone
      change done ≠ added.2.map DiskEffect.manifest ++ (removed.2.map DiskEffect.manifest ++
        ([.remove_wal ctx.old_wal_id] ++ [])) at hpart
      rw [List.append_nil, ← List.append_assoc, ← List.map_append] at hdone hpart
      have hmanifest := (List.prefix_concat_iff.mp hdone).resolve_left hpart
      rw [List.prefix_iff_eq_take, ← List.map_take] at hmanifest
      rw [hmanifest]
      exact congrArg Data.wals (data_manifest_effects _ disk)
  · cases hprogram

/-- The crash of a session on a directory that loads as the levels it holds. -/
theorem CrashedSession.recovers (h : CrashedSession flushes found disk) (hloads : found.files.Loads l0 l1)
    (hshows : found.files.shows l0 l1 = overwrite (fun _ => none) found.written)
    (hfirst : flushes = true → found.wals.toList = []) :
    disk.files = found.files ∨ disk.files.Recovers (overwrite (fun _ => none) disk.written) := by
  cases h with
  | @opening order done hcrash =>
    have hsame : ∀ files', found.files.Same files' → files'.snapshot = true →
        files'.Recovers (overwrite (fun _ => none) files'.written) := by
      intro files' hsame hsnapshot
      refine ⟨hsnapshot, l0, l1, hloads.holds.same hsame, ?_⟩
      intro key
      rw [hsame.written]
      exact (hsame.shows key).trans (congrFun hshows key)
    have hopen : found.files.Triple (DBImpl.open order) _ fun files' =>
        files' = found.files ∨ files'.Recovers (overwrite (fun _ => none) files'.written) :=
      hloads.open (.inl rfl) fun files' hfiles hsnapshot => .inr (hsame files' hfiles hsnapshot)
    exact (hopen found rfl).1 done hcrash
  | between hopen hsession =>
    obtain ⟨-, flushed, immLog, memLog, hlast, hexact, hmem⟩ := hsession.loaded hopen hloads hshows hfirst
    exact .inr (hlast.recovers hexact hmem)
  | @inside order start acts last act program done hopen hsession hprogram hstep houtside hcrash hpart =>
    obtain ⟨-, flushed, immLog, memLog, hlast, hcovered⟩ := hsession.loaded hopen hloads hshows hfirst
    have hkept : act = .minor_install →
        found.wals.toList = [] ∨ (applyAll last.disk done).files.wals = last.disk.files.wals := by
      rintro rfl
      cases flushes with
      | true => exact .inl (hfirst rfl)
      | false => exact .inr (DBImpl.minor_install_wals hprogram hcrash (hpart rfl rfl))
    obtain ⟨writes, hrecovers, hwritten⟩ :=
      (hlast.step hprogram hstep.1 hstep.2 last.disk rfl).1 done hcrash ⟨houtside, hkept, hcovered⟩
    rw [← overwrite_append] at hrecovers
    have happended : (applyAll last.disk done).written = last.disk.written ++ writes := hwritten
    rw [← happended] at hrecovers
    exact .inr hrecovers

/-- The crash of a session on a directory whose logs decide what shows. -/
theorem CrashedSession.replays (h : CrashedSession false found disk) (hreplays : found.remnant.Replays) :
    disk.remnant.Replays := by
  cases h with
  | @opening order done hcrash => exact ((@Remnant.Replays.open _ order hreplays) found rfl).1 done hcrash
  | between hopen hsession => exact (hsession.replaying hopen hreplays).2.replays
  | @inside order start acts last act program done hopen hsession hprogram hstep houtside hcrash hpart =>
    obtain ⟨-, hlast⟩ := hsession.replaying hopen hreplays
    by_cases hinstall : act = .minor_install
    · subst hinstall
      exact (hlast.minor_install hprogram last.disk rfl).1 done hcrash
        (DBImpl.minor_install_wals hprogram hcrash (hpart rfl rfl))
    · exact (hlast.step hprogram hinstall hstep.2 last.disk rfl).1 done hcrash

theorem Disk.Recoverable.congr (h : found.Recoverable) (hfiles : disk.files = found.files) : disk.Recoverable := by
  have hwritten : disk.written = found.written := congrArg Files.written hfiles
  have hremnant : disk.remnant = found.remnant := congrArg (fun files : Files =>
    { snapshot := files.snapshot, next := files.state.next_file_number, wals := files.wals
      ssts := files.ssts, written := files.written : Remnant }) hfiles
  rw [Disk.Recoverable, hfiles, hwritten, hremnant]
  exact h

end

/-- A first session. -/
theorem SessionRun.sound {start last : System} {acts : List Act} {order : IterationOrder Nat}
    (h : SessionRun true start acts last) (hopen : System.open order Disk.empty = some start) :
    last.disk.written = start.puts acts ∧ last.Sound [] (overwrite (fun _ => none) (start.puts acts)) ∧
      last.db.mem.isSome := by
  obtain ⟨hwritten, -, -, -, -, -, hmem⟩ := h.loaded hopen Disk.empty_loads Disk.empty_shows fun _ => rfl
  obtain ⟨_, hsystem, -, hsound⟩ := System.open_clean order Disk.empty_clean
  rw [hopen] at hsystem
  cases hsystem
  rw [Disk.empty_shows] at hsound
  exact ⟨hwritten, hsound.run h.run h.steps, hmem⟩

end NovaKV

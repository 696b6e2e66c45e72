import NovaKV.Store.History

open Std
open NovaKV.Lib

namespace NovaKV

/-- The manifest in memory after a scan of the directory. -/
def Disk.scanned_state (disk : Disk) : ManifestState Nat :=
  { disk.recovered with
    sst_levels := (scanned_readers disk.ssts).foldl (fun levels reader =>
      levels.insert (of_int (to_int reader.file_number)) 0) disk.recovered.sst_levels }

/-- The levels that the constructor starts with. -/
def Disk.loaded (disk : Disk) : Levels :=
  if disk.recovered.sst_levels.isEmpty then
    { manifest := { state := disk.scanned_state, edits_since_checkpoint := 0 }
      l0 := scanned_readers disk.ssts
      l1 := [] }
  else
    { manifest := { state := disk.recovered, edits_since_checkpoint := 0 }
      l0 := level_readers disk.ssts disk.recovered 0
      l1 := level_readers disk.ssts disk.recovered 1 }

/-- The snapshots that loading writes: the first one of a directory, and one of the
tables that a scan has found. -/
def Disk.load_effects (disk : Disk) : List DiskEffect :=
  (if disk.manifest.isNone then [.manifest (.rename_snapshot disk.recovered)] else []) ++
    if disk.recovered.sst_levels.isEmpty && !disk.scanned_state.sst_levels.isEmpty then
      [.manifest (.rename_snapshot disk.scanned_state)]
    else []

/-- The events of the constructor after loading. -/
def boot_events (id : Nat) (ids : List Nat) : List Event :=
  [.call .allocate_file_number, .create_wal id, .call (.add_wal id)] ++
    ids.map fun other => .call (.add_wal other)

section

variable {disk : Disk}

theorem Acts.add_wals {manifest : ManifestManager Nat} (ids : List Nat) :
    Acts (add_wals manifest ids) disk manifest (ids.map fun id => .call (.add_wal id))
      (afterAll manifest (ids.map fun id => .call (.add_wal id))) := by
  induction ids generalizing disk manifest with
  | nil => exact .pure _
  | cons id ids ih => exact .step (.add_wal id) ih

/-- Loading the manifest of a directory that has one, or of an empty one. -/
theorem load_manifest_eq (h : disk.manifest.isSome ∨ disk = .empty) :
    load_manifest disk = (some { state := disk.recovered, edits_since_checkpoint := 0 },
      if disk.manifest.isNone then [.manifest (.rename_snapshot disk.recovered)] else []) := by
  rcases h with hsome | rfl
  · obtain ⟨snapshot, hsnapshot⟩ := Option.isSome_iff_exists.mp hsome
    simp [load_manifest, Program.bind_def, Program.read, Program.final, hsnapshot, Disk.recovered]
  · rfl

theorem load_sstables_eq (disk : Disk) {loading : Disk} (hssts : loading.ssts = disk.ssts) :
    load_sstables { state := disk.recovered, edits_since_checkpoint := 0 } loading =
      (disk.loaded, if disk.recovered.sst_levels.isEmpty && !disk.scanned_state.sst_levels.isEmpty then
        [.manifest (.rename_snapshot disk.scanned_state)]
      else []) := by
  rw [load_sstables, Program.bind_def]
  by_cases hempty : disk.recovered.sst_levels.isEmpty = true
  · have hstate : { disk.recovered with
        sst_levels := (scanned_readers loading.ssts).foldl (fun levels reader =>
          levels.insert (of_int (to_int reader.file_number)) 0) disk.recovered.sst_levels } =
        disk.scanned_state := by
      rw [hssts]
      rfl
    by_cases hfound : disk.scanned_state.sst_levels.isEmpty = true
    · simp_all [Program.read, Program.final, Disk.loaded, Disk.scanned_state]
    · simp_all [Program.read, Program.final, Program.bind_def, Disk.loaded, Disk.scanned_state, perform,
        ManifestManager.persist]
  · simp [Program.read, Program.final, hempty, Disk.loaded, hssts]

/-- `RecoverFromWals` registers the logs that it finds; what it replays is no event. -/
theorem Acts.recover_from_wals (disk : Disk) (manifest : ManifestManager Nat) (mem : MemTable)
    (order : IterationOrder Nat) :
    ∃ (ids : List Nat) (mem' : MemTable), Acts (recover_from_wals manifest mem order) disk manifest
      (ids.map fun id => .call (.add_wal id)) (afterAll manifest (ids.map fun id => .call (.add_wal id)), mem') :=
  ⟨order.list disk.wals.keys, _, .read (.last (.add_wals _) (.read (.pure _)))⟩

/-- What the constructor does. -/
theorem DBImpl.open_eq (order : IterationOrder Nat) (h : disk.manifest.isSome ∨ disk = .empty) :
    ∃ db ids, (DBImpl.open order) disk = (some db, disk.load_effects ++
        effectsAll disk.loaded.manifest
          (boot_events (disk.loaded.manifest.state.next_file_number + 1) ids)) ∧
      db.Opened ∧ db.active_wal_id = disk.loaded.manifest.state.next_file_number + 1 ∧
      db.levels = { disk.loaded with
        manifest := afterAll disk.loaded.manifest
          (boot_events (disk.loaded.manifest.state.next_file_number + 1) ids) } := by
  have hssts : ∀ effects : List DiskEffect, (∃ manifests, effects = List.map DiskEffect.manifest manifests) →
      (applyAll disk effects).ssts = disk.ssts := by
    rintro _ ⟨manifests, rfl⟩
    exact congrArg Data.ssts (data_manifest_effects manifests disk)
  have hload := load_sstables_eq disk (hssts (if disk.manifest.isNone then
    [.manifest (.rename_snapshot disk.recovered)] else []) (by
      split
      · exact ⟨[_], rfl⟩
      · exact ⟨[], rfl⟩))
  rw [DBImpl.open, Program.bind_def, Program.final, load_manifest_eq h]
  dsimp only
  rw [Program.bind_def, Program.final, hload]
  dsimp only
  rw [← allocate_next]
  generalize applyAll (applyAll disk (_ : List DiskEffect)) (_ : List DiskEffect) = loading
  let m1 := (disk.loaded.manifest.allocate_file_number {}).1
  let wal : MemTable := { wal := m1.state.next_file_number, table := ∅ }
  let d1 := applyAll loading (Event.effects disk.loaded.manifest (.call .allocate_file_number))
  let d2 := applyAll d1 (Event.effects m1 (.create_wal wal.wal))
  let d3 := applyAll d2 (Event.effects m1 (.call (.add_wal wal.wal)))
  obtain ⟨ids, mem, hrecover⟩ := Acts.recover_from_wals d3 (m1.add_wal {} wal.wal).1 wal order
  have hrest : ∀ {program : FileM (Option DBImpl)} {db : DBImpl} {events : List Event},
      Acts program loading disk.loaded.manifest events (some db) →
      ((program loading).1, disk.load_effects ++ (program loading).2) =
        (some db, disk.load_effects ++ effectsAll disk.loaded.manifest events) := by
    intro program db events hacts
    rw [show program loading = _ from hacts]
  let db : DBImpl :=
    { levels := { disk.loaded with
        manifest := afterAll disk.loaded.manifest (boot_events wal.wal ids) }
      mem := some mem
      imm := none
      active_wal_id := wal.wal
      imm_wal_id := 0
      bg_stopped := false
      bg_compaction_scheduled := false
      bg := .waiting
      flusher := .idle
      writer := none
      calls := [] }
  refine ⟨db, ids, ?_, ⟨rfl, rfl, rfl, rfl, rfl, rfl, rfl, rfl⟩, rfl, rfl⟩
  rw [← List.append_assoc]
  exact hrest (.step .allocate (.step (.new_mem _) (.step (.add_wal _) (.last hrecover (.pure _)))))

end

section

variable {J : ManifestState Nat → Data → List DiskEffect → Prop} {disk : Disk} {trace : List DiskEffect}

/-- A property that a directory keeps from one session to the next: it holds at
first, and if it holds for a manifest then also for one that lists fewer tables. -/
structure Lasting (J : ManifestState Nat → Data → List DiskEffect → Prop) : Prop where
  initial : J .initial ⟨∅, ∅⟩ []
  down : ∀ {state other : ManifestState Nat} {data : Data} {past : List DiskEffect},
    other.next_file_number = state.next_file_number →
    (∀ (id : Nat) (level : UInt32), other.sst_levels[id]? = some level → state.sst_levels[id]? = some level) →
    J state data past → J other data past

/-- A directory between two sessions: empty as yet, or with the property for some
manifest that a database had in memory. -/
def Settled (J : ManifestState Nat → Data → List DiskEffect → Prop) (disk : Disk)
    (trace : List DiskEffect) : Prop :=
  (disk = .empty ∧ trace = []) ∨ ∃ state, Tracked J state disk trace

theorem Settled.opens (h : Settled J disk trace) : disk.manifest.isSome ∨ disk = .empty := by
  rcases h with ⟨hempty, -⟩ | ⟨state, htracked⟩
  · exact .inr hempty
  · exact .inl htracked.snapshot

theorem Settled.recovered (h : Settled J disk trace) (hJ : Lasting J) :
    J disk.recovered disk.data (notes trace) := by
  rcases h with ⟨rfl, rfl⟩ | ⟨state, htracked⟩
  · exact hJ.initial
  · exact hJ.down htracked.follows.next htracked.follows.listed htracked.holds

theorem TrackedThroughout.settled {effects : List DiskEffect} (h : TrackedThroughout J disk trace effects)
    {done : List DiskEffect} (hdone : done <+: effects) : Settled J (applyAll disk done) (trace ++ done) :=
  .inr (h done hdone)

/-- A scan keeps the last number and lists nothing that the manifest lists elsewhere. -/
theorem Disk.follows_scanned (hempty : disk.recovered.sst_levels.isEmpty = true) :
    disk.Follows disk.scanned_state := by
  refine ⟨rfl, ?_⟩
  intro id level hlevel
  rw [ExtTreeMap.isEmpty_iff] at hempty
  simp [hempty] at hlevel

theorem Disk.empty_scanned_state : Disk.empty.scanned_state = .initial := by
  simp [Disk.scanned_state, scanned_readers, Disk.empty, Disk.recovered, ManifestState.initial]

theorem Disk.empty_load_effects :
    Disk.empty.load_effects = [.manifest (.rename_snapshot .initial)] := by
  simp only [Disk.load_effects, Disk.empty_scanned_state]
  rfl

theorem Disk.empty_loaded_state : Disk.empty.loaded.manifest.state = .initial :=
  Disk.empty_scanned_state

/-- The snapshots of loading change no other file and leave no note. -/
theorem Disk.load_effects_quiet (disk : Disk) :
    (applyAll disk disk.load_effects).data = disk.data ∧ notes disk.load_effects = [] := by
  unfold Disk.load_effects
  split <;> split <;> exact ⟨rfl, rfl⟩

/-- Loading keeps the property, whatever snapshots it writes. -/
theorem Settled.load (h : Settled J disk trace) (hJ : Lasting J)
    (hscan : disk.recovered.sst_levels.isEmpty = true → J disk.scanned_state disk.data (notes trace)) :
    (∀ done, done <+: disk.load_effects → Settled J (applyAll disk done) (trace ++ done)) ∧
      Tracked J disk.loaded.manifest.state (applyAll disk disk.load_effects) (trace ++ disk.load_effects) := by
  rcases h with ⟨rfl, rfl⟩ | ⟨state, htracked⟩
  · rw [Disk.empty_load_effects, Disk.empty_loaded_state]
    have hborn : Tracked J .initial (Disk.empty.apply (.manifest (.rename_snapshot .initial)))
        [.manifest (.rename_snapshot .initial)] := ⟨rfl, .refl _, hJ.initial⟩
    refine ⟨forall_prefix_cons.mpr ⟨.inl ⟨rfl, rfl⟩, ?_⟩, hborn⟩
    exact forall_prefix_nil.mpr (.inr ⟨_, hborn⟩)
  · have hrecovered := hJ.down htracked.follows.next htracked.follows.listed htracked.holds
    have hsome : disk.manifest.isNone = false := by simpa using htracked.snapshot
    have hstart : Settled J (applyAll disk ([] : List DiskEffect)) (trace ++ []) :=
      .inr ⟨state, by simpa using htracked⟩
    by_cases hempty : disk.recovered.sst_levels.isEmpty = true
    · have hscanned : Tracked J disk.scanned_state disk trace :=
        ⟨htracked.snapshot, Disk.follows_scanned hempty, hscan hempty⟩
      have hloaded : disk.loaded.manifest.state = disk.scanned_state := by simp [Disk.loaded, hempty]
      rw [hloaded, Disk.load_effects, hsome, hempty]
      by_cases hfound : disk.scanned_state.sst_levels.isEmpty = true
      · simp only [hfound, Bool.not_true, Bool.and_false, Bool.false_eq_true, if_false, List.append_nil]
        refine ⟨?_, by simpa using hscanned⟩
        intro done hdone
        cases List.prefix_nil.mp hdone
        exact hstart
      · simp only [hfound, Bool.not_false, Bool.and_true, Bool.false_eq_true, if_false, if_true,
          List.nil_append]
        have hrenamed : Tracked J disk.scanned_state
            (disk.apply (.manifest (.rename_snapshot disk.scanned_state)))
            (trace ++ [.manifest (.rename_snapshot disk.scanned_state)]) := by
          refine ⟨rfl, hscanned.follows.rename, ?_⟩
          rw [notes_append, show notes [.manifest (.rename_snapshot disk.scanned_state)] = [] from rfl,
            List.append_nil]
          exact hscanned.holds
        refine ⟨forall_prefix_cons.mpr ⟨hstart, ?_⟩, hrenamed⟩
        exact forall_prefix_nil.mpr (.inr ⟨_, hrenamed⟩)
    · have hloaded : disk.loaded.manifest.state = disk.recovered := by simp [Disk.loaded, hempty]
      rw [hloaded, Disk.load_effects, hsome]
      simp only [hempty, Bool.false_and, Bool.false_eq_true, if_false, List.append_nil]
      refine ⟨?_, ⟨htracked.snapshot, .refl _, hrecovered⟩⟩
      intro done hdone
      cases List.prefix_nil.mp hdone
      exact hstart

end

/-- Invariants of a directory and of a running database, and what keeps them: the
tables found by a scan, the rest of the constructor, and every move. -/
structure Preserved (opening : Disk → List DiskEffect → Prop)
    (J : ManifestState Nat → Data → List DiskEffect → Prop) (K : DBImpl → Data → List DiskEffect → Prop) :
    Prop where
  lasting : Lasting J
  scan : ∀ {disk trace}, opening disk trace → Settled J disk trace →
    disk.recovered.sst_levels.isEmpty = true → J disk.scanned_state disk.data (notes trace)
  boot : ∀ {disk trace db ids events}, opening disk trace → Settled J disk trace →
    J disk.loaded.manifest.state disk.data (notes trace) → db.Opened →
    events = boot_events (disk.loaded.manifest.state.next_file_number + 1) ids →
    db.levels = { disk.loaded with manifest := afterAll disk.loaded.manifest events } →
    Script J disk.loaded.manifest.state disk.data (notes trace) events ∧
      K db (dataAll disk.data events) (notes trace ++ noteAll disk.loaded.manifest.state events)
  move : ∀ {db db' data past events}, J db.levels.manifest.state data past → K db data past →
    Move db data.ssts events db' → db'.levels.manifest = afterAll db.levels.manifest events →
    Script J db.levels.manifest.state data past events ∧
      K db' (dataAll data events) (past ++ noteAll db.levels.manifest.state events)

section

variable {opening : Disk → List DiskEffect → Prop} {J : ManifestState Nat → Data → List DiskEffect → Prop}
  {K : DBImpl → Data → List DiskEffect → Prop} {disk : Disk} {trace : List DiskEffect}

/-- A running database and its directory with both invariants. -/
structure DBImpl.Keeps (J : ManifestState Nat → Data → List DiskEffect → Prop)
    (K : DBImpl → Data → List DiskEffect → Prop) (db : DBImpl) (disk : Disk) (trace : List DiskEffect) :
    Prop where
  tracked : Tracked J db.levels.manifest.state disk trace
  holds : K db disk.data (notes trace)

/-- The constructor keeps the invariants, and so does a crash inside it. -/
theorem Preserved.open (hp : Preserved opening J K) (hopening : opening disk trace)
    (h : Settled J disk trace) (order : IterationOrder Nat) :
    (∀ done, done <+: ((DBImpl.open order) disk).2 → Settled J (applyAll disk done) (trace ++ done)) ∧
      ∀ db, ((DBImpl.open order) disk).1 = some db →
        db.Keeps J K ((DBImpl.open order).final disk) (trace ++ ((DBImpl.open order) disk).2) := by
  obtain ⟨db, ids, heq, hopened, -, hlevels⟩ := DBImpl.open_eq order h.opens
  obtain ⟨hloading, hloaded⟩ := h.load hp.lasting (hp.scan hopening h)
  obtain ⟨hdata, hnone⟩ := disk.load_effects_quiet
  have hnotes : notes (trace ++ disk.load_effects) = notes trace := by
    rw [notes_append, hnone, List.append_nil]
  have hJ := hloaded.holds
  rw [hdata, hnotes] at hJ
  obtain ⟨hscript, hK⟩ := hp.boot hopening h hJ hopened rfl hlevels
  obtain ⟨hdone, hafter⟩ := hloaded.script (by rw [hdata, hnotes]; exact hscript)
  rw [Program.final, heq]
  refine ⟨?_, ?_⟩
  · intro done hinit
    rcases List.prefix_or_prefix_of_prefix hinit (List.prefix_append _ _) with hinside | ⟨rest, rfl⟩
    · exact hloading done hinside
    · rw [applyAll_append, ← List.append_assoc]
      exact hdone.settled ((List.prefix_append_right_inj _).mp hinit)
  · rintro _ ⟨⟩
    rw [applyAll_append, ← List.append_assoc]
    refine ⟨?_, ?_⟩
    · rw [hlevels]
      exact hafter
    · rw [data_effectsAll, notes_append, notes_effectsAll, hdata, hnotes]
      exact hK

theorem Preserved.act (hp : Preserved opening J K) {db : DBImpl} (h : db.Keeps J K disk trace) {act : Act}
    {program : FileM DBImpl} (hprogram : db.program act = some program) :
    (∀ done, done <+: (program disk).2 → Settled J (applyAll disk done) (trace ++ done)) ∧
      (program disk).1.Keeps J K (program.final disk) (trace ++ (program disk).2) := by
  obtain ⟨events, db', hacts, hmove, hmanifest⟩ := DBImpl.moves disk hprogram
  obtain ⟨hscript, hK⟩ := hp.move h.tracked.holds h.holds hmove hmanifest
  obtain ⟨hdone, hafter⟩ := h.tracked.script hscript
  rw [← hmanifest] at hafter
  rw [Program.final, show program disk = _ from hacts]
  refine ⟨fun done hinit => hdone.settled hinit, hafter, ?_⟩
  rw [data_effectsAll, notes_append, notes_effectsAll]
  exact hK

/-- The invariants hold along every history. -/
theorem Preserved.history (hp : Preserved opening J K) {db : Option DBImpl}
    (h : History opening db disk trace) :
    (db = none → Settled J disk trace) ∧ ∀ running, db = some running → running.Keeps J K disk trace := by
  induction h with
  | empty => exact ⟨fun _ => .inl ⟨rfl, rfl⟩, nofun⟩
  | boot _ hallowed order hopens ih =>
    refine ⟨nofun, ?_⟩
    rintro _ ⟨⟩
    exact (hp.open hallowed (ih.1 rfl) order).2 _ hopens
  | boot_crash _ hallowed order hcrash ih =>
    exact ⟨fun _ => (hp.open hallowed (ih.1 rfl) order).1 _ hcrash, nofun⟩
  | step _ hprogram ih =>
    refine ⟨nofun, ?_⟩
    rintro _ ⟨⟩
    exact (hp.act (ih.2 _ rfl) hprogram).2
  | crash _ hprogram hcrash ih => exact ⟨fun _ => (hp.act (ih.2 _ rfl) hprogram).1 _ hcrash, nofun⟩
  | quit _ ih => exact ⟨fun _ => .inr ⟨_, (ih.2 _ rfl).tracked⟩, nofun⟩

theorem Script.and {J R : ManifestState Nat → Data → List DiskEffect → Prop} {state : ManifestState Nat}
    {data : Data} {past : List DiskEffect} {events : List Event} (hJ : Script J state data past events)
    (hR : Script R state data past events) :
    Script (fun state data past => J state data past ∧ R state data past) state data past events := by
  induction events generalizing state data past with
  | nil => trivial
  | cons event events ih => exact ⟨⟨hJ.1, hR.1⟩, ih hJ.2 hR.2⟩

theorem Settled.mono {J R : ManifestState Nat → Data → List DiskEffect → Prop}
    (h : Settled J disk trace) (hR : ∀ {state data past}, J state data past → R state data past) :
    Settled R disk trace := by
  rcases h with hempty | ⟨state, htracked⟩
  · exact .inl hempty
  · exact .inr ⟨state, htracked.snapshot, htracked.follows, hR htracked.holds⟩

/-- Further invariants on top of some that are kept. -/
theorem Preserved.extend {R : ManifestState Nat → Data → List DiskEffect → Prop}
    {L : DBImpl → Data → List DiskEffect → Prop} (hp : Preserved opening J K) (hlasting : Lasting R)
    (hscan : ∀ {disk trace}, opening disk trace → J disk.recovered disk.data (notes trace) →
      R disk.recovered disk.data (notes trace) → disk.recovered.sst_levels.isEmpty = true →
      R disk.scanned_state disk.data (notes trace))
    (hboot : ∀ {disk trace db ids events}, opening disk trace →
      R disk.recovered disk.data (notes trace) → J disk.loaded.manifest.state disk.data (notes trace) →
      R disk.loaded.manifest.state disk.data (notes trace) → db.Opened →
      events = boot_events (disk.loaded.manifest.state.next_file_number + 1) ids →
      db.levels = { disk.loaded with manifest := afterAll disk.loaded.manifest events } →
      Script R disk.loaded.manifest.state disk.data (notes trace) events ∧
        L db (dataAll disk.data events) (notes trace ++ noteAll disk.loaded.manifest.state events))
    (hmove : ∀ {db db' data past events}, J db.levels.manifest.state data past → K db data past →
      R db.levels.manifest.state data past → L db data past → Move db data.ssts events db' →
      db'.levels.manifest = afterAll db.levels.manifest events →
      Script R db.levels.manifest.state data past events ∧
        L db' (dataAll data events) (past ++ noteAll db.levels.manifest.state events)) :
    Preserved opening (fun state data past => J state data past ∧ R state data past)
      (fun db data past => K db data past ∧ L db data past) where
  lasting := ⟨⟨hp.lasting.initial, hlasting.initial⟩,
    fun hnext hlisted h => ⟨hp.lasting.down hnext hlisted h.1, hlasting.down hnext hlisted h.2⟩⟩
  scan hopening h hempty := by
    have hJ := h.mono fun hboth => hboth.1
    have hR := (h.mono fun hboth => hboth.2).recovered hlasting
    exact ⟨hp.scan hopening hJ hempty, hscan hopening (hJ.recovered hp.lasting) hR hempty⟩
  boot hopening h hloaded hopened hevents hlevels := by
    have hJ := h.mono fun hboth => hboth.1
    have hR := (h.mono fun hboth => hboth.2).recovered hlasting
    obtain ⟨hscript, hK⟩ := hp.boot hopening hJ hloaded.1 hopened hevents hlevels
    obtain ⟨hscript', hL⟩ := hboot hopening hR hloaded.1 hloaded.2 hopened hevents hlevels
    exact ⟨hscript.and hscript', hK, hL⟩
  move hboth hrunning hstep hmanifest := by
    obtain ⟨hscript, hK⟩ := hp.move hboth.1 hrunning.1 hstep hmanifest
    obtain ⟨hscript', hL⟩ := hmove hboth.1 hrunning.1 hboth.2 hrunning.2 hstep hmanifest
    exact ⟨hscript.and hscript', hK, hL⟩

end

end NovaKV

import NovaKV.Store.Compaction

open Std
open NovaKV.Lib

namespace NovaKV

/-- A database directory up to the layout of its manifest: whether a snapshot
exists, the state that snapshot and log recover to, and the other files. -/
structure Files where
  snapshot : Bool
  state : ManifestState Nat
  wals : ExtTreeMap Nat (List WalRecord)
  ssts : ExtTreeMap Nat SSTable
  written : List WalRecord

def Disk.files (self : Disk) : Files :=
  { snapshot := self.manifest.isSome, state := self.recovered, wals := self.wals
    ssts := self.ssts, written := self.written }

/-- One edit recorded in the manifest, whatever checkpoint goes with it. -/
def Files.commit (self : Files) (edit : ManifestEdit Nat) : Files :=
  { self with state := self.state.apply_edit edit }

/-- A crash triple for a directory whose contents are known up to the layout of
the manifest. -/
def Files.Triple {α : Type} (files : Files) (program : FileM α) (post : α → Files → Prop)
    (crash : Files → Prop) : Prop :=
  program.Endures Disk.files files post crash

section

variable {α β : Type} {files : Files} {crash : Files → Prop}

theorem Files.Triple.pure {a : α} {post : α → Files → Prop} (hcrash : crash files)
    (hpost : post a files) : files.Triple (Pure.pure a) post crash :=
  Program.Endures.pure hcrash hpost

theorem Files.Triple.bind {program : FileM α} {next : α → FileM β} {mid : α → Files → Prop}
    {post : β → Files → Prop} (hfirst : files.Triple program mid crash)
    (hnext : ∀ a files', mid a files' → files'.Triple (next a) post crash) :
    files.Triple (program >>= next) post crash :=
  Program.Endures.bind hfirst hnext

/-- Sequencing, with the rest of the program as the first part's postcondition. -/
theorem Files.Triple.seq {program : FileM α} {next : α → FileM β} {post : β → Files → Prop}
    (h : files.Triple program (fun a files' => files'.Triple (next a) post crash) crash) :
    files.Triple (program >>= next) post crash :=
  Program.Endures.seq h

theorem Files.Triple.read {post : Disk → Files → Prop} (hcrash : crash files)
    (hpost : ∀ disk, disk.files = files → post disk files) :
    files.Triple Program.read post crash :=
  Program.Endures.read hcrash hpost

theorem Files.Triple.mono {program : FileM α} {post post' : α → Files → Prop}
    {crash' : Files → Prop} (h : files.Triple program post crash)
    (hpost : ∀ a files', post a files' → post' a files')
    (hcrash : ∀ files', crash files' → crash' files') : files.Triple program post' crash' :=
  Program.Endures.mono h hpost hcrash

theorem Files.Triple.create_wal {id : Nat} {post : Unit → Files → Prop} (hbefore : crash files)
    (hafter : crash { files with wals := files.wals.insertIfNew id [] })
    (hpost : post () { files with wals := files.wals.insertIfNew id [] }) :
    files.Triple (Program.emit (.create_wal id)) post crash :=
  Program.Endures.emit (by rintro disk rfl; rfl) hbefore hafter hpost

theorem Files.Triple.append_wal {id : Nat} {record : WalRecord} {post : Unit → Files → Prop}
    (hbefore : crash files)
    (hafter : crash
      { files with
        wals := files.wals.insert id (files.wals[id]?.getD [] ++ [record])
        written := files.written ++ [record] })
    (hpost : post ()
      { files with
        wals := files.wals.insert id (files.wals[id]?.getD [] ++ [record])
        written := files.written ++ [record] }) :
    files.Triple (Program.emit (.append_wal id record)) post crash :=
  Program.Endures.emit (by rintro disk rfl; rfl) hbefore hafter hpost

theorem Files.Triple.remove_wal {id : Nat} {post : Unit → Files → Prop} (hbefore : crash files)
    (hafter : crash { files with wals := files.wals.erase id })
    (hpost : post () { files with wals := files.wals.erase id }) :
    files.Triple (Program.emit (.remove_wal id)) post crash :=
  Program.Endures.emit (by rintro disk rfl; rfl) hbefore hafter hpost

theorem Files.Triple.create_sst {id : Nat} {table : SSTable} {post : Unit → Files → Prop}
    (hbefore : crash files) (hafter : crash { files with ssts := files.ssts.insert id table })
    (hpost : post () { files with ssts := files.ssts.insert id table }) :
    files.Triple (Program.emit (.create_sst id table)) post crash :=
  Program.Endures.emit (by rintro disk rfl; rfl) hbefore hafter hpost

theorem Files.Triple.remove_sst {id : Nat} {post : Unit → Files → Prop} (hbefore : crash files)
    (hafter : crash { files with ssts := files.ssts.erase id })
    (hpost : post () { files with ssts := files.ssts.erase id }) :
    files.Triple (Program.emit (.remove_sst id)) post crash :=
  Program.Endures.emit (by rintro disk rfl; rfl) hbefore hafter hpost

/-- The end of `write_sst`, once no file with the number is left. -/
theorem Files.Triple.create_opened {id : Nat} {table : SSTable} {before : Files}
    {post : Option SSTableReader → Files → Prop} (hrecords : table.records ≠ [])
    (hsame : { before with ssts := before.ssts.insert id table } = { files with ssts := files.ssts.insert id table })
    (hbefore : crash before) (hafter : crash { files with ssts := files.ssts.insert id table })
    (hpost : post (some ⟨id, table, hrecords⟩) { files with ssts := files.ssts.insert id table }) :
    before.Triple (do
      Program.emit (.create_sst id table)
      match if true then SSTableReader.open id table else none with
      | some reader => return some reader
      | none => do
        Program.emit (.remove_sst id)
        return none) post crash := by
  refine .seq (.create_sst hbefore (hsame ▸ hafter) ?_)
  simp only [if_true, SSTableReader.open_of_nonempty hrecords]
  exact .pure (hsame ▸ hafter) (hsame ▸ hpost)

/-- A complete table file appears in one step, whatever stale file it replaces. -/
theorem Files.Triple.write_sst {id : Nat} {table : SSTable}
    {post : Option SSTableReader → Files → Prop} (hrecords : table.records ≠ [])
    (hbefore : crash files) (hremoved : crash { files with ssts := files.ssts.erase id })
    (hafter : crash { files with ssts := files.ssts.insert id table })
    (hpost : post (some ⟨id, table, hrecords⟩) { files with ssts := files.ssts.insert id table }) :
    files.Triple (write_sst id table true) post crash := by
  refine .seq (.read hbefore ?_)
  intro disk hdisk
  by_cases hstale : id ∈ disk.ssts
  · rw [if_pos hstale]
    refine .seq (.remove_sst hbefore hremoved (.create_opened hrecords ?_ hremoved hafter hpost))
    have herase : (files.ssts.erase id).insert id table = files.ssts.insert id table := by
      apply ExtTreeMap.ext_getElem?
      intro other
      by_cases hother : id = other <;> simp [ExtTreeMap.getElem?_insert, ExtTreeMap.getElem?_erase, hother]
    simp only [herase]
  · rw [if_neg hstale]
    exact .create_opened hrecords rfl hbefore hafter hpost

end

/-- The disks a commit passes through: the old one, and ones that differ from it
only in a manifest that recovers to the edited state. -/
theorem commit_prefix_files {self : ManifestManager Nat} {edit : ManifestEdit Nat} {disk : Disk}
    (hsync : disk.recovered = self.state) (hsnapshot : disk.manifest.isSome) :
    ∀ done, done <+: (self.commit edit).2.map DiskEffect.manifest →
      done = [] ∨ (applyAll disk done).files = disk.files.commit edit := by
  have hlogged : (disk.manifest.getD .initial).apply_edits (disk.log ++ [edit]) =
      self.state.apply_edit edit := by
    rw [ManifestState.apply_edits_concat, ← hsync]
    rfl
  have hreplayed : (self.state.apply_edit edit).apply_edits (disk.log ++ [edit]) =
      self.state.apply_edit edit := by
    rw [← hlogged, ManifestState.apply_edits_idem]
  have hfiles : ∀ manifest log, manifest.isSome →
      (manifest.getD .initial).apply_edits log = self.state.apply_edit edit →
      Disk.files { disk with manifest := manifest, log := log } = disk.files.commit edit := by
    intro manifest log hsome hstate
    simp only [Disk.files, Files.commit, Disk.recovered, hstate, hsome, hsnapshot]
    rw [← Disk.recovered, hsync]
  have happended := hfiles disk.manifest (disk.log ++ [edit]) hsnapshot hlogged
  have hrenamed := hfiles (some (self.state.apply_edit edit)) (disk.log ++ [edit]) rfl hreplayed
  have htruncated := hfiles (some (self.state.apply_edit edit)) [] rfl rfl
  obtain ⟨-, rest, heffects, hrest⟩ := ManifestManager.record_edit_effects
    { self with state := self.state.apply_edit edit } {} edit rfl
  rw [ManifestManager.commit, heffects]
  rcases hrest with rfl | rfl | rfl
  · exact forall_prefix_cons.mpr ⟨.inl rfl, forall_prefix_nil.mpr (.inr happended)⟩
  · refine forall_prefix_cons.mpr ⟨.inl rfl, forall_prefix_cons.mpr ⟨.inr happended, ?_⟩⟩
    exact forall_prefix_nil.mpr (.inr hrenamed)
  · refine forall_prefix_cons.mpr ⟨.inl rfl, forall_prefix_cons.mpr ⟨.inr happended, ?_⟩⟩
    exact forall_prefix_cons.mpr ⟨.inr hrenamed, forall_prefix_nil.mpr (.inr htruncated)⟩

/-- Recording an edit is atomic: a crash leaves the old state or the new one. -/
theorem Files.Triple.commit {files : Files} {crash : Files → Prop} {self : ManifestManager Nat}
    {edit : ManifestEdit Nat} {post : ManifestManager Nat → Files → Prop}
    (hsync : files.state = self.state) (hsnapshot : files.snapshot = true)
    (hbefore : crash files) (hafter : crash (files.commit edit))
    (hpost : ∀ next, (files.commit edit).state = next.state → post next (files.commit edit)) :
    files.Triple (perform (self.commit edit)) post crash := by
  rintro disk rfl
  have hinit := @commit_prefix_files self edit disk hsync hsnapshot
  refine ⟨?_, ?_⟩
  · intro done hdone
    rcases hinit done hdone with rfl | hfiles
    · exact hbefore
    · rw [hfiles]
      exact hafter
  · have hfinal : ((perform (self.commit edit)).final disk).files = disk.files.commit edit := by
      rcases hinit _ (List.prefix_refl _) with hnil | hfiles
      · obtain ⟨-, rest, heffects, -⟩ := ManifestManager.record_edit_effects
          { self with state := self.state.apply_edit edit } {} edit rfl
        simp [ManifestManager.commit, heffects] at hnil
      · exact hfiles
    have hstate : (disk.files.commit edit).state = (self.commit edit).1.state := by
      rw [self.commit_state, ← hsync]
      rfl
    have hdone := hpost _ hstate
    rw [← hfinal] at hdone
    exact hdone

/-- The directory after the next file number is allocated. -/
def Files.allocated (self : Files) : Files :=
  self.commit (.SetNextFileNumber (self.state.next_file_number + 1))

@[simp] theorem Files.allocated_next (files : Files) :
    files.allocated.state.next_file_number = files.state.next_file_number + 1 := rfl

@[simp] theorem Files.allocated_sst_levels (files : Files) :
    files.allocated.state.sst_levels = files.state.sst_levels := rfl

theorem Files.Triple.allocate {files : Files} {crash : Files → Prop} {self : ManifestManager Nat}
    {post : ManifestManager Nat → Files → Prop}
    (hsync : files.state = self.state) (hsnapshot : files.snapshot = true)
    (hbefore : crash files) (hafter : crash files.allocated)
    (hpost : ∀ next, files.allocated.state = next.state → post next files.allocated) :
    files.Triple (perform (self.allocate_file_number {})) post crash := by
  rw [ManifestManager.allocate_file_number_eq_commit, ← hsync]
  exact .commit hsync hsnapshot hbefore hafter hpost

theorem Files.Triple.add_sst {files : Files} {crash : Files → Prop} {self : ManifestManager Nat}
    {id : Nat} {level : UInt32} {post : ManifestManager Nat → Files → Prop}
    (hsync : files.state = self.state) (hsnapshot : files.snapshot = true)
    (hbefore : crash files) (hafter : crash (files.commit (.AddSST id level)))
    (hpost : ∀ next, (files.commit (.AddSST id level)).state = next.state →
      post next (files.commit (.AddSST id level))) :
    files.Triple (perform (self.add_sst {} id level)) post crash :=
  .commit hsync hsnapshot hbefore hafter hpost

theorem Files.Triple.remove_sst_edit {files : Files} {crash : Files → Prop}
    {self : ManifestManager Nat} {id : Nat} {post : ManifestManager Nat → Files → Prop}
    (hsync : files.state = self.state) (hsnapshot : files.snapshot = true)
    (hbefore : crash files) (hafter : crash (files.commit (.DelSST id)))
    (hpost : ∀ next, (files.commit (.DelSST id)).state = next.state →
      post next (files.commit (.DelSST id))) :
    files.Triple (perform (self.remove_sst {} id)) post crash :=
  .commit hsync hsnapshot hbefore hafter hpost

/-- An operation with nothing to record has the effect of its edit all the same. -/
private theorem Files.Triple.skip {files : Files} {crash : Files → Prop} {self : ManifestManager Nat}
    {edit : ManifestEdit Nat} {post : ManifestManager Nat → Files → Prop}
    (hsync : files.state = self.state) (hedit : self.state.apply_edit edit = self.state)
    (hbefore : crash files)
    (hpost : ∀ next, (files.commit edit).state = next.state → post next (files.commit edit)) :
    files.Triple (perform (self, [])) post crash := by
  have hfiles : files.commit edit = files := by
    rw [Files.commit, hsync, hedit, ← hsync]
  have hdone := hpost self (by rw [hfiles, hsync])
  rw [hfiles] at hdone
  exact Files.Triple.pure hbefore hdone

theorem Files.Triple.add_wal {files : Files} {crash : Files → Prop} {self : ManifestManager Nat}
    {id : Nat} {post : ManifestManager Nat → Files → Prop}
    (hsync : files.state = self.state) (hsnapshot : files.snapshot = true)
    (hbefore : crash files) (hafter : crash (files.commit (.AddWAL id)))
    (hpost : ∀ next, (files.commit (.AddWAL id)).state = next.state →
      post next (files.commit (.AddWAL id))) :
    files.Triple (perform (self.add_wal {} id)) post crash := by
  by_cases hlive : id ∈ self.state.live_wals
  · have hedit : self.state.apply_edit (.AddWAL id) = self.state := by
      have hset : self.state.live_wals.insert id = self.state.live_wals := by
        apply ExtTreeSet.ext_mem
        intro other
        rw [ExtTreeSet.mem_insert]
        constructor
        · rintro (heq | hmem)
          · rwa [← LawfulEqCmp.eq_of_compare heq]
          · exact hmem
        · exact .inr
      rw [ManifestState.apply_edit, hset]
    rw [ManifestManager.add_wal, if_pos hlive]
    exact .skip hsync hedit hbefore hpost
  · rw [ManifestManager.add_wal_eq_commit hlive]
    exact .commit hsync hsnapshot hbefore hafter hpost

theorem Files.Triple.remove_wal_edit {files : Files} {crash : Files → Prop}
    {self : ManifestManager Nat} {id : Nat} {post : ManifestManager Nat → Files → Prop}
    (hsync : files.state = self.state) (hsnapshot : files.snapshot = true)
    (hbefore : crash files) (hafter : crash (files.commit (.DelWAL id)))
    (hpost : ∀ next, (files.commit (.DelWAL id)).state = next.state →
      post next (files.commit (.DelWAL id))) :
    files.Triple (perform (self.remove_wal {} id)) post crash := by
  by_cases hlive : id ∈ self.state.live_wals
  · rw [ManifestManager.remove_wal_eq_commit hlive]
    exact .commit hsync hsnapshot hbefore hafter hpost
  · have hedit : self.state.apply_edit (.DelWAL id) = self.state := by
      have hset : self.state.live_wals.erase id = self.state.live_wals := by
        apply ExtTreeSet.ext_mem
        intro other
        rw [ExtTreeSet.mem_erase]
        constructor
        · exact And.right
        · intro hmem
          refine ⟨?_, hmem⟩
          intro heq
          exact hlive (LawfulEqCmp.eq_of_compare heq ▸ hmem)
      rw [ManifestState.apply_edit, hset]
    rw [ManifestManager.remove_wal, if_neg hlive]
    exact .skip hsync hedit hbefore hpost

end NovaKV

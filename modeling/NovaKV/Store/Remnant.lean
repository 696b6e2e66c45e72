import NovaKV.Store.History
import NovaKV.Store.Opening

open Std
open NovaKV.Lib

namespace NovaKV

/-- A database directory up to the tables that its manifest lists: whether a snapshot
exists, the last number that snapshot and log recover to, and the other files. -/
structure Remnant where
  snapshot : Bool
  next : Nat
  wals : ExtTreeMap Nat (List WalRecord)
  ssts : ExtTreeMap Nat SSTable
  written : List WalRecord

def Disk.remnant (self : Disk) : Remnant :=
  { snapshot := self.manifest.isSome, next := self.recovered.next_file_number, wals := self.wals
    ssts := self.ssts, written := self.written }

def Remnant.records (self : Remnant) : List WalRecord := NovaKV.records self.wals.toList

/-- A crash triple for a directory whose contents are known up to what its manifest
lists. -/
def Remnant.Triple {α : Type} (remnant : Remnant) (program : FileM α) (post : α → Remnant → Prop)
    (crash : Remnant → Prop) : Prop :=
  program.Endures Disk.remnant remnant post crash

section

variable {α β : Type} {remnant : Remnant} {crash : Remnant → Prop}

theorem Remnant.Triple.pure {a : α} {post : α → Remnant → Prop} (hcrash : crash remnant)
    (hpost : post a remnant) : remnant.Triple (Pure.pure a) post crash :=
  Program.Endures.pure hcrash hpost

/-- Sequencing, with the rest of the program as the first part's postcondition. -/
theorem Remnant.Triple.seq {program : FileM α} {next : α → FileM β} {post : β → Remnant → Prop}
    (h : remnant.Triple program (fun a remnant' => remnant'.Triple (next a) post crash) crash) :
    remnant.Triple (program >>= next) post crash :=
  Program.Endures.seq h

theorem Remnant.Triple.read {post : Disk → Remnant → Prop} (hcrash : crash remnant)
    (hpost : ∀ disk, disk.remnant = remnant → post disk remnant) :
    remnant.Triple Program.read post crash :=
  Program.Endures.read hcrash hpost

theorem Remnant.Triple.create_wal {id : Nat} {post : Unit → Remnant → Prop} (hbefore : crash remnant)
    (hafter : crash { remnant with wals := remnant.wals.insertIfNew id [] })
    (hpost : post () { remnant with wals := remnant.wals.insertIfNew id [] }) :
    remnant.Triple (Program.emit (.create_wal id)) post crash :=
  Program.Endures.emit (by rintro disk rfl; rfl) hbefore hafter hpost

theorem Remnant.Triple.append_wal {id : Nat} {record : WalRecord} {post : Unit → Remnant → Prop}
    (hbefore : crash remnant)
    (hafter : crash
      { remnant with
        wals := remnant.wals.insert id (remnant.wals[id]?.getD [] ++ [record])
        written := remnant.written ++ [record] })
    (hpost : post ()
      { remnant with
        wals := remnant.wals.insert id (remnant.wals[id]?.getD [] ++ [record])
        written := remnant.written ++ [record] }) :
    remnant.Triple (Program.emit (.append_wal id record)) post crash :=
  Program.Endures.emit (by rintro disk rfl; rfl) hbefore hafter hpost

theorem Remnant.Triple.remove_wal {id : Nat} {post : Unit → Remnant → Prop} (hbefore : crash remnant)
    (hafter : crash { remnant with wals := remnant.wals.erase id })
    (hpost : post () { remnant with wals := remnant.wals.erase id }) :
    remnant.Triple (Program.emit (.remove_wal id)) post crash :=
  Program.Endures.emit (by rintro disk rfl; rfl) hbefore hafter hpost

theorem Remnant.Triple.create_sst {id : Nat} {table : SSTable} {post : Unit → Remnant → Prop}
    (hbefore : crash remnant) (hafter : crash { remnant with ssts := remnant.ssts.insert id table })
    (hpost : post () { remnant with ssts := remnant.ssts.insert id table }) :
    remnant.Triple (Program.emit (.create_sst id table)) post crash :=
  Program.Endures.emit (by rintro disk rfl; rfl) hbefore hafter hpost

theorem Remnant.Triple.remove_sst {id : Nat} {post : Unit → Remnant → Prop} (hbefore : crash remnant)
    (hafter : crash { remnant with ssts := remnant.ssts.erase id })
    (hpost : post () { remnant with ssts := remnant.ssts.erase id }) :
    remnant.Triple (Program.emit (.remove_sst id)) post crash :=
  Program.Endures.emit (by rintro disk rfl; rfl) hbefore hafter hpost

/-- What the manifest effects of one operation leave of the last number. -/
theorem call_prefix_remnant {manifest : ManifestManager Nat} {operation : ManifestCall Nat} {disk : Disk}
    (hsnapshot : disk.manifest.isSome)
    (hnext : disk.recovered.next_file_number = manifest.state.next_file_number) :
    (∀ done, done <+: (manifest.call {} operation).2.map DiskEffect.manifest →
      (applyAll disk done).remnant = disk.remnant ∨ (applyAll disk done).remnant =
        { disk.remnant with next := (manifest.call {} operation).1.state.next_file_number }) ∧
      (applyAll disk ((manifest.call {} operation).2.map DiskEffect.manifest)).remnant =
        { disk.remnant with next := (manifest.call {} operation).1.state.next_file_number } := by
  rw [ManifestManager.call_eq]
  cases operation.edit? manifest.state with
  | none =>
    have hsame : disk.remnant = { disk.remnant with next := manifest.state.next_file_number } := by
      rw [← hnext]
      rfl
    refine ⟨?_, hsame⟩
    intro done hdone
    cases List.prefix_nil.mp hdone
    exact .inl rfl
  | some edit =>
    obtain ⟨hstate, rest, heffects, hrest⟩ := ManifestManager.record_edit_effects
      { manifest with state := manifest.state.apply_edit edit } {} edit rfl
    have happended := Disk.next_append hnext edit
    have hrenamed := Disk.next_rename happended
    have hafter : ∀ other : Disk, other.manifest.isSome → other.data = disk.data → other.written = disk.written →
        other.recovered.next_file_number = (manifest.state.apply_edit edit).next_file_number →
        other.remnant = { disk.remnant with next := (manifest.state.apply_edit edit).next_file_number } := by
      intro other hsome hdata hwritten hother
      have hwals : other.wals = disk.wals := congrArg Data.wals hdata
      have hssts : other.ssts = disk.ssts := congrArg Data.ssts hdata
      simp only [Disk.remnant, hwals, hssts, hwritten, hother, hsome, hsnapshot]
    have hone := hafter (disk.apply (.manifest (.append_edit edit))) hsnapshot rfl rfl happended
    have htwo := hafter ((disk.apply (.manifest (.append_edit edit))).apply
      (.manifest (.rename_snapshot (manifest.state.apply_edit edit)))) rfl rfl rfl hrenamed
    have hthree := hafter (((disk.apply (.manifest (.append_edit edit))).apply
      (.manifest (.rename_snapshot (manifest.state.apply_edit edit)))).apply (.manifest .truncate_log))
      rfl rfl rfl rfl
    rw [hstate, heffects]
    rcases hrest with rfl | rfl | rfl
    · refine ⟨forall_prefix_cons.mpr ⟨.inl rfl, ?_⟩, hone⟩
      exact forall_prefix_nil.mpr (.inr hone)
    · refine ⟨forall_prefix_cons.mpr ⟨.inl rfl, forall_prefix_cons.mpr ⟨.inr hone, ?_⟩⟩, htwo⟩
      exact forall_prefix_nil.mpr (.inr htwo)
    · refine ⟨forall_prefix_cons.mpr ⟨.inl rfl, forall_prefix_cons.mpr ⟨.inr hone, ?_⟩⟩, hthree⟩
      exact forall_prefix_cons.mpr ⟨.inr htwo, forall_prefix_nil.mpr (.inr hthree)⟩

/-- An operation of the manifest, whatever tables the directory lists beside it. -/
theorem Remnant.Triple.call {manifest : ManifestManager Nat} {operation : ManifestCall Nat}
    {post : ManifestManager Nat → Remnant → Prop} (hsnapshot : remnant.snapshot = true)
    (hnext : remnant.next = manifest.state.next_file_number) (hbefore : crash remnant)
    (hafter : crash { remnant with next := (manifest.call {} operation).1.state.next_file_number })
    (hpost : post (manifest.call {} operation).1
      { remnant with next := (manifest.call {} operation).1.state.next_file_number }) :
    remnant.Triple (perform (manifest.call {} operation)) post crash := by
  rintro disk rfl
  obtain ⟨hpart, hfinal⟩ := @call_prefix_remnant manifest operation disk hsnapshot hnext
  refine ⟨?_, ?_⟩
  · intro done hdone
    rcases hpart done hdone with heq | heq
    · exact heq ▸ hbefore
    · exact heq ▸ hafter
  · change post _ (applyAll disk ((manifest.call {} operation).2.map DiskEffect.manifest)).remnant
    rw [hfinal]
    exact hpost

theorem Remnant.Triple.allocate {manifest : ManifestManager Nat} {post : ManifestManager Nat → Remnant → Prop}
    (hsnapshot : remnant.snapshot = true) (hnext : remnant.next = manifest.state.next_file_number)
    (hbefore : crash remnant) (hafter : crash { remnant with next := remnant.next + 1 })
    (hpost : ∀ manifest' : ManifestManager Nat, manifest'.state.next_file_number = remnant.next + 1 →
      post manifest' { remnant with next := remnant.next + 1 }) :
    remnant.Triple (perform (manifest.allocate_file_number {})) post crash := by
  have hallocated : ((manifest.call {} .allocate_file_number).1).state.next_file_number = remnant.next + 1 := by
    rw [hnext]
    exact allocate_next manifest
  refine @Remnant.Triple.call _ _ manifest .allocate_file_number _ hsnapshot hnext hbefore ?_ ?_
  · rw [hallocated]
    exact hafter
  · rw [hallocated]
    exact hpost _ hallocated

/-- The operations other than the allocation of a number leave the last one. -/
theorem call_next {manifest : ManifestManager Nat} {operation : ManifestCall Nat}
    (hother : operation ≠ .allocate_file_number) :
    (manifest.call {} operation).1.state.next_file_number = manifest.state.next_file_number := by
  have hstate : (manifest.call {} operation).1.state =
      (Event.call operation).state manifest.state := (Event.call operation).after_state manifest
  rw [hstate]
  cases operation with
  | allocate_file_number => exact absurd rfl hother
  | add_wal id =>
    simp only [Event.state, ManifestCall.edit?]
    split <;> rfl
  | remove_wal id =>
    simp only [Event.state, ManifestCall.edit?]
    split <;> rfl
  | add_sst id level => rfl
  | remove_sst id => rfl

theorem Remnant.Triple.record {manifest : ManifestManager Nat} {operation : ManifestCall Nat}
    {post : ManifestManager Nat → Remnant → Prop} (hother : operation ≠ .allocate_file_number)
    (hsnapshot : remnant.snapshot = true) (hnext : remnant.next = manifest.state.next_file_number)
    (hcrash : crash remnant)
    (hpost : remnant.next = (manifest.call {} operation).1.state.next_file_number →
      post (manifest.call {} operation).1 remnant) :
    remnant.Triple (perform (manifest.call {} operation)) post crash := by
  have hkept : remnant.next = (manifest.call {} operation).1.state.next_file_number := by
    rw [call_next hother, hnext]
  have hsame : { remnant with next := (manifest.call {} operation).1.state.next_file_number } = remnant := by
    rw [← hkept]
  refine Remnant.Triple.call hsnapshot hnext hcrash ?_ ?_
  · rw [hsame]
    exact hcrash
  · rw [hsame]
    exact hpost hkept

end

end NovaKV

import NovaKV.Store.InstallStep
import NovaKV.Store.Opening

open Std
open NovaKV.Lib

namespace NovaKV

section

variable {db : DBImpl} {files : Files} {old : List (Nat × List WalRecord)} {flushed : Bool}
  {immLog memLog : List WalRecord} {contents : Key → Option Bytes}

/-- A crash inside the action loses nothing: it is no installation of a compaction,
and if it is one of a flush, then the logs are `kept` or none of them is left from an
earlier session. -/
abbrev DBImpl.Interruptible (self : DBImpl) (act : Act) (old : List (Nat × List WalRecord))
    (flushed : Bool) (kept : Prop) : Prop :=
  self.installs act = false ∧ (act = .minor_install → old = [] ∨ kept) ∧ self.Covered old flushed

/-- Every action but the destructor's last flush keeps the session. -/
theorem DBImpl.Session.step {act : Act} {program : FileM DBImpl}
    (h : db.Session files old flushed immLog memLog contents)
    (hprogram : db.program act = some program) (hio : act.io_ok = true) (hlast : act ≠ .last_flush) :
    files.Triple program
      (fun db' files' => ∃ flushed', Advanced old flushed' contents files (db.completes act) db' files' ∧
        (act ≠ .minor_install → flushed' = flushed))
      (fun files' => Survives (db.Interruptible act old flushed (files'.wals = files.wals)) contents files files') := by
  have hkept : ∀ {db' files'}, Kept old flushed contents files db' files' →
      ∃ flushed', Advanced old flushed' contents files [] db' files' ∧
        (act ≠ .minor_install → flushed' = flushed) := fun h => ⟨flushed, h.advanced, fun _ => rfl⟩
  have hsafe : ∀ {files'}, Safe (db.Covered old flushed) contents files files' →
      Survives (db.Interruptible act old flushed (files'.wals = files.wals)) contents files files' :=
    fun h hcovered => h.survives hcovered.2.2
  cases act with
  | put_lock key record => exact (h.put_lock hprogram).mono (fun _ _ => hkept) (fun _ => hsafe)
  | put_write =>
    refine (h.put_write hprogram).mono (fun _ _ hadvanced => ⟨flushed, hadvanced, fun _ => rfl⟩) ?_
    exact fun _ hsurvives hcovered => hsurvives hcovered.2.2
  | bg_wake => exact (h.bg_wake hprogram).mono (fun _ _ => hkept) (fun _ => hsafe)
  | bg_reset => exact (h.bg_reset hprogram).mono (fun _ _ => hkept) (fun _ => hsafe)
  | minor_prepare => exact (h.minor_prepare hprogram).mono (fun _ _ => hkept) (fun _ => hsafe)
  | minor_build ok =>
    cases hio
    exact (h.minor_build hprogram).mono (fun _ _ => hkept) (fun _ => hsafe)
  | minor_install =>
    refine (h.minor_install hprogram).mono (fun _ _ hkept => ⟨true, hkept.advanced, fun hne => absurd rfl hne⟩) ?_
    exact fun _ hsafe hcovered => hsafe.survives ⟨hcovered.2.2, hcovered.2.1 rfl⟩
  | compact_prepare owner order =>
    exact (h.compact_prepare hprogram).mono (fun _ _ => hkept) (fun _ => hsafe)
  | compact_build index ok =>
    cases hio
    exact (h.compact_build hprogram).mono (fun _ _ => hkept) (fun _ => hsafe)
  | compact_install index =>
    refine (h.compact_install hprogram).mono (fun _ _ => hkept) ?_
    exact fun _ hsafe hcovered => hsafe.survives ⟨hcovered.1, hcovered.2.2⟩
  | stop => exact (h.stop hprogram).mono (fun _ _ => hkept) (fun _ => hsafe)
  | last_flush => exact absurd rfl hlast

end

section

variable {self next : System} {old : List (Nat × List WalRecord)} {flushed : Bool}
  {immLog memLog : List WalRecord} {contents : Key → Option Bytes}

/-- What a run of a session leads to: what `Get` shows is what it showed at the
start, overwritten by the `Put`s completed since. -/
theorem System.run_session {acts : List Act}
    (h : self.db.Session self.disk.files old flushed immLog memLog contents)
    (hrun : self.run acts = some next)
    (hacts : ∀ act ∈ acts, act.io_ok = true ∧ act ≠ .last_flush) :
    ∃ flushed', Advanced old flushed' contents self.disk.files (self.puts acts) next.db next.disk.files ∧
      ((∀ act ∈ acts, act ≠ .minor_install) → flushed' = flushed) := by
  induction acts generalizing self flushed immLog memLog contents with
  | nil =>
    cases hrun
    exact ⟨flushed, ⟨⟨immLog, memLog, h⟩, (List.append_nil _).symm⟩, fun _ => rfl⟩
  | cons act acts ih =>
    obtain ⟨mid, hstep, hrest⟩ := Option.bind_eq_some_iff.mp hrun
    obtain ⟨program, hprogram, hmid⟩ := Option.map_eq_some_iff.mp hstep
    obtain ⟨hio, hlast⟩ := hacts act (by simp)
    obtain ⟨flushed1, ⟨⟨immLog1, memLog1, hsession⟩, hwritten⟩, hflushed⟩ :=
      (h.step hprogram hio hlast self.disk rfl).2
    have hputs : self.puts (act :: acts) = self.db.completes act ++ mid.puts acts := by
      simp [System.puts, hstep]
    subst hmid
    obtain ⟨flushed2, ⟨hsession2, hwritten2⟩, hflushed2⟩ := ih hsession hrest fun a ha => hacts a (by simp [ha])
    refine ⟨flushed2, ⟨?_, ?_⟩, ?_⟩
    · rw [hputs, overwrite_append]
      exact hsession2
    · rw [hputs, hwritten2, hwritten, List.append_assoc]
    · intro hminor
      rw [hflushed2 fun a ha => hminor a (by simp [ha]), hflushed (hminor act (by simp))]

end

end NovaKV

import NovaKV.Lib.Lookup
import NovaKV.Network.Tracking

open Std
open NovaKV.Lib

namespace NovaKV

/-- The requests on their way through the workers, by generation and number. -/
def tickets (pool : List WorkerTask) (done : List CompletedTask) : List (Nat × Nat) :=
  pool.map (fun task => (task.generation, task.seq)) ++ done.map fun task => (task.generation, task.seq)

/-- The requests with the workers have no response yet, and those that are done wait
with theirs. -/
structure Workers (pool : List WorkerTask) (done : List CompletedTask) (journals : Journals) : Prop where
  requested : ∀ task ∈ pool, (journals task.generation).requests[task.seq]? = some task.command ∧
    (journals task.generation).responses.lookup task.seq = none ∧ (journals task.generation).fd = some task.fd
  answered : ∀ task ∈ done, (journals task.generation).resp task.seq = some task.response ∧
    (journals task.generation).fd = some task.fd
  distinct : (tickets pool done).Nodup

/-- The connections are those that have been opened and not removed, each one as its
journal says. -/
structure Clients (connections : ExtTreeMap Nat Connection) (next_generation : Nat) (journals : Journals)
    (waiting : Nat → Nat → Prop) : Prop where
  known : ∀ (fd : Nat) (conn : Connection), connections[fd]? = some conn →
    conn.fd = fd ∧ (journals conn.generation).fd = some fd ∧ (journals conn.generation).removed = false
  live : ∀ generation fd, (journals generation).fd = some fd → (journals generation).removed = false →
    ∃ conn, connections[fd]? = some conn ∧ conn.generation = generation
  fresh : ∀ generation, next_generation ≤ generation → journals generation = .empty
  counted : ∀ (fd : Nat) (conn : Connection), connections[fd]? = some conn →
    conn.Matches (journals conn.generation)
  tracked : ∀ (fd : Nat) (conn : Connection), connections[fd]? = some conn →
    conn.Tracked (journals conn.generation) (waiting conn.generation)

section

variable {pool : List WorkerTask} {done : List CompletedTask} {journals : Journals} {log : List Observation}
  {connections connections' : ExtTreeMap Nat Connection} {next_generation fd : Nat}
  {waiting waiting' : Nat → Nat → Prop} {conn conn' : Connection}

/-- An observation that is no response. -/
def Observation.Quiet : Observation → Prop
  | .responded _ _ => False
  | _ => True

theorem Workers.record {observation : Observation} (h : Workers pool done journals)
    (hlawful : observation.Lawful journals) (hquiet : observation.Quiet) :
    Workers pool done (journals.record observation) where
  requested task htask := by
    obtain ⟨hrequest, hnone, hfd⟩ := h.requested task htask
    by_cases hgeneration : observation.generation = task.generation
    · rw [← hgeneration] at hrequest hnone hfd ⊢
      rw [Journals.record_self]
      cases observation with
      | opened generation fd =>
        have hempty : (journals generation).fd = none := by rw [hlawful.1]; rfl
        cases hempty.symm.trans hfd
      | parsed generation command =>
        refine ⟨?_, hnone, hfd⟩
        obtain ⟨hlt, -⟩ := List.getElem?_eq_some_iff.mp hrequest
        exact (List.getElem?_append_left hlt).trans hrequest
      | responded task response => exact hquiet.elim
      | _ => exact ⟨hrequest, hnone, hfd⟩
    · rw [Journals.record_other hgeneration]
      exact ⟨hrequest, hnone, hfd⟩
  answered task htask := by
    obtain ⟨hresp, hfd⟩ := h.answered task htask
    by_cases hgeneration : observation.generation = task.generation
    · rw [← hgeneration] at hresp hfd ⊢
      rw [Journals.record_self]
      refine ⟨hlawful.resp hresp, ?_⟩
      cases observation with
      | opened generation fd =>
        have hempty : (journals generation).fd = none := by rw [hlawful.1]; rfl
        cases hempty.symm.trans hfd
      | _ => exact hfd
    · rw [Journals.record_other hgeneration]
      exact ⟨hresp, hfd⟩
  distinct := h.distinct

theorem Workers.after (h : Workers pool done journals) (hlawful : Lawful journals log)
    (hquiet : ∀ observation ∈ log, observation.Quiet) : Workers pool done (journals.after log) := by
  induction log generalizing journals with
  | nil => exact h
  | cons observation log ih =>
    exact ih (h.record hlawful.1 (hquiet observation List.mem_cons_self)) hlawful.2
      fun other hother => hquiet other (List.mem_cons_of_mem _ hother)

/-- A connection has a generation of its own. -/
theorem Clients.fd_eq (h : Clients connections next_generation journals waiting) {other : Nat}
    (hconn : connections[fd]? = some conn) (hother : connections[other]? = some conn')
    (hgeneration : conn.generation = conn'.generation) : fd = other := by
  have hfd := (h.known fd conn hconn).2.1
  rw [hgeneration, (h.known other conn' hother).2.1] at hfd
  exact (Option.some.inj hfd).symm

/-- What there is after an event of one connection: the connection that it leaves, if any. -/
structure Connection.Leaves (conn : Connection) (fd : Nat) (left : Option Connection) (journal : Journal)
    (waiting : Nat → Prop) : Prop where
  kept : ∀ conn', left = some conn' → conn'.fd = conn.fd ∧ conn'.generation = conn.generation ∧
    journal.fd = some fd ∧ journal.removed = false ∧ conn'.Matches journal ∧ conn'.Tracked journal waiting
  gone : left = none → journal.removed = true

/-- An event of one connection. -/
theorem Clients.replace {left : Option Connection} (h : Clients connections next_generation journals waiting)
    (hconn : connections[fd]? = some conn)
    (hset : ∀ other : Nat, connections'[other]? = if fd = other then left else connections[other]?)
    (hlog : ∀ observation ∈ log, observation.generation = conn.generation)
    (hleaves : conn.Leaves fd left (journals.after log conn.generation) (waiting' conn.generation))
    (hwaiting : ∀ generation, generation ≠ conn.generation → waiting' generation = waiting generation) :
    Clients connections' next_generation (journals.after log) waiting' := by
  have hothers : ∀ generation, generation ≠ conn.generation →
      journals.after log generation = journals generation := fun generation hne =>
    Journals.after_other fun observation hmem heq => hne ((heq.symm.trans (hlog observation hmem)))
  have hcases : ∀ (other : Nat) (found : Connection), connections'[other]? = some found →
      (fd = other ∧ left = some found) ∨
        (connections[other]? = some found ∧ found.generation ≠ conn.generation) := by
    intro other found hfound
    rw [hset] at hfound
    split at hfound
    · exact .inl ⟨‹_›, hfound⟩
    · rename_i hne
      exact .inr ⟨hfound, fun hgeneration => hne (h.fd_eq hconn hfound hgeneration.symm)⟩
  refine ⟨?_, ?_, ?_, ?_, ?_⟩
  · intro other found hfound
    rcases hcases other found hfound with ⟨rfl, hleft⟩ | ⟨hold, hne⟩
    · obtain ⟨hsame, hgeneration, hfd, hremoved, -⟩ := hleaves.kept found hleft
      rw [hgeneration]
      exact ⟨hsame.trans (h.known fd conn hconn).1, hfd, hremoved⟩
    · rw [hothers _ hne]
      exact h.known other found hold
  · intro generation other hother hnot
    by_cases hne : generation = conn.generation
    · subst hne
      cases left with
      | none =>
        rw [hleaves.gone rfl] at hnot
        cases hnot
      | some conn' =>
        obtain ⟨-, hgeneration, hfd, -⟩ := hleaves.kept conn' rfl
        rw [hfd] at hother
        cases hother
        exact ⟨conn', by rw [hset, if_pos rfl], hgeneration⟩
    · rw [hothers _ hne] at hother hnot
      obtain ⟨found, hfound, hgeneration⟩ := h.live generation other hother hnot
      refine ⟨found, ?_, hgeneration⟩
      rw [hset, if_neg, hfound]
      rintro rfl
      rw [hconn] at hfound
      cases hfound
      exact hne hgeneration.symm
  · intro generation hgeneration
    have hne : generation ≠ conn.generation := by
      rintro rfl
      have hempty := h.fresh _ hgeneration
      have hopened := (h.known fd conn hconn).2.1
      rw [hempty] at hopened
      cases hopened
    rw [hothers _ hne]
    exact h.fresh generation hgeneration
  · intro other found hfound
    rcases hcases other found hfound with ⟨rfl, hleft⟩ | ⟨hold, hne⟩
    · obtain ⟨-, hgeneration, -, -, hcounted, -⟩ := hleaves.kept found hleft
      rw [hgeneration]
      exact hcounted
    · rw [hothers _ hne]
      exact h.counted other found hold
  · intro other found hfound
    rcases hcases other found hfound with ⟨rfl, hleft⟩ | ⟨hold, hne⟩
    · obtain ⟨-, hgeneration, -, -, -, htracked⟩ := hleaves.kept found hleft
      rw [hgeneration]
      exact htracked
    · rw [hothers _ hne, hwaiting _ hne]
      exact h.tracked other found hold

/-- An event that leaves the connection. -/
theorem Clients.set (h : Clients connections next_generation journals waiting) (hconn : connections[fd]? = some conn)
    (hlog : ∀ observation ∈ log, observation.generation = conn.generation)
    (hfd : (journals.after log conn.generation).fd = (journals conn.generation).fd)
    (hremoved : (journals.after log conn.generation).removed = (journals conn.generation).removed)
    (hsame : conn'.fd = conn.fd ∧ conn'.generation = conn.generation)
    (hcounted : conn'.Matches (journals.after log conn.generation))
    (htracked : conn'.Tracked (journals.after log conn.generation) (waiting' conn.generation))
    (hwaiting : ∀ generation, generation ≠ conn.generation → waiting' generation = waiting generation) :
    Clients (connections.insert fd conn') next_generation (journals.after log) waiting' := by
  obtain ⟨-, hopened, hlive⟩ := h.known fd conn hconn
  refine @replace _ _ _ _ _ _ _ _ _ (some conn') h hconn ?_ hlog ⟨?_, nofun⟩ hwaiting
  · intro other
    simp [ExtTreeMap.getElem?_insert]
  · rintro _ ⟨⟩
    exact ⟨hsame.1, hsame.2, hfd.trans hopened, hremoved.trans hlive, hcounted, htracked⟩

/-- Requests leave the way through the workers for which no connection waits. -/
theorem Clients.congr_waiting (h : Clients connections next_generation journals waiting)
    (hwaiting : ∀ (fd : Nat) (conn : Connection), connections[fd]? = some conn →
      waiting' conn.generation = waiting conn.generation) :
    Clients connections next_generation journals waiting' :=
  { h with
    tracked := fun other found hfound => by
      rw [hwaiting other found hfound]
      exact h.tracked other found hfound }

/-- A response has been computed. -/
theorem Clients.responded {task : WorkerTask} {response : Bytes}
    (h : Clients connections next_generation journals waiting)
    (hlawful : Observation.Lawful journals (.responded task response)) :
    Clients connections next_generation (journals.record (.responded task response)) waiting := by
  have hrecord : ∀ generation,
      (journals.record (.responded task response) generation).fd = (journals generation).fd ∧
      (journals.record (.responded task response) generation).removed = (journals generation).removed ∧
      (journals.record (.responded task response) generation).closing = (journals generation).closing ∧
      (journals.record (.responded task response) generation).failed = (journals generation).failed ∧
      (journals.record (.responded task response) generation).total = (journals generation).total ∧
      (journals.record (.responded task response) generation).sent = (journals generation).sent := by
    intro generation
    unfold Journals.record
    split <;> exact ⟨rfl, rfl, rfl, rfl, rfl, rfl⟩
  refine ⟨?_, ?_, ?_, ?_, ?_⟩
  · intro other found hfound
    obtain ⟨hfd, hremoved, -⟩ := hrecord found.generation
    rw [hfd, hremoved]
    exact h.known other found hfound
  · intro generation other hother hnot
    obtain ⟨hfd, hremoved, -⟩ := hrecord generation
    rw [hfd] at hother
    rw [hremoved] at hnot
    exact h.live generation other hother hnot
  · intro generation hgeneration
    have hempty := h.fresh generation hgeneration
    rw [Journals.record_other, hempty]
    rintro rfl
    obtain ⟨hrequest, -⟩ := hlawful
    rw [show (journals task.generation) = .empty from hempty] at hrequest
    cases hrequest
  · intro other found hfound
    obtain ⟨-, -, hclosing, hfailed, htotal, -⟩ := hrecord found.generation
    obtain ⟨hseq, hclosed, himplies, hanswered⟩ := h.counted other found hfound
    refine ⟨by rw [htotal, hseq], by rw [hclosing, hclosed], by rw [hfailed, hclosing]; exact himplies, ?_⟩
    by_cases hgeneration : task.generation = found.generation
    · obtain ⟨hlt, -⟩ := List.getElem?_eq_some_iff.mp hlawful.1
      rw [← hgeneration] at hanswered ⊢
      have hself : journals.record (.responded task response) task.generation =
          { journals task.generation with
            responses := (journals task.generation).responses ++ [(task.seq, response)] } :=
        Journals.record_self (.responded task response)
      rw [hself]
      intro seq hle
      dsimp only at hle ⊢
      have hne : seq ≠ task.seq := by omega
      rw [List.lookup_append, hanswered seq hle, lookup_cons_of_ne hne]
      rfl
    · have hother : journals.record (.responded task response) found.generation = journals found.generation :=
        Journals.record_other hgeneration
      rw [hother]
      exact hanswered
  · intro other found hfound
    obtain ⟨-, -, -, -, -, hsent⟩ := hrecord found.generation
    have hlog : Lawful journals [.responded task response] := ⟨hlawful, trivial⟩
    have hresp : ∀ seq response', (journals found.generation).resp seq = some response' →
        (journals.record (.responded task response) found.generation).resp seq = some response' :=
      fun _ _ => hlog.resp
    have htracked := h.tracked other found hfound
    refine ⟨htracked.write_le, ?_, ?_, htracked.awaited, htracked.covered⟩
    · rw [hsent]
      exact htracked.stream.mono hresp
    · intro seq found' hpending
      obtain ⟨hle, hlt, hfound'⟩ := htracked.pending seq found' hpending
      exact ⟨hle, hlt, hresp seq found' hfound'⟩

@[simp] theorem Connection.new_generation (fd generation : Nat) :
    (Connection.new fd generation).generation = generation := rfl

/-- A connection is opened on a socket that no other one has. -/
theorem Clients.opened (h : Clients connections next_generation journals waiting)
    (hfd : fd ∉ connections) (hnone : ∀ seq, ¬ waiting next_generation seq) :
    Observation.Lawful journals (.opened next_generation fd) ∧
      Clients (connections.insert fd (.new fd next_generation)) (next_generation + 1)
        (journals.record (.opened next_generation fd)) waiting := by
  have hempty := h.fresh next_generation (Nat.le_refl _)
  have hlawful : Observation.Lawful journals (.opened next_generation fd) := by
    refine ⟨hempty, ?_⟩
    intro other hother
    by_contra hlive
    obtain ⟨found, hfound, -⟩ := h.live other fd hother (by simpa using hlive)
    exact hfd (ExtTreeMap.mem_iff_isSome_getElem?.mpr (by simp [hfound]))
  have hself : journals.record (.opened next_generation fd) next_generation =
      { Journal.empty with fd := some fd } := by
    refine (Journals.record_self _).trans ?_
    simp only [Observation.generation, hempty, Journal.record]
  have hother : ∀ generation, generation ≠ next_generation →
      journals.record (.opened next_generation fd) generation = journals generation :=
    fun generation hne => Journals.record_other fun heq => hne heq.symm
  have hold : ∀ (other : Nat) (found : Connection), connections[other]? = some found →
      found.generation ≠ next_generation := by
    rintro other found hfound hgeneration
    have hopened := (h.known other found hfound).2.1
    rw [hgeneration, hempty] at hopened
    cases hopened
  have hcases : ∀ (other : Nat) (found : Connection),
      (connections.insert fd (Connection.new fd next_generation))[other]? = some found →
      (fd = other ∧ found = .new fd next_generation) ∨
        (connections[other]? = some found ∧ found.generation ≠ next_generation) := by
    intro other found hfound
    rw [ExtTreeMap.getElem?_insert] at hfound
    split at hfound
    · rename_i heq
      exact .inl ⟨LawfulEqCmp.eq_of_compare heq, (Option.some.inj hfound).symm⟩
    · exact .inr ⟨hfound, hold other found hfound⟩
  refine ⟨hlawful, ?_, ?_, ?_, ?_, ?_⟩
  · intro other found hfound
    rcases hcases other found hfound with ⟨rfl, rfl⟩ | ⟨hfound, hne⟩
    · rw [Connection.new_generation, hself]
      exact ⟨rfl, rfl, rfl⟩
    · rw [hother _ hne]
      exact h.known other found hfound
  · intro generation other hopened hlive
    by_cases hne : generation = next_generation
    · subst hne
      rw [hself] at hopened
      cases hopened
      exact ⟨_, ExtTreeMap.getElem?_insert_self, rfl⟩
    · rw [hother _ hne] at hopened hlive
      obtain ⟨found, hfound, hgeneration⟩ := h.live generation other hopened hlive
      refine ⟨found, ?_, hgeneration⟩
      rw [ExtTreeMap.getElem?_insert, if_neg, hfound]
      intro heq
      cases LawfulEqCmp.eq_of_compare heq
      exact hfd (ExtTreeMap.mem_iff_isSome_getElem?.mpr (by simp [hfound]))
  · intro generation hgeneration
    rw [hother generation (by omega)]
    exact h.fresh generation (by omega)
  · intro other found hfound
    rcases hcases other found hfound with ⟨rfl, rfl⟩ | ⟨hfound, hne⟩
    · rw [Connection.new_generation, hself]
      exact ⟨rfl, rfl, by rintro ⟨⟩, fun _ _ => rfl⟩
    · rw [hother _ hne]
      exact h.counted other found hfound
  · intro other found hfound
    rcases hcases other found hfound with ⟨rfl, rfl⟩ | ⟨hfound, hne⟩
    · rw [Connection.new_generation, hself]
      refine ⟨Nat.le_refl _, ?_, ?_, fun seq hseq => absurd hseq (hnone seq), ?_⟩
      · simpa [Connection.new, Journal.empty] using Journal.Stream.nil _
      · simp [Connection.new]
      · intro seq _ hlt
        cases hlt
    · rw [hother _ hne]
      exact h.tracked other found hfound

end

end NovaKV

import NovaKV.Network.Storage

open NovaKV.Lib

namespace NovaKV.Storage

/-- A call on a `NetworkBuffer`. For `read_from_fd`, what `readv` delivers. -/
inductive BufferCall where
  | append (data : Bytes)
  | ensure_writable_bytes (len : UInt64)
  | retrieve (len : UInt64)
  | retrieve_all
  | retrieve_all_as_string
  | read_from_fd (data : Bytes)

/-- A call that can be made: what is written lies in memory before, and one `readv`
delivers no more than the room behind the written bytes and the extra buffer hold. -/
def BufferCall.Allowed (self : BufferCall) (buffer : NetworkBuffer) : Prop :=
  match self with
  | .append data => data.length < 2 ^ 63
  | .read_from_fd data => data.length < 2 ^ 63 ∧ data.length ≤ buffer.writable_bytes.toNat + 65536
  | _ => True

/-- A sum that sizes a growing vector is exact. -/
def BufferCall.GrowthFits (self : BufferCall) (buffer : NetworkBuffer) : Prop :=
  match self with
  | .ensure_writable_bytes len =>
    buffer.writable_bytes + buffer.read_index < len → buffer.write_index.toNat + len.toNat < 2 ^ 64
  | _ => True

/-- The buffer after a call that returns, and the string that the call gives. -/
def NetworkBuffer.call (self : NetworkBuffer) : BufferCall → Except Failure (NetworkBuffer × Bytes)
  | .append data => do return (← self.append data, [])
  | .ensure_writable_bytes len => do return (← self.ensure_writable_bytes len, [])
  | .retrieve len => return (self.retrieve len, [])
  | .retrieve_all => return (self.retrieve_all, [])
  | .retrieve_all_as_string => self.retrieve_all_as_string
  | .read_from_fd data => do return (← self.read_from_fd data, [])

/-- What the same call does to a queue of bytes. -/
def queueCall (queue : Bytes) : BufferCall → Bytes × Bytes
  | .append data => (queue ++ data, [])
  | .ensure_writable_bytes _ => (queue, [])
  | .retrieve len => (queue.drop (min len.toNat queue.length), [])
  | .retrieve_all => ([], [])
  | .retrieve_all_as_string => ([], queue)
  | .read_from_fd data => (queue ++ data, [])

/-- Calls that return, one after the other, with the strings that they give. -/
inductive NetworkBuffer.Runs : NetworkBuffer → List BufferCall → NetworkBuffer → List Bytes → Prop
  | nil (buffer : NetworkBuffer) : Runs buffer [] buffer []
  | cons {buffer next last : NetworkBuffer} {call : BufferCall} {calls : List BufferCall} {given : Bytes}
      {later : List Bytes} (allowed : call.Allowed buffer) (returns : buffer.call call = .ok (next, given))
      (rest : Runs next calls last later) : Runs buffer (call :: calls) last (given :: later)

/-- The queue after some calls. -/
def queueAfter (queue : Bytes) (calls : List BufferCall) : Bytes :=
  calls.foldl (fun queue call => (queueCall queue call).1) queue

/-- The strings that some calls give. -/
def queueReturns (queue : Bytes) : List BufferCall → List Bytes
  | [] => []
  | call :: calls => (queueCall queue call).2 :: queueReturns (queueCall queue call).1 calls

/-- The indices are in order, and what is readable and what was given are the queue's. -/
structure NetworkBuffer.IsQueue (sized : NetworkBuffer) (given : List Bytes) (queue : Bytes)
    (calls : List BufferCall) : Prop where
  ordered : sized.Ordered
  readable : sized.readable = queueAfter queue calls
  given : given = queueReturns queue calls

private theorem bind_pure_eq_ok {x : Except Failure NetworkBuffer} {next : NetworkBuffer} {given : Bytes}
    (h : (do return (← x, ([] : Bytes))) = .ok (next, given)) : x = .ok next ∧ given = [] := by
  cases x with
  | error failure => cases h
  | ok value =>
    cases h
    exact ⟨rfl, rfl⟩

section

variable {self next last : NetworkBuffer} {call : BufferCall} {calls : List BufferCall} {given : Bytes}
  {returned : List Bytes}

/-- Where a call fits it does to the readable bytes what it does to the queue. -/
theorem NetworkBuffer.Ordered.refines_call (h : self.Ordered) (hallowed : call.Allowed self) (hfits : call.GrowthFits self)
    (hreturns : self.call call = .ok (next, given)) :
    next.Ordered ∧ next.readable = (queueCall self.readable call).1 ∧ given = (queueCall self.readable call).2 := by
  obtain ⟨plain, hstands⟩ := h.stands
  rw [hstands.readable_eq]
  cases call with
  | append data =>
    obtain ⟨hnext, rfl⟩ := bind_pure_eq_ok hreturns
    have hafter := hstands.append hallowed hnext
    exact ⟨hafter.ordered, hafter.readable_eq.trans (plain.readable_append data), rfl⟩
  | ensure_writable_bytes len =>
    obtain ⟨hnext, rfl⟩ := bind_pure_eq_ok hreturns
    have hafter := hstands.ensure_writable_bytes hfits hnext
    exact ⟨hafter.ordered, hafter.readable_eq.trans (plain.readable_ensure_writable_bytes len.toNat), rfl⟩
  | retrieve len =>
    cases hreturns
    have hafter := hstands.retrieve len
    refine ⟨hafter.ordered, ?_, rfl⟩
    rw [hafter.readable_eq, NovaKV.NetworkBuffer.readable_retrieve, queueCall]
    rcases Nat.le_total len.toNat plain.readable.length with hle | hle
    · rw [Nat.min_eq_left hle]
    · rw [Nat.min_eq_right hle, List.drop_eq_nil_of_le hle, List.drop_length]
  | retrieve_all =>
    cases hreturns
    exact ⟨hstands.retrieve_all.ordered, hstands.retrieve_all.readable_eq.trans plain.readable_retrieve_all, rfl⟩
  | retrieve_all_as_string =>
    rw [NetworkBuffer.call, NetworkBuffer.retrieve_all_as_string, if_pos h] at hreturns
    cases hreturns
    exact ⟨hstands.retrieve_all.ordered, hstands.retrieve_all.readable_eq.trans plain.readable_retrieve_all,
      hstands.readable_eq⟩
  | read_from_fd data =>
    obtain ⟨hnext, rfl⟩ := bind_pure_eq_ok hreturns
    have hafter := hstands.read_from_fd hallowed.1 hnext
    exact ⟨hafter.ordered, hafter.readable_eq.trans (plain.readable_read_from_fd data), rfl⟩

/-- A call that does not fit leaves the indices out of order. -/
theorem NetworkBuffer.Ordered.call_not_ordered (h : self.Ordered) (hwraps : ¬ call.GrowthFits self)
    (hreturns : self.call call = .ok (next, given)) : ¬ next.Ordered := by
  obtain ⟨plain, hstands⟩ := h.stands
  cases call with
  | ensure_writable_bytes len =>
    obtain ⟨hnext, -⟩ := bind_pure_eq_ok hreturns
    simp only [BufferCall.GrowthFits, Classical.not_imp, Nat.not_lt] at hwraps
    exact hstands.ensure_writable_bytes_wraps hwraps.1 hwraps.2 hnext
  | append | retrieve | retrieve_all | retrieve_all_as_string | read_from_fd => exact absurd trivial hwraps

/-- A run goes through a buffer after any of its first calls. -/
theorem NetworkBuffer.Runs.split {first later : List BufferCall} (h : self.Runs (first ++ later) last returned) :
    ∃ middle before after, self.Runs first middle before ∧ middle.Runs later last after := by
  induction first generalizing self returned with
  | nil => exact ⟨self, [], returned, .nil self, h⟩
  | cons call first ih =>
    cases h with
    | cons allowed returns rest =>
      obtain ⟨middle, before, after, hbefore, hafter⟩ := ih rest
      exact ⟨middle, _, after, .cons allowed returns hbefore, hafter⟩

/-- The calls decide how a run goes. -/
theorem NetworkBuffer.Runs.unique {other : NetworkBuffer} {others : List Bytes} (h : self.Runs calls last returned)
    (hother : self.Runs calls other others) : last = other ∧ returned = others := by
  induction h generalizing others with
  | nil buffer =>
    cases hother
    exact ⟨rfl, rfl⟩
  | cons _ returns _ ih =>
    cases hother with
    | cons _ hreturns hrest =>
      cases returns.symm.trans hreturns
      obtain ⟨rfl, rfl⟩ := ih hrest
      exact ⟨rfl, rfl⟩

theorem NetworkBuffer.Runs.append {middle : NetworkBuffer} {first : List BufferCall} {before : List Bytes}
    (h : self.Runs first middle before) (hlater : middle.Runs calls last returned) :
    self.Runs (first ++ calls) last (before ++ returned) := by
  induction h with
  | nil => exact hlater
  | cons allowed returns _ ih => exact .cons allowed returns (ih hlater)

/-- A run whose calls all fit is one of the queue. -/
theorem NetworkBuffer.Runs.isQueue (h : self.Runs calls last returned) (hordered : self.Ordered)
    (hfits : ∀ first call later, calls = first ++ call :: later → ∀ middle before,
      self.Runs first middle before → call.GrowthFits middle) : last.IsQueue returned self.readable calls := by
  induction h with
  | nil buffer => exact ⟨hordered, rfl, rfl⟩
  | @cons buffer next last call calls given later allowed returns _ ih =>
    obtain ⟨hnext, hreadable, hgiven⟩ := hordered.refines_call allowed (hfits [] call calls rfl buffer [] (.nil buffer)) returns
    have hrest := ih hnext fun first other later hcalls middle before hbefore =>
      hfits (call :: first) other later (by rw [hcalls, List.cons_append]) middle _ (.cons allowed returns hbefore)
    rw [hreadable] at hrest
    exact ⟨hrest.ordered, hrest.readable, by rw [queueReturns, hgiven, hrest.given]⟩

/-- A new buffer has nothing to read. -/
theorem NetworkBuffer.new_ordered {initial_size : UInt64} {start : NetworkBuffer}
    (h : NetworkBuffer.new initial_size = .ok start) : start.Ordered ∧ start.readable = [] := by
  rw [NetworkBuffer.new] at h
  cases hbuffer : CharVector.resize ⟨[], Nat.two_pow_pos 63⟩ initial_size with
  | error failure =>
    rw [hbuffer] at h
    cases h
  | ok buffer =>
    rw [hbuffer] at h
    cases h
    exact ⟨⟨UInt64.le_refl _, Nat.zero_le _⟩, rfl⟩

end

/-- A buffer of any initial size is a queue of bytes in every state of a run, with its
indices in order and with the strings that the queue gives, exactly when no call of
`EnsureWritableBytes` that grows the vector wraps around its size. -/
theorem NetworkBuffer.refines_queue_iff {initial_size : UInt64} {start last : NetworkBuffer}
    {calls : List BufferCall} {returned : List Bytes} (hstart : NetworkBuffer.new initial_size = .ok start)
    (h : start.Runs calls last returned) :
    (∀ first later, calls = first ++ later → ∀ middle before, start.Runs first middle before →
      middle.IsQueue before [] first) ↔
    ∀ first call later, calls = first ++ call :: later → ∀ middle before, start.Runs first middle before →
      call.GrowthFits middle := by
  obtain ⟨hordered, hempty⟩ := NetworkBuffer.new_ordered hstart
  constructor
  · rintro hqueue first call later rfl middle before hbefore
    by_contra hwraps
    obtain ⟨other, _, _, hfirst, hafter⟩ := h.split
    obtain ⟨rfl, -⟩ := hbefore.unique hfirst
    cases hafter with
    | cons allowed returns _ =>
      have hmiddle := hqueue first (call :: later) rfl middle before hbefore
      have hnext := hqueue (first ++ [call]) later (by simp) _ _ (hbefore.append (.cons allowed returns (.nil _)))
      exact hmiddle.ordered.call_not_ordered hwraps returns hnext.ordered
  · rintro hfits first later rfl middle before hbefore
    have hisQueue := hbefore.isQueue hordered fun first call between hcalls =>
      hfits first call (between ++ later) (by rw [hcalls, List.append_assoc, List.cons_append])
    rwa [hempty] at hisQueue

/-- A buffer without room that grows three times, moves its bytes and gives them out. -/
theorem NetworkBuffer.refines_queue_through_growth :
    ∃ start last, NetworkBuffer.new 0 = .ok start ∧
      start.Runs [.append [1, 2, 3], .retrieve 2, .ensure_writable_bytes 6, .append [4, 5], .retrieve_all_as_string]
        last [[], [], [], [], [3, 4, 5]] ∧ last.Ordered ∧ last.readable = [] := by
  obtain ⟨start, middle, last, hstart, hbefore, hindex, hlater⟩ : ∃ start middle last,
      NetworkBuffer.new 0 = .ok start ∧ start.Runs [.append [1, 2, 3], .retrieve 2] middle [[], []] ∧
      middle.write_index = 3 ∧
      middle.Runs [.ensure_writable_bytes 6, .append [4, 5], .retrieve_all_as_string] last [[], [], [3, 4, 5]] :=
    ⟨_, _, _, rfl, .cons (by simp [BufferCall.Allowed]) rfl (.cons trivial rfl (.nil _)), rfl,
      .cons trivial rfl (.cons (by simp [BufferCall.Allowed]) rfl (.cons trivial rfl (.nil _)))⟩
  have hruns := hbefore.append hlater
  have hqueue := (refines_queue_iff hstart hruns).mpr fun first call later hcalls other given hother => by
    cases call with
    | ensure_writable_bytes len =>
      intro _
      obtain ⟨rfl, rfl⟩ : first = [.append [1, 2, 3], .retrieve 2] ∧ len = 6 := by
        rcases first with _ | ⟨_, _ | ⟨_, _ | ⟨_, _ | ⟨_, _ | ⟨_, _⟩⟩⟩⟩⟩ <;> simp_all
      obtain ⟨rfl, -⟩ := hbefore.unique hother
      rw [hindex]
      decide
    | append | retrieve | retrieve_all | retrieve_all_as_string | read_from_fd => trivial
  have hlast := hqueue _ [] (List.append_nil _).symm last _ hruns
  exact ⟨start, last, hstart, hruns, hlast.ordered, hlast.readable⟩

/-- Five bytes and a length that wraps the sum to four: the vector shrinks to less than
what has been written. -/
theorem NetworkBuffer.ensure_writable_bytes_shrinks :
    ∃ start last returned, NetworkBuffer.new 8 = .ok start ∧
      start.Runs [.append [104, 101, 108, 108, 111], .ensure_writable_bytes 18446744073709551615] last returned ∧
      last.buffer.val.length = 4 ∧ last.write_index = 5 ∧ ¬ last.Ordered :=
  ⟨_, _, _, rfl, .cons (by simp [BufferCall.Allowed]) rfl (.cons trivial rfl (.nil _)), rfl, rfl, by decide⟩

end NovaKV.Storage

import NovaKV.Network.Parser

open NovaKV.Lib

namespace NovaKV

/-- The commands that repeated calls of `Parse` deliver, and what the last call
leaves. -/
structure Drained where
  commands : List (List Bytes)
  status : ParseStatus
  parser : RESPParser
  buffer : NetworkBuffer

/-- Call `Parse` until it returns something else than `SUCCESS`, at most `fuel`
times. -/
def RESPParser.drain_loop : Nat → RESPParser → NetworkBuffer → Drained
  | 0, self, buffer => ⟨[], .INCOMPLETE, self, buffer⟩
  | fuel + 1, self, buffer =>
    let result := self.parse buffer []
    match result.status with
    | .SUCCESS =>
      let later := drain_loop fuel result.parser result.buffer
      { later with commands := result.out_command :: later.commands }
    | status => ⟨[], status, result.parser, result.buffer⟩

/-- Every call that succeeds uses up a byte, so that the bytes there are bound the
calls. -/
def RESPParser.drain (self : RESPParser) (buffer : NetworkBuffer) : Drained :=
  RESPParser.drain_loop (buffer.readable_bytes + 1) self buffer

/-- The status with which a reading ends. -/
def ParseStatus.of_end : Resumable.End → ParseStatus
  | .waiting => .INCOMPLETE
  | .failed => .ERROR

section

variable {self : RESPParser} {buffer : NetworkBuffer}

theorem RESPParser.advances_length {parser : RESPParser} {input rest : Bytes}
    (h : machine.Advances self input parser rest) : rest.length ≤ input.length := by
  induction h with
  | refl => exact Nat.le_refl _
  | step hturn _ ih =>
    refine ih.trans ?_
    rw [List.length_drop]
    exact Nat.sub_le _ _

/-- The calls read the buffer to its end. -/
theorem RESPParser.drain_loop_reads {fuel : Nat} (hfuel : buffer.readable_bytes < fuel) :
    ∃ how, (drain_loop fuel self buffer).status = .of_end how ∧
      machine.Reads self buffer.readable (drain_loop fuel self buffer).commands how
        (drain_loop fuel self buffer).parser (drain_loop fuel self buffer).buffer.readable := by
  induction fuel generalizing self buffer with
  | zero => omega
  | succ fuel ih =>
    obtain ⟨parser, left, hadvances, hends⟩ := self.parse_ends buffer []
    rw [drain_loop]
    cases hturn : parser.turn left with
    | wait =>
      rw [hturn] at hends
      obtain ⟨hstatus, -, hparser, hbuffer⟩ := hends
      refine ⟨.waiting, ?_⟩
      simp only [hstatus, hparser, hbuffer]
      exact ⟨rfl, hadvances.reads (.wait hturn)⟩
    | fail failed =>
      rw [hturn] at hends
      obtain ⟨hstatus, -, hparser, hbuffer⟩ := hends
      refine ⟨.failed, ?_⟩
      simp only [hstatus, hparser, hbuffer]
      exact ⟨rfl, hadvances.reads (.fail hturn)⟩
    | advance =>
      rw [hturn] at hends
      cases hends
    | output command next used =>
      rw [hturn] at hends
      obtain ⟨hstatus, hcommand, hparser, hbuffer⟩ := hends
      have hless := machine.drop_length_lt (show (machine.turn parser left).used = some used by
        change (parser.turn left).used = _
        rw [hturn]
        rfl)
      have hle := advances_length hadvances
      rw [← hbuffer, NetworkBuffer.readable_length] at hless
      rw [NetworkBuffer.readable_length] at hle
      obtain ⟨how, hhow, hreads⟩ := @ih (self.parse buffer []).parser (self.parse buffer []).buffer (by omega)
      refine ⟨how, ?_⟩
      simp only [hstatus, hcommand]
      rw [hbuffer, hparser] at hreads
      rw [hparser] at hhow ⊢
      exact ⟨hhow, hadvances.reads (.output hturn hreads)⟩

theorem RESPParser.drain_reads (self : RESPParser) (buffer : NetworkBuffer) :
    ∃ how, (self.drain buffer).status = .of_end how ∧
      machine.Reads self buffer.readable (self.drain buffer).commands how
        (self.drain buffer).parser (self.drain buffer).buffer.readable :=
  drain_loop_reads (Nat.lt_succ_self _)

/-- What the calls deliver depends on the readable bytes only. -/
theorem RESPParser.drain_eq_of_reads {commands : List (List Bytes)} {how : Resumable.End} {last : RESPParser}
    {rest : Bytes} (h : machine.Reads self buffer.readable commands how last rest) :
    (self.drain buffer).commands = commands ∧ (self.drain buffer).status = .of_end how ∧
      (self.drain buffer).parser = last ∧ (self.drain buffer).buffer.readable = rest := by
  obtain ⟨how', hstatus, hreads⟩ := self.drain_reads buffer
  obtain ⟨hcommands, rfl, hparser, hrest⟩ := hreads.unique h
  exact ⟨hcommands, hstatus, hparser, hrest⟩

end

end NovaKV

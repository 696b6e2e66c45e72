import NovaKV.Lib.Decimal
import NovaKV.Lib.Resumable
import NovaKV.Network.Buffer

open NovaKV.Lib

namespace NovaKV

def crlf : Bytes := [13, 10]

/-- `FindCRLF`: how far ahead the first line ends. -/
def find_crlf : Bytes → Option Nat
  | [] => none
  | byte :: rest =>
    if byte = 13 ∧ rest.head? = some 10 then some 0 else (find_crlf rest).map (· + 1)

/-- What `std::from_chars` leaves behind: the value, the characters it did not
match, and whether it succeeded. -/
structure FromChars where
  value : Int
  rest : Bytes
  ok : Bool
  deriving DecidableEq

/-- Convert as many digits as there are behind the sign. On failure the value stays
as it was. -/
def convert_digits (chars unsigned : Bytes) (negative : Bool) (value : Int) : FromChars :=
  let digits := unsigned.takeWhile isDigit
  let rest := unsigned.dropWhile isDigit
  let number : Int := if negative then -digitsValue digits else digitsValue digits
  if digits = [] then { value := value, rest := chars, ok := false }
  else if -2 ^ 63 ≤ number ∧ number < 2 ^ 63 then { value := number, rest := rest, ok := true }
  else { value := value, rest := rest, ok := false }

/-- `std::from_chars` for a 64-bit signed integer in decimal: an optional minus sign
and digits. -/
def from_chars (chars : Bytes) (value : Int) : FromChars :=
  if chars.head? = some 45 then convert_digits chars chars.tail true value
  else convert_digits chars chars false value

/-- What the next line is to a state that expects a header. -/
inductive Header where
  | missing
  | blank
  | malformed (value : Int)
  | number (value : Int) (length : Nat)
  deriving DecidableEq

/-- What a line is as a header with the given first byte and a number behind it.
`value` is what the number's variable holds before. -/
def line_header (tag : UInt8) (value : Int) (line : Bytes) : Header :=
  match line with
  | [] => .blank
  | first :: chars =>
    if first ≠ tag then .malformed value
    else
      let result := from_chars chars value
      if result.ok = false ∨ result.rest ≠ [] then .malformed result.value
      else .number result.value line.length

def read_header (tag : UInt8) (value : Int) (input : Bytes) : Header :=
  match find_crlf input with
  | none => .missing
  | some length => line_header tag value (input.take length)

inductive RESPParser.State where
  | EXPECT_ARRAY_SIZE
  | EXPECT_BULK_SIZE
  | EXPECT_BULK_DATA
  deriving DecidableEq

/-- The parser's state between two calls. It expects data only after it has read a
length of data. -/
@[ext]
structure RESPParser where
  state : RESPParser.State
  array_size : Int
  bulk_len : Int
  current_command : List Bytes
  data_len : state = .EXPECT_BULK_DATA → 0 ≤ bulk_len ∧ bulk_len < 2 ^ 63

/-- The state of a new parser, which `Reset` restores. -/
def RESPParser.reset : RESPParser where
  state := .EXPECT_ARRAY_SIZE
  array_size := 0
  bulk_len := 0
  current_command := []
  data_len := nofun

/-- An `int64_t` converted to `size_t`. -/
def to_size_t (n : Int) : Nat := (n % 2 ^ 64).toNat

/-- An element is complete: it is added to the command, and the last one completes
the command. -/
def RESPParser.add_element (self : RESPParser) (element : Bytes) (used : Nat) :
    Turn RESPParser (List Bytes) :=
  let current_command := self.current_command ++ [element]
  if current_command.length = to_size_t self.array_size then .output current_command .reset used
  else
    .advance
      { self with
        state := .EXPECT_BULK_SIZE
        current_command := current_command
        data_len := nofun } used

theorem convert_digits_value_lt {chars unsigned : Bytes} {negative : Bool} {value : Int}
    (hok : (convert_digits chars unsigned negative value).ok = true) :
    (convert_digits chars unsigned negative value).value < 2 ^ 63 := by
  simp only [convert_digits] at hok ⊢
  split_ifs at hok ⊢ with _ hnegative hrange hrange
  · exact hrange.2
  · exact hrange.2

theorem from_chars_value_lt {chars : Bytes} {value : Int} (hok : (from_chars chars value).ok = true) :
    (from_chars chars value).value < 2 ^ 63 := by
  unfold from_chars at hok ⊢
  split at hok
  · rename_i hnegative
    rw [if_pos hnegative]
    exact convert_digits_value_lt hok
  · rename_i hpositive
    rw [if_neg hpositive]
    exact convert_digits_value_lt hok

/-- A header that is read comes from a line. -/
theorem read_header_eq {tag : UInt8} {value : Int} {input : Bytes} {header : Header}
    (h : read_header tag value input = header) (hheader : header ≠ .missing) :
    ∃ length, find_crlf input = some length ∧ line_header tag value (input.take length) = header := by
  unfold read_header at h
  split at h
  · exact absurd h.symm hheader
  · rename_i length hcrlf
    exact ⟨length, hcrlf, h⟩

theorem line_header_number {tag : UInt8} {value number : Int} {line : Bytes} {length : Nat}
    (h : line_header tag value line = .number number length) : length = line.length ∧ number < 2 ^ 63 := by
  unfold line_header at h
  split at h
  · cases h
  · split at h
    · cases h
    · dsimp only at h
      split at h
      · cases h
      · rename_i hvalid
        simp only [not_or, Bool.not_eq_false] at hvalid
        cases h
        exact ⟨rfl, from_chars_value_lt hvalid.1⟩

theorem line_header_blank {tag : UInt8} {value : Int} {line : Bytes}
    (h : line_header tag value line = .blank) : line = [] := by
  unfold line_header at h
  split at h
  · rfl
  · split at h
    · cases h
    · dsimp only at h
      split at h <;> cases h

/-- A number in a header is a 64-bit signed integer. -/
def Header.Fits : Header → Prop
  | .number value _ => value < 2 ^ 63
  | _ => True

theorem read_header_fits (tag : UInt8) (value : Int) (input : Bytes) : (read_header tag value input).Fits := by
  cases hheader : read_header tag value input with
  | number number length =>
    obtain ⟨_, -, hline⟩ := read_header_eq hheader nofun
    exact (line_header_number hline).2
  | _ => trivial

/-- The pass of `Parse` in the state `EXPECT_ARRAY_SIZE`, by the next line. -/
def RESPParser.expect_array_size (self : RESPParser) : Header → Turn RESPParser (List Bytes)
  | .missing => .wait
  | .blank => .advance self 2
  | .malformed value => .fail { self with array_size := value }
  | .number size length =>
    if size < 0 then .fail { self with array_size := size }
    else if size = 0 then .output [] .reset (length + 2)
    else
      .advance
        { self with
          state := .EXPECT_BULK_SIZE
          array_size := size
          data_len := nofun } (length + 2)

/-- The pass of `Parse` in the state `EXPECT_BULK_SIZE`, by the next line. -/
def RESPParser.expect_bulk_size (self : RESPParser) (hstate : self.state = .EXPECT_BULK_SIZE) :
    (header : Header) → header.Fits → Turn RESPParser (List Bytes)
  | .missing, _ => .wait
  | .blank, _ => .advance self 2
  | .malformed value, _ => .fail { self with bulk_len := value, data_len := by simp [hstate] }
  | .number len length, hfits =>
    if hlen : len < -1 then .fail { self with bulk_len := len, data_len := by simp [hstate] }
    else if hnull : len = -1 then
      { self with bulk_len := len, data_len := by simp [hstate] }.add_element [] (length + 2)
    else
      .advance
        { self with
          state := .EXPECT_BULK_DATA
          bulk_len := len
          data_len := fun _ => ⟨by omega, hfits⟩ } (length + 2)

/-- The pass of `Parse` in the state `EXPECT_BULK_DATA`. -/
def RESPParser.expect_bulk_data (self : RESPParser) (input : Bytes) : Turn RESPParser (List Bytes) :=
  let data_len := to_size_t self.bulk_len
  if input.length < to_size_t (self.bulk_len + 2) then .wait
  else if input[data_len]? ≠ some 13 ∨ input[data_len + 1]? ≠ some 10 then .fail self
  else self.add_element (input.take data_len) (to_size_t (self.bulk_len + 2))

/-- One pass of the loop of `Parse` over the readable bytes. -/
def RESPParser.turn (self : RESPParser) (input : Bytes) : Turn RESPParser (List Bytes) :=
  if input = [] then .wait
  else match hstate : self.state with
    | .EXPECT_ARRAY_SIZE => self.expect_array_size (read_header 42 self.array_size input)
    | .EXPECT_BULK_SIZE =>
      self.expect_bulk_size hstate (read_header 36 self.bulk_len input) (read_header_fits _ _ _)
    | .EXPECT_BULK_DATA => self.expect_bulk_data input

inductive ParseStatus where
  | SUCCESS
  | INCOMPLETE
  | ERROR
  deriving DecidableEq

structure ParseResult where
  status : ParseStatus
  out_command : List Bytes
  parser : RESPParser
  buffer : NetworkBuffer

/-- The loop of `Parse`, at most `fuel` passes of it. -/
def RESPParser.parse_loop : Nat → RESPParser → NetworkBuffer → List Bytes → ParseResult
  | 0, self, buffer, out_command => ⟨.INCOMPLETE, out_command, self, buffer⟩
  | fuel + 1, self, buffer, out_command =>
    match self.turn buffer.readable with
    | .wait => ⟨.INCOMPLETE, out_command, self, buffer⟩
    | .fail parser => ⟨.ERROR, out_command, parser, buffer⟩
    | .advance parser used => parse_loop fuel parser (buffer.retrieve used) out_command
    | .output command parser used => ⟨.SUCCESS, command, parser, buffer.retrieve used⟩

/-- `Parse`. Every pass that goes on uses up a byte, so that the bytes there are
bound the passes. -/
def RESPParser.parse (self : RESPParser) (buffer : NetworkBuffer) (out_command : List Bytes) : ParseResult :=
  RESPParser.parse_loop (buffer.readable_bytes + 1) self buffer out_command

theorem find_crlf_le {input : Bytes} {length : Nat} (h : find_crlf input = some length) :
    length + 2 ≤ input.length := by
  induction input generalizing length with
  | nil => cases h
  | cons byte rest ih =>
    rw [find_crlf] at h
    split at h
    · rename_i hline
      cases h
      cases rest with
      | nil => simp at hline
      | cons next rest => simp
    · obtain ⟨before, hbefore, rfl⟩ := Option.map_eq_some_iff.mp h
      have hle := ih hbefore
      simp only [List.length_cons]
      omega

/-- The first line stays the first line when more bytes arrive. -/
theorem find_crlf_append {input : Bytes} {length : Nat} (h : find_crlf input = some length) (more : Bytes) :
    find_crlf (input ++ more) = some length := by
  induction input generalizing length with
  | nil => cases h
  | cons byte rest ih =>
    rw [List.cons_append, find_crlf]
    rw [find_crlf] at h
    split at h
    · rename_i hline
      have hhead : (rest ++ more).head? = some 10 := by
        rw [List.head?_append, hline.2]
        rfl
      rw [if_pos ⟨hline.1, hhead⟩, h]
    · rename_i hline
      obtain ⟨before, hbefore, rfl⟩ := Option.map_eq_some_iff.mp h
      have hhead : ¬ (byte = 13 ∧ (rest ++ more).head? = some 10) := by
        have hne : rest ≠ [] := by
          rintro rfl
          cases hbefore
        rwa [List.head?_append_of_ne_nil _ hne]
      rw [if_neg hhead, ih hbefore]
      rfl

theorem read_header_append {tag : UInt8} {value : Int} {input : Bytes}
    (h : read_header tag value input ≠ .missing) (more : Bytes) :
    read_header tag value (input ++ more) = read_header tag value input := by
  obtain ⟨length, hcrlf, hline⟩ := read_header_eq rfl h
  have hle := find_crlf_le hcrlf
  rw [read_header, find_crlf_append hcrlf more, ← hline]
  dsimp only
  rw [List.take_append_of_le_length (by omega)]

/-- The bytes of a line and its end. -/
def Header.used : Header → Option Nat
  | .blank => some 2
  | .number _ length => some (length + 2)
  | _ => none

theorem read_header_used {tag : UInt8} {value : Int} {input : Bytes} {used : Nat}
    (h : (read_header tag value input).used = some used) : 0 < used ∧ used ≤ input.length := by
  cases hheader : read_header tag value input with
  | missing =>
    rw [hheader] at h
    cases h
  | malformed =>
    rw [hheader] at h
    cases h
  | blank =>
    obtain ⟨_, hcrlf, -⟩ := read_header_eq hheader nofun
    have hle := find_crlf_le hcrlf
    rw [hheader] at h
    cases h
    omega
  | number number length =>
    obtain ⟨_, hcrlf, hline⟩ := read_header_eq hheader nofun
    have hle := find_crlf_le hcrlf
    have hlength := (line_header_number hline).1
    rw [List.length_take] at hlength
    rw [hheader] at h
    cases h
    omega

theorem to_size_t_of_nonneg {n : Int} (h : 0 ≤ n) (hlt : n < 2 ^ 64) : to_size_t n = n.toNat := by
  rw [to_size_t, Int.emod_eq_of_lt h hlt]

section

variable {self : RESPParser} {input more : Bytes} {used : Nat}

@[simp] theorem RESPParser.add_element_used (element : Bytes) :
    (self.add_element element used).used = some used := by
  unfold add_element
  dsimp only
  split <;> rfl

/-- The lengths that `Parse` works with when it expects data. -/
theorem RESPParser.data_sizes (h : self.state = .EXPECT_BULK_DATA) :
    to_size_t self.bulk_len = self.bulk_len.toNat ∧ to_size_t (self.bulk_len + 2) = self.bulk_len.toNat + 2 := by
  obtain ⟨hnonneg, hlt⟩ := self.data_len h
  rw [to_size_t_of_nonneg hnonneg (by omega), to_size_t_of_nonneg (by omega) (by omega)]
  omega

theorem RESPParser.turn_array_size (hstate : self.state = .EXPECT_ARRAY_SIZE) (hne : input ≠ []) :
    self.turn input = self.expect_array_size (read_header 42 self.array_size input) := by
  rw [turn, if_neg hne]
  split
  · rfl
  · rename_i hother
    rw [hstate] at hother
    cases hother
  · rename_i hother
    rw [hstate] at hother
    cases hother

theorem RESPParser.turn_bulk_size (hstate : self.state = .EXPECT_BULK_SIZE) (hne : input ≠ []) :
    self.turn input =
      self.expect_bulk_size hstate (read_header 36 self.bulk_len input) (read_header_fits _ _ _) := by
  rw [turn, if_neg hne]
  split
  · rename_i hother
    rw [hstate] at hother
    cases hother
  · rfl
  · rename_i hother
    rw [hstate] at hother
    cases hother

theorem RESPParser.turn_bulk_data (hstate : self.state = .EXPECT_BULK_DATA) (hne : input ≠ []) :
    self.turn input = self.expect_bulk_data input := by
  rw [turn, if_neg hne]
  split
  · rename_i hother
    rw [hstate] at hother
    cases hother
  · rename_i hother
    rw [hstate] at hother
    cases hother
  · rfl

theorem RESPParser.expect_array_size_used {header : Header}
    (h : (self.expect_array_size header).used = some used) : header.used = some used := by
  cases header with
  | missing => cases h
  | blank => exact h
  | malformed => cases h
  | number size length =>
    simp only [expect_array_size] at h
    split_ifs at h
    · cases h
    · exact h
    · exact h

theorem RESPParser.expect_bulk_size_used {hstate : self.state = .EXPECT_BULK_SIZE} {header : Header}
    {hfits : header.Fits} (h : (self.expect_bulk_size hstate header hfits).used = some used) :
    header.used = some used := by
  cases header with
  | missing => cases h
  | blank => exact h
  | malformed => cases h
  | number size length =>
    simp only [expect_bulk_size] at h
    split_ifs at h
    · cases h
    · rwa [add_element_used] at h
    · exact h

/-- A pass that goes on uses up bytes that are there. -/
theorem RESPParser.turn_used (h : (self.turn input).used = some used) : 0 < used ∧ used ≤ input.length := by
  have hne : input ≠ [] := by
    rintro rfl
    cases h
  cases hstate : self.state with
  | EXPECT_ARRAY_SIZE =>
    rw [turn_array_size hstate hne] at h
    exact read_header_used (expect_array_size_used h)
  | EXPECT_BULK_SIZE =>
    rw [turn_bulk_size hstate hne] at h
    exact read_header_used (expect_bulk_size_used h)
  | EXPECT_BULK_DATA =>
    obtain ⟨-, hsize⟩ := data_sizes hstate
    rw [turn_bulk_data hstate hne, expect_bulk_data] at h
    split_ifs at h with hshort hend
    · cases h
    · cases h
    · rw [add_element_used] at h
      cases h
      omega

/-- A pass that does not wait is the same when more bytes follow. -/
theorem RESPParser.turn_append (h : self.turn input ≠ .wait) (more : Bytes) :
    self.turn (input ++ more) = self.turn input := by
  have hne : input ≠ [] := by
    rintro rfl
    exact h rfl
  have hne' : input ++ more ≠ [] := by simp [hne]
  cases hstate : self.state with
  | EXPECT_ARRAY_SIZE =>
    rw [turn_array_size hstate hne] at h ⊢
    have hheader : read_header 42 self.array_size input ≠ .missing := by
      intro hmissing
      rw [hmissing] at h
      exact h rfl
    rw [turn_array_size hstate hne', read_header_append hheader]
  | EXPECT_BULK_SIZE =>
    rw [turn_bulk_size hstate hne] at h ⊢
    have hheader : read_header 36 self.bulk_len input ≠ .missing := by
      intro hmissing
      simp only [hmissing] at h
      exact h rfl
    rw [turn_bulk_size hstate hne']
    simp only [read_header_append hheader]
  | EXPECT_BULK_DATA =>
    rw [turn_bulk_data hstate hne] at h ⊢
    rw [turn_bulk_data hstate hne']
    obtain ⟨hlen, hsize⟩ := data_sizes hstate
    have henough : ¬ input.length < self.bulk_len.toNat + 2 := by
      intro hshort
      rw [expect_bulk_data, hsize, if_pos hshort] at h
      exact h rfl
    have henough' : ¬ (input ++ more).length < self.bulk_len.toNat + 2 := by
      rw [List.length_append]
      omega
    rw [expect_bulk_data, expect_bulk_data, hlen, hsize, if_neg henough, if_neg henough',
      List.getElem?_append_left (by omega), List.getElem?_append_left (by omega),
      List.take_append_of_le_length (by omega)]

/-- The parser as a machine that can stop at the end of any piece of its input. -/
def RESPParser.machine : Resumable UInt8 RESPParser (List Bytes) where
  turn := RESPParser.turn
  used_pos _ _ _ h := (RESPParser.turn_used h).1
  used_le _ _ _ h := (RESPParser.turn_used h).2
  resumes _ _ more h := RESPParser.turn_append h more

/-- What a call of `Parse` returns when its last pass is the given one over `rest`. -/
def ParseResult.Ends (result : ParseResult) (out_command : List Bytes) (parser : RESPParser) (rest : Bytes) :
    Turn RESPParser (List Bytes) → Prop
  | .wait => result.status = .INCOMPLETE ∧ result.out_command = out_command ∧ result.parser = parser ∧
    result.buffer.readable = rest
  | .fail failed => result.status = .ERROR ∧ result.out_command = out_command ∧ result.parser = failed ∧
    result.buffer.readable = rest
  | .advance _ _ => False
  | .output command next used => result.status = .SUCCESS ∧ result.out_command = command ∧
    result.parser = next ∧ result.buffer.readable = rest.drop used

theorem RESPParser.parse_loop_ends {fuel : Nat} {buffer : NetworkBuffer} {out_command : List Bytes}
    (hfuel : buffer.readable_bytes < fuel) :
    ∃ parser rest, machine.Advances self buffer.readable parser rest ∧
      (parse_loop fuel self buffer out_command).Ends out_command parser rest (parser.turn rest) := by
  induction fuel generalizing self buffer with
  | zero => omega
  | succ fuel ih =>
    rw [parse_loop]
    cases hturn : self.turn buffer.readable with
    | wait => exact ⟨self, _, .refl _ _, by rw [hturn]; exact ⟨rfl, rfl, rfl, rfl⟩⟩
    | fail parser => exact ⟨self, _, .refl _ _, by rw [hturn]; exact ⟨rfl, rfl, rfl, rfl⟩⟩
    | output command parser used =>
      exact ⟨self, _, .refl _ _, by rw [hturn]; exact ⟨rfl, rfl, rfl, buffer.readable_retrieve used⟩⟩
    | advance parser used =>
      have hless := machine.drop_length_lt (show (machine.turn self buffer.readable).used = some used by
        change (self.turn buffer.readable).used = _
        rw [hturn]
        rfl)
      rw [← NetworkBuffer.readable_retrieve, NetworkBuffer.readable_length, NetworkBuffer.readable_length] at hless
      obtain ⟨last, rest, hadvances, hends⟩ := @ih parser (buffer.retrieve used) (by omega)
      rw [NetworkBuffer.readable_retrieve] at hadvances
      exact ⟨last, rest, .step hturn hadvances, hends⟩

/-- `Parse` makes passes until one of them returns. -/
theorem RESPParser.parse_ends (self : RESPParser) (buffer : NetworkBuffer) (out_command : List Bytes) :
    ∃ parser rest, machine.Advances self buffer.readable parser rest ∧
      (self.parse buffer out_command).Ends out_command parser rest (parser.turn rest) :=
  parse_loop_ends (Nat.lt_succ_self _)

end

end NovaKV

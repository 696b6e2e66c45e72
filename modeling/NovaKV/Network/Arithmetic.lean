import NovaKV.Network.Parser

open NovaKV.Lib

namespace NovaKV

namespace RESPParser

/-- The machine arithmetic of a pass of `Parse` over the readable bytes is in range:
`bulk_len_ + 2` is an `int64_t`, what becomes a `size_t` is not negative, and the
two bytes behind the data are readable when they are looked at. -/
structure InRange (parser : RESPParser) (input : Bytes) : Prop where
  sum : parser.state = .EXPECT_BULK_DATA → -2 ^ 63 ≤ parser.bulk_len + 2 ∧ parser.bulk_len + 2 < 2 ^ 63
  bulk_len : parser.state = .EXPECT_BULK_DATA → 0 ≤ parser.bulk_len
  array_size : parser.state ≠ .EXPECT_ARRAY_SIZE → 0 ≤ parser.array_size
  index : parser.state = .EXPECT_BULK_DATA → ¬ input.length < to_size_t (parser.bulk_len + 2) →
    to_size_t parser.bulk_len < input.length ∧ to_size_t parser.bulk_len + 1 < input.length

/-- The header that a pass reads in the state `EXPECT_BULK_SIZE`, if any, announces
a length to which two can be added. -/
def Admits (self : RESPParser) (input : Bytes) : Prop :=
  self.state = .EXPECT_BULK_SIZE → ∀ len length, read_header 36 self.bulk_len input = .number len length →
    len + 2 < 2 ^ 63

/-- The parser's states and readable bytes in a run: more bytes may arrive between
any two passes, and parsing may go on after an error. `step` says which passes are
allowed. -/
inductive Reaches (step : RESPParser → Bytes → Prop) : RESPParser → Bytes → Prop
  | start : Reaches step .reset []
  | feed {parser : RESPParser} {input : Bytes} (chunk : Bytes) (earlier : Reaches step parser input) :
      Reaches step parser (input ++ chunk)
  | advance {parser next : RESPParser} {input : Bytes} {used : Nat} (earlier : Reaches step parser input)
      (allowed : step parser input) (turn : parser.turn input = .advance next used) :
      Reaches step next (input.drop used)
  | output {parser next : RESPParser} {input : Bytes} {used : Nat} {command : List Bytes}
      (earlier : Reaches step parser input) (allowed : step parser input)
      (turn : parser.turn input = .output command next used) : Reaches step next (input.drop used)
  | fail {parser next : RESPParser} {input : Bytes} (earlier : Reaches step parser input)
      (allowed : step parser input) (turn : parser.turn input = .fail next) : Reaches step next input

/-- What the checks in the size states leave for the data state. -/
structure Sized (parser : RESPParser) : Prop where
  bulk_len : parser.state = .EXPECT_BULK_DATA → parser.bulk_len + 2 < 2 ^ 63
  array_size : parser.state ≠ .EXPECT_ARRAY_SIZE → 0 ≤ parser.array_size

theorem Sized.inRange {self : RESPParser} (h : self.Sized) (input : Bytes) : self.InRange input where
  sum hstate := ⟨by have := (self.data_len hstate).1; omega, h.bulk_len hstate⟩
  bulk_len hstate := (self.data_len hstate).1
  array_size := h.array_size
  index hstate hlong := by
    obtain ⟨hlen, hsum⟩ := data_sizes hstate
    rw [hsum] at hlong
    rw [hlen]
    omega

theorem sized_of_ne {parser : RESPParser} (hstate : parser.state ≠ .EXPECT_BULK_DATA)
    (harray : parser.state ≠ .EXPECT_ARRAY_SIZE → 0 ≤ parser.array_size) : parser.Sized :=
  ⟨fun hdata => absurd hdata hstate, harray⟩

theorem sized_reset : RESPParser.reset.Sized := ⟨nofun, fun h => absurd rfl h⟩

/-- What a pass leaves behind, whichever way it ends. -/
structure LeavesSized (turn : Turn RESPParser (List Bytes)) : Prop where
  advance : ∀ next used, turn = .advance next used → next.Sized
  output : ∀ command next used, turn = .output command next used → next.Sized
  fail : ∀ next, turn = .fail next → next.Sized

theorem leavesSized_add_element {parser : RESPParser} (h : 0 ≤ parser.array_size) (element : Bytes) (used : Nat) :
    LeavesSized (parser.add_element element used) := by
  unfold RESPParser.add_element
  dsimp only
  split
  · refine ⟨by rintro _ _ ⟨⟩, ?_, by rintro _ ⟨⟩⟩
    rintro _ _ _ ⟨⟩
    exact sized_reset
  · refine ⟨?_, by rintro _ _ _ ⟨⟩, by rintro _ ⟨⟩⟩
    rintro _ _ ⟨⟩
    exact ⟨by rintro ⟨⟩, fun _ => h⟩

theorem leavesSized_advance {next : RESPParser} {used : Nat} (h : next.Sized) :
    LeavesSized (.advance next used) := by
  refine ⟨?_, nofun, nofun⟩
  rintro _ _ ⟨⟩
  exact h

theorem leavesSized_fail {next : RESPParser} (h : next.Sized) : LeavesSized (.fail next) := by
  refine ⟨nofun, nofun, ?_⟩
  rintro _ ⟨⟩
  exact h

theorem leavesSized_wait : LeavesSized .wait := ⟨nofun, nofun, nofun⟩

theorem leavesSized_array_size {parser : RESPParser} (hstate : parser.state = .EXPECT_ARRAY_SIZE)
    (header : Header) : LeavesSized (parser.expect_array_size header) := by
  have hdata : parser.state ≠ .EXPECT_BULK_DATA := by
    rw [hstate]
    decide
  have hfailed : ∀ size, ({ parser with array_size := size, data_len := fun h => absurd h hdata } :
      RESPParser).Sized := fun size => sized_of_ne hdata fun h => absurd hstate h
  cases header with
  | missing => exact leavesSized_wait
  | blank => exact leavesSized_advance (sized_of_ne hdata fun h => absurd hstate h)
  | malformed value => exact leavesSized_fail (hfailed value)
  | number size length =>
    rw [expect_array_size]
    split_ifs with hnegative hzero
    · exact leavesSized_fail (hfailed size)
    · refine ⟨by rintro _ _ ⟨⟩, ?_, by rintro _ ⟨⟩⟩
      rintro _ _ _ ⟨⟩
      exact sized_reset
    · exact leavesSized_advance ⟨by rintro ⟨⟩, fun _ => by dsimp only; omega⟩

theorem leavesSized_bulk_size {parser : RESPParser} (hstate : parser.state = .EXPECT_BULK_SIZE)
    (h : parser.Sized) {header : Header} (hfits : header.Fits)
    (hadmits : ∀ len length, header = .number len length → len + 2 < 2 ^ 63) :
    LeavesSized (parser.expect_bulk_size hstate header hfits) := by
  have harray : 0 ≤ parser.array_size := h.array_size (by rw [hstate]; decide)
  have hdata : parser.state ≠ .EXPECT_BULK_DATA := by
    rw [hstate]
    decide
  cases header with
  | missing => exact leavesSized_wait
  | blank => exact leavesSized_advance h
  | malformed value => exact leavesSized_fail (sized_of_ne hdata fun _ => harray)
  | number len length =>
    rw [expect_bulk_size]
    split_ifs with hnegative hnull
    · exact leavesSized_fail (sized_of_ne hdata fun _ => harray)
    · exact leavesSized_add_element (by exact harray) _ _
    · exact leavesSized_advance ⟨fun _ => hadmits len length rfl, fun _ => harray⟩

/-- A pass over a header that admits its length leaves the parser sized. -/
theorem Sized.turn {parser : RESPParser} (h : parser.Sized) {input : Bytes} (hadmits : parser.Admits input) :
    LeavesSized (parser.turn input) := by
  by_cases hempty : input = []
  · subst hempty
    exact leavesSized_wait
  cases hstate : parser.state with
  | EXPECT_ARRAY_SIZE =>
    rw [turn_array_size hstate hempty]
    exact leavesSized_array_size hstate _
  | EXPECT_BULK_SIZE =>
    rw [turn_bulk_size hstate hempty]
    exact leavesSized_bulk_size hstate h _ (hadmits hstate)
  | EXPECT_BULK_DATA =>
    rw [turn_bulk_data hstate hempty, expect_bulk_data]
    split_ifs
    · exact leavesSized_wait
    · exact leavesSized_fail h
    · exact leavesSized_add_element (h.array_size (by rw [hstate]; decide)) _ _

/-- In every run whose bulk headers announce at most `2 ^ 63 - 3` bytes, the
arithmetic of every pass is in range. -/
theorem inRange_of_reaches {parser : RESPParser} {input : Bytes} (h : Reaches Admits parser input) :
    parser.InRange input := by
  suffices hsized : parser.Sized from hsized.inRange input
  induction h with
  | start => exact sized_reset
  | feed _ _ ih => exact ih
  | advance _ hadmits hturn ih => exact (ih.turn hadmits).advance _ _ hturn
  | output _ hadmits hturn ih => exact (ih.turn hadmits).output _ _ _ hturn
  | fail _ hadmits hturn ih => exact (ih.turn hadmits).fail _ hturn

/-- The parser behind an array header for one element. -/
def oneElement : RESPParser := ⟨.EXPECT_BULK_SIZE, 1, 0, [], nofun⟩

/-- The parser behind a bulk header that announces `len` bytes. -/
def expectsData (len : Int) (h : 0 ≤ len ∧ len < 2 ^ 63) : RESPParser :=
  ⟨.EXPECT_BULK_DATA, 1, len, [], fun _ => h⟩

theorem turn_one_element (rest : Bytes) :
    RESPParser.reset.turn ([42, 49, 13, 10] ++ rest) = .advance oneElement 4 := by
  have hheader : read_header 42 0 [42, 49, 13, 10] = .number 1 2 := by decide
  have hread : read_header 42 0 ([42, 49, 13, 10] ++ rest) = .number 1 2 := by
    rw [read_header_append (by rw [hheader]; nofun), hheader]
  rw [turn_array_size rfl (by simp)]
  change RESPParser.reset.expect_array_size (read_header 42 0 _) = _
  rw [hread]
  rfl

theorem turn_bulk_header {header : Bytes} {len : Int} {length : Nat} (hlen : 0 ≤ len ∧ len < 2 ^ 63)
    (hheader : read_header 36 0 header = .number len length) :
    oneElement.turn header = .advance (expectsData len hlen) (length + 2) := by
  have hne : header ≠ [] := by
    rintro rfl
    cases hheader
  have hnegative : ¬ len < -1 := by omega
  have hnull : ¬ len = -1 := by omega
  have hpass : ∀ (found : Header) (hfits : found.Fits), found = .number len length →
      oneElement.expect_bulk_size rfl found hfits = .advance (expectsData len hlen) (length + 2) := by
    rintro _ _ rfl
    simp only [expect_bulk_size, hnegative, hnull, dite_false]
    rfl
  rw [turn_bulk_size rfl hne]
  exact hpass _ _ hheader

theorem inRange_one_byte : (expectsData 1 (by decide)).InRange [97] := by
  have hheader : read_header 36 0 [36, 49, 13, 10, 97] = .number 1 2 := by decide
  have hfirst : Reaches Admits oneElement [36, 49, 13, 10, 97] :=
    .advance (.feed [42, 49, 13, 10, 36, 49, 13, 10, 97] .start) nofun (turn_one_element _)
  have hadmits : Admits oneElement [36, 49, 13, 10, 97] := by
    intro _ len length hread
    rw [show oneElement.bulk_len = 0 from rfl, hheader] at hread
    cases hread
    decide
  exact inRange_of_reaches (.advance hfirst hadmits (turn_bulk_header _ hheader))

/-- A bulk header may announce `2 ^ 63 - 1` bytes; adding two to that overflows once
the first of them is there. -/
theorem sum_overflows : ∃ parser input, Reaches (fun _ _ => True) parser input ∧ input ≠ [] ∧
    ¬ parser.InRange input := by
  let header : Bytes :=
    [36, 57, 50, 50, 51, 51, 55, 50, 48, 51, 54, 56, 53, 52, 55, 55, 53, 56, 48, 55, 13, 10]
  have hheader : read_header 36 0 header = .number (2 ^ 63 - 1) 20 := by decide +kernel
  have hfed : Reaches (fun _ _ => True) .reset ([42, 49, 13, 10] ++ header) :=
    .feed ([42, 49, 13, 10] ++ header) .start
  have hfirst : Reaches (fun _ _ => True) oneElement header :=
    .advance hfed trivial (turn_one_element header)
  refine ⟨expectsData (2 ^ 63 - 1) (by norm_num), [97], ?_, nofun, fun h => ?_⟩
  · exact .feed [97] (.advance hfirst trivial (turn_bulk_header _ hheader))
  · exact absurd (h.sum rfl).2 (by norm_num [expectsData])

end RESPParser

end NovaKV

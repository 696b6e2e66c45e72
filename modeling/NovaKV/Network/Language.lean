import NovaKV.Network.Grammar

open NovaKV.Lib

namespace NovaKV

/-- A call of `Parse` on `input` completes the command and leaves `rest`. -/
def RESPParser.Yields (self : RESPParser) (input : Bytes) (command : List Bytes) (rest : Bytes) : Prop :=
  ∃ parser left used, machine.Advances self input parser left ∧
    parser.turn left = .output command .reset used ∧ left.drop used = rest

/-- A call of `Parse` on `input` finds an error. -/
def RESPParser.Fails (self : RESPParser) (input : Bytes) : Prop :=
  ∃ parser left failed, machine.Advances self input parser left ∧ parser.turn left = .fail failed

section

variable {self next : RESPParser} {input rest rest' : Bytes} {command command' : List Bytes}
  {buffer : NetworkBuffer} {out_command : List Bytes}

theorem RESPParser.Yields.of_advances (h : next.Yields rest command rest')
    (hadvances : machine.Advances self input next rest) : self.Yields input command rest' := by
  obtain ⟨parser, left, used, hlater, hturn, hrest⟩ := h
  exact ⟨parser, left, used, hadvances.trans hlater, hturn, hrest⟩

theorem RESPParser.Fails.of_advances (h : next.Fails rest) (hadvances : machine.Advances self input next rest) :
    self.Fails input := by
  obtain ⟨parser, left, failed, hlater, hturn⟩ := h
  exact ⟨parser, left, failed, hadvances.trans hlater, hturn⟩

theorem RESPParser.Yields.parse (h : self.Yields buffer.readable command rest) (out_command : List Bytes) :
    (self.parse buffer out_command).status = .SUCCESS ∧
      (self.parse buffer out_command).out_command = command ∧
      (self.parse buffer out_command).parser = .reset ∧
      (self.parse buffer out_command).buffer.readable = rest := by
  obtain ⟨parser, left, used, hadvances, hturn, rfl⟩ := h
  obtain ⟨parser', left', hadvances', hends⟩ := self.parse_ends buffer out_command
  have hstop : ∀ s n, parser'.turn left' ≠ .advance s n := by
    intro s n heq
    rw [heq] at hends
    exact hends
  obtain ⟨rfl, rfl⟩ := hadvances.last_unique hadvances' (fun s n heq => by
    change parser.turn left = _ at heq
    rw [hturn] at heq
    cases heq) hstop
  rw [hturn] at hends
  exact hends

theorem RESPParser.Fails.parse (h : self.Fails buffer.readable) (out_command : List Bytes) :
    (self.parse buffer out_command).status = .ERROR := by
  obtain ⟨parser, left, failed, hadvances, hturn⟩ := h
  obtain ⟨parser', left', hadvances', hends⟩ := self.parse_ends buffer out_command
  have hstop : ∀ s n, parser'.turn left' ≠ .advance s n := by
    intro s n heq
    rw [heq] at hends
    exact hends
  obtain ⟨rfl, rfl⟩ := hadvances.last_unique hadvances' (fun s n heq => by
    change parser.turn left = _ at heq
    rw [hturn] at heq
    cases heq) hstop
  rw [hturn] at hends
  exact hends.1

end

section

variable {text rest bulk element bulks word : Bytes} {size len : Int} {current elements command : List Bytes}

theorem drop_header (tag : UInt8) (text rest : Bytes) :
    (tag :: text ++ crlf ++ rest).drop (text.length + 3) = rest := by
  have hlength : text.length + 3 = (tag :: text ++ crlf).length := by simp [crlf]
  rw [hlength, List.drop_left]

/-- A bulk is read to its end. -/
theorem IsBulk.turn (h : IsBulk bulk element) (hlt : (current.length : Int) < size) (hfits : size < 2 ^ 63)
    (len : Int) (rest : Bytes) :
    ∃ parser left used len', RESPParser.machine.Advances (.atBulk size len current) (bulk ++ rest) parser left ∧
      left.drop used = rest ∧ parser.turn left =
        if (current.length : Int) + 1 = size then .output (current ++ [element]) .reset used
        else .advance (.atBulk size len' (current ++ [element])) used := by
  cases h with
  | @data text _ hlength =>
    have hword : 36 :: text ++ crlf ++ element ++ crlf ++ rest = 36 :: text ++ crlf ++ (element ++ crlf ++ rest) := by
      simp
    rw [hword]
    refine ⟨.atData size element.length hlength.lt current, element ++ crlf ++ rest, element.length + 2,
      element.length, .step (RESPParser.turn_atBulk_data hlength _) ?_, ?_, ?_⟩
    · rw [drop_header]
      exact .refl _ _
    · have hused : element.length + 2 = (element ++ crlf).length := by simp [crlf]
      rw [hused, List.drop_left]
    · rw [RESPParser.turn_atData]
      exact RESPParser.add_element_eq rfl rfl hlt hfits _ _
  | @null text hlength =>
    refine ⟨.atBulk size len current, 36 :: text ++ crlf ++ rest, text.length + 3, -1, .refl _ _,
      drop_header 36 text rest, ?_⟩
    rw [RESPParser.turn_atBulk_null hlength]
    exact RESPParser.add_element_eq rfl rfl hlt hfits _ _

/-- Bulks that do not complete the command lead to the header of the next one. -/
theorem IsBulks.advances (h : IsBulks bulks elements) (hlt : (current.length : Int) + elements.length < size)
    (hfits : size < 2 ^ 63) (len : Int) (rest : Bytes) :
    ∃ len', RESPParser.machine.Advances (.atBulk size len current) (bulks ++ rest)
      (.atBulk size len' (current ++ elements)) rest := by
  induction h generalizing current len with
  | nil => exact ⟨len, by simpa using .refl _ _⟩
  | @cons count bulk element bulks elements hbulk hbulks ih =>
    rw [List.length_cons] at hlt
    obtain ⟨parser, left, used, len1, hadvances, hleft, hturn⟩ :=
      hbulk.turn (show (current.length : Int) < size by omega) hfits len (bulks ++ rest)
    rw [if_neg (by omega)] at hturn
    obtain ⟨len2, hlater⟩ := @ih (current ++ [element]) (by simp; omega) len1
    refine ⟨len2, ?_⟩
    have hword : blanks count ++ bulk ++ bulks ++ rest = blanks count ++ (bulk ++ (bulks ++ rest)) := by simp
    rw [hword]
    refine (RESPParser.advances_blanks (RESPParser.atBulk_ne_data size len current) count _).trans (hadvances.trans ?_)
    refine .step hturn ?_
    rw [hleft]
    simpa using hlater

/-- Bulks that complete the command. -/
theorem IsBulks.yields (h : IsBulks bulks elements) (hne : elements ≠ [])
    (hsize : (current.length : Int) + elements.length = size) (hfits : size < 2 ^ 63) (len : Int) (rest : Bytes) :
    (RESPParser.atBulk size len current).Yields (bulks ++ rest) (current ++ elements) rest := by
  induction h generalizing current len with
  | nil => exact absurd rfl hne
  | @cons count bulk element bulks elements hbulk hbulks ih =>
    rw [List.length_cons] at hsize
    obtain ⟨parser, left, used, len1, hadvances, hleft, hturn⟩ :=
      hbulk.turn (show (current.length : Int) < size by omega) hfits len (bulks ++ rest)
    have hword : blanks count ++ bulk ++ bulks ++ rest = blanks count ++ (bulk ++ (bulks ++ rest)) := by simp
    rw [hword]
    have hreach := (RESPParser.advances_blanks (RESPParser.atBulk_ne_data size len current) count _).trans hadvances
    by_cases hlast : elements = []
    · subst hlast
      cases hbulks
      rw [if_pos (by simpa using hsize)] at hturn
      exact ⟨parser, left, used, hreach, hturn, hleft⟩
    · have hpos := List.length_pos_of_ne_nil hlast
      rw [if_neg (by omega)] at hturn
      have hlater := @ih (current ++ [element]) hlast (by simp; omega) len1
      rw [List.append_assoc, List.singleton_append] at hlater
      refine hlater.of_advances (hreach.trans (.step hturn ?_))
      rw [hleft]
      exact .refl _ _

/-- A word of the grammar is parsed as the command it stands for. -/
theorem IsCommand.yields (h : IsCommand word command) (size len : Int) (rest : Bytes) :
    (RESPParser.atArray size len).Yields (word ++ rest) command rest := by
  cases h with
  | @array count text bulks _ hsize hbulks =>
    have hword : blanks count ++ 42 :: text ++ crlf ++ bulks ++ rest =
        blanks count ++ (42 :: text ++ crlf ++ (bulks ++ rest)) := by simp
    have hturn : (RESPParser.atArray size len).turn (42 :: text ++ crlf ++ (bulks ++ rest)) = _ :=
      RESPParser.turn_atArray hsize (bulks ++ rest)
    rw [hword]
    refine RESPParser.Yields.of_advances ?_ (RESPParser.advances_blanks (RESPParser.atArray_ne_data size len) count _)
    rw [if_neg (by omega)] at hturn
    by_cases hempty : command = []
    · subst hempty
      cases hbulks
      rw [if_pos (by simp)] at hturn
      exact ⟨_, _, _, .refl _ _, hturn, drop_header 42 text rest⟩
    · have hpos := List.length_pos_of_ne_nil hempty
      rw [if_neg (by omega)] at hturn
      have hyields : (RESPParser.atBulk command.length len []).Yields (bulks ++ rest) ([] ++ command) rest :=
        hbulks.yields hempty (by simp) hsize.lt len rest
      refine hyields.of_advances (.step hturn ?_)
      rw [drop_header]
      exact .refl _ _

end

/-- The parsers that a new one can become: within a command, elements are missing. -/
inductive RESPParser.Valid : RESPParser → Prop
  | array (size len : Int) : Valid (.atArray size len)
  | bulk {size : Int} (len : Int) {current : List Bytes} (missing : (current.length : Int) < size)
      (fits : size < 2 ^ 63) : Valid (.atBulk size len current)
  | data {size : Int} {len : Nat} (hlen : (len : Int) < 2 ^ 63) {current : List Bytes}
      (missing : (current.length : Int) < size) (fits : size < 2 ^ 63) : Valid (.atData size len hlen current)

/-- The words that complete the command a parser is in, and the command. -/
def RESPParser.Expects (self : RESPParser) (word : Bytes) (command : List Bytes) : Prop :=
  match self.state with
  | .EXPECT_ARRAY_SIZE => IsCommand word command
  | .EXPECT_BULK_SIZE => ∃ elements, IsBulks word elements ∧ elements ≠ [] ∧
    command = self.current_command ++ elements ∧ (command.length : Int) = self.array_size
  | .EXPECT_BULK_DATA => ∃ element bulks elements, word = element ++ crlf ++ bulks ∧
    (element.length : Int) = self.bulk_len ∧ IsBulks bulks elements ∧
    command = self.current_command ++ element :: elements ∧ (command.length : Int) = self.array_size

section

variable {self next : RESPParser} {input rest : Bytes} {command : List Bytes} {used : Nat}

theorem IsBulks.blank {bulks : Bytes} {elements : List Bytes} (h : IsBulks bulks elements) (hne : elements ≠ []) :
    IsBulks (crlf ++ bulks) elements := by
  cases h with
  | nil => exact absurd rfl hne
  | @cons count bulk element bulks elements hbulk hbulks =>
    have hword : crlf ++ (blanks count ++ bulk ++ bulks) = blanks (count + 1) ++ bulk ++ bulks := by
      simp [blanks, List.replicate_succ]
    rw [hword]
    exact .cons (count + 1) hbulk hbulks

theorem IsCommand.blank {word : Bytes} (h : IsCommand word command) : IsCommand (crlf ++ word) command := by
  cases h with
  | @array count text bulks _ hsize hbulks =>
    have hword : crlf ++ (blanks count ++ 42 :: text ++ crlf ++ bulks) =
        blanks (count + 1) ++ 42 :: text ++ crlf ++ bulks := by
      simp [blanks, List.replicate_succ]
    rw [hword]
    exact .array (count + 1) hsize hbulks

/-- What a pass can do. -/
inductive RESPParser.Steps (self : RESPParser) (input : Bytes) : Prop
  | wait (turn : self.turn input = .wait)
  | fail (failed : RESPParser) (turn : self.turn input = .fail failed)
  | output (command : List Bytes) (used : Nat) (turn : self.turn input = .output command .reset used)
      (expects : self.Expects (input.take used) command)
  | advance (next : RESPParser) (used : Nat) (turn : self.turn input = .advance next used) (valid : next.Valid)
      (expects : ∀ word command, next.Expects word command → self.Expects (input.take used ++ word) command)

theorem take_header (tag : UInt8) (text rest : Bytes) :
    (tag :: text ++ crlf ++ rest).take (text.length + 3) = tag :: text ++ crlf := by
  have hlength : text.length + 3 = (tag :: text ++ crlf).length := by simp [crlf]
  rw [hlength, List.take_left]

theorem RESPParser.steps_atArray (size len : Int) (input : Bytes) : (atArray size len).Steps input := by
  by_cases hne : input = []
  · exact .wait (by rw [hne]; rfl)
  have hturn := turn_array_size (show (atArray size len).state = _ from rfl) hne
  rcases read_header_cases 42 size input with hmissing | ⟨rest, rfl, hblank⟩ | ⟨value, hmalformed⟩ |
    ⟨text, rest, number, rfl, hdecimal, -⟩
  · exact .wait (by rw [hturn, show (atArray size len).array_size = size from rfl, hmissing]; rfl)
  · refine .advance _ 2 (turn_blank (atArray_ne_data size len) rest) (.array size len) ?_
    intro word command hexpects
    exact IsCommand.blank hexpects
  · exact .fail _ (by rw [hturn, show (atArray size len).array_size = size from rfl, hmalformed]; rfl)
  · have hturn : (atArray size len).turn (42 :: text ++ crlf ++ rest) = _ := turn_atArray hdecimal rest
    split_ifs at hturn with hneg hzero
    · exact .fail _ hturn
    · subst hzero
      refine .output [] _ hturn ?_
      have hcommand : IsCommand (blanks 0 ++ 42 :: text ++ crlf ++ []) [] := .array 0 hdecimal .nil
      rw [List.append_nil] at hcommand
      rw [take_header]
      exact hcommand
    · refine .advance _ _ hturn (.bulk len (by simp; omega) hdecimal.lt) ?_
      rintro word command ⟨elements, hbulks, -, rfl, hsize⟩
      rw [take_header]
      refine .array 0 ?_ hbulks
      rw [hsize]
      exact hdecimal

theorem RESPParser.steps_atBulk {size : Int} {current : List Bytes} (hlt : (current.length : Int) < size)
    (hfits : size < 2 ^ 63) (len : Int) (input : Bytes) : (atBulk size len current).Steps input := by
  by_cases hne : input = []
  · exact .wait (by rw [hne]; rfl)
  have hturn := turn_bulk_size (show (atBulk size len current).state = _ from rfl) hne
  have hlen : (atBulk size len current).bulk_len = len := rfl
  rcases read_header_cases 36 len input with hmissing | ⟨rest, rfl, hblank⟩ | ⟨value, hmalformed⟩ |
    ⟨text, rest, number, rfl, hdecimal, -⟩
  · simp only [hlen, hmissing] at hturn
    exact .wait hturn
  · refine .advance _ 2 (turn_blank (atBulk_ne_data size len current) rest) (.bulk len hlt hfits) ?_
    rintro word command ⟨elements, hbulks, hne, hcommand⟩
    exact ⟨elements, hbulks.blank hne, hne, hcommand⟩
  · simp only [hlen, hmalformed] at hturn
    exact .fail _ hturn
  · rcases lt_trichotomy number (-1) with hneg | rfl | hnonneg
    · exact .fail _ (turn_atBulk_negative hdecimal hneg rest)
    · have hturn : (atBulk size len current).turn (36 :: text ++ crlf ++ rest) =
          if (current.length : Int) + 1 = size then .output (current ++ [[]]) .reset (text.length + 3)
          else .advance (atBulk size (-1) (current ++ [[]])) (text.length + 3) :=
        (turn_atBulk_null hdecimal rest).trans (add_element_eq rfl rfl hlt hfits _ _)
      have hbulk : IsBulks (blanks 0 ++ (36 :: text ++ crlf) ++ []) [[]] := .cons 0 (.null hdecimal) .nil
      split_ifs at hturn with hlast
      · refine .output _ _ hturn ?_
        rw [take_header]
        rw [List.append_nil] at hbulk
        exact ⟨[[]], hbulk, by simp, rfl, by simpa [atBulk] using hlast⟩
      · refine .advance _ _ hturn (.bulk _ (by simp; omega) hfits) ?_
        rintro word command ⟨elements, hbulks, -, rfl, hsize⟩
        rw [take_header]
        refine ⟨[] :: elements, .cons 0 (.null hdecimal) hbulks, by simp, by simp [atBulk], hsize⟩
    · obtain ⟨len', rfl⟩ := Int.eq_ofNat_of_zero_le (show 0 ≤ number by omega)
      refine .advance _ _ (turn_atBulk_data hdecimal rest) (.data hdecimal.lt hlt hfits) ?_
      rintro word command ⟨element, bulks, elements, rfl, hlength, hbulks, rfl, hsize⟩
      rw [take_header]
      have hdata : IsDecimal text element.length := by
        rw [hlength]
        exact hdecimal
      refine ⟨element :: elements, ?_, by simp, rfl, hsize⟩
      have hword : 36 :: text ++ crlf ++ (element ++ crlf ++ bulks) =
          blanks 0 ++ (36 :: text ++ crlf ++ element ++ crlf) ++ bulks := by
        simp [blanks]
      rw [hword]
      exact .cons 0 (.data hdata) hbulks

theorem RESPParser.steps_atData {size : Int} {len : Nat} (hlen : (len : Int) < 2 ^ 63) {current : List Bytes}
    (hlt : (current.length : Int) < size) (hfits : size < 2 ^ 63) (input : Bytes) :
    (atData size len hlen current).Steps input := by
  by_cases hne : input = []
  · exact .wait (by rw [hne]; rfl)
  by_cases hshort : input.length < len + 2
  · have hturn := turn_bulk_data (show (atData size len hlen current).state = _ from rfl) hne
    obtain ⟨-, hsize⟩ := data_sizes (show (atData size len hlen current).state = _ from rfl)
    rw [expect_bulk_data, hsize, show (atData size len hlen current).bulk_len.toNat = len from rfl,
      if_pos hshort] at hturn
    exact .wait hturn
  obtain ⟨data, rest, rfl, rfl⟩ : ∃ data rest, input = data ++ rest ∧ data.length = len :=
    ⟨input.take len, input.drop len, (List.take_append_drop _ _).symm, by rw [List.length_take]; omega⟩
  rw [List.length_append] at hshort
  by_cases hend : crlf <+: rest
  · obtain ⟨rest, rfl⟩ := hend
    have htake : (data ++ (crlf ++ rest)).take (data.length + 2) = data ++ crlf := by
      have hused : data.length + 2 = (data ++ crlf).length := by simp [crlf]
      rw [← List.append_assoc, hused, List.take_left]
    have hturn : (atData size data.length hlen current).turn (data ++ (crlf ++ rest)) =
        if (current.length : Int) + 1 = size then .output (current ++ [data]) .reset (data.length + 2)
        else .advance (atBulk size data.length (current ++ [data])) (data.length + 2) := by
      rw [← List.append_assoc]
      exact (turn_atData rest).trans (add_element_eq rfl rfl hlt hfits _ _)
    split_ifs at hturn with hlast
    · refine .output _ _ hturn ?_
      rw [htake]
      exact ⟨data, [], [], by simp, rfl, .nil, rfl, by simpa [atData] using hlast⟩
    · refine .advance _ _ hturn (.bulk _ (by simp; omega) hfits) ?_
      rintro word command ⟨elements, hbulks, -, rfl, hsize⟩
      rw [htake]
      exact ⟨data, word, elements, rfl, rfl, hbulks, by simp [atBulk, atData], hsize⟩
  · exact .fail _ (turn_atData_fail (by omega) hend)

theorem RESPParser.Valid.steps (h : self.Valid) (input : Bytes) : self.Steps input := by
  cases h with
  | array size len => exact steps_atArray size len input
  | bulk len hlt hfits => exact steps_atBulk hlt hfits len input
  | data hlen hlt hfits => exact steps_atData hlen hlt hfits input

/-- What the parser reads up to the end of a command is a word that completes it. -/
theorem RESPParser.Valid.expects_of_advances (h : self.Valid) {last : RESPParser} {left : Bytes}
    (hadvances : machine.Advances self input last left) (hturn : last.turn left = .output command next used) :
    next = .reset ∧ ∃ word, input = word ++ left.drop used ∧ self.Expects word command := by
  induction hadvances with
  | refl self input =>
    cases h.steps input with
    | wait hstep => rw [hturn] at hstep; cases hstep
    | fail _ hstep => rw [hturn] at hstep; cases hstep
    | output command' used' hstep hexpects =>
      rw [hturn] at hstep
      cases hstep
      exact ⟨rfl, input.take used, (List.take_append_drop _ _).symm, hexpects⟩
    | advance _ _ hstep => rw [hturn] at hstep; cases hstep
  | @step self mid last input left used' hstep hlater ih =>
    cases h.steps input with
    | wait hstep' => rw [show self.turn input = _ from hstep] at hstep'; cases hstep'
    | fail _ hstep' => rw [show self.turn input = _ from hstep] at hstep'; cases hstep'
    | output _ _ hstep' => rw [show self.turn input = _ from hstep] at hstep'; cases hstep'
    | advance mid' used'' hstep' hvalid hexpects =>
      rw [show self.turn input = _ from hstep] at hstep'
      cases hstep'
      obtain ⟨hnext, word, hword, hword'⟩ := ih hvalid hturn
      refine ⟨hnext, input.take used' ++ word, ?_, hexpects word command hword'⟩
      rw [List.append_assoc, ← hword, List.take_append_drop]

/-- A call of `Parse` on a valid parser that succeeds has read a word that completes
the command. -/
theorem RESPParser.Valid.parse_success (h : self.Valid) {buffer : NetworkBuffer} {out_command : List Bytes}
    (hstatus : (self.parse buffer out_command).status = .SUCCESS) :
    ∃ word, buffer.readable = word ++ (self.parse buffer out_command).buffer.readable ∧
      self.Expects word (self.parse buffer out_command).out_command := by
  obtain ⟨parser, left, hadvances, hends⟩ := self.parse_ends buffer out_command
  cases hturn : parser.turn left with
  | wait => rw [hturn] at hends; rw [hends.1] at hstatus; cases hstatus
  | fail => rw [hturn] at hends; rw [hends.1] at hstatus; cases hstatus
  | advance => rw [hturn] at hends; cases hends
  | output command next used =>
    rw [hturn] at hends
    obtain ⟨-, hcommand, -, hrest⟩ := hends
    obtain ⟨-, hexpects⟩ := h.expects_of_advances hadvances hturn
    rw [hcommand, hrest]
    exact hexpects

end

/-- A line that can open a command. -/
def FitsArray (line : Bytes) : Prop := ∃ text number, line = 42 :: text ∧ IsDecimal text number ∧ 0 ≤ number

/-- A line that can open a bulk. -/
def FitsBulk (line : Bytes) : Prop := ∃ text number, line = 36 :: text ∧ IsDecimal text number ∧ -1 ≤ number

/-- The beginning of a command, up to where a bulk must follow. -/
inductive IsOpening : Bytes → Prop
  | elements (before after : Nat) {text bulks : Bytes} {number : Int} {elements : List Bytes}
      (size : IsDecimal text number) (some : IsBulks bulks elements) (missing : (elements.length : Int) < number) :
      IsOpening (blanks before ++ 42 :: text ++ crlf ++ bulks ++ blanks after)

section

variable {opening line text data rest : Bytes}

theorem IsOpening.advances (h : IsOpening opening) (rest : Bytes) :
    ∃ number len elements, (elements.length : Int) < number ∧ number < 2 ^ 63 ∧
      RESPParser.machine.Advances .reset (opening ++ rest) (.atBulk number len elements) rest := by
  cases h with
  | @elements before after text bulks number elements hsize hbulks hmissing =>
    have hturn : (RESPParser.atArray 0 0).turn (42 :: text ++ crlf ++ (bulks ++ (blanks after ++ rest))) = _ :=
      RESPParser.turn_atArray hsize _
    rw [if_neg (by omega), if_neg (by omega)] at hturn
    obtain ⟨len, hadvances⟩ : ∃ len, RESPParser.machine.Advances (.atBulk number 0 [])
        (bulks ++ (blanks after ++ rest)) (.atBulk number len ([] ++ elements)) (blanks after ++ rest) :=
      hbulks.advances (by simpa using hmissing) hsize.lt 0 _
    have hword : blanks before ++ 42 :: text ++ crlf ++ bulks ++ blanks after ++ rest =
        blanks before ++ (42 :: text ++ crlf ++ (bulks ++ (blanks after ++ rest))) := by simp
    refine ⟨number, len, elements, hmissing, hsize.lt, ?_⟩
    rw [hword]
    refine (RESPParser.advances_blanks (RESPParser.atArray_ne_data 0 0) before _).trans (.step hturn ?_)
    rw [drop_header]
    exact hadvances.trans (RESPParser.advances_blanks (RESPParser.atBulk_ne_data number len elements) after rest)

/-- A line that cannot open a command. -/
theorem RESPParser.fails_of_array_line (count : Nat) (hne : line ≠ []) (hline : ¬ crlf <:+: line)
    (hfits : ¬ FitsArray line) (rest : Bytes) : reset.Fails (blanks count ++ (line ++ crlf ++ rest)) := by
  refine RESPParser.Fails.of_advances ?_ (advances_blanks (atArray_ne_data 0 0) count _)
  by_cases hnumber : ∃ text number, line = 42 :: text ∧ IsDecimal text number
  · obtain ⟨text, number, rfl, hdecimal⟩ := hnumber
    have hturn : (atArray 0 0).turn (42 :: text ++ crlf ++ rest) = _ := turn_atArray hdecimal rest
    have hneg : number < 0 := by
      by_contra hnonneg
      exact hfits ⟨text, number, rfl, hdecimal, by omega⟩
    rw [if_pos hneg] at hturn
    exact ⟨_, _, _, .refl _ _, hturn⟩
  · obtain ⟨value, hmalformed⟩ : ∃ value, line_header 42 0 line = .malformed value :=
      line_header_malformed hne hnumber
    refine ⟨_, _, atArray value 0, .refl _ _, ?_⟩
    rw [turn_array_size rfl (by simp [hne]), read_header_line hline]
    exact congrArg _ hmalformed

/-- A line that cannot open a bulk. -/
theorem RESPParser.fails_of_bulk_line (hopening : IsOpening opening) (hne : line ≠ []) (hline : ¬ crlf <:+: line)
    (hfits : ¬ FitsBulk line) (rest : Bytes) : reset.Fails (opening ++ (line ++ crlf ++ rest)) := by
  obtain ⟨size, len, current, -, -, hadvances⟩ := hopening.advances (line ++ crlf ++ rest)
  refine RESPParser.Fails.of_advances ?_ hadvances
  by_cases hnumber : ∃ text number, line = 36 :: text ∧ IsDecimal text number
  · obtain ⟨text, number, rfl, hdecimal⟩ := hnumber
    have hneg : number < -1 := by
      by_contra hnonneg
      exact hfits ⟨text, number, rfl, hdecimal, by omega⟩
    exact ⟨_, _, _, .refl _ _, turn_atBulk_negative hdecimal hneg rest⟩
  · obtain ⟨value, hmalformed⟩ : ∃ value, line_header 36 len line = .malformed value :=
      line_header_malformed hne hnumber
    have hheader : read_header 36 (atBulk size len current).bulk_len (line ++ crlf ++ rest) = .malformed value := by
      rw [read_header_line hline]
      exact hmalformed
    refine ⟨_, _, atBulk size value current, .refl _ _, ?_⟩
    rw [turn_bulk_size rfl (by simp [hne])]
    simp only [hheader]
    rfl

/-- Data that CR LF does not follow. -/
theorem RESPParser.fails_of_data (hopening : IsOpening opening) (hlength : IsDecimal text data.length)
    (hrest : 2 ≤ rest.length) (hend : ¬ crlf <+: rest) :
    reset.Fails (opening ++ (36 :: text ++ crlf ++ (data ++ rest))) := by
  obtain ⟨size, len, current, -, -, hadvances⟩ := hopening.advances (36 :: text ++ crlf ++ (data ++ rest))
  refine RESPParser.Fails.of_advances ?_ hadvances
  refine ⟨atData size data.length hlength.lt current, data ++ rest, _, .step (turn_atBulk_data hlength _) ?_,
    turn_atData_fail hrest hend⟩
  rw [drop_header]
  exact .refl _ _

end

section

variable (buffer : NetworkBuffer) (out_command : List Bytes)

theorem RESPParser.parse_success_iff (command : List Bytes) (rest : Bytes) :
    ((reset.parse buffer out_command).status = .SUCCESS ∧ (reset.parse buffer out_command).out_command = command ∧
      (reset.parse buffer out_command).buffer.readable = rest) ↔
    ∃ word, buffer.readable = word ++ rest ∧ IsCommand word command := by
  constructor
  · rintro ⟨hstatus, rfl, rfl⟩
    exact (Valid.array 0 0).parse_success hstatus
  · rintro ⟨word, hreadable, hcommand⟩
    have hyields : reset.Yields buffer.readable command rest := by
      rw [hreadable]
      exact hcommand.yields 0 0 rest
    obtain ⟨hstatus, hout, -, hrest⟩ := hyields.parse out_command
    exact ⟨hstatus, hout, hrest⟩

/-- A call of `Parse` on a new parser succeeds with a command and leaves some bytes
exactly when the bytes before these are a word of the grammar that stands for the
command; there is at most one such split. It returns an error when a line is there
that cannot open the command or the next bulk, and when CR LF does not follow the
data. -/
theorem RESPParser.parse_accepts_grammar :
    (∀ command rest,
      ((reset.parse buffer out_command).status = .SUCCESS ∧
        (reset.parse buffer out_command).out_command = command ∧
        (reset.parse buffer out_command).buffer.readable = rest) ↔
      ∃ word, buffer.readable = word ++ rest ∧ IsCommand word command) ∧
    (∀ word command rest word' command' rest', buffer.readable = word ++ rest → IsCommand word command →
      buffer.readable = word' ++ rest' → IsCommand word' command' →
      word = word' ∧ command = command' ∧ rest = rest') ∧
    (∀ count line rest, buffer.readable = blanks count ++ (line ++ crlf ++ rest) → line ≠ [] →
      ¬ crlf <:+: line → ¬ FitsArray line → (reset.parse buffer out_command).status = .ERROR) ∧
    (∀ opening line rest, buffer.readable = opening ++ (line ++ crlf ++ rest) → IsOpening opening → line ≠ [] →
      ¬ crlf <:+: line → ¬ FitsBulk line → (reset.parse buffer out_command).status = .ERROR) ∧
    ∀ opening text data rest, buffer.readable = opening ++ (36 :: text ++ crlf ++ (data ++ rest)) →
      IsOpening opening → IsDecimal text data.length → 2 ≤ rest.length → ¬ crlf <+: rest →
      (reset.parse buffer out_command).status = .ERROR := by
  refine ⟨parse_success_iff buffer out_command, ?_, ?_, ?_, ?_⟩
  · intro word command rest word' command' rest' hsplit hcommand hsplit' hcommand'
    obtain ⟨-, hout, hrest⟩ := (parse_success_iff buffer out_command _ _).mpr ⟨word, hsplit, hcommand⟩
    obtain ⟨-, hout', hrest'⟩ := (parse_success_iff buffer out_command _ _).mpr ⟨word', hsplit', hcommand'⟩
    have hsame : rest = rest' := hrest.symm.trans hrest'
    subst hsame
    rw [hsplit'] at hsplit
    exact ⟨(List.append_cancel_right hsplit).symm, hout.symm.trans hout', rfl⟩
  · intro count line rest hreadable hne hline hfits
    refine Fails.parse ?_ out_command
    rw [hreadable]
    exact fails_of_array_line count hne hline hfits rest
  · intro opening line rest hreadable hopening hne hline hfits
    refine Fails.parse ?_ out_command
    rw [hreadable]
    exact fails_of_bulk_line hopening hne hline hfits rest
  · intro opening text data rest hreadable hopening hlength hrest hend
    refine Fails.parse ?_ out_command
    rw [hreadable]
    exact fails_of_data hopening hlength hrest hend

end

/-- An empty line, a command with one element, and a byte more. -/
theorem parse_accepts_one_element :
    (RESPParser.reset.parse ((NetworkBuffer.new 1024).append [13, 10, 42, 49, 13, 10, 36, 49, 13, 10, 7, 13, 10, 42])
      []).status = .SUCCESS ∧
    (RESPParser.reset.parse ((NetworkBuffer.new 1024).append [13, 10, 42, 49, 13, 10, 36, 49, 13, 10, 7, 13, 10, 42])
      []).out_command = [[7]] ∧
    (RESPParser.reset.parse ((NetworkBuffer.new 1024).append [13, 10, 42, 49, 13, 10, 36, 49, 13, 10, 7, 13, 10, 42])
      []).buffer.readable = [42] := by
  have hone : IsDecimal [49] 1 := .unsigned (by simp) (by simp [isDigit]) (by decide)
  refine ((RESPParser.parse_accepts_grammar _ _).1 _ _).mpr
    ⟨[13, 10, 42, 49, 13, 10, 36, 49, 13, 10, 7, 13, 10], by simp, ?_⟩
  exact .array 1 hone (.cons 0 (@IsBulk.data [49] [7] hone) .nil)

end NovaKV

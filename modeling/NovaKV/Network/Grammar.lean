import NovaKV.Network.Parser

open NovaKV.Lib

namespace NovaKV

/-- The decimals that `std::from_chars` reads whole into a 64-bit signed integer. -/
inductive IsDecimal : Bytes → Int → Prop
  | unsigned {digits : Bytes} (nonempty : digits ≠ []) (digit : ∀ byte ∈ digits, isDigit byte = true)
      (fits : digitsValue digits < 2 ^ 63) : IsDecimal digits (digitsValue digits)
  | negative {digits : Bytes} (nonempty : digits ≠ []) (digit : ∀ byte ∈ digits, isDigit byte = true)
      (fits : digitsValue digits ≤ 2 ^ 63) : IsDecimal (45 :: digits) (-digitsValue digits)

/-- A run of empty lines. -/
def blanks (count : Nat) : Bytes := (List.replicate count crlf).flatten

/-- A bulk and the element it stands for: bytes behind their length, or a null. -/
inductive IsBulk : Bytes → Bytes → Prop
  | data {text element : Bytes} (length : IsDecimal text element.length) :
      IsBulk (36 :: text ++ crlf ++ element ++ crlf) element
  | null {text : Bytes} (length : IsDecimal text (-1)) : IsBulk (36 :: text ++ crlf) []

/-- A sequence of bulks, each after any number of empty lines. -/
inductive IsBulks : Bytes → List Bytes → Prop
  | nil : IsBulks [] []
  | cons (count : Nat) {bulk element rest : Bytes} {elements : List Bytes} (first : IsBulk bulk element)
      (later : IsBulks rest elements) : IsBulks (blanks count ++ bulk ++ rest) (element :: elements)

/-- A command: the number of its elements, then the elements. -/
inductive IsCommand : Bytes → List Bytes → Prop
  | array (count : Nat) {text bulks : Bytes} {elements : List Bytes}
      (size : IsDecimal text elements.length) (all : IsBulks bulks elements) :
      IsCommand (blanks count ++ 42 :: text ++ crlf ++ bulks) elements

section

variable {text line input rest : Bytes} {value number : Int} {tag : UInt8}

theorem takeWhile_isDigit {digits : Bytes} (h : ∀ byte ∈ digits, isDigit byte = true) :
    digits.takeWhile isDigit = digits ∧ digits.dropWhile isDigit = [] := by
  rw [List.takeWhile_eq_self_iff, List.dropWhile_eq_nil_iff]
  exact ⟨h, h⟩

theorem IsDecimal.from_chars (h : IsDecimal text number) (value : Int) :
    from_chars text value = ⟨number, [], true⟩ := by
  cases h with
  | unsigned hne hdigit hfits =>
    obtain ⟨htake, hdrop⟩ := takeWhile_isDigit hdigit
    have hsign : text.head? ≠ some 45 := by
      intro hhead
      have hminus := hdigit 45 (List.mem_of_mem_head? hhead)
      cases hminus
    have hrange : -2 ^ 63 ≤ (digitsValue text : Int) ∧ (digitsValue text : Int) < 2 ^ 63 := by omega
    rw [NovaKV.from_chars, if_neg hsign, convert_digits, htake, hdrop, if_neg hne]
    simp only [Bool.false_eq_true, if_false]
    rw [if_pos hrange]
  | @negative digits hne hdigit hfits =>
    obtain ⟨htake, hdrop⟩ := takeWhile_isDigit hdigit
    have hrange : -2 ^ 63 ≤ -(digitsValue digits : Int) ∧ -(digitsValue digits : Int) < 2 ^ 63 := by omega
    rw [NovaKV.from_chars, if_pos List.head?_cons, List.tail_cons, convert_digits, htake, hdrop, if_neg hne]
    simp only [if_true]
    rw [if_pos hrange]

/-- What `std::from_chars` reads whole is a decimal. -/
theorem isDecimal_of_from_chars (hok : (NovaKV.from_chars text value).ok = true)
    (hrest : (NovaKV.from_chars text value).rest = []) :
    IsDecimal text (NovaKV.from_chars text value).value := by
  unfold NovaKV.from_chars at hok hrest ⊢
  split at hok
  · rename_i hsign
    rw [if_pos hsign] at hrest ⊢
    obtain ⟨digits, rfl⟩ : ∃ digits, text = 45 :: digits := List.head?_eq_some_iff.mp hsign
    simp only [convert_digits, List.tail_cons, if_true] at hok hrest ⊢
    split_ifs at hok hrest ⊢ with hne hrange
    have hdigit : ∀ byte ∈ digits, isDigit byte = true := List.dropWhile_eq_nil_iff.mp hrest
    obtain ⟨htake, -⟩ := takeWhile_isDigit hdigit
    rw [htake] at hne hrange ⊢
    exact .negative hne hdigit (by omega)
  · rename_i hsign
    rw [if_neg hsign] at hrest ⊢
    simp only [convert_digits, Bool.false_eq_true, if_false] at hok hrest ⊢
    split_ifs at hok hrest ⊢ with hne hrange
    have hdigit : ∀ byte ∈ text, isDigit byte = true := List.dropWhile_eq_nil_iff.mp hrest
    obtain ⟨htake, -⟩ := takeWhile_isDigit hdigit
    rw [htake] at hne hrange ⊢
    exact .unsigned hne hdigit (by omega)

theorem IsDecimal.lt (h : IsDecimal text number) : number < 2 ^ 63 := by
  have hok := from_chars_value_lt (show (NovaKV.from_chars text 0).ok = true by rw [h.from_chars])
  rwa [h.from_chars] at hok

/-- The header lines with a given first byte. -/
theorem line_header_eq_number_iff {length : Nat} :
    line_header tag value line = .number number length ↔
      ∃ text, line = tag :: text ∧ IsDecimal text number ∧ length = line.length := by
  constructor
  · intro h
    cases line with
    | nil => cases h
    | cons first chars =>
      simp only [line_header] at h
      split_ifs at h with htag hvalid
      simp only [not_or, Bool.not_eq_false, not_not] at htag hvalid
      cases h
      subst htag
      exact ⟨chars, rfl, isDecimal_of_from_chars hvalid.1 hvalid.2, rfl⟩
  · rintro ⟨text, rfl, hdecimal, rfl⟩
    simp [line_header, hdecimal.from_chars]

/-- Any other line but the empty one is malformed. -/
theorem line_header_malformed (hne : line ≠ []) (h : ¬ ∃ text number, line = tag :: text ∧ IsDecimal text number) :
    ∃ value', line_header tag value line = .malformed value' := by
  cases hheader : line_header tag value line with
  | missing =>
    unfold line_header at hheader
    split at hheader
    · cases hheader
    · dsimp only at hheader
      split_ifs at hheader
  | blank => exact absurd (line_header_blank hheader) hne
  | malformed value' => exact ⟨value', rfl⟩
  | number number length =>
    obtain ⟨text, htext, hdecimal, -⟩ := line_header_eq_number_iff.mp hheader
    exact absurd ⟨text, number, htext, hdecimal⟩ h

/-- The first line ends where the first CR LF is. -/
theorem find_crlf_line (hline : ¬ crlf <:+: line) (rest : Bytes) :
    find_crlf (line ++ crlf ++ rest) = some line.length := by
  induction line with
  | nil => rfl
  | cons byte line ih =>
    have hlater : ¬ crlf <:+: line := fun hpart => hline (hpart.trans (List.suffix_cons byte line).isInfix)
    have hhead : ¬ (byte = 13 ∧ (line ++ crlf ++ rest).head? = some 10) := by
      rintro ⟨rfl, hnext⟩
      cases line with
      | nil => cases hnext
      | cons next line =>
        cases hnext
        exact hline ⟨[], line, rfl⟩
    rw [List.cons_append, List.cons_append, find_crlf, if_neg hhead, ih hlater]
    rfl

theorem find_crlf_eq_some {length : Nat} (h : find_crlf input = some length) :
    ∃ line rest, input = line ++ crlf ++ rest ∧ line.length = length ∧ ¬ crlf <:+: line := by
  induction input generalizing length with
  | nil => cases h
  | cons byte input ih =>
    rw [find_crlf] at h
    split at h
    · rename_i hend
      obtain ⟨rfl, hnext⟩ := hend
      cases h
      obtain ⟨rest, rfl⟩ := List.head?_eq_some_iff.mp hnext
      exact ⟨[], rest, rfl, rfl, by simp [crlf]⟩
    · rename_i hend
      obtain ⟨before, hbefore, rfl⟩ := Option.map_eq_some_iff.mp h
      obtain ⟨line, rest, rfl, rfl, hline⟩ := ih hbefore
      refine ⟨byte :: line, rest, rfl, rfl, ?_⟩
      intro hpart
      rcases List.infix_cons_iff.mp hpart with hinit | hlater
      · obtain ⟨tail, htail⟩ := hinit
        cases htail
        exact hend ⟨rfl, rfl⟩
      · exact hline hlater

theorem IsDecimal.cr_not_mem (h : IsDecimal text number) : (13 : UInt8) ∉ text := by
  intro hmem
  cases h with
  | unsigned _ hdigit => cases hdigit 13 hmem
  | negative _ hdigit =>
    rcases List.mem_cons.mp hmem with heq | hmem
    · cases heq
    · cases hdigit 13 hmem

theorem not_infix_crlf (h : (13 : UInt8) ∉ line) : ¬ crlf <:+: line :=
  fun hpart => h (hpart.subset (by simp [crlf]))

/-- A line that is there is read as the header it is. -/
theorem read_header_line (hline : ¬ crlf <:+: line) (rest : Bytes) :
    read_header tag value (line ++ crlf ++ rest) = line_header tag value line := by
  rw [read_header, find_crlf_line hline]
  dsimp only
  rw [List.append_assoc, List.take_left]

theorem read_header_decimal (h : IsDecimal text number) (htag : tag ≠ 13) (rest : Bytes) :
    read_header tag value (tag :: text ++ crlf ++ rest) = .number number (text.length + 1) := by
  have hline : ¬ crlf <:+: tag :: text :=
    not_infix_crlf (by simp [Ne.symm htag, h.cr_not_mem])
  rw [read_header_line hline]
  exact line_header_eq_number_iff.mpr ⟨text, rfl, h, rfl⟩

theorem read_header_blank (tag : UInt8) (value : Int) (rest : Bytes) :
    read_header tag value (crlf ++ rest) = .blank := rfl

/-- What a header is read from. -/
theorem read_header_cases (tag : UInt8) (value : Int) (input : Bytes) :
    read_header tag value input = .missing ∨
    (∃ rest, input = crlf ++ rest ∧ read_header tag value input = .blank) ∨
    (∃ value', read_header tag value input = .malformed value') ∨
    ∃ text rest number, input = tag :: text ++ crlf ++ rest ∧ IsDecimal text number ∧
      read_header tag value input = .number number (text.length + 1) := by
  cases hcrlf : find_crlf input with
  | none => exact .inl (by rw [read_header, hcrlf])
  | some length =>
    obtain ⟨line, rest, rfl, rfl, hline⟩ := find_crlf_eq_some hcrlf
    rw [read_header_line hline]
    cases hheader : line_header tag value line with
    | missing =>
      unfold line_header at hheader
      split at hheader
      · cases hheader
      · dsimp only at hheader
        split_ifs at hheader
    | blank =>
      have hnil := line_header_blank hheader
      subst hnil
      exact .inr (.inl ⟨rest, rfl, rfl⟩)
    | malformed value' => exact .inr (.inr (.inl ⟨value', rfl⟩))
    | number number length =>
      obtain ⟨text, rfl, hdecimal, rfl⟩ := line_header_eq_number_iff.mp hheader
      exact .inr (.inr (.inr ⟨text, rest, number, rfl, hdecimal, rfl⟩))

end

/-- The parser before the header of a command. -/
def RESPParser.atArray (array_size bulk_len : Int) : RESPParser :=
  ⟨.EXPECT_ARRAY_SIZE, array_size, bulk_len, [], nofun⟩

/-- The parser before the header of a bulk. -/
def RESPParser.atBulk (array_size bulk_len : Int) (current : List Bytes) : RESPParser :=
  ⟨.EXPECT_BULK_SIZE, array_size, bulk_len, current, nofun⟩

/-- The parser before `len` bytes of data. -/
def RESPParser.atData (array_size : Int) (len : Nat) (hlen : (len : Int) < 2 ^ 63) (current : List Bytes) :
    RESPParser :=
  ⟨.EXPECT_BULK_DATA, array_size, len, current, fun _ => ⟨Int.natCast_nonneg len, hlen⟩⟩

theorem RESPParser.atArray_ne_data (size len : Int) : (atArray size len).state ≠ .EXPECT_BULK_DATA := by
  simp [atArray]

theorem RESPParser.atBulk_ne_data (size len : Int) (current : List Bytes) :
    (atBulk size len current).state ≠ .EXPECT_BULK_DATA := by
  simp [atBulk]

section

variable {text rest data : Bytes} {number size len : Int} {current : List Bytes}

theorem RESPParser.turn_blank {self : RESPParser} (h : self.state ≠ .EXPECT_BULK_DATA) (rest : Bytes) :
    self.turn (crlf ++ rest) = .advance self 2 := by
  cases hstate : self.state with
  | EXPECT_ARRAY_SIZE => rw [turn_array_size hstate (by simp [crlf]), read_header_blank]; rfl
  | EXPECT_BULK_SIZE =>
    rw [turn_bulk_size hstate (by simp [crlf])]
    simp only [read_header_blank]
    rfl
  | EXPECT_BULK_DATA => exact absurd hstate h

theorem RESPParser.advances_blanks {self : RESPParser} (h : self.state ≠ .EXPECT_BULK_DATA) (count : Nat)
    (rest : Bytes) : machine.Advances self (blanks count ++ rest) self rest := by
  induction count with
  | zero => exact .refl _ _
  | succ count ih =>
    have hblanks : blanks (count + 1) ++ rest = crlf ++ (blanks count ++ rest) := by
      simp [blanks, List.replicate_succ]
    rw [hblanks]
    exact .step (turn_blank h _) ih

theorem RESPParser.turn_atArray (h : IsDecimal text number) (rest : Bytes) :
    (atArray size len).turn (42 :: text ++ crlf ++ rest) =
      if number < 0 then .fail (atArray number len)
      else if number = 0 then .output [] .reset (text.length + 3)
      else .advance (atBulk number len []) (text.length + 3) := by
  rw [turn_array_size rfl (by simp), read_header_decimal h (by decide)]
  rfl

theorem RESPParser.turn_atBulk (h : IsDecimal text number) (rest : Bytes) :
    (atBulk size len current).turn (36 :: text ++ crlf ++ rest) =
      (atBulk size len current).expect_bulk_size rfl (.number number (text.length + 1)) h.lt := by
  rw [turn_bulk_size rfl (by simp)]
  simp only [read_header_decimal h (show (36 : UInt8) ≠ 13 by decide)]

theorem RESPParser.turn_atBulk_data {len' : Nat} (h : IsDecimal text len') (rest : Bytes) :
    (atBulk size len current).turn (36 :: text ++ crlf ++ rest) =
      .advance (atData size len' h.lt current) (text.length + 3) := by
  rw [turn_atBulk h]
  simp only [expect_bulk_size]
  rw [dif_neg (by omega), dif_neg (by omega)]
  rfl

theorem RESPParser.turn_atBulk_null (h : IsDecimal text (-1)) (rest : Bytes) :
    (atBulk size len current).turn (36 :: text ++ crlf ++ rest) =
      (atBulk size (-1) current).add_element [] (text.length + 3) := by
  rw [turn_atBulk h]
  simp only [expect_bulk_size]
  rw [dif_neg (by omega), dif_pos trivial]
  rfl

theorem RESPParser.turn_atBulk_negative (h : IsDecimal text number) (hneg : number < -1) (rest : Bytes) :
    (atBulk size len current).turn (36 :: text ++ crlf ++ rest) = .fail (atBulk size number current) := by
  rw [turn_atBulk h]
  simp only [expect_bulk_size]
  rw [dif_pos hneg]
  rfl

/-- An element that is not the last one leads to the next header. -/
theorem RESPParser.add_element_eq {self : RESPParser} (hcurrent : self.current_command = current)
    (hsize : self.array_size = size) (hlt : (current.length : Int) < size) (hfits : size < 2 ^ 63)
    (element : Bytes) (used : Nat) :
    self.add_element element used =
      if (current.length : Int) + 1 = size then .output (current ++ [element]) .reset used
      else .advance (atBulk size self.bulk_len (current ++ [element])) used := by
  have hto : to_size_t self.array_size = size.toNat := by
    rw [hsize]
    exact to_size_t_of_nonneg (by omega) (by omega)
  simp only [add_element, hto, hcurrent, List.length_append, List.length_singleton]
  by_cases hlast : (current.length : Int) + 1 = size
  · rw [if_pos hlast, if_pos (by omega)]
  · rw [if_neg hlast, if_neg (by omega)]
    simp only [atBulk, ← hsize]

theorem RESPParser.turn_atData {hlen : (data.length : Int) < 2 ^ 63} (rest : Bytes) :
    (atData size data.length hlen current).turn (data ++ crlf ++ rest) =
      (atData size data.length hlen current).add_element data (data.length + 2) := by
  obtain ⟨hdata, hsize⟩ := data_sizes (show (atData size data.length hlen current).state = _ from rfl)
  have hnat : (atData size data.length hlen current).bulk_len.toNat = data.length := rfl
  rw [turn_bulk_data rfl (by simp [crlf]), expect_bulk_data, hdata, hsize, hnat, if_neg (by simp [crlf]),
    if_neg, List.append_assoc, List.take_left]
  simp [crlf]

/-- Data without its CR LF. -/
theorem RESPParser.turn_atData_fail {hlen : (data.length : Int) < 2 ^ 63} (hrest : 2 ≤ rest.length)
    (hend : ¬ crlf <+: rest) :
    (atData size data.length hlen current).turn (data ++ rest) =
      .fail (atData size data.length hlen current) := by
  obtain ⟨hdata, hsize⟩ := data_sizes (show (atData size data.length hlen current).state = _ from rfl)
  have hnat : (atData size data.length hlen current).bulk_len.toNat = data.length := rfl
  obtain ⟨first, second, rest, rfl⟩ : ∃ first second rest', rest = first :: second :: rest' := by
    match rest, hrest with
    | first :: second :: rest', _ => exact ⟨first, second, rest', rfl⟩
  rw [turn_bulk_data rfl (by simp), expect_bulk_data, hdata, hsize, hnat, if_neg (by simp), if_pos]
  by_contra hcrlf
  apply hend
  simp at hcrlf
  rw [hcrlf.1, hcrlf.2]
  exact ⟨rest, rfl⟩

end

end NovaKV

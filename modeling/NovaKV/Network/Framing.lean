import NovaKV.Network.Executor

open NovaKV.Lib

namespace NovaKV

/-- The first line, and what is behind it. -/
def readLine (input : Bytes) : Option (Bytes × Bytes) :=
  (find_crlf input).map fun length => (input.take length, input.drop (length + 2))

/-- The number in a line of digits. -/
def readNumber (line : Bytes) : Option Nat :=
  if line ≠ [] ∧ line.all isDigit then some (digitsValue line) else none

/-- What is behind a bulk string or a null. -/
def skipBulk : Bytes → Option Bytes
  | [] => none
  | tag :: body =>
    if tag ≠ 36 then none
    else do
      let (line, rest) ← readLine body
      if line = [45, 49] then return rest
      let length ← readNumber line
      if (rest.drop length).take 2 = crlf then return rest.drop (length + 2) else none

def skipBulks : Nat → Bytes → Option Bytes
  | 0, input => some input
  | count + 1, input => (skipBulk input).bind (skipBulks count)

/-- What is behind one reply: a line behind `+`, `-` or `:`, a bulk string behind
`$`, or behind `*` as many bulk strings as its line says. -/
def skipReply : Bytes → Option Bytes
  | [] => none
  | tag :: body =>
    if tag = 36 then skipBulk (tag :: body)
    else do
      let (line, rest) ← readLine body
      if tag = 42 then (readNumber line).bind fun count => skipBulks count rest
      else if tag = 43 ∨ tag = 45 ∨ tag = 58 then return rest
      else none

/-- The bytes are one reply, and nothing is left over. -/
def IsOneReply (bytes : Bytes) : Prop := skipReply bytes = some []

instance (bytes : Bytes) : Decidable (IsOneReply bytes) := inferInstanceAs (Decidable (_ = _))

section

variable {line front back : Bytes}

theorem readLine_line (hline : ¬ crlf <:+: line) (rest : Bytes) :
    readLine (line ++ crlf ++ rest) = some (line, rest) := by
  have hrest : (line ++ crlf ++ rest).drop (line.length + 2) = rest := List.drop_left' (by simp [crlf])
  rw [readLine, find_crlf_line hline, Option.map_some, hrest, List.append_assoc, List.take_left]

theorem readLine_eq_some {input rest : Bytes} (h : readLine input = some (line, rest)) :
    input = line ++ crlf ++ rest ∧ ¬ crlf <:+: line := by
  obtain ⟨length, hlength, hparts⟩ := Option.map_eq_some_iff.mp h
  obtain ⟨first, later, rfl, rfl, hfirst⟩ := find_crlf_eq_some hlength
  have hread := readLine_line hfirst later
  rw [h] at hread
  cases hread
  exact ⟨rfl, hfirst⟩

theorem decimal_line (n : Nat) (rest : Bytes) : readLine (decimal n ++ crlf ++ rest) = some (decimal n, rest) := by
  refine readLine_line (not_infix_crlf ?_) rest
  intro hmem
  cases isDigit_of_mem_decimal hmem

theorem readNumber_decimal (n : Nat) : readNumber (decimal n) = some n := by
  have hdigits : (decimal n).all isDigit := List.all_eq_true.mpr fun _ => isDigit_of_mem_decimal
  rw [readNumber, if_pos ⟨decimal_ne_nil n, hdigits⟩, digitsValue_decimal]

theorem decimal_ne_minus (n : Nat) : decimal n ≠ [45, 49] := by
  intro heq
  have hminus : (45 : UInt8) ∈ decimal n := by simp [heq]
  cases isDigit_of_mem_decimal hminus

theorem skipBulk_bulkBytes (str rest : Bytes) : skipBulk (bulkBytes str ++ rest) = some rest := by
  have hsplit : bulkBytes str ++ rest = 36 :: (decimal str.length ++ crlf ++ (str ++ crlf ++ rest)) := by
    simp [bulkBytes]
  have hend : ((str ++ crlf ++ rest).drop str.length).take 2 = crlf := by
    rw [List.append_assoc, List.drop_left]
    rfl
  have hrest : (str ++ crlf ++ rest).drop (str.length + 2) = rest := List.drop_left' (by simp [crlf])
  simp only [hsplit, skipBulk, decimal_line, Option.bind_eq_bind, Option.bind_some, readNumber_decimal, hend, hrest]
  simp [decimal_ne_minus]

theorem skipBulks_flatMap (elements : List Bytes) (rest : Bytes) :
    skipBulks elements.length (elements.flatMap bulkBytes ++ rest) = some rest := by
  induction elements with
  | nil => rfl
  | cons element elements ih =>
    rw [List.flatMap_cons, List.append_assoc, List.length_cons, skipBulks, skipBulk_bulkBytes, Option.bind_some, ih]

theorem skipReply_arrayBytes (elements : List Bytes) (rest : Bytes) :
    skipReply (arrayBytes elements ++ rest) = some rest := by
  have hsplit : arrayBytes elements ++ rest =
      42 :: (decimal elements.length ++ crlf ++ (elements.flatMap bulkBytes ++ rest)) := by
    simp [arrayBytes]
  simp only [hsplit, skipReply, decimal_line, Option.bind_eq_bind, Option.bind_some, readNumber_decimal,
    skipBulks_flatMap]
  rfl

/-- A line that CR LF ends is one reply exactly if it has no CR LF inside. -/
theorem isOneReply_line_iff {tag : UInt8} (htag : tag = 43 ∨ tag = 45 ∨ tag = 58) (line : Bytes) :
    IsOneReply (tag :: (line ++ crlf)) ↔ ¬ crlf <:+: line := by
  have hskip : skipReply (tag :: (line ++ crlf)) = (readLine (line ++ crlf)).map Prod.snd := by
    rcases htag with rfl | rfl | rfl <;> cases hline : readLine (line ++ crlf) <;> simp [skipReply, hline]
  rw [IsOneReply, hskip]
  constructor
  · intro hone
    obtain ⟨⟨first, rest⟩, hread, rfl⟩ := Option.map_eq_some_iff.mp hone
    obtain ⟨hsplit, hfirst⟩ := readLine_eq_some hread
    rw [List.append_nil] at hsplit
    rwa [List.append_cancel_right hsplit]
  · intro hnone
    have hread := readLine_line hnone []
    rw [List.append_nil] at hread
    rw [hread]
    rfl

/-- A pair of bytes is not where its first byte is not. -/
theorem pair_infix_append_left {first second : UInt8} (hfront : first ∉ front) :
    [first, second] <:+: front ++ line ↔ [first, second] <:+: line := by
  constructor
  · intro hpart
    induction front with
    | nil => exact hpart
    | cons byte front ih =>
      rw [List.mem_cons, not_or] at hfront
      rcases List.infix_cons_iff.mp hpart with hinit | hlater
      · exact absurd (List.cons_prefix_cons.mp hinit).1 hfront.1
      · exact ih hfront.2 hlater
  · exact fun hpart => hpart.trans (List.suffix_append front line).isInfix

theorem pair_infix_append_right {first second : UInt8} (hback : second ∉ back) :
    [first, second] <:+: line ++ back ↔ [first, second] <:+: line := by
  rw [← List.reverse_infix, ← @List.reverse_infix _ [first, second] line, List.reverse_append]
  exact pair_infix_append_left fun hmem => hback (List.mem_reverse.mp hmem)

/-- Only an error whose message has a CR LF is more than one reply. -/
theorem Reply.isOneReply_iff (reply : Reply) :
    IsOneReply reply.bytes ↔ ∀ message, reply = .error message → ¬ crlf <:+: message := by
  cases reply with
  | ok => exact iff_of_true (by decide +kernel) nofun
  | value found =>
    cases found with
    | none => exact iff_of_true (by decide +kernel) nofun
    | some found =>
      refine iff_of_true ?_ nofun
      have hskip := skipBulk_bulkBytes found []
      rw [List.append_nil] at hskip
      exact hskip
  | rows found =>
    refine iff_of_true ?_ nofun
    have hskip := skipReply_arrayBytes (flat found) []
    rw [List.append_nil] at hskip
    exact hskip
  | error message =>
    have hsplit : (Reply.error message).bytes = 45 :: (ascii "ERR " ++ message ++ crlf) := rfl
    rw [hsplit, isOneReply_line_iff (.inr (.inl rfl)), crlf, pair_infix_append_left (by decide +kernel)]
    simp

theorem Names.cr_not_mem {name : Bytes} {word : String} (h : Names name word)
    (hword : ∀ letter ∈ ascii word, 65 ≤ letter ∧ letter ≤ 90) : (13 : UInt8) ∉ name := by
  intro hmem
  have hupper : toupper 13 ∈ CommandExecutor.normalize_command_name name := List.mem_map_of_mem hmem
  rw [(normalize_eq_iff name word hword).mpr h] at hupper
  exact absurd (hword _ hupper).1 (by decide)

/-- A name that is one of the four words leads to a request without its bytes; any
other name is in the message. -/
theorem request_cases (name : Bytes) (args : List Bytes) :
    (∃ word ∈ ["SET", "GET", "DEL", "RSCAN"], Names name word ∧ ∀ message,
        request (name :: args) = .bad message → message = CommandExecutor.wrong_number (ascii word)) ∨
      request (name :: args) = .bad (ascii "unknown command '" ++ name ++ ascii "'") := by
  simp only [request]
  split
  · refine .inl ⟨"SET", by simp, ‹_›, ?_⟩
    split
    · rintro _ ⟨⟩
    · exact fun _ h => (Request.bad.inj h).symm
  split
  · refine .inl ⟨"GET", by simp, ‹_›, ?_⟩
    split
    · rintro _ ⟨⟩
    · exact fun _ h => (Request.bad.inj h).symm
  split
  · refine .inl ⟨"DEL", by simp, ‹_›, ?_⟩
    split
    · rintro _ ⟨⟩
    · exact fun _ h => (Request.bad.inj h).symm
  split
  · refine .inl ⟨"RSCAN", by simp, ‹_›, ?_⟩
    split
    · rintro _ ⟨⟩
    · exact fun _ h => (Request.bad.inj h).symm
  · exact .inr rfl

/-- A CR LF in a message comes from the name. -/
theorem crlf_infix_message_iff (name : Bytes) (args : List Bytes) :
    (∀ message, request (name :: args) = .bad message → ¬ crlf <:+: message) ↔ ¬ crlf <:+: name := by
  rcases request_cases name args with ⟨word, hword, hname, hmessage⟩ | hunknown
  · have hletters : ∀ word ∈ ["SET", "GET", "DEL", "RSCAN"], ∀ letter ∈ ascii word, 65 ≤ letter ∧ letter ≤ 90 := by
      decide +kernel
    have hfixed : ∀ word ∈ ["SET", "GET", "DEL", "RSCAN"],
        (13 : UInt8) ∉ CommandExecutor.wrong_number (ascii word) := by decide +kernel
    refine iff_of_true ?_ (not_infix_crlf (hname.cr_not_mem (hletters word hword)))
    intro message hbad
    rw [hmessage message hbad]
    exact not_infix_crlf (hfixed word hword)
  · have hecho : crlf <:+: ascii "unknown command '" ++ name ++ ascii "'" ↔ crlf <:+: name := by
      rw [crlf, pair_infix_append_right (by decide +kernel), pair_infix_append_left (by decide +kernel)]
    rw [hunknown, ← hecho]
    simp only [Request.bad.injEq, forall_eq']

/-- In every state of a database, the bytes that executing a command appends are one
reply exactly if the first element of the command, which is echoed as its name, has
no CR LF. Without a database they always are. -/
theorem CommandExecutor.one_reply_iff (self : CommandExecutor) (db : DBImpl) (command : List Bytes)
    (buffer : NetworkBuffer) :
    ∃ reply, ((self.execute command buffer).result db).readable = buffer.readable ++ reply ∧
      (IsOneReply reply ↔ self.has_db = true → ∀ name ∈ command.head?, ¬ crlf <:+: name) := by
  obtain ⟨has_db⟩ := self
  cases has_db with
  | false =>
    have hencode := Reply.readable_encode buffer (.error (ascii "db is not initialized"))
    exact ⟨_, hencode, iff_of_true (by decide +kernel) nofun⟩
  | true =>
    refine ⟨((request command).reply db).bytes, readable_result db command buffer, ?_⟩
    have hreply : IsOneReply ((request command).reply db).bytes ↔
        ∀ message, request command = .bad message → ¬ crlf <:+: message := by
      rw [Reply.isOneReply_iff]
      cases request command <;> simp [Request.reply]
    rw [hreply]
    cases command with
    | nil =>
      have hempty : ∀ message, request [] = .bad message → ¬ crlf <:+: message := by
        rintro message ⟨⟩
        exact not_infix_crlf (by decide +kernel)
      exact iff_of_true hempty (by simp)
    | cons name args =>
      rw [crlf_infix_message_iff]
      simp

/-- A client sends one command whose name is a CR LF. What a database that was just
opened gets the client is a reply that ends one line early. -/
theorem CommandExecutor.echoed_crlf_splits_reply :
    ∃ start reply, System.open .forward Disk.empty = some start ∧
      (RESPParser.reset.drain (encode_array (.new 1024) [[13, 10]])).commands = [[[13, 10]]] ∧
      ((execute ⟨true⟩ [[13, 10]] (.new 1024)).result start.db).readable = reply ∧
      skipReply reply = some (ascii "'" ++ crlf) ∧ ¬ IsOneReply reply := by
  have hopened : (System.open .forward Disk.empty).isSome = true := by decide +kernel
  obtain ⟨start, hstart⟩ := Option.isSome_iff_exists.mp hopened
  have hreply := readable_result start.db [[13, 10]] (.new 1024)
  have hrequest : request [[13, 10]] = .bad (ascii "unknown command '" ++ [13, 10] ++ ascii "'") := rfl
  rw [NetworkBuffer.readable_new, List.nil_append, hrequest, Request.reply] at hreply
  refine ⟨start, _, hstart, (drain_encode_array 1024 [[[13, 10]]] (by simp)).1, hreply, ?_, ?_⟩
  · decide +kernel
  · decide +kernel

end

end NovaKV

import NovaKV.Network.Drain
import NovaKV.Network.Language

open NovaKV.Lib

namespace NovaKV

/-- A string of ASCII characters. -/
def ascii (text : String) : Bytes := text.toList.map fun char => UInt8.ofNat char.toNat

def encode_simple_string (buffer : NetworkBuffer) (str : Bytes) : NetworkBuffer :=
  ((buffer.append [43]).append str).append crlf

def encode_error (buffer : NetworkBuffer) (msg : Bytes) : NetworkBuffer :=
  ((buffer.append (ascii "-ERR ")).append msg).append crlf

def encode_bulk_string (buffer : NetworkBuffer) (str : Bytes) : NetworkBuffer :=
  ((((buffer.append [36]).append (decimal str.length)).append crlf).append str).append crlf

def encode_null (buffer : NetworkBuffer) : NetworkBuffer :=
  (buffer.append [36, 45, 49]).append crlf

def encode_array (buffer : NetworkBuffer) (elements : List Bytes) : NetworkBuffer :=
  elements.foldl encode_bulk_string (((buffer.append [42]).append (decimal elements.length)).append crlf)

/-- The bytes of an encoded bulk string. -/
def bulkBytes (str : Bytes) : Bytes := 36 :: decimal str.length ++ crlf ++ str ++ crlf

/-- The bytes of an encoded array. -/
def arrayBytes (elements : List Bytes) : Bytes :=
  42 :: decimal elements.length ++ crlf ++ elements.flatMap bulkBytes

@[simp] theorem readable_encode_bulk_string (buffer : NetworkBuffer) (str : Bytes) :
    (encode_bulk_string buffer str).readable = buffer.readable ++ bulkBytes str := by
  simp [encode_bulk_string, bulkBytes]

@[simp] theorem readable_encode_array (buffer : NetworkBuffer) (elements : List Bytes) :
    (encode_array buffer elements).readable = buffer.readable ++ arrayBytes elements := by
  have hfold : ∀ buffer : NetworkBuffer, (elements.foldl encode_bulk_string buffer).readable =
      buffer.readable ++ elements.flatMap bulkBytes := by
    induction elements with
    | nil => simp
    | cons element elements ih =>
      intro buffer
      rw [List.foldl_cons, ih, readable_encode_bulk_string, List.flatMap_cons, List.append_assoc]
  rw [encode_array, hfold]
  simp [arrayBytes]

section

variable {elements command : List Bytes}

theorem isDecimal_decimal {n : Nat} (h : n < 2 ^ 63) : IsDecimal (decimal n) n := by
  have hdecimal : IsDecimal (decimal n) (digitsValue (decimal n)) :=
    .unsigned (decimal_ne_nil n) (fun _ => isDigit_of_mem_decimal) (by rwa [digitsValue_decimal])
  rwa [digitsValue_decimal] at hdecimal

theorem isBulks_flatMap (h : ∀ element ∈ elements, element.length < 2 ^ 63) :
    IsBulks (elements.flatMap bulkBytes) elements := by
  induction elements with
  | nil => exact .nil
  | cons element elements ih =>
    have hbulk : IsBulk (bulkBytes element) element :=
      .data (isDecimal_decimal (h element List.mem_cons_self))
    exact .cons 0 hbulk (ih fun other hother => h other (List.mem_cons_of_mem _ hother))

/-- An encoded array is a word of the grammar. -/
theorem isCommand_arrayBytes (hsize : command.length < 2 ^ 63)
    (helements : ∀ element ∈ command, element.length < 2 ^ 63) : IsCommand (arrayBytes command) command :=
  .array 0 (isDecimal_decimal hsize) (isBulks_flatMap helements)

theorem RESPParser.Yields.reads {self last : RESPParser} {input rest rest' : Bytes}
    {commands : List (List Bytes)} {how : Resumable.End} (h : self.Yields input command rest)
    (hlater : machine.Reads .reset rest commands how last rest') :
    machine.Reads self input (command :: commands) how last rest' := by
  obtain ⟨parser, left, used, hadvances, hturn, rfl⟩ := h
  exact hadvances.reads (.output hturn hlater)

theorem reads_arrayBytes {commands : List (List Bytes)}
    (h : ∀ command ∈ commands, command.length < 2 ^ 63 ∧ ∀ element ∈ command, element.length < 2 ^ 63) :
    RESPParser.machine.Reads .reset (commands.flatMap arrayBytes) commands .waiting .reset [] := by
  induction commands with
  | nil => exact .wait rfl
  | cons command commands ih =>
    obtain ⟨hsize, helements⟩ := h command List.mem_cons_self
    have hyields := (isCommand_arrayBytes hsize helements).yields 0 0 (commands.flatMap arrayBytes)
    exact hyields.reads (ih fun other hother => h other (List.mem_cons_of_mem _ hother))

/-- Commands that are encoded one after the other into one buffer are parsed back,
and nothing is left. No element and no command is longer than its length field. -/
theorem drain_encode_array (initial_size : Nat) (commands : List (List Bytes))
    (h : ∀ command ∈ commands, command.length < 2 ^ 63 ∧ ∀ element ∈ command, element.length < 2 ^ 63) :
    (RESPParser.reset.drain (commands.foldl encode_array (.new initial_size))).commands = commands ∧
    (RESPParser.reset.drain (commands.foldl encode_array (.new initial_size))).status = .INCOMPLETE ∧
    (RESPParser.reset.drain (commands.foldl encode_array (.new initial_size))).parser = .reset ∧
    (RESPParser.reset.drain (commands.foldl encode_array (.new initial_size))).buffer.readable = [] := by
  have hfold : ∀ (buffer : NetworkBuffer) (commands : List (List Bytes)),
      (commands.foldl encode_array buffer).readable = buffer.readable ++ commands.flatMap arrayBytes := by
    intro buffer commands
    induction commands generalizing buffer with
    | nil => simp
    | cons command commands ih => simp [ih]
  have hreads : RESPParser.machine.Reads .reset (commands.foldl encode_array (.new initial_size)).readable
      commands .waiting .reset [] := by
    rw [hfold, NetworkBuffer.readable_new, List.nil_append]
    exact reads_arrayBytes h
  exact RESPParser.drain_eq_of_reads hreads

/-- An empty command, and one whose elements look like headers. -/
theorem drain_encode_header_lookalikes :
    (RESPParser.reset.drain (([[], [[], [42, 13, 10], [36, 45, 49, 13, 10]]] : List (List Bytes)).foldl encode_array
      (.new 1024))).commands = [[], [[], [42, 13, 10], [36, 45, 49, 13, 10]]] :=
  (drain_encode_array 1024 _ (by simp)).1

end

end NovaKV

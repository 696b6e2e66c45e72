import NovaKV.Network.Encoder
import NovaKV.Store.Iterator

open NovaKV.Lib

namespace NovaKV

/-- A program over the interface of a database: it ends with a result, or makes a
call and goes on with what the call returns. -/
inductive DBCalls (α : Type) where
  | done (result : α)
  | put (key : Key) (record : ValueRecord) (next : DBCalls α)
  | get (key : Key) (next : Option Bytes → DBCalls α)
  | new_iterator (next : DBIterator → DBCalls α)

/-- The result when every read sees one and the same state of the database. -/
def DBCalls.result {α : Type} (db : DBImpl) : DBCalls α → α
  | .done result => result
  | .put _ _ next => next.result db
  | .get key next => (next (db.get key)).result db
  | .new_iterator next => (next db.new_iterator).result db

/-- `std::toupper` in the C locale. -/
def toupper (byte : UInt8) : UInt8 := if 97 ≤ byte ∧ byte ≤ 122 then byte - 32 else byte

/-- The executor of commands, with or without a database behind `db_`. -/
structure CommandExecutor where
  has_db : Bool

namespace CommandExecutor

def normalize_command_name (command_name : Bytes) : Bytes := command_name.map toupper

/-- The message for a command with a wrong number of arguments. -/
def wrong_number (cmd : Bytes) : Bytes :=
  ascii "wrong number of arguments for '" ++ cmd ++ ascii "' command"

/-- `ExpectArgCount`, which appends an error unless it returns true. -/
def expect_arg_count (command : List Bytes) (expected_argc : Nat) (response_buffer : NetworkBuffer) :
    Except NetworkBuffer Unit :=
  if command.length = expected_argc then .ok ()
  else .error (encode_error response_buffer (wrong_number (normalize_command_name (command.headD []))))

def handle_set (command : List Bytes) (response_buffer : NetworkBuffer) : DBCalls NetworkBuffer :=
  match expect_arg_count command 3 response_buffer with
  | .error failed => .done failed
  | .ok () =>
    .put (command.getD 1 []) ⟨.kValue, command.getD 2 []⟩
      (.done (encode_simple_string response_buffer (ascii "OK")))

def handle_get (command : List Bytes) (response_buffer : NetworkBuffer) : DBCalls NetworkBuffer :=
  match expect_arg_count command 2 response_buffer with
  | .error failed => .done failed
  | .ok () =>
    .get (command.getD 1 []) fun found =>
      match found with
      | none => .done (encode_null response_buffer)
      | some value => .done (encode_bulk_string response_buffer value)

def handle_del (command : List Bytes) (response_buffer : NetworkBuffer) : DBCalls NetworkBuffer :=
  match expect_arg_count command 2 response_buffer with
  | .error failed => .done failed
  | .ok () =>
    .put (command.getD 1 []) ⟨.kDeletion, []⟩
      (.done (encode_simple_string response_buffer (ascii "OK")))

def handle_rscan (command : List Bytes) (response_buffer : NetworkBuffer) : DBCalls NetworkBuffer :=
  match expect_arg_count command 2 response_buffer with
  | .error failed => .done failed
  | .ok () =>
    .new_iterator fun iter =>
      let elements := (iter.seek (command.getD 1 [])).visit.flatMap fun row => [row.1, row.2]
      .done (encode_array response_buffer elements)

def execute (self : CommandExecutor) (command : List Bytes) (response_buffer : NetworkBuffer) :
    DBCalls NetworkBuffer :=
  if self.has_db = false then .done (encode_error response_buffer (ascii "db is not initialized"))
  else
    match command with
    | [] => .done (encode_error response_buffer (ascii "empty command"))
    | name :: _ =>
      let cmd := normalize_command_name name
      if cmd = ascii "SET" then handle_set command response_buffer
      else if cmd = ascii "GET" then handle_get command response_buffer
      else if cmd = ascii "DEL" then handle_del command response_buffer
      else if cmd = ascii "RSCAN" then handle_rscan command response_buffer
      else .done (encode_error response_buffer (ascii "unknown command '" ++ name ++ ascii "'"))

end CommandExecutor

/-- What a command asks for. -/
inductive Request where
  | set (key : Key) (value : Bytes)
  | get (key : Key)
  | del (key : Key)
  | rscan (start_key : Key)
  | bad (message : Bytes)

/-- A name is a word, in any letter case. -/
def Names (name : Bytes) (word : String) : Prop :=
  name.length = (ascii word).length ∧
    ∀ pair ∈ name.zip (ascii word), pair.1 = pair.2 ∨ pair.1 = pair.2 + 32

instance (name : Bytes) (word : String) : Decidable (Names name word) :=
  @instDecidableAnd _ _ _ (List.decidableBAll _ _)

def request (command : List Bytes) : Request :=
  match command with
  | [] => .bad (ascii "empty command")
  | name :: args =>
    if Names name "SET" then
      match args with
      | [key, value] => .set key value
      | _ => .bad (CommandExecutor.wrong_number (ascii "SET"))
    else if Names name "GET" then
      match args with
      | [key] => .get key
      | _ => .bad (CommandExecutor.wrong_number (ascii "GET"))
    else if Names name "DEL" then
      match args with
      | [key] => .del key
      | _ => .bad (CommandExecutor.wrong_number (ascii "DEL"))
    else if Names name "RSCAN" then
      match args with
      | [start_key] => .rscan start_key
      | _ => .bad (CommandExecutor.wrong_number (ascii "RSCAN"))
    else .bad (ascii "unknown command '" ++ name ++ ascii "'")

/-- The answers to requests. -/
inductive Reply where
  | ok
  | value (found : Option Bytes)
  | rows (rows : List (Key × Bytes))
  | error (message : Bytes)

/-- The elements of a flat array of keys and values. -/
def flat (rows : List (Key × Bytes)) : List Bytes := rows.flatMap fun row => [row.1, row.2]

/-- The encoding of a reply. -/
def Reply.bytes : Reply → Bytes
  | .ok => ascii "+OK" ++ crlf
  | .value none => ascii "$-1" ++ crlf
  | .value (some found) => bulkBytes found
  | .rows found => arrayBytes (flat found)
  | .error message => ascii "-ERR " ++ message ++ crlf

/-- The reply to a request where `Get` and a scan show what they do on `db`. -/
def Request.reply (db : DBImpl) : Request → Reply
  | .set _ _ => .ok
  | .get key => .value (db.get key)
  | .del _ => .ok
  | .rscan start_key => .rows (db.new_iterator.seek start_key).visit
  | .bad message => .error message

def Reply.encode (buffer : NetworkBuffer) : Reply → NetworkBuffer
  | .ok => encode_simple_string buffer (ascii "OK")
  | .value none => encode_null buffer
  | .value (some found) => encode_bulk_string buffer found
  | .rows found => encode_array buffer (flat found)
  | .error message => encode_error buffer message

/-- The one call that a request makes, and its reply. -/
def Request.calls (buffer : NetworkBuffer) : Request → DBCalls NetworkBuffer
  | .set key value => .put key ⟨.kValue, value⟩ (.done (Reply.ok.encode buffer))
  | .get key => .get key fun found => .done ((Reply.value found).encode buffer)
  | .del key => .put key ⟨.kDeletion, []⟩ (.done (Reply.ok.encode buffer))
  | .rscan start_key => .new_iterator fun iter =>
    .done ((Reply.rows (iter.seek start_key).visit).encode buffer)
  | .bad message => .done ((Reply.error message).encode buffer)

/-- The record that a request writes. -/
def Request.write : Request → Option WalRecord
  | .set key value => some (key, ⟨.kValue, value⟩)
  | .del key => some (key, ⟨.kDeletion, []⟩)
  | _ => none

section

variable {command : List Bytes} {name : Bytes}

theorem toupper_eq_iff {byte letter : UInt8} (hletter : 65 ≤ letter ∧ letter ≤ 90) :
    toupper byte = letter ↔ byte = letter ∨ byte = letter + 32 := by
  obtain ⟨hlow, hhigh⟩ := hletter
  unfold toupper
  split
  · rename_i hsmall
    constructor
    · rintro rfl
      exact .inr (by simp)
    · rintro (rfl | rfl)
      · exact absurd (UInt8.le_trans hsmall.1 hhigh) (by decide)
      · simp
  · rename_i hsmall
    constructor
    · exact .inl
    · rintro (rfl | rfl)
      · rfl
      · refine absurd ⟨?_, ?_⟩ hsmall
        · rw [UInt8.le_iff_toNat_le] at hlow hhigh ⊢
          rw [UInt8.toNat_add]
          simp only [UInt8.reduceToNat] at hlow hhigh ⊢
          omega
        · rw [UInt8.le_iff_toNat_le] at hlow hhigh ⊢
          rw [UInt8.toNat_add]
          simp only [UInt8.reduceToNat] at hlow hhigh ⊢
          omega

theorem map_toupper_eq_iff {letters : Bytes} (hletters : ∀ letter ∈ letters, 65 ≤ letter ∧ letter ≤ 90) :
    name.map toupper = letters ↔ name.length = letters.length ∧
      ∀ pair ∈ name.zip letters, pair.1 = pair.2 ∨ pair.1 = pair.2 + 32 := by
  induction name generalizing letters with
  | nil =>
    cases letters with
    | nil => simp
    | cons => simp
  | cons byte name ih =>
    cases letters with
    | nil => simp
    | cons letter letters =>
      rw [List.map_cons, List.cons.injEq, toupper_eq_iff (hletters letter List.mem_cons_self),
        ih fun other hother => hletters other (List.mem_cons_of_mem _ hother)]
      simp only [List.length_cons, Nat.succ_inj, List.zip_cons_cons, List.forall_mem_cons]
      tauto

theorem normalize_eq_iff (name : Bytes) (word : String) (hword : ∀ letter ∈ ascii word, 65 ≤ letter ∧ letter ≤ 90) :
    CommandExecutor.normalize_command_name name = ascii word ↔ Names name word :=
  map_toupper_eq_iff hword

@[simp] theorem Reply.readable_encode (buffer : NetworkBuffer) (reply : Reply) :
    (reply.encode buffer).readable = buffer.readable ++ reply.bytes := by
  cases reply with
  | ok => simp [encode, bytes, encode_simple_string, ascii]
  | value found =>
    cases found with
    | none => simp [encode, bytes, encode_null, ascii]
    | some found => exact readable_encode_bulk_string buffer found
  | rows found => exact readable_encode_array buffer (flat found)
  | error message => simp [encode, bytes, encode_error]

namespace CommandExecutor

variable {args : List Bytes} {buffer : NetworkBuffer} {word : String}

/-- A command whose number of arguments is wrong. -/
theorem expect_arg_count_error {expected_argc : Nat} (hcount : (name :: args).length ≠ expected_argc)
    (hname : normalize_command_name name = ascii word) :
    expect_arg_count (name :: args) expected_argc buffer =
      .error ((Reply.error (wrong_number (ascii word))).encode buffer) := by
  rw [expect_arg_count, if_neg hcount, List.headD_cons, hname]
  rfl

theorem handle_set_eq (hname : normalize_command_name name = ascii word) :
    handle_set (name :: args) buffer =
      (match args with
        | [key, value] => Request.set key value
        | _ => .bad (wrong_number (ascii word))).calls buffer := by
  rcases args with _ | ⟨key, _ | ⟨value, _ | ⟨other, rest⟩⟩⟩
  · rw [handle_set, expect_arg_count_error (by simp) hname]
    rfl
  · rw [handle_set, expect_arg_count_error (by simp) hname]
    rfl
  · rfl
  · rw [handle_set, expect_arg_count_error (by simp) hname]
    rfl

theorem handle_get_eq (hname : normalize_command_name name = ascii word) :
    handle_get (name :: args) buffer =
      (match args with
        | [key] => Request.get key
        | _ => .bad (wrong_number (ascii word))).calls buffer := by
  rcases args with _ | ⟨key, _ | ⟨other, rest⟩⟩
  · rw [handle_get, expect_arg_count_error (by simp) hname]
    rfl
  · refine congrArg (DBCalls.get key) ?_
    funext found
    cases found <;> rfl
  · rw [handle_get, expect_arg_count_error (by simp) hname]
    rfl

theorem handle_del_eq (hname : normalize_command_name name = ascii word) :
    handle_del (name :: args) buffer =
      (match args with
        | [key] => Request.del key
        | _ => .bad (wrong_number (ascii word))).calls buffer := by
  rcases args with _ | ⟨key, _ | ⟨other, rest⟩⟩
  · rw [handle_del, expect_arg_count_error (by simp) hname]
    rfl
  · rfl
  · rw [handle_del, expect_arg_count_error (by simp) hname]
    rfl

theorem handle_rscan_eq (hname : normalize_command_name name = ascii word) :
    handle_rscan (name :: args) buffer =
      (match args with
        | [start_key] => Request.rscan start_key
        | _ => .bad (wrong_number (ascii word))).calls buffer := by
  rcases args with _ | ⟨key, _ | ⟨other, rest⟩⟩
  · rw [handle_rscan, expect_arg_count_error (by simp) hname]
    rfl
  · rfl
  · rw [handle_rscan, expect_arg_count_error (by simp) hname]
    rfl

/-- With a database, executing a command makes the call of its request, if any, and
encodes the reply. -/
theorem execute_eq (command : List Bytes) (buffer : NetworkBuffer) :
    execute ⟨true⟩ command buffer = (request command).calls buffer := by
  cases command with
  | nil => rfl
  | cons name args =>
    have hset := normalize_eq_iff name "SET" (by decide +kernel)
    have hget := normalize_eq_iff name "GET" (by decide +kernel)
    have hdel := normalize_eq_iff name "DEL" (by decide +kernel)
    have hrscan := normalize_eq_iff name "RSCAN" (by decide +kernel)
    simp only [execute, request, Bool.true_eq_false, if_false, ← hset, ← hget, ← hdel, ← hrscan]
    split
    · exact handle_set_eq ‹_›
    split
    · exact handle_get_eq ‹_›
    split
    · exact handle_del_eq ‹_›
    split
    · exact handle_rscan_eq ‹_›
    · rfl

/-- In every state of a database, executing a command appends the bytes of one reply. -/
theorem readable_result (db : DBImpl) (command : List Bytes) (buffer : NetworkBuffer) :
    ((execute ⟨true⟩ command buffer).result db).readable =
      buffer.readable ++ ((request command).reply db).bytes := by
  rw [execute_eq, ← Reply.readable_encode]
  cases request command <;> rfl

end CommandExecutor

end

end NovaKV

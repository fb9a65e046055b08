/-
# `Rubix.Persistence.MessageRepository` — messages in their tables

Two tables: `messages`, one row per message, and `message_recipients`, an
index of the messages by recipient.  The state of a message is stored twice,
in the column `state` and inside `message_json`:

    insert          writes both
    update_state    writes the column
    get             reads the JSON

Over the tables stands a catalog, a map from ids to messages with the state
they were last given.  The tables hold the catalog's rows, columns and all
(`Represents`), through every sequence of calls; what `get` answers is the
catalog's message only as long as no update has changed its state
(`refines_iff`).
-/
import Rubix.Lib.Table
import Rubix.Persistence.Models
import Rubix.Persistence.Sqlite

namespace Rubix.Persistence

open Effect (Prog)

/-- The tables of the repository. -/
structure MessageTables where
  messages : List MessageModel
  /-- pairs of message id and recipient, a pair at most once -/
  recipients : List (String × String)

namespace MessageRepository

def empty : MessageTables := ⟨[], []⟩

/-! ## The statements -/

/-- `SELECT .. FROM messages WHERE id = ?1` -/
def selectById (s : MessageTables) (id : String) : Option MessageModel :=
  Table.find MessageModel.id s.messages id

/-- `INSERT INTO messages`; the primary key is refused twice. -/
def insertRow (row : MessageModel) (s : MessageTables) : Bool × MessageTables :=
  match selectById s row.id with
  | none => (true, { s with messages := s.messages ++ [row] })
  | some _ => (false, s)

/-- `let _ = INSERT INTO message_recipients`, which may have failed. -/
def insertRecipient (failed : Bool) (id fp : String) (s : MessageTables) : Unit × MessageTables :=
  if failed || s.recipients.contains (id, fp) then ((), s)
  else ((), { s with recipients := s.recipients ++ [(id, fp)] })

/-- `UPDATE messages SET state = ?1 WHERE id = ?2`: was there a row? -/
def updateRow (state id : String) (s : MessageTables) : Bool × MessageTables :=
  match selectById s id with
  | none => (false, s)
  | some _ =>
      (true, { s with messages := Table.modify MessageModel.id ({ · with state }) s.messages id })

/-- `DELETE FROM messages WHERE id = ?1`: was there a row? -/
def deleteRow (id : String) (s : MessageTables) : Bool × MessageTables :=
  match selectById s id with
  | none => (false, s)
  | some _ => (true, { s with messages := Table.erase MessageModel.id s.messages id })

/-- `let _ = DELETE FROM message_recipients WHERE message_id = ?1` -/
def deleteRecipients (failed : Bool) (id : String) (s : MessageTables) : Unit × MessageTables :=
  if failed then ((), s)
  else ((), { s with recipients := s.recipients.filter fun r => decide (r.1 ≠ id) })

/-- The join of both tables for one recipient, newest first; rows of one
second are in the order they were inserted. -/
def selectForRecipient (s : MessageTables) (fp : String) : List MessageModel :=
  let rows := s.messages.flatMap fun m =>
    (s.recipients.filter fun r => decide (r.1 = m.id ∧ r.2 = fp)).map fun _ => m
  rows.mergeSort fun a b => decide (b.createdAt ≤ a.createdAt)

/-! ## The methods -/

/-- `str::split(',')` -/
def splitComma (text : String) : List String := (text.toList.splitOn ',').map String.ofList

/-- The loop over the pieces of the recipients column. -/
def insertRecipients (faults : Faults) (id : String) (k : Nat) : List String → Sql MessageTables Unit
  | [] => pure ()
  | fp :: rest => do
      statement (insertRecipient (faults k) id fp)
      insertRecipients faults id (k + 1) rest

def insert (serde : SerdeJson) (faults : Faults) (msg : Message) : Sql MessageTables Unit := do
  let model := MessageModel.ofMessage serde msg
  let pieces := splitComma model.recipientFingerprints
  attempt faults 0
  attempt faults 1
  transaction do
    attempt faults 2
    let inserted ← statement (insertRow model)
    if inserted then do
      insertRecipients faults model.id 3 pieces
      attempt faults (3 + pieces.length)
    else Prog.fail .internal

def get (serde : SerdeJson) (faults : Faults) (id : Uuid) : Sql MessageTables Message := do
  attempt faults 0
  attempt faults 1
  attempt faults 2
  let row ← statement fun s => (selectById s id.toString, s)
  match row with
  | some row => Prog.orFail (fun e => e) (decodeMessage serde row.messageJson)
  | none => Prog.fail (.message .notFound)

def updateState (serde : SerdeJson) (faults : Faults) (id : Uuid) (newState : MessageState) :
    Sql MessageTables Unit := do
  match serde.messageStateToString newState with
  | none => Prog.fail .internal
  | some state => do
      attempt faults 0
      attempt faults 1
      let updated ← statement (updateRow state id.toString)
      if updated then pure () else Prog.fail (.message .notFound)

/-- The loop over the selected rows. -/
def collect (serde : SerdeJson) (faults : Faults) (k : Nat) :
    List MessageModel → Sql MessageTables (List Message)
  | [] => pure []
  | row :: rest => do
      attempt faults k
      let msg ← Prog.orFail (fun e => e) (decodeMessage serde row.messageJson)
      let messages ← collect serde faults (k + 1) rest
      pure (msg :: messages)

def listForRecipient (serde : SerdeJson) (faults : Faults) (fp : Fingerprint) :
    Sql MessageTables (List Message) := do
  attempt faults 0
  attempt faults 1
  attempt faults 2
  let rows ← statement fun s => (selectForRecipient s fp.toFormattedString, s)
  collect serde faults 3 rows

def delete (faults : Faults) (id : Uuid) : Sql MessageTables Unit := do
  attempt faults 0
  attempt faults 1
  let deleted ← statement (deleteRow id.toString)
  if deleted then statement (deleteRecipients (faults 2) id.toString)
  else Prog.fail (.message .notFound)

/-! ## What is selected after each statement -/

section
variable {s s' : MessageTables} {id : String}

theorem selectById_append {row : MessageModel} (hnew : selectById s row.id = none)
    (hrows : s'.messages = s.messages ++ [row]) (id' : String) :
    selectById s' id' = if row.id = id' then some row else selectById s id' := by
  rw [selectById, hrows]
  exact Table.find_append hnew id'

theorem selectById_modify {state : String}
    (hrows : s'.messages = Table.modify MessageModel.id ({ · with state }) s.messages id)
    (id' : String) :
    selectById s' id'
      = if id = id' then (selectById s id').map ({ · with state }) else selectById s id' := by
  have hkey : ∀ row : MessageModel, MessageModel.id { row with state } = row.id := fun _ => rfl
  rw [selectById, hrows]
  exact Table.find_modify hkey id' id

theorem selectById_erase (hrows : s'.messages = Table.erase MessageModel.id s.messages id)
    (id' : String) : selectById s' id' = if id = id' then none else selectById s id' := by
  rw [selectById, hrows]
  exact Table.find_erase id' id

end

/-! ## Which table a statement leaves alone -/

section
variable (s : MessageTables)

@[simp] theorem insertRow_recipients (row : MessageModel) :
    (insertRow row s).2.recipients = s.recipients := by
  rw [insertRow]
  split
  · rfl
  · rfl

@[simp] theorem updateRow_recipients (state id : String) :
    (updateRow state id s).2.recipients = s.recipients := by
  rw [updateRow]
  split
  · rfl
  · rfl

@[simp] theorem deleteRow_recipients (id : String) :
    (deleteRow id s).2.recipients = s.recipients := by
  rw [deleteRow]
  split
  · rfl
  · rfl

@[simp] theorem insertRecipient_messages (failed : Bool) (id fp : String) :
    (insertRecipient failed id fp s).2.messages = s.messages := by
  rw [insertRecipient]
  split
  · rfl
  · rfl

@[simp] theorem deleteRecipients_messages (failed : Bool) (id : String) :
    (deleteRecipients failed id s).2.messages = s.messages := by
  rw [deleteRecipients]
  split
  · rfl
  · rfl

end

/-! ## What the methods do to the messages -/

theorem insertRecipients_run (faults : Faults) (id : String) (pieces : List String) (k : Nat)
    (s : MessageTables) :
    (insertRecipients faults id k pieces s).outcome = .ok () ∧
      (insertRecipients faults id k pieces s).world.messages = s.messages := by
  induction pieces generalizing k s with
  | nil => exact ⟨rfl, rfl⟩
  | cons fp rest ih =>
      obtain ⟨hok, hmessages⟩ := ih (k + 1) (insertRecipient (faults k) id fp s).2
      rw [insertRecipient_messages] at hmessages
      exact ⟨hok, hmessages⟩

theorem insert_cases (serde : SerdeJson) (faults : Faults) (msg : Message) (s : MessageTables) :
    Refused s (insert serde faults msg s) ∨
      (insert serde faults msg s).outcome = .ok () ∧ selectById s msg.id.toString = none ∧
        (insert serde faults msg s).world.messages
          = s.messages ++ [MessageModel.ofMessage serde msg] := by
  simp only [insert]
  rcases attempts_bind_cases faults _ s with hfault | hnext
  · exact .inl hfault
  · rw [hnext]
    refine Or.imp id ?_ (transaction_cases _ s)
    rintro ⟨hok, hbody, hworld⟩
    refine ⟨hok, ?_⟩
    rw [hworld]
    have hrest := attempt_bind_ok hbody
    rw [hrest, statement_bind, insertRow] at hbody
    rw [hrest, statement_bind, insertRow]
    cases hnew : selectById s (MessageModel.ofMessage serde msg).id with
    | some row =>
        rw [hnew] at hbody
        exact nomatch hbody
    | none =>
        refine ⟨hnew, ?_⟩
        obtain ⟨hindexed, hmessages⟩ := insertRecipients_run faults
          (MessageModel.ofMessage serde msg).id
          (splitComma (MessageModel.ofMessage serde msg).recipientFingerprints) 3
          { s with messages := s.messages ++ [MessageModel.ofMessage serde msg] }
        simp only [if_true]
        rw [Prog.bind_of_ok hindexed]
        dsimp only
        rw [attempt_world]
        exact hmessages

theorem updateState_cases (serde : SerdeJson) (faults : Faults) (id : Uuid)
    (newState : MessageState) (s : MessageTables) :
    Refused s (updateState serde faults id newState s) ∨
      (updateState serde faults id newState s).outcome = .ok () ∧
        (updateState serde faults id newState s).world.messages
          = Table.modify MessageModel.id ({ · with state := stateColumn serde newState })
              s.messages id.toString := by
  simp only [updateState, stateColumn]
  cases serde.messageStateToString newState with
  | none => exact .inl (refused _ s)
  | some state =>
      dsimp only
      rcases attempts_bind_cases faults _ s with hfault | hnext
      · exact .inl hfault
      · rw [hnext, statement_bind, updateRow]
        cases selectById s id.toString with
        | none => exact .inl (refused _ s)
        | some row => exact .inr ⟨rfl, rfl⟩

theorem delete_cases (faults : Faults) (id : Uuid) (s : MessageTables) :
    Refused s (delete faults id s) ∨
      (delete faults id s).outcome = .ok () ∧
        (delete faults id s).world.messages
          = Table.erase MessageModel.id s.messages id.toString := by
  simp only [delete]
  rcases attempts_bind_cases faults _ s with hfault | hnext
  · exact .inl hfault
  · rw [hnext, statement_bind, deleteRow]
    cases selectById s id.toString with
    | none => exact .inl (refused _ s)
    | some row =>
        refine .inr ⟨rfl, ?_⟩
        show (deleteRecipients (faults 2) id.toString _).2.messages = _
        rw [deleteRecipients_messages]

/-- Reading changes nothing. -/
theorem get_world (serde : SerdeJson) (faults : Faults) (id : Uuid) (s : MessageTables) :
    (get serde faults id s).world = s := by
  have hkeeps : Prog.Keeps (· = s) (get serde faults id) := by
    refine .bind (attempt_keeps faults 0) ?_
    intro _
    refine .bind (attempt_keeps faults 1) ?_
    intro _
    refine .bind (attempt_keeps faults 2) fun _ => .bind (.silent fun _ h => h) ?_
    intro row
    cases row with
    | none => exact .fail _
    | some row => exact .orFail _ _
  exact hkeeps s rfl

/-- What `get` answers when the database does. -/
theorem get_none (serde : SerdeJson) (id : Uuid) (s : MessageTables) :
    (get serde .none id s).outcome
      = match selectById s id.toString with
        | some row => (match decodeMessage serde row.messageJson with
            | .ok msg => .ok msg
            | .error e => .err e)
        | none => .err (.message .notFound) := by
  simp only [get, attempt_none_bind, statement_bind]
  cases selectById s id.toString with
  | none => rfl
  | some row =>
      dsimp only
      cases decodeMessage serde row.messageJson with
      | ok msg => rfl
      | error e => rfl

end MessageRepository
end Rubix.Persistence

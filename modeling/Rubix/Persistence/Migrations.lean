/-
# `Rubix.Persistence.Migrations` — how a database file gets its schema

    BEGIN
    CREATE TABLE IF NOT EXISTS schema_migrations
    for each migration not found there:
        its statements;  INSERT INTO schema_migrations
    COMMIT

All of it is one transaction, so a call that fails leaves the file as it was.
A migration is run where the query for it finds no row; where the query itself
fails the migration is passed over, and the call still commits.

Whatever calls fail, between any changes of rows, a file that these calls have
made is in one of three shapes (`Shape`): empty, with nothing but an empty
`schema_migrations`, or with the whole core schema and its one row there.  From
the last no call changes anything any more (`migrated_once`).  The column
`trusted` is in none of them: only a migration that is not in the list adds it.
-/
import Rubix.Domain.Basic
import Rubix.Lib.Effect
import Rubix.Lib.Relational
import Rubix.Lib.Runs

namespace Rubix.Persistence

open Relational (Column Database Relation Statement)

/-- A value of a column. -/
inductive Value where
  | null
  | integer (n : Int)
  | text (s : String)
  | blob (bytes : List UInt8)
  deriving DecidableEq

/-- A versioned migration. -/
structure Migration where
  id : String
  sql : List (Statement Value)

def nullable (name type : String) : Column Value := ⟨name, type, false, false, none⟩

def notNull (name type : String) : Column Value := ⟨name, type, true, false, none⟩

/-- `CREATE TABLE IF NOT EXISTS schema_migrations` -/
def createJournal : Statement Value :=
  .createTable "schema_migrations" [nullable "id" "TEXT", notNull "applied_at" "INTEGER"] ["id"]

/-- The list in `run_migrations`. -/
def migrations : List Migration :=
  [{ id := "001_create_core_tables"
     sql :=
      [createJournal,
        .createTable "peers"
          [nullable "id" "TEXT", notNull "display_name" "TEXT",
            { notNull "fingerprint" "TEXT" with unique := true },
            notNull "ed25519_public" "BLOB", notNull "x25519_public" "BLOB",
            notNull "addresses" "TEXT", notNull "status" "TEXT",
            { notNull "verified" "INTEGER" with default := some (.integer 0) },
            notNull "first_seen" "INTEGER", notNull "last_seen" "INTEGER"] ["id"],
        .createIndex "idx_peers_fingerprint" "peers" ["fingerprint"],
        .createTable "messages"
          [nullable "id" "TEXT", notNull "sender_fingerprint" "TEXT",
            notNull "recipient_fingerprints" "TEXT", notNull "content" "BLOB",
            notNull "content_type" "TEXT", notNull "state" "TEXT", notNull "message_json" "TEXT",
            notNull "created_at" "INTEGER", nullable "sent_at" "INTEGER",
            nullable "delivered_at" "INTEGER", nullable "read_at" "INTEGER"] ["id"],
        .createIndex "idx_messages_sender" "messages" ["sender_fingerprint"],
        .createIndex "idx_messages_created_at" "messages" ["created_at"],
        .createTable "message_recipients"
          [notNull "message_id" "TEXT", notNull "recipient_fingerprint" "TEXT"]
          ["message_id", "recipient_fingerprint"],
        .createIndex "idx_message_recipients_recipient" "message_recipients"
          ["recipient_fingerprint"]] }]

/-- Which calls of `run_migrations` to the database fail for reasons of its own. -/
structure MigrationFaults where
  /-- `pool.get()` -/
  pool : Bool
  /-- `conn.transaction()` -/
  begins : Bool
  /-- the first `execute_batch` -/
  journal : Bool
  /-- the query for the `k`-th migration -/
  query : Nat → Bool
  /-- the `execute_batch` of the `k`-th migration -/
  apply : Nat → Bool
  /-- the `INSERT` behind it -/
  record : Nat → Bool
  commit : Bool

def MigrationFaults.none : MigrationFaults :=
  ⟨false, false, false, fun _ => false, fun _ => false, fun _ => false, false⟩

/-- `PersistenceError`, in the members that `run_migrations` returns. -/
inductive DatabaseError where
  | pool
  | sql
  deriving DecidableEq

/-- A call that fails on a fault, or on what it finds. -/
def orError {α : Type} (e : DatabaseError) (fault : Bool) (r : Option α) : Except DatabaseError α :=
  match r with
  | some a => if fault then .error e else .ok a
  | none => .error e

section
variable (faults : MigrationFaults) (now : Nat → DateTime)

/-- The loop, from the `k`-th migration on; `now k` is the reading of the clock
for the `k`-th row. -/
def applyFrom (k : Nat) (db : Database Value) : List Migration →
    Except DatabaseError (Database Value)
  | [] => .ok db
  | m :: rest =>
      match orError .sql (faults.query k) (db.exists? "schema_migrations" "id" (.text m.id)) with
      | .ok false => do
          let applied ← orError .sql (faults.apply k) (db.batch m.sql)
          let recorded ← orError .sql (faults.record k)
            (applied.insert .null "schema_migrations" [.text m.id, .integer (now k).timestamp])
          applyFrom (k + 1) recorded rest
      -- it is there, or the query has failed for another reason than that it is not
      | _ => applyFrom (k + 1) db rest

/-- The transaction: what stands in the file when it commits. -/
def migrated (list : List Migration) (db : Database Value) :
    Except DatabaseError (Database Value) := do
  let _ ← orError .pool faults.pool (some ())
  let _ ← orError .sql faults.begins (some ())
  let journalled ← orError .sql faults.journal (db.execute createJournal)
  let last ← applyFrom faults now 0 journalled list
  orError .sql faults.commit (some last)

/-- `run_migrations`: what it returns, and the file behind it. -/
def runMigrations (list : List Migration) (db : Database Value) :
    Except DatabaseError Unit × Database Value :=
  match migrated faults now list db with
  | .ok db' => (.ok (), db')
  | .error e => (.error e, db)

end

/-! ## Any list of migrations -/

section
variable {faults : MigrationFaults} {now : Nat → DateTime} {list : List Migration}
  {db db' : Database Value}

theorem orError_eq_ok {α : Type} {e : DatabaseError} {fault : Bool} {r : Option α} {a : α} :
    orError e fault r = .ok a ↔ fault = false ∧ r = some a := by
  cases r with
  | none => simp [orError]
  | some b =>
      cases fault with
      | true => simp [orError]
      | false => simp [orError]

/-- Every table but that of the migrations is as it was. -/
def Keeps (db db' : Database Value) : Prop :=
  ∀ t ∈ db.tables, t.name ≠ "schema_migrations" → t ∈ db'.tables

theorem Keeps.refl (db : Database Value) : Keeps db db := fun _ ht _ => ht

theorem Keeps.trans {db'' : Database Value} (h : Keeps db db') (h' : Keeps db' db'') :
    Keeps db db'' :=
  fun t ht hne => h' t (h t ht hne) hne

theorem keeps_of_extends (h : db.Extends db') : Keeps db db' :=
  fun _ ht _ => h.tables.subset ht

theorem applyFrom_keeps {k : Nat} (h : applyFrom faults now k db list = .ok db') :
    Keeps db db' := by
  induction list generalizing k db with
  | nil =>
      cases h
      exact .refl _
  | cons m rest ih =>
      rw [applyFrom] at h
      split at h
      · obtain ⟨applied, happlied, h⟩ := Effect.bind_eq_ok.mp h
        obtain ⟨recorded, hrecorded, h⟩ := Effect.bind_eq_ok.mp h
        have hbatch := keeps_of_extends (Database.batch_extends (orError_eq_ok.mp happlied).2)
        refine hbatch.trans (Keeps.trans ?_ (ih h))
        intro t ht hne
        exact Database.insert_elsewhere (orError_eq_ok.mp hrecorded).2 ht hne
      · exact ih h

/-- A call keeps every row of every other table, and one that fails keeps
everything. -/
theorem runMigrations_keeps (faults : MigrationFaults) (now : Nat → DateTime)
    (list : List Migration) (db : Database Value) :
    Keeps db (runMigrations faults now list db).2 ∧
      ∀ e, (runMigrations faults now list db).1 = .error e →
        (runMigrations faults now list db).2 = db := by
  rw [runMigrations]
  split
  · next db' h =>
      refine ⟨?_, fun e he => nomatch he⟩
      obtain ⟨-, -, h⟩ := Effect.bind_eq_ok.mp h
      obtain ⟨-, -, h⟩ := Effect.bind_eq_ok.mp h
      obtain ⟨journalled, hjournalled, h⟩ := Effect.bind_eq_ok.mp h
      obtain ⟨last, hlast, h⟩ := Effect.bind_eq_ok.mp h
      cases (orError_eq_ok.mp h).2
      have hcreated := Database.execute_extends (orError_eq_ok.mp hjournalled).2
      exact (keeps_of_extends hcreated).trans (applyFrom_keeps hlast)
  · exact ⟨.refl db, fun _ _ => rfl⟩

end

/-! ## The list of the code -/

/-- A file with nothing but an empty `schema_migrations`. -/
def bare : Database Value :=
  ⟨[⟨"schema_migrations", [nullable "id" "TEXT", notNull "applied_at" "INTEGER"], ["id"], []⟩], []⟩

/-- What the one migration makes of it. -/
def core : Database Value := (bare.batch (migrations.flatMap Migration.sql)).getD bare

/-- The migration's row, with the instant at which it was written. -/
def journalRow (at_ : DateTime) : List Value :=
  [.text "001_create_core_tables", .integer at_.timestamp]

/-- A table, but for its rows. -/
def heading (t : Relation Value) : Relation Value := { t with rows := [] }

/-- The core schema, and the one row of `schema_migrations`. -/
structure Complete (db : Database Value) : Prop where
  tables : db.tables.map heading = core.tables
  indexes : db.indexes = core.indexes
  row : ∃ at_ : DateTime, ∃ t, db.table "schema_migrations" = some t ∧ t.rows = [journalRow at_]

/-- What a file is like. -/
inductive Shape (db : Database Value) : Prop where
  | empty (h : db = .empty)
  | bare (h : db = bare)
  | complete (h : Complete db)

/-- The rows of every table but that of the migrations, changed in any way. -/
def change (f : String → List (List Value) → List (List Value)) (db : Database Value) :
    Database Value :=
  { db with tables := db.tables.map fun t =>
      if t.name = "schema_migrations" then t else { t with rows := f t.name t.rows } }

inductive FileEvent where
  /-- A call of `run_migrations`. -/
  | migrates (faults : MigrationFaults) (now : Nat → DateTime)
  /-- The repositories insert, update and delete. -/
  | changes (f : String → List (List Value) → List (List Value))

def fileStep (db : Database Value) : FileEvent → Database Value
  | .migrates faults now => (runMigrations faults now migrations db).2
  | .changes f => change f db

theorem batch_core : bare.batch (migrations.flatMap Migration.sql) = some core := by decide

/-- The file behind the migration. -/
def recorded (at_ : DateTime) : Database Value :=
  { core with
    tables := Table.modify Relation.name (fun t => { t with rows := t.rows ++ [journalRow at_] })
      core.tables "schema_migrations" }

theorem recorded_complete (at_ : DateTime) : Complete (recorded at_) where
  tables := rfl
  indexes := rfl
  row := ⟨at_, _, rfl, rfl⟩

/-! ## One call -/

section
variable (faults : MigrationFaults) (now : Nat → DateTime) {db : Database Value}

theorem applyFrom_bare : applyFrom faults now 0 bare migrations
    = if faults.query 0 then .ok bare
      else if faults.apply 0 || faults.record 0 then .error .sql else .ok (recorded (now 0)) := by
  have hbatch : bare.batch (migrations.flatMap Migration.sql) = some core := batch_core
  have hquery : bare.exists? "schema_migrations" "id" (.text "001_create_core_tables")
      = some false := rfl
  rw [migrations, List.flatMap_singleton] at hbatch
  rw [migrations, applyFrom, hquery, hbatch]
  cases faults.query 0 with
  | true => rfl
  | false =>
      cases faults.apply 0 with
      | true => rfl
      | false =>
          cases faults.record 0 with
          | true => rfl
          | false => rfl

/-- A call on a file without the migration's row fails, or passes the migration
over, or runs it. -/
theorem runMigrations_fresh (h : db.execute createJournal = some bare) :
    (∃ e, runMigrations faults now migrations db = (.error e, db)) ∨
      (faults.query 0 = true ∧ runMigrations faults now migrations db = (.ok (), bare)) ∨
      (faults.query 0 = false ∧
        runMigrations faults now migrations db = (.ok (), recorded (now 0))) := by
  rw [runMigrations]
  cases hresult : migrated faults now migrations db with
  | error e => exact .inl ⟨e, rfl⟩
  | ok db' =>
      obtain ⟨-, -, hresult⟩ := Effect.bind_eq_ok.mp hresult
      obtain ⟨-, -, hresult⟩ := Effect.bind_eq_ok.mp hresult
      obtain ⟨journalled, hjournalled, hresult⟩ := Effect.bind_eq_ok.mp hresult
      obtain ⟨last, hlast, hcommit⟩ := Effect.bind_eq_ok.mp hresult
      cases (orError_eq_ok.mp hcommit).2
      cases h.symm.trans (orError_eq_ok.mp hjournalled).2
      rw [applyFrom_bare] at hlast
      right
      split at hlast
      · next hquery =>
          cases hlast
          exact .inl ⟨hquery, rfl⟩
      · next hquery =>
          split at hlast
          · exact nomatch hlast
          · cases hlast
            exact .inr ⟨eq_false_of_ne_true hquery, rfl⟩

theorem exists_of_complete (h : Complete db) :
    db.exists? "schema_migrations" "id" (.text "001_create_core_tables") = some true := by
  obtain ⟨at_, t, ht, hrows⟩ := h.row
  have hnames : t.names = ["id", "applied_at"] := by
    have hmem : heading t ∈ core.tables := by
      rw [← h.tables]
      exact List.mem_map_of_mem (List.mem_of_find?_eq_some ht)
    have hname : t.name = "schema_migrations" := Table.key_of_find ht
    have hall : ∀ u ∈ core.tables, u.name = "schema_migrations" →
        u.names = ["id", "applied_at"] := by decide
    exact hall (heading t) hmem hname
  rw [Database.exists?, ht, Option.bind_some, hnames, hrows]
  simp [Relation.value, hnames, journalRow]

theorem execute_complete (h : Complete db) : db.execute createJournal = some db := by
  obtain ⟨at_, t, ht, -⟩ := h.row
  rw [createJournal, Database.execute, ht]

/-- In a complete file the row is found, or not looked for. -/
theorem applyFrom_complete (h : Complete db) : applyFrom faults now 0 db migrations = .ok db := by
  rw [migrations, applyFrom, exists_of_complete h]
  cases faults.query 0 with
  | true => rfl
  | false => rfl

theorem runMigrations_complete (h : Complete db) :
    (runMigrations faults now migrations db).2 = db := by
  rw [runMigrations]
  cases hresult : migrated faults now migrations db with
  | error e => rfl
  | ok db' =>
      obtain ⟨-, -, hresult⟩ := Effect.bind_eq_ok.mp hresult
      obtain ⟨-, -, hresult⟩ := Effect.bind_eq_ok.mp hresult
      obtain ⟨journalled, hjournalled, hresult⟩ := Effect.bind_eq_ok.mp hresult
      obtain ⟨last, hlast, hcommit⟩ := Effect.bind_eq_ok.mp hresult
      cases (orError_eq_ok.mp hcommit).2
      cases (execute_complete h).symm.trans (orError_eq_ok.mp hjournalled).2
      exact Except.ok.inj (hlast.symm.trans (applyFrom_complete faults now h))

/-- A call in which nothing fails leaves the file complete. -/
theorem runMigrations_none (h : db.execute createJournal = some bare) :
    runMigrations .none now migrations db = (.ok (), recorded (now 0)) := by
  rw [runMigrations, migrated, h]
  rfl

theorem runMigrations_none_complete (h : Complete db) :
    (runMigrations .none now migrations db).1 = .ok () ∧
      Complete (runMigrations .none now migrations db).2 := by
  have hrun : migrated .none now migrations db = .ok db := by
    rw [migrated, execute_complete h]
    show (applyFrom .none now 0 db migrations >>= fun last => orError .sql false (some last)) = _
    rw [applyFrom_complete .none now h]
    rfl
  rw [runMigrations, hrun]
  exact ⟨rfl, h⟩

end

/-! ## Whole runs -/

theorem change_complete {db : Database Value} (h : Complete db)
    (f : String → List (List Value) → List (List Value)) : Complete (change f db) := by
  refine ⟨?_, h.indexes, ?_⟩
  · rw [change, List.map_map, ← h.tables]
    refine List.map_congr_left ?_
    intro t _
    show heading (if t.name = "schema_migrations" then t else _) = heading t
    split
    · rfl
    · rfl
  · obtain ⟨at_, t, ht, hrows⟩ := h.row
    refine ⟨at_, t, ?_, hrows⟩
    have hname : t.name = "schema_migrations" := Table.key_of_find ht
    have hkey : ∀ u : Relation Value,
        (if u.name = "schema_migrations" then u else { u with rows := f u.name u.rows }).name
          = u.name := by
      intro u
      split
      · rfl
      · rfl
    rw [Database.table, Table.find] at ht ⊢
    rw [change, List.find?_map]
    simp only [Function.comp_def, hkey, ht, Option.map_some, if_pos hname]

theorem Shape.step {db : Database Value} (h : Shape db) (e : FileEvent) :
    Shape (fileStep db e) := by
  cases e with
  | migrates faults now =>
      rw [fileStep]
      by_cases hfresh : db.execute createJournal = some Persistence.bare
      · rcases runMigrations_fresh faults now hfresh with ⟨e, he⟩ | ⟨-, he⟩ | ⟨-, he⟩
        · rw [he]
          exact h
        · rw [he]
          exact .bare rfl
        · rw [he]
          exact .complete (recorded_complete (now 0))
      · cases h with
        | empty h =>
            rw [h] at hfresh
            exact absurd rfl hfresh
        | bare h =>
            rw [h] at hfresh
            exact absurd rfl hfresh
        | complete h =>
            rw [runMigrations_complete faults now h]
            exact .complete h
  | changes f =>
      rw [fileStep]
      cases h with
      | empty h =>
          subst h
          exact .empty rfl
      | bare h =>
          subst h
          exact .bare rfl
      | complete h => exact .complete (change_complete h f)

theorem Shape.untrusted {db : Database Value} (h : Shape db) :
    ∀ t ∈ db.tables, "trusted" ∉ t.names := by
  intro t ht
  cases h with
  | empty h =>
      rw [h] at ht
      exact absurd ht List.not_mem_nil
  | bare h =>
      rw [h] at ht
      cases List.mem_singleton.mp ht
      decide
  | complete h =>
      have hmem : heading t ∈ core.tables := by
        rw [← h.tables]
        exact List.mem_map_of_mem ht
      have hall : ∀ u ∈ core.tables, "trusted" ∉ u.names := by decide
      exact hall (heading t) hmem

/-- In a file that is not complete a call finds no row of the migration. -/
theorem Shape.fresh {db : Database Value} (h : Shape db) (hnot : ¬ Complete db) :
    db.execute createJournal = some Persistence.bare := by
  cases h with
  | empty h =>
      rw [h]
      rfl
  | bare h =>
      rw [h]
      rfl
  | complete h => exact absurd h hnot

/-- Whatever calls of `run_migrations` fail, and however rows change between
them, the schema is there whole or not at all, with its row or without: the
migration is run once, by a call that succeeds and whose query does not fail.
A call that fails changes nothing, no call changes a row of another table or
anything in a complete file, and no table has a column `trusted`. -/
theorem migrated_once (events : List FileEvent) :
    let db := Runs.run fileStep events .empty
    Shape db ∧ (∀ t ∈ db.tables, "trusted" ∉ t.names) ∧
      ∀ (faults : MigrationFaults) (now : Nat → DateTime),
        let r := runMigrations faults now migrations db
        Keeps db r.2 ∧ (∀ e, r.1 = .error e → r.2 = db) ∧ (Complete db → r.2 = db) ∧
          (¬ Complete db → r.1 = .ok () →
            (faults.query 0 = true ∧ r.2 = bare) ∨
              (faults.query 0 = false ∧ r.2 = recorded (now 0) ∧ Complete r.2)) ∧
          (faults = .none → r.1 = .ok () ∧ Complete r.2) := by
  intro db
  have hshape : Shape db :=
    (Runs.always_of_invariant (P := Shape) (.empty rfl) (fun _ e h => h.step e) events).last
  refine ⟨hshape, hshape.untrusted, ?_⟩
  intro faults now r
  obtain ⟨hkeeps, hfails⟩ := runMigrations_keeps faults now migrations db
  refine ⟨hkeeps, hfails, runMigrations_complete faults now, ?_, ?_⟩
  · intro hnot hok
    rcases runMigrations_fresh faults now (hshape.fresh hnot) with ⟨e, he⟩ | ⟨hquery, he⟩ |
      ⟨hquery, he⟩
    · exact nomatch hok.symm.trans (congrArg Prod.fst he)
    · exact .inl ⟨hquery, congrArg Prod.snd he⟩
    · have hfile : r.2 = recorded (now 0) := congrArg Prod.snd he
      exact .inr ⟨hquery, hfile, hfile ▸ recorded_complete (now 0)⟩
  · intro hnone
    subst hnone
    by_cases hcomplete : Complete db
    · exact runMigrations_none_complete now hcomplete
    · have hrun : r = (.ok (), recorded (now 0)) :=
        runMigrations_none now (hshape.fresh hcomplete)
      rw [hrun]
      exact ⟨rfl, recorded_complete (now 0)⟩

/-- Two starts of the program, with rows deleted between them. -/
theorem migrated_once_restart :
    let db := Runs.run fileStep [.migrates .none fun _ => 0, .changes fun _ rows => rows.drop 1]
      .empty
    Complete db ∧ (runMigrations .none (fun _ => 5) migrations db).2 = db := by
  intro db
  obtain ⟨-, -, hfirst⟩ := migrated_once []
  obtain ⟨-, -, -, -, hmigrates⟩ := hfirst .none fun _ => 0
  have hcomplete : Complete db := change_complete (hmigrates rfl).2 fun _ rows => rows.drop 1
  obtain ⟨-, -, hsecond⟩ :=
    migrated_once [.migrates .none fun _ => 0, .changes fun _ rows => rows.drop 1]
  obtain ⟨-, -, hkept, -⟩ := hsecond .none fun _ => 5
  exact ⟨hcomplete, hkept hcomplete⟩

end Rubix.Persistence

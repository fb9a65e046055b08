/-
# `Rubix.Lib.Relational` — tables and indexes under `IF NOT EXISTS`

A database is what its file holds: its tables with their rows, and its
indexes.  The statements are those that set a schema up, and each of them finds
what it would create, creates it, or fails:

    CREATE TABLE IF NOT EXISTS    fails where an index has the name
    CREATE INDEX IF NOT EXISTS    fails without its table or one of its columns
    INSERT                        fails without the table or a column, or where a
                                  constraint on the row is not met

So a batch of the first two only adds (`batch_extends`), and an `INSERT`
changes no table but its own (`insert_elsewhere`).
-/
import Rubix.Lib.Table

namespace Relational

/-- A column, with its constraints and what it holds by default. -/
structure Column (ν : Type) where
  name : String
  type : String
  notNull : Bool
  unique : Bool
  default : Option ν
  deriving DecidableEq

/-- A table; `key` are the columns of its primary key. -/
structure Relation (ν : Type) where
  name : String
  columns : List (Column ν)
  key : List String
  rows : List (List ν)
  deriving DecidableEq

structure Index where
  name : String
  table : String
  columns : List String
  deriving DecidableEq

structure Database (ν : Type) where
  tables : List (Relation ν)
  indexes : List Index
  deriving DecidableEq

inductive Statement (ν : Type) where
  /-- `CREATE TABLE IF NOT EXISTS` -/
  | createTable (name : String) (columns : List (Column ν)) (key : List String)
  /-- `CREATE INDEX IF NOT EXISTS` -/
  | createIndex (name table : String) (columns : List String)
  deriving DecidableEq

variable {ν : Type}

namespace Relation

def names (t : Relation ν) : List String := t.columns.map Column.name

/-- The value of a column, in a row of a table. -/
def value (t : Relation ν) (row : List ν) (column : String) : Option ν :=
  ((t.names.zip row).find? fun cell => cell.1 = column).map Prod.snd

section
variable [DecidableEq ν] (null : ν) (t : Relation ν) (row : List ν)

/-- The primary key of a row is taken. -/
def taken : Bool :=
  !t.key.isEmpty &&
    t.rows.any fun row' => t.key.all fun column => t.value row' column = t.value row column

/-- A row meets the constraints of a column. -/
def meets (column : Column ν) : Bool :=
  let v := t.value row column.name
  (!column.notNull || v ≠ some null) &&
    (!column.unique || v = some null || t.rows.all fun row' => t.value row' column.name ≠ v)

/-- A row can be inserted. -/
def accepts : Bool :=
  row.length = t.columns.length && !t.taken row && t.columns.all (t.meets null row)

end
end Relation

namespace Database

def empty : Database ν := ⟨[], []⟩

def table (db : Database ν) (name : String) : Option (Relation ν) :=
  Table.find Relation.name db.tables name

def index (db : Database ν) (name : String) : Option Index := Table.find Index.name db.indexes name

/-- A statement, if it does not fail. -/
def execute (db : Database ν) : Statement ν → Option (Database ν)
  | .createTable name columns key =>
      match db.table name with
      | some _ => some db
      | none =>
          if (db.index name).isSome then none
          else some { db with tables := db.tables ++ [⟨name, columns, key, []⟩] }
  | .createIndex name table columns =>
      match db.table table with
      | none => none
      | some relation =>
          if (db.table name).isSome then none
          else if (db.index name).isSome then some db
          else if columns ⊆ relation.names then
            some { db with indexes := db.indexes ++ [⟨name, table, columns⟩] }
          else none

/-- `execute_batch`: up to the first statement that fails. -/
def batch (db : Database ν) : List (Statement ν) → Option (Database ν)
  | [] => some db
  | statement :: rest => (db.execute statement).bind fun db' => db'.batch rest

/-- `SELECT 1 FROM name WHERE column = v`: is there a row? -/
def exists? [DecidableEq ν] (db : Database ν) (name column : String) (v : ν) : Option Bool :=
  (db.table name).bind fun t =>
    if column ∈ t.names then some (t.rows.any fun row => t.value row column = some v) else none

/-- `INSERT INTO name VALUES row`, for a row in the order of the columns whose
key is not `NULL`. -/
def insert [DecidableEq ν] (null : ν) (db : Database ν) (name : String) (row : List ν) :
    Option (Database ν) :=
  (db.table name).bind fun t =>
    if t.accepts null row then
      some { db with
        tables := Table.modify Relation.name (fun t => { t with rows := t.rows ++ [row] })
          db.tables name }
    else none

/-! ## What is kept -/

/-- Nothing is changed, and nothing taken away. -/
structure Extends (db db' : Database ν) : Prop where
  tables : db.tables <+: db'.tables
  indexes : db.indexes <+: db'.indexes

variable {db db' db'' : Database ν} {statement : Statement ν}
  {statements : List (Statement ν)}

theorem Extends.refl (db : Database ν) : db.Extends db := ⟨List.prefix_rfl, List.prefix_rfl⟩

theorem Extends.trans (h : db.Extends db') (h' : db'.Extends db'') : db.Extends db'' :=
  ⟨h.tables.trans h'.tables, h.indexes.trans h'.indexes⟩

theorem execute_extends (h : db.execute statement = some db') : db.Extends db' := by
  cases statement with
  | createTable name columns key =>
      rw [execute] at h
      split at h
      · cases h
        exact .refl db
      · split at h
        · exact nomatch h
        · cases h
          exact ⟨List.prefix_append _ _, List.prefix_rfl⟩
  | createIndex name table columns =>
      rw [execute] at h
      split at h
      · exact nomatch h
      · split at h
        · exact nomatch h
        · split at h
          · cases h
            exact .refl db
          · split at h
            · cases h
              exact ⟨List.prefix_rfl, List.prefix_append _ _⟩
            · exact nomatch h

theorem batch_extends (h : db.batch statements = some db') : db.Extends db' := by
  induction statements generalizing db with
  | nil =>
      cases h
      exact .refl _
  | cons statement rest ih =>
      obtain ⟨mid, hmid, hrest⟩ := Option.bind_eq_some_iff.mp h
      exact (execute_extends hmid).trans (ih hrest)

theorem insert_elsewhere [DecidableEq ν] {null : ν} {name : String} {row : List ν}
    (h : db.insert null name row = some db') {t : Relation ν} (ht : t ∈ db.tables)
    (hne : t.name ≠ name) : t ∈ db'.tables := by
  obtain ⟨t', -, h⟩ := Option.bind_eq_some_iff.mp h
  split at h
  · cases h
    exact Table.mem_modify.mpr ⟨t, ht, if_neg hne⟩
  · exact nomatch h

end Database
end Relational

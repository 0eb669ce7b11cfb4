import Mathlib.Data.List.Basic
import Mathlib.Data.List.Forall2
import Mathlib.Tactic.Common

set_option autoImplicit false

/-! # Databases with a schema, and statements that change both

Rows are functions from column names to values, and a database has a list of table definitions, a
list of indexes and the rows of every table. Foreign keys are enforced and immediate: a deletion
fails when a row that stays refers to a deleted one, unless the key is `ON DELETE SET NULL`.
Dropping a table deletes its rows first, and renaming one retargets the keys that refer to it. -/

namespace Sql

inductive Value where
  | null
  | integer (n : Int)
  | real (bits : Nat)
  | text (s : String)
  | blob (bytes : List Nat)
deriving DecidableEq

abbrev Row := String → Value

inductive Default where
  | constant (v : Value)
  | currentTimestamp
deriving DecidableEq

structure Column where
  name : String
  notNull : Bool := false
  default : Default := .constant .null
deriving DecidableEq

structure ForeignKey where
  column : String
  parent : String
  parentColumn : String := "id"
  onDeleteSetNull : Bool := false
deriving DecidableEq

structure TableDef where
  columns : List Column
  primaryKey : String := "id"
  unique : List (List String) := []
  foreignKeys : List ForeignKey := []
deriving DecidableEq

/-- The columns that must not be null and equal in two rows. -/
def TableDef.uniqueKeys (d : TableDef) : List (List String) := [d.primaryKey] :: d.unique

def TableDef.columnNames (d : TableDef) : List String := d.columns.map (·.name)

/-- With `whereNull`, an index on the rows in which that column is null. The condition of an index
    that is not unique is left out: it changes no result. -/
structure Index where
  name : String
  table : String
  columns : List String
  unique : Bool := false
  whereNull : Option String := none
deriving DecidableEq

structure Schema where
  tables : List (String × TableDef) := []
  indexes : List Index := []
deriving DecidableEq

structure Database where
  schema : Schema
  rows : String → List Row

inductive SqlError where
  | noSuchTable (table : String)
  | tableExists (table : String)
  | noSuchColumn (column : String)
  | duplicateColumn (column : String)
  | cannotAddColumn (column : String)
  | noSuchIndex (index : String)
  | indexExists (index : String)
  | notNullFailed
  | uniqueFailed
  | foreignKeyFailed
deriving DecidableEq

/-! ## Constraints -/

/-- No two rows are equal and not null in all the columns. -/
def Distinct (columns : List String) (rows : List Row) : Prop :=
  rows.Pairwise (fun r r' => ∃ c ∈ columns, r c = .null ∨ r c ≠ r' c)

instance (columns : List String) (rows : List Row) : Decidable (Distinct columns rows) := by
  unfold Distinct
  infer_instance

/-- The rows that the index is on. -/
def Index.covered (i : Index) (rows : List Row) : List Row :=
  match i.whereNull with
  | none => rows
  | some c => rows.filter (fun r => r c == .null)

def Row.Filled (r : Row) (d : TableDef) : Prop :=
  ∀ c ∈ d.columns, c.notNull = true → r c.name ≠ .null

/-- The row refers to the other by the key. -/
def ForeignKey.Refers (fk : ForeignKey) (r p : Row) : Prop :=
  r fk.column ≠ .null ∧ r fk.column = p fk.parentColumn

instance (fk : ForeignKey) (r p : Row) : Decidable (fk.Refers r p) := by
  unfold ForeignKey.Refers
  infer_instance

instance (r : Row) (d : TableDef) : Decidable (r.Filled d) := by
  unfold Row.Filled
  infer_instance

namespace Database

/-- Every row that is not null in the column of a foreign key refers to a row. -/
def ForeignKeysHold (db : Database) : Prop :=
  ∀ t ∈ db.schema.tables, ∀ fk ∈ t.2.foreignKeys, ∀ r ∈ db.rows t.1, r fk.column ≠ .null →
    ∃ p ∈ db.rows fk.parent, fk.Refers r p

structure Consistent (db : Database) : Prop where
  filled : ∀ t ∈ db.schema.tables, ∀ r ∈ db.rows t.1, r.Filled t.2
  uniqueKeys : ∀ t ∈ db.schema.tables, ∀ columns ∈ t.2.uniqueKeys, Distinct columns (db.rows t.1)
  uniqueIndexes : ∀ i ∈ db.schema.indexes, i.unique = true →
    Distinct i.columns (i.covered (db.rows i.table))
  foreignKeys : db.ForeignKeysHold

instance (db : Database) : Decidable db.ForeignKeysHold := by
  unfold ForeignKeysHold
  infer_instance

instance (db : Database) : Decidable db.Consistent :=
  decidable_of_iff ((∀ t ∈ db.schema.tables, ∀ r ∈ db.rows t.1, r.Filled t.2) ∧
      (∀ t ∈ db.schema.tables, ∀ columns ∈ t.2.uniqueKeys, Distinct columns (db.rows t.1)) ∧
      (∀ i ∈ db.schema.indexes, i.unique = true →
        Distinct i.columns (i.covered (db.rows i.table))) ∧ db.ForeignKeysHold)
    ⟨fun ⟨h₁, h₂, h₃, h₄⟩ => ⟨h₁, h₂, h₃, h₄⟩, fun ⟨h₁, h₂, h₃, h₄⟩ => ⟨h₁, h₂, h₃, h₄⟩⟩

end Database

/-! ## Statements -/

/-- What a key that is set to null on deletion leaves of a row. -/
def Row.setNulls (r : Row) (d : TableDef) (table : String) (deleted : List Row) : Row := fun c =>
  if d.foreignKeys.any (fun fk => fk.onDeleteSetNull && fk.parent == table && fk.column == c &&
    deleted.any (fun p => fk.Refers r p)) then .null
  else r c

namespace Database

/-- The rows without those of the table that are deleted. -/
def without (db : Database) (table : String) (p : Row → Bool) : String → List Row := fun t =>
  if t = table then (db.rows t).filter (fun r => !p r) else db.rows t

/-- A row that is left refers to a deleted one. -/
def LeavesReference (db : Database) (table : String) (p : Row → Bool) : Prop :=
  ∃ t ∈ db.schema.tables, ∃ fk ∈ t.2.foreignKeys, fk.parent = table ∧ fk.onDeleteSetNull = false ∧
    ∃ r ∈ db.without table p t.1, ∃ q ∈ (db.rows table).filter p, fk.Refers r q

instance (db : Database) (table : String) (p : Row → Bool) :
    Decidable (db.LeavesReference table p) := by
  unfold LeavesReference
  infer_instance

/-- `DELETE FROM table WHERE p`. -/
def deleteRows (db : Database) (table : String) (p : Row → Bool) : Except SqlError Database :=
  if db.LeavesReference table p then .error .foreignKeyFailed
  else .ok { db with
    rows := fun t => (db.without table p t).map (fun r =>
      match db.schema.tables.lookup t with
      | none => r
      | some d => r.setNulls d table ((db.rows table).filter p)) }

end Database

inductive Statement where
  | createTable (name : String) (d : TableDef) (ifNotExists : Bool := false)
  | dropTable (name : String) (ifExists : Bool := false)
  /-- `ALTER TABLE name RENAME TO newName`. -/
  | renameTable (name newName : String)
  | addColumn (table : String) (column : Column) (references : Option ForeignKey := none)
  | createIndex (i : Index) (ifNotExists : Bool := false)
  | dropIndexIfExists (name : String)
  /-- `INSERT INTO target (columns) SELECT columns FROM source WHERE column IS NOT NULL`. -/
  | insertSelect (target : String) (columns : List String) (source column : String)
  /-- `DELETE FROM table WHERE column = v`. -/
  | deleteWhere (table column : String) (v : Value)
deriving DecidableEq

/-- The definition without the table: foreign keys keep the name of a table that is dropped. -/
def Schema.dropTable (s : Schema) (name : String) : Schema where
  tables := s.tables.filter (fun t => !(t.1 == name))
  indexes := s.indexes.filter (fun i => !(i.table == name))

def ForeignKey.retarget (fk : ForeignKey) (name newName : String) : ForeignKey :=
  if fk.parent = name then { fk with parent := newName } else fk

def Schema.renameTable (s : Schema) (name newName : String) : Schema where
  tables := s.tables.map (fun t => (if t.1 = name then newName else t.1,
    { t.2 with foreignKeys := t.2.foreignKeys.map (·.retarget name newName) }))
  indexes := s.indexes.map (fun i => if i.table = name then { i with table := newName } else i)

def Schema.addColumn (s : Schema) (table : String) (column : Column)
    (references : Option ForeignKey) : Schema where
  tables := s.tables.map (fun t =>
    if t.1 = table then (t.1, { t.2 with
      columns := t.2.columns ++ [column]
      foreignKeys := t.2.foreignKeys ++ references.toList })
    else t)
  indexes := s.indexes

/-- The row that an `INSERT` of these columns makes of another row. -/
def TableDef.newRow (d : TableDef) (now : Value) (columns : List String) (r : Row) : Row := fun c =>
  if c ∈ columns then r c
  else match d.columns.find? (·.name == c) with
    | none => .null
    | some column =>
      match column.default with
      | .constant v => v
      | .currentTimestamp => now

namespace Statement

/-- What the statement makes of the schema; the errors that do not depend on the rows. -/
def execSchema (s : Schema) : Statement → Except SqlError Schema
  | .createTable name d ifNotExists =>
    match s.tables.lookup name with
    | some _ => if ifNotExists then .ok s else .error (.tableExists name)
    | none => .ok { s with tables := s.tables ++ [(name, d)] }
  | .dropTable name ifExists =>
    match s.tables.lookup name with
    | none => if ifExists then .ok s else .error (.noSuchTable name)
    | some _ => .ok (s.dropTable name)
  | .renameTable name newName =>
    match s.tables.lookup name, s.tables.lookup newName with
    | none, _ => .error (.noSuchTable name)
    | some _, some _ => .error (.tableExists newName)
    | some _, none => .ok (s.renameTable name newName)
  | .addColumn table column references =>
    match s.tables.lookup table with
    | none => .error (.noSuchTable table)
    | some d =>
      if column.name ∈ d.columnNames then .error (.duplicateColumn column.name)
      else match column.default with
        | .currentTimestamp => .error (.cannotAddColumn column.name)
        | .constant v =>
          -- a column that is not null needs a default, and one that refers must not have one
          if (column.notNull ∧ v = .null) ∨ (references.isSome ∧ v ≠ .null) then
            .error (.cannotAddColumn column.name)
          else .ok (s.addColumn table column references)
  | .createIndex i ifNotExists =>
    if s.indexes.any (·.name == i.name) then
      if ifNotExists then .ok s else .error (.indexExists i.name)
    else match s.tables.lookup i.table with
      | none => .error (.noSuchTable i.table)
      | some d =>
        match i.columns.find? (fun c => !(d.columnNames.contains c)) with
        | some c => .error (.noSuchColumn c)
        | none => .ok { s with indexes := s.indexes ++ [i] }
  | .dropIndexIfExists name =>
    .ok { s with indexes := s.indexes.filter (fun i => !(i.name == name)) }
  | .insertSelect target columns source column =>
    match s.tables.lookup target, s.tables.lookup source with
    | none, _ => .error (.noSuchTable target)
    | some _, none => .error (.noSuchTable source)
    | some d, some d' =>
      match (column :: columns).find? (fun c => !(d'.columnNames.contains c)),
          columns.find? (fun c => !(d.columnNames.contains c)) with
      | some c, _ => .error (.noSuchColumn c)
      | none, some c => .error (.noSuchColumn c)
      | none, none => .ok s
  | .deleteWhere table column _ =>
    match s.tables.lookup table with
    | none => .error (.noSuchTable table)
    | some d => if column ∈ d.columnNames then .ok s else .error (.noSuchColumn column)

/-- What it makes of the rows, where the schema allows it. -/
def execRows (now : Value) (db : Database) : Statement → Except SqlError (String → List Row)
  | .createTable name _ _ =>
    .ok (match db.schema.tables.lookup name with
      | some _ => db.rows
      | none => Function.update db.rows name [])
  | .dropTable name _ =>
    match db.schema.tables.lookup name with
    | none => .ok db.rows
    | some _ => (db.deleteRows name (fun _ => true)).map Database.rows
  | .renameTable name newName =>
    .ok (Function.update (Function.update db.rows newName (db.rows name)) name [])
  | .addColumn table column _ =>
    .ok (match column.default with
      | .currentTimestamp => db.rows
      | .constant v => Function.update db.rows table
          ((db.rows table).map (fun r => Function.update r column.name v)))
  | .createIndex i _ =>
    if i.unique = true ∧ ¬Distinct i.columns (i.covered (db.rows i.table)) then .error .uniqueFailed
    else .ok db.rows
  | .dropIndexIfExists _ => .ok db.rows
  | .insertSelect target columns source column =>
    match db.schema.tables.lookup target with
    | none => .ok db.rows
    | some d =>
      let new := ((db.rows source).filter (fun r => !(r column == .null))).map
        (d.newRow now columns)
      let after := db.rows target ++ new
      if ¬∀ r ∈ new, r.Filled d then .error .notNullFailed
      else if ¬((∀ columns ∈ d.uniqueKeys, Distinct columns after) ∧
          ∀ i ∈ db.schema.indexes, i.unique = true → i.table = target →
            Distinct i.columns (i.covered after)) then .error .uniqueFailed
      else if ¬∀ fk ∈ d.foreignKeys, ∀ r ∈ new, r fk.column ≠ .null →
          ∃ p ∈ Function.update db.rows target after fk.parent, fk.Refers r p then
        .error .foreignKeyFailed
      else .ok (Function.update db.rows target after)
  | .deleteWhere table column v => (db.deleteRows table (fun r => r column == v)).map Database.rows

def exec (now : Value) (db : Database) (x : Statement) : Except SqlError Database := do
  let schema ← x.execSchema db.schema
  let rows ← x.execRows now db
  pure ⟨schema, rows⟩

end Statement

/-- The statements one after another, up to the first that fails. -/
def Database.execBatch (now : Value) (db : Database) (xs : List Statement) :
    Except SqlError Database := xs.foldlM (Statement.exec now) db

theorem mapError_ok {ε ε' α : Type} {f : ε → ε'} {x : Except ε α} {a : α} :
    x.mapError f = .ok a ↔ x = .ok a := by
  cases x <;> simp [Except.mapError]

end Sql

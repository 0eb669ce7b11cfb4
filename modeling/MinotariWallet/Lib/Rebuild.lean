import MinotariWallet.Lib.Carries

set_option autoImplicit false

/-! # Rebuilding a table

Where a column cannot be altered, a table is rebuilt: a new table is filled with the rows of the old
one, which is dropped before the new one takes its name. With foreign keys enforced the drop deletes
the rows, so the rebuild succeeds exactly if no row of another table refers to one of them. -/

namespace Sql

/-- The rebuild of `table` as `d`, with the columns copied from the rows in which `column` is not
    null. -/
structure Rebuild where
  table : String
  newTable : String
  d : TableDef
  columns : List String
  column : String
  indexes : List Index

namespace Rebuild

def statements (x : Rebuild) : List Statement :=
  (x.indexes.map (·.name)).map (fun name => .dropIndexIfExists name) ++
    ([.createTable x.newTable x.d, .insertSelect x.newTable x.columns x.table x.column,
      .dropTable x.table, .renameTable x.newTable x.table] ++
    x.indexes.map (fun i => .createIndex i))

/-- The new table has the columns, the keys and the indexes of the old one, and may only ask for one
    more column that is not null. -/
structure Applies (x : Rebuild) (s : Schema) (d₀ : TableDef) : Prop where
  table : s.tables.lookup x.table = some d₀
  newTable : s.tables.lookup x.newTable = none
  columns : d₀.columnNames ⊆ x.columns ∧ x.columns ⊆ d₀.columnNames ∧ x.columns ⊆ x.d.columnNames
  column : x.column ∈ d₀.columnNames
  notNull : ∀ c ∈ x.d.columns, c.notNull = true → c.name ∈ x.columns ∧
    (c.name = x.column ∨ ∃ c' ∈ d₀.columns, c'.name = c.name ∧ c'.notNull = true)
  uniqueKeys : x.d.uniqueKeys = d₀.uniqueKeys
  foreignKeys : x.d.foreignKeys = d₀.foreignKeys ∧ ∀ fk ∈ d₀.foreignKeys, fk.parent ≠ x.table
  restricts : ∀ t ∈ s.tables, ∀ fk ∈ t.2.foreignKeys, fk.parent = x.table →
    fk.onDeleteSetNull = false
  indexes : ∀ i ∈ x.indexes, i ∈ s.indexes

instance (x : Rebuild) (s : Schema) (d₀ : TableDef) : Decidable (x.Applies s d₀) :=
  decidable_of_iff (s.tables.lookup x.table = some d₀ ∧ s.tables.lookup x.newTable = none ∧
      (d₀.columnNames ⊆ x.columns ∧ x.columns ⊆ d₀.columnNames ∧ x.columns ⊆ x.d.columnNames) ∧
      x.column ∈ d₀.columnNames ∧
      (∀ c ∈ x.d.columns, c.notNull = true → c.name ∈ x.columns ∧
        (c.name = x.column ∨ ∃ c' ∈ d₀.columns, c'.name = c.name ∧ c'.notNull = true)) ∧
      x.d.uniqueKeys = d₀.uniqueKeys ∧
      (x.d.foreignKeys = d₀.foreignKeys ∧ ∀ fk ∈ d₀.foreignKeys, fk.parent ≠ x.table) ∧
      (∀ t ∈ s.tables, ∀ fk ∈ t.2.foreignKeys, fk.parent = x.table →
        fk.onDeleteSetNull = false) ∧ ∀ i ∈ x.indexes, i ∈ s.indexes)
    ⟨fun ⟨h₁, h₂, h₃, h₄, h₅, h₆, h₇, h₈, h₉⟩ => ⟨h₁, h₂, h₃, h₄, h₅, h₆, h₇, h₈, h₉⟩,
      fun ⟨h₁, h₂, h₃, h₄, h₅, h₆, h₇, h₈, h₉⟩ => ⟨h₁, h₂, h₃, h₄, h₅, h₆, h₇, h₈, h₉⟩⟩

/-- A row of another table refers to one of the table's rows. -/
def Referenced (x : Rebuild) (s : Schema) (rows : String → List Row) : Prop :=
  ∃ t ∈ s.tables, t.1 ≠ x.table ∧ ∃ fk ∈ t.2.foreignKeys, fk.parent = x.table ∧
    ∃ r ∈ rows t.1, ∃ p ∈ rows x.table, fk.Refers r p

instance (x : Rebuild) (s : Schema) (rows : String → List Row) :
    Decidable (x.Referenced s rows) := by
  unfold Referenced
  infer_instance

variable {x : Rebuild} {s s' : Schema} {d₀ : TableDef} {rows : String → List Row} {now : Value}

/-- The rows of the new table. -/
def newRows (x : Rebuild) (now : Value) (rows : String → List Row) : List Row :=
  (rows x.table).map (x.d.newRow now x.columns)

/-- The rows after the rebuild. -/
def rebuilt (x : Rebuild) (now : Value) (rows : String → List Row) : String → List Row :=
  Function.update (Function.update rows x.table (x.newRows now rows)) x.newTable []

theorem Applies.ne (h : x.Applies s d₀) : x.newTable ≠ x.table :=
  fun heq => Schema.ne_of_lookup_none h.newTable (Schema.mem_of_lookup h.table) heq.symm

theorem Applies.ne_new (h : x.Applies s d₀) {t : String × TableDef} (ht : t ∈ s.tables) :
    t.1 ≠ x.newTable := Schema.ne_of_lookup_none h.newTable ht

theorem newRow_of_mem {d : TableDef} {columns : List String} {r : Row} {c : String}
    (hc : c ∈ columns) : d.newRow now columns r c = r c := if_pos hc

theorem Applies.sameIn_newRows (h : x.Applies s d₀) :
    SameIn d₀.columnNames (rows x.table) (x.newRows now rows) :=
  SameIn.map (fun _ _ _ hc => newRow_of_mem (h.columns.1 hc))

theorem Applies.carries (h : x.Applies s d₀) (hwf : s.WellFormed) :
    s.Carries rows (x.rebuilt now rows) := by
  intro t ht
  show SameIn _ _ (x.rebuilt now rows t.1)
  unfold rebuilt
  rw [Function.update_of_ne (h.ne_new ht)]
  by_cases htable : t.1 = x.table
  · obtain rfl := hwf.eq_of_mem (Schema.mem_of_lookup h.table) ht htable
    rw [Function.update_self]
    exact h.sameIn_newRows
  · rw [Function.update_of_ne htable]
    exact SameIn.refl _ _

/-- The rows that are copied have all that the new table asks for. -/
theorem Applies.filled (h : x.Applies s d₀) (hdb : Database.Consistent ⟨s, rows⟩)
    (hcolumn : ∀ r ∈ rows x.table, r x.column ≠ .null) {r' : Row}
    (hr' : r' ∈ x.newRows now rows) : r'.Filled x.d := by
  obtain ⟨r, hr, rfl⟩ := List.mem_map.mp hr'
  intro c hc hnotNull
  obtain ⟨hmem, hwhich⟩ := h.notNull c hc hnotNull
  rw [newRow_of_mem hmem]
  rcases hwhich with heq | ⟨c', hc', heq, hnotNull'⟩
  · rw [heq]
    exact hcolumn r hr
  · rw [← heq]
    exact hdb.filled _ (Schema.mem_of_lookup h.table) r hr c' hc' hnotNull'

end Rebuild

/-! ## Batches -/

theorem Database.execBatch_append {now : Value} {db db' : Database} {xs ys : List Statement}
    (h : db.execBatch now xs = .ok db') :
    db.execBatch now (xs ++ ys) = db'.execBatch now ys := by
  unfold Database.execBatch at h ⊢
  rw [List.foldlM_append, h]
  rfl

theorem Database.execBatch_cons {now : Value} {db db' : Database} {x : Statement}
    {xs : List Statement} (h : x.exec now db = .ok db') :
    db.execBatch now (x :: xs) = db'.execBatch now xs := by
  unfold Database.execBatch
  rw [List.foldlM_cons, h]
  rfl

theorem Database.execBatch_cons_error {now : Value} {db : Database} {x : Statement}
    {xs : List Statement} {e : SqlError} (h : x.exec now db = .error e) :
    db.execBatch now (x :: xs) = .error e := by
  unfold Database.execBatch
  rw [List.foldlM_cons, h]
  rfl

/-- Indexes that are dropped leave the rows and the tables. -/
theorem Database.execBatch_dropIndexes (now : Value) (names : List String) (s : Schema)
    (rows : String → List Row) :
    ∃ indexes : List Index, indexes ⊆ s.indexes ∧
      Database.execBatch now ⟨s, rows⟩ (names.map (fun name => .dropIndexIfExists name)) =
        .ok ⟨⟨s.tables, indexes⟩, rows⟩ ∧
      (names.map (fun name => Statement.dropIndexIfExists name)).foldlM Statement.execSchema s =
        .ok ⟨s.tables, indexes⟩ := by
  induction names generalizing s with
  | nil => exact ⟨s.indexes, List.Subset.refl _, rfl, rfl⟩
  | cons name names ih =>
      obtain ⟨indexes, hsub, hbatch, hfold⟩ :=
        ih { s with indexes := s.indexes.filter (fun i => !(i.name == name)) }
      refine ⟨indexes, fun i hi => List.mem_of_mem_filter (hsub hi), ?_, ?_⟩
      · rw [List.map_cons]
        exact (Database.execBatch_cons rfl).trans hbatch
      · exact hfold

/-- Indexes that the schema allows succeed on rows that are distinct where they must be. -/
theorem Database.execBatch_createIndexes (now : Value) {indexes : List Index} {s s' : Schema}
    {rows : String → List Row} (hunique : ∀ i ∈ indexes, i.unique = true →
      Distinct i.columns (i.covered (rows i.table)))
    (hschema : (indexes.map (fun i => Statement.createIndex i)).foldlM Statement.execSchema s =
      .ok s') :
    Database.execBatch now ⟨s, rows⟩ (indexes.map (fun i => .createIndex i)) = .ok ⟨s', rows⟩ := by
  induction indexes generalizing s with
  | nil =>
      obtain rfl := Except.ok.inj hschema
      rfl
  | cons i indexes ih =>
      rw [List.map_cons, List.foldlM_cons] at hschema
      cases hfirst : (Statement.createIndex i).execSchema s with
      | error e =>
          rw [hfirst] at hschema
          cases hschema
      | ok s₁ =>
          rw [hfirst] at hschema
          have hexec : (Statement.createIndex i).exec now ⟨s, rows⟩ = .ok ⟨s₁, rows⟩ := by
            unfold Statement.exec
            simp only [hfirst, Statement.execRows]
            rw [if_neg (fun hc => hc.2 (hunique i List.mem_cons_self hc.1))]
            rfl
          rw [List.map_cons, Database.execBatch_cons hexec]
          exact ih (fun i' hi' => hunique i' (List.mem_cons_of_mem i hi')) hschema

/-! ## The rebuild -/

namespace Rebuild

variable {x : Rebuild} {s s' : Schema} {d₀ : TableDef} {rows : String → List Row}
  {indexes : List Index}

/-- The schema with the new table beside the old one. -/
def withNewTable (x : Rebuild) (s : Schema) (indexes : List Index) : Schema :=
  ⟨s.tables ++ [(x.newTable, x.d)], indexes⟩

theorem Applies.lookup_newTable (h : x.Applies s d₀) :
    (x.withNewTable s indexes).tables.lookup x.newTable = some x.d := by
  simp [withNewTable, List.lookup_append, h.newTable]

theorem Applies.lookup_table (h : x.Applies s d₀) :
    (x.withNewTable s indexes).tables.lookup x.table = some d₀ := by
  simp [withNewTable, List.lookup_append, h.table]

/-- Creating the new table. -/
theorem Applies.exec_createTable (h : x.Applies s d₀) (now : Value) (indexes : List Index)
    (rows : String → List Row) :
    (Statement.createTable x.newTable x.d).exec now ⟨⟨s.tables, indexes⟩, rows⟩ =
      .ok ⟨x.withNewTable s indexes, Function.update rows x.newTable []⟩ := by
  simp only [Statement.exec, Statement.execSchema, Statement.execRows, h.newTable]
  rfl

/-- Filling it. -/
theorem Applies.exec_insertSelect (h : x.Applies s d₀) (hwf : s.WellFormed)
    (hdb : Database.Consistent ⟨s, rows⟩) (hindexes : indexes ⊆ s.indexes)
    (hcolumn : ∀ r ∈ rows x.table, r x.column ≠ .null) (now : Value) :
    (Statement.insertSelect x.newTable x.columns x.table x.column).exec now
        ⟨x.withNewTable s indexes, Function.update rows x.newTable []⟩ =
      .ok ⟨x.withNewTable s indexes, Function.update rows x.newTable (x.newRows now rows)⟩ := by
  have hold : Function.update rows x.newTable [] x.table = rows x.table :=
    Function.update_of_ne h.ne.symm ..
  have hold' := Schema.mem_of_lookup h.table
  have hall : (rows x.table).filter (fun r => !(r x.column == .null)) = rows x.table :=
    List.filter_eq_self.mpr (fun r hr => by simpa using hcolumn r hr)
  have hschema : (Statement.insertSelect x.newTable x.columns x.table x.column).execSchema
      (x.withNewTable s indexes) = .ok (x.withNewTable s indexes) := by
    have hsource : (x.column :: x.columns).find? (fun c => !(d₀.columnNames.contains c)) =
        none := by
      refine List.find?_eq_none.mpr (fun c hc => ?_)
      rcases List.mem_cons.mp hc with rfl | hc
      · simp [h.column]
      · simp [h.columns.2.1 hc]
    have htarget : x.columns.find? (fun c => !(x.d.columnNames.contains c)) = none :=
      List.find?_eq_none.mpr (fun c hc => by simp [h.columns.2.2 hc])
    simp only [Statement.execSchema, h.lookup_newTable, h.lookup_table, hsource, htarget]
  have hrows : (Statement.insertSelect x.newTable x.columns x.table x.column).execRows now
      ⟨x.withNewTable s indexes, Function.update rows x.newTable []⟩ =
        .ok (Function.update (Function.update rows x.newTable []) x.newTable
          (x.newRows now rows)) := by
    simp only [Statement.execRows, h.lookup_newTable, hold, hall, Function.update_self,
      List.nil_append]
    change (if ¬∀ r ∈ x.newRows now rows, r.Filled x.d then _ else _) = _
    rw [if_neg (not_not.mpr (fun r hr => h.filled hdb hcolumn hr)), if_neg, if_neg]
    · rfl
    · refine not_not.mpr (fun fk hfk r' hr' hnull => ?_)
      rw [h.foreignKeys.1] at hfk
      obtain ⟨hcolumn', p, hp, hparent, -⟩ := hwf.foreignKeys _ hold' fk hfk
      obtain ⟨r, hr, rfl⟩ := List.mem_map.mp hr'
      have hsame : x.d.newRow now x.columns r fk.column = r fk.column :=
        newRow_of_mem (h.columns.1 hcolumn')
      rw [hsame] at hnull
      obtain ⟨q, hq, hrefers⟩ := hdb.foreignKeys _ hold' fk hfk r hr hnull
      have hne : fk.parent ≠ x.newTable := hparent ▸ h.ne_new hp
      refine ⟨q, ?_, ?_⟩
      · rw [Function.update_of_ne hne, Function.update_of_ne hne]
        exact hq
      · unfold ForeignKey.Refers
        rw [hsame]
        exact hrefers
    · refine not_not.mpr ⟨fun columns hcolumns => ?_, fun i hi _ htable => ?_⟩
      · rw [h.uniqueKeys] at hcolumns
        exact h.sameIn_newRows.distinct (hwf.uniqueKeys _ hold' columns hcolumns)
          (hdb.uniqueKeys _ hold' columns hcolumns)
      · obtain ⟨t, ht, htable', -⟩ := hwf.indexes i (hindexes hi)
        exact absurd (htable'.trans htable) (h.ne_new ht)
  simp only [Statement.exec, hschema, hrows, Function.update_idem]
  rfl

/-- No key of the two schemas that refers to the old table is set to null by a deletion. -/
theorem Applies.restricts_withNewTable (h : x.Applies s d₀) {t : String × TableDef}
    (ht : t ∈ (x.withNewTable s indexes).tables) {fk : ForeignKey} (hfk : fk ∈ t.2.foreignKeys)
    (hparent : fk.parent = x.table) : t ∈ s.tables ∧ fk.onDeleteSetNull = false := by
  rcases List.mem_append.mp ht with ht | ht
  · exact ⟨ht, h.restricts t ht fk hfk hparent⟩
  · obtain rfl := List.mem_singleton.mp ht
    rw [show (x.newTable, x.d).2 = x.d from rfl, h.foreignKeys.1] at hfk
    exact absurd hparent (h.foreignKeys.2 fk hfk)

theorem Applies.leavesReference_iff (h : x.Applies s d₀) (newRows : List Row) :
    Database.LeavesReference ⟨x.withNewTable s indexes, Function.update rows x.newTable newRows⟩
        x.table (fun _ => true) ↔
      x.Referenced s rows := by
  have hold : Function.update rows x.newTable newRows x.table = rows x.table :=
    Function.update_of_ne h.ne.symm ..
  have hdeleted : (rows x.table).filter (fun _ => true) = rows x.table :=
    List.filter_eq_self.mpr (fun _ _ => rfl)
  unfold Database.LeavesReference Referenced Database.without
  simp only [hold, hdeleted]
  constructor
  · rintro ⟨t, ht, fk, hfk, hparent, -, r, hr, q, hq, hrefers⟩
    obtain ⟨ht, -⟩ := h.restricts_withNewTable ht hfk hparent
    split at hr
    · simp at hr
    · next hne =>
        rw [Function.update_of_ne (h.ne_new ht)] at hr
        exact ⟨t, ht, hne, fk, hfk, hparent, r, hr, q, hq, hrefers⟩
  · rintro ⟨t, ht, hne, fk, hfk, hparent, r, hr, q, hq, hrefers⟩
    refine ⟨t, List.mem_append_left _ ht, fk, hfk, hparent, h.restricts t ht fk hfk hparent, r, ?_,
      q, hq, hrefers⟩
    rw [if_neg hne, Function.update_of_ne (h.ne_new ht)]
    exact hr

/-- Dropping the old one fails if it is referred to, and takes nothing else away otherwise. -/
theorem Applies.exec_dropTable (h : x.Applies s d₀) (now : Value) (indexes : List Index)
    (rows : String → List Row) (newRows : List Row) :
    (Statement.dropTable x.table).exec now
        ⟨x.withNewTable s indexes, Function.update rows x.newTable newRows⟩ =
      if x.Referenced s rows then .error .foreignKeyFailed
      else .ok ⟨(x.withNewTable s indexes).dropTable x.table,
        Function.update (Function.update rows x.newTable newRows) x.table []⟩ := by
  simp only [Statement.exec, Statement.execSchema, Statement.execRows, h.lookup_table,
    Database.deleteRows, h.leavesReference_iff]
  split
  · rfl
  · refine congrArg (fun rows' => (Except.ok (Database.mk _ rows') : Except SqlError Database))
      (funext fun t => ?_)
    show List.map _ (Database.without _ _ _ t) = _
    unfold Database.without
    by_cases htable : t = x.table
    · rw [if_pos htable, htable, Function.update_self]
      simp
    · rw [if_neg htable, Function.update_of_ne htable]
      refine (List.map_congr_left (fun r _ => ?_)).trans (List.map_id _)
      cases hlookup : (x.withNewTable s indexes).tables.lookup t with
      | none => rfl
      | some d =>
          funext c
          refine if_neg ?_
          simp only [List.any_eq_true, Bool.and_eq_true, beq_iff_eq]
          rintro ⟨fk, hfk, ⟨⟨hsetNull, hparent⟩, -⟩, -⟩
          have hrestricts :=
            (h.restricts_withNewTable (Schema.mem_of_lookup hlookup) hfk hparent).2
          rw [hrestricts] at hsetNull
          cases hsetNull

/-- The new table takes the name of the old one. -/
theorem Applies.exec_renameTable (h : x.Applies s d₀) (now : Value) (indexes : List Index)
    (rows : String → List Row) :
    (Statement.renameTable x.newTable x.table).exec now
        ⟨(x.withNewTable s indexes).dropTable x.table, Function.update
          (Function.update rows x.newTable (x.newRows now rows)) x.table []⟩ =
      .ok ⟨((x.withNewTable s indexes).dropTable x.table).renameTable x.newTable x.table,
        x.rebuilt now rows⟩ := by
  have hnew : ((x.withNewTable s indexes).dropTable x.table).tables.lookup x.newTable =
      some x.d := by
    have hnone : (s.tables.filter (fun t => !(t.1 == x.table))).lookup x.newTable = none := by
      refine List.lookup_eq_none_iff.mpr (fun t ht => ?_)
      have := h.ne_new (List.mem_of_mem_filter ht)
      simpa using this.symm
    simp [Schema.dropTable, withNewTable, List.filter_append, List.lookup_append, hnone, h.ne]
  have hold : ((x.withNewTable s indexes).dropTable x.table).tables.lookup x.table = none := by
    refine List.lookup_eq_none_iff.mpr (fun t ht => ?_)
    have hne := (List.mem_filter.mp ht).2
    simp only [Bool.not_eq_true', beq_eq_false_iff_ne] at hne
    simpa using hne.symm
  simp only [Statement.exec, Statement.execSchema, Statement.execRows, hnew, hold]
  refine congrArg (fun rows' => (Except.ok (Database.mk _ rows') : Except SqlError Database))
    (funext fun t => ?_)
  unfold rebuilt
  by_cases hnewTable : t = x.newTable
  · rw [hnewTable, Function.update_self, Function.update_self]
  · rw [Function.update_of_ne hnewTable, Function.update_of_ne hnewTable]
    by_cases htable : t = x.table
    · rw [htable, Function.update_self, Function.update_self, Function.update_of_ne h.ne,
        Function.update_self]
    · rw [Function.update_of_ne htable, Function.update_of_ne htable, Function.update_of_ne htable,
        Function.update_of_ne hnewTable]

end Rebuild

/-- A statement that succeeds has the schema it allows. -/
theorem Statement.execSchema_of_exec {now : Value} {x : Statement} {db db' : Database}
    (h : x.exec now db = .ok db') : x.execSchema db.schema = .ok db'.schema := by
  unfold Statement.exec at h
  cases hschema : x.execSchema db.schema with
  | error e =>
      rw [hschema] at h
      cases h
  | ok s' =>
      rw [hschema] at h
      cases hrows : x.execRows now db with
      | error e =>
          simp only [hrows] at h
          cases h
      | ok rows' =>
          simp only [hrows] at h
          rw [← Except.ok.inj h]

theorem execSchema_rest {now : Value} {x : Statement} {xs : List Statement} {db db' : Database}
    {s' : Schema} (h : x.exec now db = .ok db')
    (hschema : (x :: xs).foldlM Statement.execSchema db.schema = .ok s') :
    xs.foldlM Statement.execSchema db'.schema = .ok s' := by
  rw [List.foldlM_cons, Statement.execSchema_of_exec h] at hschema
  exact hschema

namespace Rebuild

variable {x : Rebuild} {s s' : Schema} {d₀ : TableDef} {rows : String → List Row}

/-- What held of the rows holds of the rebuilt ones, also for the new table. -/
theorem Applies.consistent_rebuilt (h : x.Applies s d₀) (hwf : s.WellFormed)
    (hdb : Database.Consistent ⟨s, rows⟩) (hcolumn : ∀ r ∈ rows x.table, r x.column ≠ .null)
    (now : Value) (htables : ∀ t ∈ s'.tables, t = (x.table, x.d) ∨ t ∈ s.tables)
    (hindexes : ∀ i ∈ s'.indexes, i.unique = true → i ∈ s.indexes) :
    Database.Consistent ⟨s', x.rebuilt now rows⟩ := by
  have hkept : Database.Consistent ⟨s, x.rebuilt now rows⟩ := hdb.carries hwf (h.carries hwf)
  have hold := Schema.mem_of_lookup h.table
  have hrows : x.rebuilt now rows x.table = x.newRows now rows := by
    unfold rebuilt
    rw [Function.update_of_ne h.ne.symm, Function.update_self]
  refine ⟨?_, ?_, fun i hi hunique => hkept.uniqueIndexes i (hindexes i hi hunique) hunique, ?_⟩
  · intro t ht r hr
    rcases htables t ht with rfl | ht
    · have hnew : r ∈ x.newRows now rows := by
        rw [← hrows]
        exact hr
      exact h.filled hdb hcolumn hnew
    · exact hkept.filled t ht r hr
  · intro t ht columns hcolumns
    rcases htables t ht with rfl | ht
    · exact hkept.uniqueKeys _ hold columns (h.uniqueKeys ▸ hcolumns)
    · exact hkept.uniqueKeys t ht columns hcolumns
  · intro t ht fk hfk
    rcases htables t ht with rfl | ht
    · exact hkept.foreignKeys _ hold fk (h.foreignKeys.1 ▸ hfk)
    · exact hkept.foreignKeys t ht fk hfk

/-- The tables and columns that refer to the table from outside. -/
def referrers (table : String) (s : Schema) : List (String × String) :=
  (s.tables.filter (fun t => !(t.1 == table))).flatMap (fun t =>
    (t.2.foreignKeys.filter (fun fk => fk.parent == table)).map (fun fk => (t.1, fk.column)))

/-- In a consistent database a key that is not null refers to a row. -/
theorem referenced_iff (hdb : Database.Consistent ⟨s, rows⟩) :
    x.Referenced s rows ↔
      ∃ c ∈ referrers x.table s, ∃ r ∈ rows c.1, r c.2 ≠ .null := by
  constructor
  · rintro ⟨t, ht, hne, fk, hfk, hparent, r, hr, p, -, hrefers⟩
    refine ⟨(t.1, fk.column), ?_, r, hr, hrefers.1⟩
    exact List.mem_flatMap.mpr ⟨t, List.mem_filter.mpr ⟨ht, by simpa using hne⟩,
      List.mem_map_of_mem (List.mem_filter.mpr ⟨hfk, by simpa using hparent⟩)⟩
  · rintro ⟨c, hc, r, hr, hnull⟩
    obtain ⟨t, ht, hc⟩ := List.mem_flatMap.mp hc
    obtain ⟨fk, hfk, rfl⟩ := List.mem_map.mp hc
    obtain ⟨ht, hne⟩ := List.mem_filter.mp ht
    obtain ⟨hfk, hparent⟩ := List.mem_filter.mp hfk
    simp only [Bool.not_eq_true', beq_eq_false_iff_ne, beq_iff_eq] at hne hparent
    obtain ⟨p, hp, hrefers⟩ := hdb.foreignKeys t ht fk hfk r hr hnull
    exact ⟨t, ht, hne, fk, hfk, hparent, r, hr, p, hparent ▸ hp, hrefers⟩

/-- The whole rebuild. -/
theorem Applies.execBatch (h : x.Applies s d₀) (hwf : s.WellFormed)
    (hdb : Database.Consistent ⟨s, rows⟩) (hcolumn : ∀ r ∈ rows x.table, r x.column ≠ .null)
    (now : Value) (hschema : x.statements.foldlM Statement.execSchema s = .ok s') :
    Database.execBatch now ⟨s, rows⟩ x.statements =
      if x.Referenced s rows then .error .foreignKeyFailed
      else .ok ⟨s', x.rebuilt now rows⟩ := by
  obtain ⟨indexes, hindexes, hdrop, hdropSchema⟩ :=
    Database.execBatch_dropIndexes now (x.indexes.map (·.name)) s rows
  have hcreate := h.exec_createTable now indexes rows
  have hinsert := h.exec_insertSelect hwf hdb hindexes hcolumn now
  have hdropTable := h.exec_dropTable now indexes rows (x.newRows now rows)
  unfold statements at hschema ⊢
  rw [Database.execBatch_append hdrop, List.cons_append, Database.execBatch_cons hcreate,
    List.cons_append, Database.execBatch_cons hinsert, List.cons_append]
  split
  · next href =>
      rw [if_pos href] at hdropTable
      exact Database.execBatch_cons_error hdropTable
  · next hnot =>
      rw [if_neg hnot] at hdropTable
      have hrename := h.exec_renameTable now indexes rows
      rw [Database.execBatch_cons hdropTable, List.cons_append, Database.execBatch_cons hrename,
        List.nil_append]
      refine Database.execBatch_createIndexes now (fun i hi hunique => ?_) ?_
      · exact (hdb.carries hwf (h.carries hwf)).uniqueIndexes i (h.indexes i hi) hunique
      · rw [List.foldlM_append, hdropSchema] at hschema
        exact execSchema_rest hrename (execSchema_rest hdropTable (execSchema_rest hinsert
          (execSchema_rest hcreate hschema)))

end Rebuild

end Sql

import Mathlib.Data.List.Nodup
import MinotariWallet.Lib.Relational

set_option autoImplicit false

/-! # Statements that keep what is stored

Rows are carried over when, table by table and row by row, the columns of a schema keep their
values. What a consistent database says about these columns then holds of the new rows. Statements
that add tables, columns and indexes carry every row over (`Additive`). -/

namespace Sql

/-- Row by row, the values in the columns are the same. -/
def SameIn (columns : List String) (rows rows' : List Row) : Prop :=
  List.Forall₂ (fun r r' => ∀ c ∈ columns, r' c = r c) rows rows'

namespace SameIn

variable {columns columns' : List String} {rows rows' rows'' : List Row}

theorem refl (columns : List String) (rows : List Row) : SameIn columns rows rows :=
  List.forall₂_same.mpr (fun _ _ _ _ => rfl)

theorem mono (h : SameIn columns rows rows') (hsub : columns' ⊆ columns) :
    SameIn columns' rows rows' := h.imp (fun _ _ hsame c hc => hsame c (hsub hc))

theorem trans (h : SameIn columns rows rows') (h' : SameIn columns rows' rows'') :
    SameIn columns rows rows'' := by
  induction h generalizing rows'' with
  | nil => exact h'
  | cons hsame _ ih =>
      cases h' with
      | cons hsame' hrest => exact .cons (fun c hc => (hsame' c hc).trans (hsame c hc)) (ih hrest)

/-- A change that leaves the columns alone. -/
theorem map {f : Row → Row} (hf : ∀ r ∈ rows, ∀ c ∈ columns, f r c = r c) :
    SameIn columns rows (rows.map f) := by
  induction rows with
  | nil => exact .nil
  | cons r rows ih =>
      exact .cons (hf r List.mem_cons_self) (ih (fun r' hr' => hf r' (List.mem_cons_of_mem r hr')))

theorem exists_old (h : SameIn columns rows rows') {r' : Row} (hr' : r' ∈ rows') :
    ∃ r ∈ rows, ∀ c ∈ columns, r' c = r c := by
  induction h with
  | nil => cases hr'
  | cons hsame _ ih =>
      rcases List.mem_cons.mp hr' with rfl | hr'
      · exact ⟨_, List.mem_cons_self, hsame⟩
      · obtain ⟨r, hr, hsame⟩ := ih hr'
        exact ⟨r, List.mem_cons_of_mem _ hr, hsame⟩

theorem exists_new (h : SameIn columns rows rows') {r : Row} (hr : r ∈ rows) :
    ∃ r' ∈ rows', ∀ c ∈ columns, r' c = r c := by
  induction h with
  | nil => cases hr
  | cons hsame _ ih =>
      rcases List.mem_cons.mp hr with rfl | hr
      · exact ⟨_, List.mem_cons_self, hsame⟩
      · obtain ⟨r', hr', hsame⟩ := ih hr
        exact ⟨r', List.mem_cons_of_mem _ hr', hsame⟩

theorem filter (h : SameIn columns rows rows') {c : String} (hc : c ∈ columns) (v : Value) :
    SameIn columns (rows.filter (fun r => r c == v)) (rows'.filter (fun r => r c == v)) := by
  induction h with
  | nil => exact .nil
  | cons hsame _ ih =>
      rw [List.filter_cons, List.filter_cons, hsame c hc]
      split
      · exact .cons hsame ih
      · exact ih

theorem distinct (h : SameIn columns rows rows') (hsub : columns' ⊆ columns)
    (hdistinct : Distinct columns' rows) : Distinct columns' rows' := by
  induction h with
  | nil => exact .nil
  | cons hsame hrest ih =>
      obtain ⟨hhead, htail⟩ := List.pairwise_cons.mp hdistinct
      refine List.pairwise_cons.mpr ⟨fun r' hr' => ?_, ih htail⟩
      obtain ⟨r, hr, hsame'⟩ := exists_old hrest hr'
      obtain ⟨c, hc, hdiffer⟩ := hhead r hr
      exact ⟨c, hc, by rw [hsame c (hsub hc), hsame' c (hsub hc)]; exact hdiffer⟩

end SameIn

namespace Schema

/-- The tables have names of their own, and what is said about columns is said about columns that
    there are. -/
structure WellFormed (s : Schema) : Prop where
  names : (s.tables.map (·.1)).Nodup
  uniqueKeys : ∀ t ∈ s.tables, ∀ columns ∈ t.2.uniqueKeys, columns ⊆ t.2.columnNames
  foreignKeys : ∀ t ∈ s.tables, ∀ fk ∈ t.2.foreignKeys, fk.column ∈ t.2.columnNames ∧
    ∃ p ∈ s.tables, p.1 = fk.parent ∧ fk.parentColumn ∈ p.2.columnNames
  indexes : ∀ i ∈ s.indexes, ∃ t ∈ s.tables, t.1 = i.table ∧ i.columns ⊆ t.2.columnNames ∧
    ∀ c ∈ i.whereNull, c ∈ t.2.columnNames

instance (s : Schema) : Decidable s.WellFormed :=
  decidable_of_iff ((s.tables.map (·.1)).Nodup ∧
      (∀ t ∈ s.tables, ∀ columns ∈ t.2.uniqueKeys, columns ⊆ t.2.columnNames) ∧
      (∀ t ∈ s.tables, ∀ fk ∈ t.2.foreignKeys, fk.column ∈ t.2.columnNames ∧
        ∃ p ∈ s.tables, p.1 = fk.parent ∧ fk.parentColumn ∈ p.2.columnNames) ∧
      ∀ i ∈ s.indexes, ∃ t ∈ s.tables, t.1 = i.table ∧ i.columns ⊆ t.2.columnNames ∧
        ∀ c ∈ i.whereNull, c ∈ t.2.columnNames)
    ⟨fun ⟨h₁, h₂, h₃, h₄⟩ => ⟨h₁, h₂, h₃, h₄⟩, fun ⟨h₁, h₂, h₃, h₄⟩ => ⟨h₁, h₂, h₃, h₄⟩⟩

/-- Every row of the schema's tables is there, with the same value in every column. -/
def Carries (s : Schema) (rows rows' : String → List Row) : Prop :=
  ∀ t ∈ s.tables, SameIn t.2.columnNames (rows t.1) (rows' t.1)

/-- The other schema has all tables and columns. -/
def Includes (s' s : Schema) : Prop :=
  ∀ t ∈ s.tables, ∃ t' ∈ s'.tables, t'.1 = t.1 ∧ t.2.columnNames ⊆ t'.2.columnNames

variable {s s' s'' : Schema} {rows rows' rows'' : String → List Row} {name : String}
  {d d' : TableDef}

theorem mem_of_lookup (h : s.tables.lookup name = some d) : (name, d) ∈ s.tables := by
  obtain ⟨before, after, heq, -⟩ := List.lookup_eq_some_iff.mp h
  rw [heq]
  simp

theorem ne_of_lookup_none (h : s.tables.lookup name = none) {t : String × TableDef}
    (ht : t ∈ s.tables) : t.1 ≠ name := by
  intro heq
  have := List.lookup_eq_none_iff.mp h t ht
  simp [heq] at this

theorem WellFormed.eq_of_mem (h : s.WellFormed) (hd : (name, d) ∈ s.tables) {t : String × TableDef}
    (ht : t ∈ s.tables) (heq : t.1 = name) : t = (name, d) :=
  List.inj_on_of_nodup_map h.names ht hd heq

theorem Includes.refl (s : Schema) : s.Includes s :=
  fun t ht => ⟨t, ht, rfl, List.Subset.refl _⟩

theorem Includes.trans (h : s''.Includes s') (h' : s'.Includes s) : s''.Includes s := by
  intro t ht
  obtain ⟨t', ht', hname, hsub⟩ := h' t ht
  obtain ⟨t'', ht'', hname', hsub'⟩ := h t' ht'
  exact ⟨t'', ht'', hname'.trans hname, List.Subset.trans hsub hsub'⟩

theorem Carries.refl (s : Schema) (rows : String → List Row) : s.Carries rows rows :=
  fun _ _ => SameIn.refl _ _

theorem Carries.trans (h : s.Carries rows rows') (hincludes : s'.Includes s)
    (h' : s'.Carries rows' rows'') : s.Carries rows rows'' := by
  intro t ht
  obtain ⟨t', ht', hname, hsub⟩ := hincludes t ht
  exact (h t ht).trans (hname ▸ (h' t' ht').mono hsub)

end Schema

/-- What a consistent database says holds of rows that are carried over. -/
theorem Database.Consistent.carries {s : Schema} {rows rows' : String → List Row}
    (h : Database.Consistent ⟨s, rows⟩) (hwf : s.WellFormed) (hcarries : s.Carries rows rows') :
    Database.Consistent ⟨s, rows'⟩ where
  filled := by
    intro t ht r' hr' c hc hnotNull
    obtain ⟨r, hr, hsame⟩ := (hcarries t ht).exists_old hr'
    rw [hsame c.name (List.mem_map_of_mem hc)]
    exact h.filled t ht r hr c hc hnotNull
  uniqueKeys := fun t ht columns hcolumns =>
    (hcarries t ht).distinct (hwf.uniqueKeys t ht columns hcolumns)
      (h.uniqueKeys t ht columns hcolumns)
  uniqueIndexes := by
    intro i hi hunique
    obtain ⟨t, ht, htable, hcolumns, hwhere⟩ := hwf.indexes i hi
    have hdistinct := h.uniqueIndexes i hi hunique
    have hsame := hcarries t ht
    rw [htable] at hsame
    unfold Index.covered at hdistinct ⊢
    cases hw : i.whereNull with
    | none =>
        rw [hw] at hdistinct
        exact hsame.distinct hcolumns hdistinct
    | some c =>
        rw [hw] at hdistinct
        exact (hsame.filter (hwhere c hw) .null).distinct hcolumns hdistinct
  foreignKeys := by
    intro t ht fk hfk r' hr' hnotNull
    obtain ⟨hcolumn, p, hp, hparent, hpcolumn⟩ := hwf.foreignKeys t ht fk hfk
    obtain ⟨r, hr, hsame⟩ := (hcarries t ht).exists_old hr'
    rw [hsame _ hcolumn] at hnotNull
    obtain ⟨q, hq, hrefers⟩ := h.foreignKeys t ht fk hfk r hr hnotNull
    obtain ⟨q', hq', hsame'⟩ := (hcarries p hp).exists_new (hparent ▸ hq)
    refine ⟨q', hparent ▸ hq', ?_, ?_⟩
    · rw [hsame _ hcolumn]
      exact hnotNull
    · rw [hsame _ hcolumn, hsame' _ hpcolumn]
      exact hrefers.2

/-! ## Statements that add -/

/-- The statement adds a table, a column or an index, and only an index on a table without rows may
    be unique. A column that refers to a table starts out null. -/
def Statement.Adds (s : Schema) (empty : List String) : Statement → Prop
  | .createTable name _ _ => s.tables.lookup name = none
  | .addColumn _ column references => ∀ fk ∈ references, fk.column = column.name
  | .createIndex i _ => i.unique = true → i.table ∈ empty
  | _ => False

instance (s : Schema) (empty : List String) (x : Statement) : Decidable (x.Adds s empty) := by
  unfold Statement.Adds
  split <;> infer_instance

/-- The tables that are known to have no rows after the statement. -/
def Statement.emptied (empty : List String) : Statement → List String
  | .createTable name _ _ => name :: empty
  | .addColumn table _ _ => empty.filter (fun t => !(t == table))
  | _ => empty

/-- All statements are possible and add to what is there. -/
def Additive (s : Schema) (empty : List String) : List Statement → Prop
  | [] => True
  | x :: xs => s.WellFormed ∧ x.Adds s empty ∧
    match x.execSchema s with
    | .error _ => False
    | .ok s' => Additive s' (x.emptied empty) xs

instance decidableAdditive : ∀ (s : Schema) (empty : List String) (xs : List Statement),
    Decidable (Additive s empty xs)
  | _, _, [] => isTrue trivial
  | s, empty, x :: xs =>
    match h : x.execSchema s with
    | .error _ => isFalse (by simp only [Additive, h, and_false, not_false_iff])
    | .ok s' =>
      have : Decidable (Additive s' (x.emptied empty) xs) := decidableAdditive s' _ xs
      decidable_of_iff (s.WellFormed ∧ x.Adds s empty ∧ Additive s' (x.emptied empty) xs)
        (by simp only [Additive, h])

section Additive

variable {s s' : Schema} {rows : String → List Row} {empty : List String}

/-- A new table without rows. -/
theorem Database.Consistent.createTable (h : Database.Consistent ⟨s, rows⟩) {name : String}
    {d : TableDef} (hempty : rows name = []) :
    Database.Consistent ⟨{ s with tables := s.tables ++ [(name, d)] }, rows⟩ where
  filled := by
    intro t ht r hr
    rcases List.mem_append.mp ht with ht | ht
    · exact h.filled t ht r hr
    · rw [List.mem_singleton.mp ht] at hr
      have hnone : r ∈ rows name := hr
      rw [hempty] at hnone
      cases hnone
  uniqueKeys := by
    intro t ht columns hcolumns
    rcases List.mem_append.mp ht with ht | ht
    · exact h.uniqueKeys t ht columns hcolumns
    · rw [List.mem_singleton.mp ht]
      show Distinct columns (rows name)
      rw [hempty]
      exact .nil
  uniqueIndexes := h.uniqueIndexes
  foreignKeys := by
    intro t ht fk hfk r hr
    rcases List.mem_append.mp ht with ht | ht
    · exact h.foreignKeys t ht fk hfk r hr
    · rw [List.mem_singleton.mp ht] at hr
      have hnone : r ∈ rows name := hr
      rw [hempty] at hnone
      cases hnone

/-- A new column, with the same value in all rows. -/
theorem Database.Consistent.addColumn (h : Database.Consistent ⟨s, rows⟩) {table : String}
    {column : Column} {references : Option ForeignKey} {v : Value}
    (hvalue : ∀ r ∈ rows table, r column.name = v) (hnotNull : column.notNull = true → v ≠ .null)
    (hreferences : ∀ fk ∈ references, fk.column = column.name ∧ v = .null) :
    Database.Consistent ⟨s.addColumn table column references, rows⟩ where
  filled := by
    intro t ht r hr
    obtain ⟨t₀, ht₀, rfl⟩ := List.mem_map.mp ht
    split at hr
    · next htable =>
        rw [if_pos htable]
        intro c hc hc'
        rcases List.mem_append.mp hc with hc | hc
        · exact h.filled t₀ ht₀ r hr c hc hc'
        · obtain rfl := List.mem_singleton.mp hc
          rw [hvalue r (htable ▸ hr)]
          exact hnotNull hc'
    · next htable =>
        rw [if_neg htable]
        exact h.filled t₀ ht₀ r hr
  uniqueKeys := by
    intro t ht columns hcolumns
    obtain ⟨t₀, ht₀, rfl⟩ := List.mem_map.mp ht
    split at hcolumns <;> split <;> exact h.uniqueKeys t₀ ht₀ columns hcolumns
  uniqueIndexes := h.uniqueIndexes
  foreignKeys := by
    intro t ht fk hfk r hr hnull
    obtain ⟨t₀, ht₀, rfl⟩ := List.mem_map.mp ht
    split at hr
    · next htable =>
        rw [if_pos htable] at hfk
        rcases List.mem_append.mp hfk with hfk | hfk
        · exact h.foreignKeys t₀ ht₀ fk hfk r hr hnull
        · obtain ⟨hcolumn, hv⟩ := hreferences fk (Option.mem_toList.mp hfk)
          exact absurd ((hcolumn ▸ hvalue r (htable ▸ hr)).trans hv) hnull
    · next htable =>
        rw [if_neg htable] at hfk
        exact h.foreignKeys t₀ ht₀ fk hfk r hr hnull

/-- A new index, unique only where the rows are. -/
theorem Database.Consistent.createIndex (h : Database.Consistent ⟨s, rows⟩) {i : Index}
    (hunique : i.unique = true → Distinct i.columns (i.covered (rows i.table))) :
    Database.Consistent ⟨{ s with indexes := s.indexes ++ [i] }, rows⟩ where
  filled := h.filled
  uniqueKeys := h.uniqueKeys
  uniqueIndexes := by
    intro i' hi'
    rcases List.mem_append.mp hi' with hi' | hi'
    · exact h.uniqueIndexes i' hi'
    · rw [List.mem_singleton.mp hi']
      exact hunique
  foreignKeys := h.foreignKeys

theorem Schema.includes_append (s : Schema) (ts : List (String × TableDef)) (is : List Index) :
    Schema.Includes ⟨s.tables ++ ts, is⟩ s :=
  fun t ht => ⟨t, List.mem_append_left ts ht, rfl, List.Subset.refl _⟩

theorem Schema.includes_addColumn (s : Schema) (table : String) (column : Column)
    (references : Option ForeignKey) : (s.addColumn table column references).Includes s := by
  intro t ht
  refine ⟨_, List.mem_map_of_mem ht, ?_, ?_⟩
  · split <;> rfl
  · split
    · intro c hc
      obtain ⟨column', hcolumn', rfl⟩ := List.mem_map.mp hc
      exact List.mem_map_of_mem (List.mem_append_left _ hcolumn')
    · exact List.Subset.refl _

/-- What is checked before a column is added. -/
theorem Statement.addColumn_ok {table : String} {column : Column} {references : Option ForeignKey}
    (h : (Statement.addColumn table column references).execSchema s = .ok s') :
    ∃ d v, s.tables.lookup table = some d ∧ column.name ∉ d.columnNames ∧
      column.default = .constant v ∧ (column.notNull = true → v ≠ .null) ∧
      (references.isSome = true → v = .null) ∧ s' = s.addColumn table column references := by
  simp only [Statement.execSchema] at h
  split at h
  · cases h
  · next d hlookup =>
      split at h
      · cases h
      · next hnew =>
          split at h
          · cases h
          · next v hdefault =>
              split at h
              · cases h
              · next hallowed =>
                  obtain ⟨hnotNull, hreferences⟩ := not_or.mp hallowed
                  exact ⟨d, v, hlookup, hnew, hdefault, fun h₁ h₂ => hnotNull ⟨h₁, h₂⟩,
                    fun h₁ => not_not.mp (fun h₂ => hreferences ⟨h₁, h₂⟩), (Except.ok.inj h).symm⟩

/-- What an index changes of the schema. -/
theorem Statement.createIndex_ok {i : Index} {ifNotExists : Bool}
    (h : (Statement.createIndex i ifNotExists).execSchema s = .ok s') :
    s' = s ∨ s' = { s with indexes := s.indexes ++ [i] } := by
  simp only [Statement.execSchema] at h
  split at h
  · split at h
    · exact Or.inl (Except.ok.inj h).symm
    · cases h
  · split at h
    · cases h
    · split at h
      · cases h
      · exact Or.inr (Except.ok.inj h).symm

/-- A statement that adds succeeds, and every row is carried over. -/
theorem Statement.Adds.exec {x : Statement} (hadds : x.Adds s empty) (now : Value)
    (hwf : s.WellFormed) (h : Database.Consistent ⟨s, rows⟩) (hempty : ∀ t ∈ empty, rows t = [])
    (hschema : x.execSchema s = .ok s') :
    ∃ rows', x.exec now ⟨s, rows⟩ = .ok ⟨s', rows'⟩ ∧ Database.Consistent ⟨s', rows'⟩ ∧
      s.Carries rows rows' ∧ s'.Includes s ∧ ∀ t ∈ x.emptied empty, rows' t = [] := by
  unfold Statement.exec
  simp only [hschema]
  cases x with
  | createTable name d ifNotExists =>
      have hnone : s.tables.lookup name = none := hadds
      simp only [Statement.execSchema, hnone] at hschema
      obtain rfl := Except.ok.inj hschema
      have hcarries : s.Carries rows (Function.update rows name []) := by
        intro t ht
        rw [Function.update_of_ne (Schema.ne_of_lookup_none hnone ht)]
        exact SameIn.refl _ _
      refine ⟨Function.update rows name [], ?_, ?_, hcarries, s.includes_append _ _, ?_⟩
      · simp only [Statement.execRows, hnone]
        rfl
      · exact (h.carries hwf hcarries).createTable (Function.update_self ..)
      · intro t ht
        by_cases heq : t = name
        · rw [heq, Function.update_self]
        · rw [Function.update_of_ne heq]
          exact hempty t ((List.mem_cons.mp ht).resolve_left heq)
  | addColumn table column references =>
      obtain ⟨d, v, hlookup, hnew, hdefault, hnotNull, hnull, rfl⟩ := Statement.addColumn_ok hschema
      let rows' := Function.update rows table
        ((rows table).map (fun r => Function.update r column.name v))
      have hcarries : s.Carries rows rows' := by
        intro t ht
        by_cases htable : t.1 = table
        · obtain rfl := hwf.eq_of_mem (Schema.mem_of_lookup hlookup) ht htable
          show SameIn d.columnNames (rows table) (rows' table)
          rw [show rows' table = _ from Function.update_self ..]
          refine SameIn.map (fun r _ c hc => Function.update_of_ne ?_ v r)
          rintro rfl
          exact hnew hc
        · rw [show rows' t.1 = _ from Function.update_of_ne htable ..]
          exact SameIn.refl _ _
      refine ⟨rows', ?_, ?_, hcarries, s.includes_addColumn _ _ _, ?_⟩
      · simp only [Statement.execRows, hdefault]
        rfl
      · refine (h.carries hwf hcarries).addColumn (v := v) (fun r hr => ?_) hnotNull
          (fun fk hfk => ⟨hadds fk hfk, hnull (Option.isSome_of_mem hfk)⟩)
        rw [show rows' table = _ from Function.update_self ..] at hr
        obtain ⟨r₀, -, rfl⟩ := List.mem_map.mp hr
        exact Function.update_self ..
      · intro t ht
        obtain ⟨ht, htable⟩ := List.mem_filter.mp ht
        rw [show rows' t = _ from Function.update_of_ne (by simpa using htable) ..]
        exact hempty t ht
  | createIndex i ifNotExists =>
      have hunique : i.unique = true → Distinct i.columns (i.covered (rows i.table)) := by
        intro hu
        rw [hempty i.table (hadds hu)]
        unfold Index.covered
        split <;> exact .nil
      refine ⟨rows, ?_, ?_, .refl s rows, ?_, hempty⟩
      · simp only [Statement.execRows]
        rw [if_neg (fun hc => hc.2 (hunique hc.1))]
        rfl
      · rcases Statement.createIndex_ok hschema with rfl | rfl
        · exact h
        · exact h.createIndex hunique
      · rcases Statement.createIndex_ok hschema with rfl | rfl
        · exact .refl _
        · exact fun t ht => ⟨t, ht, rfl, List.Subset.refl _⟩
  | dropTable name ifExists => exact hadds.elim
  | renameTable name newName => exact hadds.elim
  | dropIndexIfExists name => exact hadds.elim
  | insertSelect target columns source column => exact hadds.elim
  | deleteWhere table column v => exact hadds.elim

/-- Statements that add succeed one after another, and every row is carried over. -/
theorem Additive.execBatch {xs : List Statement} (hadditive : Additive s empty xs) (now : Value)
    (h : Database.Consistent ⟨s, rows⟩) (hempty : ∀ t ∈ empty, rows t = []) :
    ∃ s' rows', Database.execBatch now ⟨s, rows⟩ xs = .ok ⟨s', rows'⟩ ∧
      xs.foldlM Statement.execSchema s = .ok s' ∧ Database.Consistent ⟨s', rows'⟩ ∧
      s.Carries rows rows' ∧ s'.Includes s := by
  induction xs generalizing s rows empty with
  | nil => exact ⟨s, rows, rfl, rfl, h, .refl s rows, .refl s⟩
  | cons x xs ih =>
      obtain ⟨hwf, hadds, hrest⟩ := hadditive
      cases hschema : x.execSchema s with
      | error e =>
          rw [hschema] at hrest
          exact hrest.elim
      | ok s₁ =>
          rw [hschema] at hrest
          obtain ⟨rows₁, hexec, h₁, hcarries₁, hincludes₁, hempty₁⟩ :=
            hadds.exec now hwf h hempty hschema
          obtain ⟨s', rows', hbatch, hfold, h', hcarries', hincludes'⟩ := ih hrest h₁ hempty₁
          refine ⟨s', rows', ?_, ?_, h', hcarries₁.trans hincludes₁ hcarries',
            hincludes'.trans hincludes₁⟩
          · rw [Database.execBatch, List.foldlM_cons, hexec]
            exact hbatch
          · rw [List.foldlM_cons, hschema]
            exact hfold

end Additive

end Sql

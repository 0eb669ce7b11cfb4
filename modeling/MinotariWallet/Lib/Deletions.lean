import MinotariWallet.Lib.Relational

set_option autoImplicit false

/-! # Deleting the rows of many tables

Deletions of the rows with one value in a column, table after table. A table whose foreign keys are
set to null by a deletion changes by it, and is in the way of none; of the other tables it is known
which rows are left, and so whether the next deletion succeeds. -/

namespace Sql

/-- The rows left when those with the value are deleted, for each of the tables and columns. -/
def clearRows (rows : String → List Row) (v : Value) (cs : List (String × String)) :
    String → List Row :=
  fun t => (rows t).filter (fun r => cs.all (fun c => !(c.1 == t && r c.2 == v)))

@[simp] theorem mem_clearRows {rows : String → List Row} {v : Value} {cs : List (String × String)}
    {t : String} {r : Row} :
    r ∈ clearRows rows v cs t ↔ r ∈ rows t ∧ ∀ c ∈ cs, c.1 = t → r c.2 ≠ v := by
  simp [clearRows, List.mem_filter, imp_iff_not_or]

/-- `DELETE FROM table WHERE column = v` for each of them. -/
def deletions (v : Value) (cs : List (String × String)) : List Statement :=
  cs.map (fun c => .deleteWhere c.1 c.2 v)

namespace Schema

/-- No key of the table is set to null by a deletion. -/
def NoSetNull (s : Schema) (table : String) : Prop :=
  ∀ t ∈ s.tables, t.1 = table → ∀ fk ∈ t.2.foreignKeys, fk.onDeleteSetNull = false

instance (s : Schema) (table : String) : Decidable (s.NoSetNull table) := by
  unfold NoSetNull
  infer_instance

/-- No table has a key that is set to null by a deletion beside one that is not. -/
def Unmixed (s : Schema) : Prop :=
  ∀ t ∈ s.tables, ∀ fk ∈ t.2.foreignKeys, fk.onDeleteSetNull = false → s.NoSetNull t.1

instance (s : Schema) : Decidable s.Unmixed := by
  unfold Unmixed
  infer_instance

/-- The table and the column are there, and the table has no key that is set to null. -/
def Deletes (s : Schema) (c : String × String) : Prop :=
  (∃ d, s.tables.lookup c.1 = some d ∧ c.2 ∈ d.columnNames) ∧ s.NoSetNull c.1

instance (s : Schema) (c : String × String) : Decidable (s.Deletes c) :=
  match h : s.tables.lookup c.1 with
  | none => isFalse (by simp [Deletes, h])
  | some d => decidable_of_iff (c.2 ∈ d.columnNames ∧ s.NoSetNull c.1) (by simp [Deletes, h])

end Schema

/-- After the deletions `before`, the next one would leave a reference to a deleted row. -/
def Blocked (s : Schema) (rows : String → List Row) (v : Value) (before : List (String × String))
    (c : String × String) : Prop :=
  ∃ t ∈ s.tables, ∃ fk ∈ t.2.foreignKeys, fk.parent = c.1 ∧ fk.onDeleteSetNull = false ∧
    ∃ r ∈ clearRows rows v (before ++ [c]) t.1, ∃ q ∈ clearRows rows v before c.1,
      q c.2 = v ∧ fk.Refers r q

/-- None of the deletions would, each after those before it. -/
def Unblocked (s : Schema) (rows : String → List Row) (v : Value) :
    List (String × String) → List (String × String) → Prop
  | _, [] => True
  | before, c :: cs => ¬Blocked s rows v before c ∧ Unblocked s rows v (before ++ [c]) cs

section Deletions

variable {s : Schema} {rows rows' : String → List Row} {v : Value}
  {before : List (String × String)} {c : String × String}

/-- The rows are those that the deletions leave, except for keys that are set to null. -/
def AgreesCleared (s : Schema) (rows : String → List Row) (v : Value)
    (before : List (String × String)) (rows' : String → List Row) : Prop :=
  ∀ t, s.NoSetNull t → rows' t = clearRows rows v before t

theorem AgreesCleared.leavesReference_iff (h : AgreesCleared s rows v before rows')
    (hunmixed : s.Unmixed) (hdeletes : s.Deletes c) :
    Database.LeavesReference ⟨s, rows'⟩ c.1 (fun r => r c.2 == v) ↔
      Blocked s rows v before c := by
  have hrows : ∀ t, s.NoSetNull t → ∀ r, r ∈ (⟨s, rows'⟩ : Database).rows t ↔
      r ∈ clearRows rows v before t := fun t ht r => by rw [← h t ht]
  have hwithout : ∀ t, s.NoSetNull t → ∀ r,
      r ∈ Database.without ⟨s, rows'⟩ c.1 (fun r => r c.2 == v) t ↔
        r ∈ clearRows rows v (before ++ [c]) t := by
    intro t ht r
    unfold Database.without
    by_cases heq : t = c.1
    · rw [if_pos heq, List.mem_filter, hrows t ht]
      simp [or_imp, forall_and, heq, and_assoc]
    · rw [if_neg heq, hrows t ht]
      simp [or_imp, forall_and, Ne.symm heq]
  unfold Database.LeavesReference Blocked
  constructor
  · rintro ⟨t, ht, fk, hfk, hparent, hkeeps, r, hr, q, hq, hrefers⟩
    obtain ⟨hq, hv⟩ := List.mem_filter.mp hq
    exact ⟨t, ht, fk, hfk, hparent, hkeeps, r, (hwithout _ (hunmixed t ht fk hfk hkeeps) r).mp hr,
      q, (hrows c.1 hdeletes.2 q).mp hq, beq_iff_eq.mp hv, hrefers⟩
  · rintro ⟨t, ht, fk, hfk, hparent, hkeeps, r, hr, q, hq, hv, hrefers⟩
    exact ⟨t, ht, fk, hfk, hparent, hkeeps, r,
      (hwithout _ (hunmixed t ht fk hfk hkeeps) r).mpr hr, q,
      List.mem_filter.mpr ⟨(hrows c.1 hdeletes.2 q).mpr hq, beq_iff_eq.mpr hv⟩, hrefers⟩

/-- One deletion. -/
theorem AgreesCleared.exec (h : AgreesCleared s rows v before rows') (hunmixed : s.Unmixed)
    (hdeletes : s.Deletes c) (now : Value) :
    (Blocked s rows v before c → ∃ e, (Statement.deleteWhere c.1 c.2 v).exec now ⟨s, rows'⟩ =
      .error e) ∧
    (¬Blocked s rows v before c → ∃ rows'', (Statement.deleteWhere c.1 c.2 v).exec now ⟨s, rows'⟩ =
      .ok ⟨s, rows''⟩ ∧ AgreesCleared s rows v (before ++ [c]) rows'') := by
  obtain ⟨d, hlookup, hcolumn⟩ := hdeletes.1
  simp only [Statement.exec, Statement.execSchema, Statement.execRows, hlookup, if_pos hcolumn,
    Database.deleteRows]
  have hleaves := h.leavesReference_iff hunmixed hdeletes
  constructor
  · intro hblocked
    rw [if_pos (hleaves.mpr hblocked)]
    exact ⟨_, rfl⟩
  · intro hnot
    rw [if_neg (fun href => hnot (hleaves.mp href))]
    refine ⟨_, rfl, fun t ht => ?_⟩
    have hsame : ∀ d, s.tables.lookup t = some d → ∀ r : Row,
        r.setNulls d c.1 ((rows' c.1).filter (fun r => r c.2 == v)) = r := by
      intro d hlookup' r
      funext column
      refine if_neg ?_
      simp only [List.any_eq_true, Bool.and_eq_true]
      rintro ⟨fk, hfk, ⟨⟨hsetNull, -⟩, -⟩, -⟩
      obtain ⟨pre, post, heq, -⟩ := List.lookup_eq_some_iff.mp hlookup'
      have hmem : (t, d) ∈ s.tables := by
        rw [heq]
        simp
      rw [ht (t, d) hmem rfl fk hfk] at hsetNull
      cases hsetNull
    refine (List.map_congr_left (g := id) (fun r _ => ?_)).trans ((List.map_id _).trans ?_)
    · cases hlookup' : s.tables.lookup t with
      | none => rfl
      | some d => exact hsame d hlookup' r
    unfold Database.without clearRows
    by_cases heq : t = c.1
    · rw [if_pos heq]
      show (rows' t).filter _ = _
      rw [h t ht]
      simp [clearRows, List.filter_filter, heq, Bool.and_comm]
    · rw [if_neg heq]
      show rows' t = _
      have hne : (c.1 == t) = false := beq_eq_false_iff_ne.mpr (Ne.symm heq)
      rw [h t ht]
      simp [clearRows, hne]

/-- The deletions succeed exactly if none of them is blocked. -/
theorem AgreesCleared.execBatch {cs : List (String × String)}
    (h : AgreesCleared s rows v before rows') (hunmixed : s.Unmixed)
    (hdeletes : ∀ c ∈ cs, s.Deletes c) (now : Value) :
    (¬Unblocked s rows v before cs →
      ∃ e, Database.execBatch now ⟨s, rows'⟩ (deletions v cs) = .error e) ∧
    (Unblocked s rows v before cs →
      ∃ rows'', Database.execBatch now ⟨s, rows'⟩ (deletions v cs) = .ok ⟨s, rows''⟩ ∧
        AgreesCleared s rows v (before ++ cs) rows'') := by
  induction cs generalizing before rows' with
  | nil => exact ⟨fun hnot => (hnot trivial).elim, fun _ => ⟨rows', rfl, by simpa using h⟩⟩
  | cons c cs ih =>
      obtain ⟨hfails, hdeletesFirst⟩ := h.exec hunmixed (hdeletes c List.mem_cons_self) now
      simp only [deletions, List.map_cons, Database.execBatch, List.foldlM_cons]
      by_cases hblocked : Blocked s rows v before c
      · obtain ⟨e, he⟩ := hfails hblocked
        rw [he]
        exact ⟨fun _ => ⟨e, rfl⟩, fun hun => (hun.1 hblocked).elim⟩
      · obtain ⟨rows₁, hok, hagrees⟩ := hdeletesFirst hblocked
        rw [hok]
        obtain ⟨herror, hsuccess⟩ :=
          ih hagrees (fun c' hc' => hdeletes c' (List.mem_cons_of_mem c hc'))
        refine ⟨fun hnot => herror (fun hun => hnot ⟨hblocked, hun⟩), fun hun => ?_⟩
        obtain ⟨rows₂, hbatch, hagrees₂⟩ := hsuccess hun.2
        exact ⟨rows₂, hbatch, by simpa using hagrees₂⟩

end Deletions

end Sql

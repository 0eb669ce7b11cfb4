import MinotariWallet.Lib.Retains

set_option autoImplicit false

/-! # Rows with owners

Several owners share the tables of one database. `Owns` says whose row is under a key, and `Refers`
is a foreign key that does not leave its owner: the row that is referred to exists, and belongs to
the owner of the row that refers. The last section is about what one owner sees of a table: writes
to rows of others do not show. -/

namespace Sql.Table

variable {ρ κ σ ℓ ω : Type} [Keyed ρ κ] [Keyed σ ℓ]

/-- There is a row under the key, and it belongs to the owner. -/
def Owns (owner : ρ → ω) (t : Table ρ) (k : κ) (a : ω) : Prop :=
  ∃ r ∈ t.rows, key r = k ∧ owner r = a

/-- What the rows of `u` refer to is in `t`, and belongs to the same owner. -/
def Refers (ref : σ → Option κ) (owner' : σ → ω) (u : Table σ) (owner : ρ → ω) (t : Table ρ) :
    Prop :=
  ∀ s ∈ u.rows, ∀ k ∈ ref s, t.Owns owner k (owner' s)

variable {owner : ρ → ω} {owner' : σ → ω} {ref : σ → Option κ} {R : ρ → ρ → Prop}
  {t t' : Table ρ} {u u' : Table σ} {k : κ} {a b : ω}

theorem Owns.unique (h : t.Owns owner k a) (h' : t.Owns owner k b) : a = b := by
  obtain ⟨r, hr, hk, rfl⟩ := h
  obtain ⟨r', hr', hk', rfl⟩ := h'
  rw [t.eq_of_key_eq hr hr' (hk.trans hk'.symm)]

/-- The row under the key belongs to its owner. -/
theorem Owns.eq (h : t.Owns owner k a) {r : ρ} (hr : r ∈ t.rows) (hk : key r = k) : owner r = a :=
  Owns.unique ⟨r, hr, hk, rfl⟩ h

/-- The rows under a key have an owner in common. -/
theorem exists_owner [Inhabited ω] (owner : ρ → ω) (t : Table ρ) (k : κ) :
    ∃ a, ∀ r ∈ t.rows, key r = k → owner r = a := by
  by_cases h : ∃ r ∈ t.rows, key r = k
  · obtain ⟨r, hr, hk⟩ := h
    exact ⟨owner r, fun r' hr' hk' => by rw [t.eq_of_key_eq hr' hr (hk'.trans hk.symm)]⟩
  · exact ⟨default, fun r hr hk => absurd ⟨r, hr, hk⟩ h⟩

theorem Owns.retained (h : t.Owns owner k a) (hkept : t.Retains R t')
    (hR : ∀ r r', R r r' → owner r' = owner r) : t'.Owns owner k a := by
  obtain ⟨r, hr, hk, rfl⟩ := h
  obtain ⟨r', hr', hk', hrel⟩ := hkept r hr
  exact ⟨r', hr', hk'.trans hk, hR r r' hrel⟩

/-- Both tables may change: the one that is referred to keeps its owners, and every row that refers
    is an old one with its reference, or refers to its own owner. -/
theorem Refers.step {S : σ → σ → Prop} (h : u.Refers ref owner' owner t) (hkept : t.Retains R t')
    (hR : ∀ r r', R r r' → owner r' = owner r)
    (hS : ∀ s s', S s s' → ref s' = ref s ∧ owner' s' = owner' s)
    (hrows : ∀ s' ∈ u'.rows, (∃ s ∈ u.rows, S s s') ∨ ∀ k ∈ ref s', t'.Owns owner k (owner' s')) :
    u'.Refers ref owner' owner t' := by
  intro s' hs' k hk
  rcases hrows s' hs' with ⟨s, hs, hrel⟩ | hnew
  · obtain ⟨href, howner⟩ := hS s s' hrel
    rw [howner]
    exact (h s hs k (href ▸ hk)).retained hkept hR
  · exact hnew k hk

/-! ## What an owner sees -/

/-- An update of rows that a selection has neither before nor after. -/
theorem select_updateWhere_outside {p q : ρ → Bool} {f : ρ → ρ}
    (h : ∀ r ∈ t.rows, p r = true → q r = false ∧ q (f r) = false) (hf : ∀ r, key (f r) = key r) :
    (t.updateWhere p f hf).select q = t.select q := by
  simp only [select, Table.updateWhere]
  have hrows : ∀ rows : List ρ, (∀ r ∈ rows, p r = true → q r = false ∧ q (f r) = false) →
      (rows.map (fun r => if p r then f r else r)).filter q = rows.filter q := by
    intro rows
    induction rows with
    | nil => simp
    | cons r rest ih =>
        intro hall
        have hrest := ih (fun r' hr' => hall r' (List.mem_cons_of_mem r hr'))
        by_cases hp : p r = true
        · obtain ⟨hq, hq'⟩ := hall r List.mem_cons_self hp
          simp [hp, hq, hq', hrest]
        · simp [hp, List.filter_cons, hrest]
  exact hrows t.rows h

theorem select_deleteWhere {p q : ρ → Bool} :
    (t.deleteWhere p).select q = (t.select q).filter (fun r => !p r) := by
  simp only [select, deleteWhere, List.filter_filter, Bool.and_comm]

theorem select_insert {ρ : Type} [Keyed ρ Nat] {t : AutoTable ρ} {q : ρ → Bool} {m : Nat → ρ}
    (hq : q (m (t.seq + 1)) = true) (hmk : ∀ k, key (m k) = k) :
    (t.insert m hmk).select q = t.select q ++ [m (t.seq + 1)] := by
  simp [select, AutoTable.insert, hq]

theorem select_insert?_outside [DecidableEq κ] {q : ρ → Bool} {r : ρ}
    (h : t.insert? r = some t') (hq : q r = false) : t'.select q = t.select q := by
  simp [select, (insert?_some h).1, hq]

theorem select_insert_outside {ρ : Type} [Keyed ρ Nat] {t : AutoTable ρ} {q : ρ → Bool}
    {m : Nat → ρ} (hq : q (m (t.seq + 1)) = false) (hmk : ∀ k, key (m k) = k) :
    (t.insert m hmk).select q = t.select q := by
  simp [select, AutoTable.insert, hq]

theorem select_deleteWhere_outside {p q : ρ → Bool}
    (h : ∀ r ∈ t.rows, p r = true → q r = false) : (t.deleteWhere p).select q = t.select q := by
  simp only [select, deleteWhere, List.filter_filter]
  refine List.filter_congr (fun r hr => ?_)
  by_cases hp : p r = true
  · simp [hp, h r hr hp]
  · simp [hp]

end Sql.Table

import Mathlib.Algebra.BigOperators.Group.List.Basic
import Mathlib.Algebra.Order.BigOperators.Group.List
import Mathlib.Algebra.Ring.Int.Defs
import Mathlib.Algebra.Ring.Nat
import Mathlib.Data.List.Nodup
import Mathlib.Data.List.Sort
import Mathlib.Tactic.Common

set_option autoImplicit false

/-! # Keyed tables

A `Table` is a finite list of rows with a primary key that no two rows share, as a relational
database keeps it. An `AutoTable` also carries the counter of an `AUTOINCREMENT` key: no row has a
key above the counter, so a key once given out is never given out again. Both invariants are fields,
so every operation below keeps them by construction. -/

namespace Sql

/-- A row type with a primary key. -/
class Keyed (ρ : Type) (κ : outParam Type) where
  key : ρ → κ

export Keyed (key)

/-- Rows in insertion order, no two with the same primary key. -/
structure Table (ρ : Type) {κ : Type} [Keyed ρ κ] where
  rows : List ρ
  nodup : (rows.map key).Nodup

namespace Table

variable {ρ κ : Type} [Keyed ρ κ]

/-- The table without rows. -/
def empty : Table ρ := ⟨[], List.nodup_nil⟩

/-- `SELECT … WHERE p`, in insertion order. -/
def select (t : Table ρ) (p : ρ → Bool) : List ρ := t.rows.filter p

/-- The first row with `p`. -/
def find? (t : Table ρ) (p : ρ → Bool) : Option ρ := t.rows.find? p

/-- `EXISTS (SELECT … WHERE p)`. -/
def exists? (t : Table ρ) (p : ρ → Bool) : Bool := t.rows.any p

/-- The row with primary key `k`. -/
def get? [DecidableEq κ] (t : Table ρ) (k : κ) : Option ρ := t.rows.find? (fun r => key r == k)

/-- `INSERT`; `none` when the primary key is taken. -/
def insert? [DecidableEq κ] (t : Table ρ) (r : ρ) : Option (Table ρ) :=
  if h : key r ∈ t.rows.map key then none
  else some ⟨t.rows ++ [r], by
    have hfresh : ∀ r₀ ∈ t.rows, key r₀ ≠ key r := fun r₀ hr₀ he =>
      h (he ▸ List.mem_map_of_mem hr₀)
    simpa [List.nodup_append, t.nodup] using hfresh⟩

/-- `UPDATE … SET f WHERE p`, for a change `f` that keeps the key. -/
def updateWhere (t : Table ρ) (p : ρ → Bool) (f : ρ → ρ)
    (hf : ∀ r, key (f r) = key r := by intro _; rfl) : Table ρ where
  rows := t.rows.map (fun r => if p r then f r else r)
  nodup := by
    have hkeys : (t.rows.map (fun r => if p r then f r else r)).map key = t.rows.map key := by
      rw [List.map_map]
      refine List.map_congr_left (fun r _ => ?_)
      by_cases h : p r <;> simp [h, hf]
    rw [hkeys]
    exact t.nodup

/-- `DELETE … WHERE p`. -/
def deleteWhere (t : Table ρ) (p : ρ → Bool) : Table ρ where
  rows := t.rows.filter (fun r => !p r)
  nodup := t.nodup.sublist (List.filter_sublist.map key)

/-- `SUM(w)` over all rows. -/
def sum (t : Table ρ) (w : ρ → Int) : Int := (t.rows.map w).sum

/-- `COUNT(*) WHERE q`. -/
def countWhere (t : Table ρ) (q : ρ → Bool) : Nat := t.rows.countP q

/-- `SUM(w) WHERE p`. -/
def sumWhere (t : Table ρ) (p : ρ → Bool) (w : ρ → Int) : Int := ((t.select p).map w).sum

/-! ## Membership -/

@[simp] theorem rows_empty : (empty : Table ρ).rows = [] := rfl

@[simp] theorem mem_select {t : Table ρ} {p : ρ → Bool} {r : ρ} :
    r ∈ t.select p ↔ r ∈ t.rows ∧ p r = true := List.mem_filter

theorem nodup_select (t : Table ρ) (p : ρ → Bool) : ((t.select p).map key).Nodup :=
  t.nodup.sublist (List.filter_sublist.map key)

/-- Two rows with the same primary key are the same row. -/
theorem eq_of_key_eq (t : Table ρ) {r r' : ρ} (hr : r ∈ t.rows) (hr' : r' ∈ t.rows)
    (h : key r = key r') : r = r' :=
  List.inj_on_of_nodup_map t.nodup hr hr' h

theorem find?_some {t : Table ρ} {p : ρ → Bool} {r : ρ} (h : t.find? p = some r) :
    r ∈ t.rows ∧ p r = true := ⟨List.mem_of_find?_eq_some h, List.find?_some h⟩

theorem find?_isSome {t : Table ρ} {p : ρ → Bool} {r : ρ} (hr : r ∈ t.rows) (hp : p r = true) :
    ∃ r', t.find? p = some r' := by
  cases hf : t.find? p with
  | some r' => exact ⟨r', rfl⟩
  | none => exact absurd hp (List.find?_eq_none.mp hf r hr)

@[simp] theorem exists?_eq_true {t : Table ρ} {p : ρ → Bool} :
    t.exists? p = true ↔ ∃ r ∈ t.rows, p r = true := List.any_eq_true

theorem exists?_eq_false {t : Table ρ} {p : ρ → Bool} :
    t.exists? p = false ↔ ∀ r ∈ t.rows, p r = false := by
  simp [exists?, List.any_eq_false]

theorem get?_eq_some [DecidableEq κ] {t : Table ρ} {k : κ} {r : ρ} :
    t.get? k = some r ↔ r ∈ t.rows ∧ key r = k := by
  constructor
  · intro h
    exact ⟨List.mem_of_find?_eq_some h, by simpa using List.find?_some h⟩
  · rintro ⟨hr, rfl⟩
    obtain ⟨r', h'⟩ := find?_isSome (t := t) (p := fun x => key x == key r) hr (by simp)
    have heq := t.eq_of_key_eq (find?_some h').1 hr (by simpa using (find?_some h').2)
    exact heq ▸ h'

@[simp] theorem mem_updateWhere {t : Table ρ} {p : ρ → Bool} {f : ρ → ρ} {r : ρ}
    (hf : ∀ r, key (f r) = key r) :
    r ∈ (t.updateWhere p f hf).rows ↔ ∃ r₀ ∈ t.rows, (if p r₀ then f r₀ else r₀) = r :=
  List.mem_map

@[simp] theorem mem_deleteWhere {t : Table ρ} {p : ρ → Bool} {r : ρ} :
    r ∈ (t.deleteWhere p).rows ↔ r ∈ t.rows ∧ p r = false := by
  simp [deleteWhere]

/-- A row and the rows with other keys. -/
theorem perm_cons_filter_key [DecidableEq κ] {rows : List ρ} (h : (rows.map key).Nodup) {r : ρ}
    (hr : r ∈ rows) : rows.Perm (r :: rows.filter (fun x => !(key x == key r))) := by
  induction rows with
  | nil => cases hr
  | cons x rest ih =>
      obtain ⟨hx, hrest⟩ := List.nodup_cons.mp h
      rcases List.mem_cons.mp hr with rfl | hmem
      · have hall : rest.filter (fun x => !(key x == key r)) = rest :=
          List.filter_eq_self.mpr (fun y hy => by
            have hne : key y ≠ key r := fun he => hx (he ▸ List.mem_map_of_mem hy)
            simpa using hne)
        simp [hall]
      · have hne : key x ≠ key r := fun he => hx (he ▸ List.mem_map_of_mem hmem)
        simp only [List.filter_cons, beq_eq_false_iff_ne.mpr hne, Bool.not_false, if_true]
        exact ((ih hrest hmem).cons x).trans (List.Perm.swap r x _)

/-- Two tables with the same rows are the same table. -/
theorem ext_rows {t t' : Table ρ} (h : t.rows = t'.rows) : t = t' := by
  cases t
  cases t'
  simpa using h

/-- An update that selects no row changes nothing. -/
theorem updateWhere_none {t : Table ρ} {p : ρ → Bool} {f : ρ → ρ}
    (h : ∀ r ∈ t.rows, p r = false) (hf : ∀ r, key (f r) = key r) :
    t.updateWhere p f hf = t := by
  refine ext_rows ?_
  have hmap : t.rows.map (fun r => if p r then f r else r) = t.rows.map id :=
    List.map_congr_left (fun r hr => by simp [h r hr])
  simpa [updateWhere] using hmap

/-- An update that takes its rows out of a selection. -/
theorem select_updateWhere_unmarked {t : Table ρ} {p q : ρ → Bool} {f : ρ → ρ}
    (hmark : ∀ r, q (f r) = false) (hf : ∀ r, key (f r) = key r) :
    (t.updateWhere p f hf).select q = (t.select q).filter (fun r => !p r) := by
  simp only [select, updateWhere, List.filter_filter]
  induction t.rows with
  | nil => rfl
  | cons r rest ih =>
      rw [List.map_cons, List.filter_cons, List.filter_cons, ih]
      by_cases hp : p r <;> simp [hp, hmark]

/-- An update that no selection and no view of its rows can see. -/
theorem map_select_updateWhere {τ : Type} {t : Table ρ} {p q : ρ → Bool} {f : ρ → ρ} {v : ρ → τ}
    (hq : ∀ r, p r = true → q (f r) = q r) (hview : ∀ r, p r = true → v (f r) = v r)
    (hf : ∀ r, key (f r) = key r) :
    ((t.updateWhere p f hf).select q).map v = (t.select q).map v := by
  simp only [select, updateWhere]
  induction t.rows with
  | nil => rfl
  | cons r rest ih =>
      rw [List.map_cons, List.filter_cons, List.filter_cons]
      by_cases hp : p r
      · simp only [hp, if_true, hq r hp]
        by_cases hr : q r <;> simp [hr, hview r hp, ih]
      · simp only [hp]
        by_cases hr : q r <;> simp [hr, ih]

theorem insert?_some [DecidableEq κ] {t t' : Table ρ} {r : ρ} (h : t.insert? r = some t') :
    t'.rows = t.rows ++ [r] ∧ ∀ r₀ ∈ t.rows, key r₀ ≠ key r := by
  unfold insert? at h
  split at h
  · simp at h
  · next hk =>
      simp only [Option.some.injEq] at h
      subst h
      exact ⟨rfl, fun r₀ hr₀ he => hk (he ▸ List.mem_map_of_mem hr₀)⟩

theorem insert?_none [DecidableEq κ] {t : Table ρ} {r : ρ} (h : t.insert? r = none) :
    ∃ r₀ ∈ t.rows, key r₀ = key r := by
  unfold insert? at h
  split at h
  · next hk => exact List.mem_map.mp hk
  · simp at h

theorem mem_insert? [DecidableEq κ] {t t' : Table ρ} {r r' : ρ} (h : t.insert? r = some t') :
    r' ∈ t'.rows ↔ r' ∈ t.rows ∨ r' = r := by
  rw [(insert?_some h).1]; simp

/-! ## Counts -/

/-- An update that takes no row out of a selection leaves it no smaller. -/
theorem countWhere_le_updateWhere {t : Table ρ} {p q : ρ → Bool} {f : ρ → ρ}
    (h : ∀ r, p r = true → q r = true → q (f r) = true)
    (hf : ∀ r, key (f r) = key r) :
    t.countWhere q ≤ (t.updateWhere p f hf).countWhere q := by
  simp only [countWhere, updateWhere, List.countP_map]
  refine List.countP_mono_left (fun r _ hq => ?_)
  by_cases hp : p r = true
  · simp [hp, h r hp hq]
  · simp [hp, hq]

/-- An update that puts every row it changes into a selection makes it larger, unless they were all
    in it. -/
theorem countWhere_lt_updateWhere {t : Table ρ} {p q : ρ → Bool} {f : ρ → ρ}
    (h : ∀ r, p r = true → q (f r) = true) (hnew : ∃ r ∈ t.rows, p r = true ∧ q r = false)
    (hf : ∀ r, key (f r) = key r) :
    t.countWhere q < (t.updateWhere p f hf).countWhere q := by
  simp only [countWhere, updateWhere]
  obtain ⟨r, hr, hp, hq⟩ := hnew
  have hle : ∀ rows : List ρ,
      rows.countP q ≤ (rows.map (fun r => if p r then f r else r)).countP q := fun rows => by
    rw [List.countP_map]
    refine List.countP_mono_left (fun x _ hx => ?_)
    by_cases hpx : p x = true
    · simp [hpx, h x hpx]
    · simp [hpx, hx]
  obtain ⟨before, after, hrows⟩ := List.append_of_mem hr
  have h₁ := hle before
  have h₂ := hle after
  rw [hrows]
  simp only [List.countP_append, List.countP_cons, List.map_append, List.map_cons, hp, if_true, hq,
    h r hp]
  simp only [Bool.false_eq_true, if_false]
  omega

/-! ## Sums -/

theorem sumWhere_eq_sum (t : Table ρ) (p : ρ → Bool) (w : ρ → Int) :
    t.sumWhere p w = t.sum (fun r => if p r then w r else 0) := by
  unfold sumWhere sum select
  induction t.rows with
  | nil => rfl
  | cons r rest ih =>
      by_cases h : p r
      · simp [h, ih]
      · simp [h, ih]

theorem sum_updateWhere (t : Table ρ) (p : ρ → Bool) (f : ρ → ρ) (hf : ∀ r, key (f r) = key r)
    (w : ρ → Int) :
    (t.updateWhere p f hf).sum w = t.sum (fun r => if p r then w (f r) else w r) := by
  unfold sum updateWhere
  rw [List.map_map]
  refine congrArg List.sum (List.map_congr_left (fun r _ => ?_))
  by_cases h : p r <;> simp [h]

theorem sum_congr {t : Table ρ} {w w' : ρ → Int} (h : ∀ r ∈ t.rows, w r = w' r) :
    t.sum w = t.sum w' :=
  congrArg List.sum (List.map_congr_left h)

theorem sum_sub (t : Table ρ) (w w' : ρ → Int) :
    t.sum (fun r => w r - w' r) = t.sum w - t.sum w' := by
  unfold sum
  induction t.rows with
  | nil => rfl
  | cons r rest ih => simp only [List.map_cons, List.sum_cons, ih]; omega

theorem sum_add (t : Table ρ) (w w' : ρ → Int) :
    t.sum (fun r => w r + w' r) = t.sum w + t.sum w' := by
  unfold sum
  induction t.rows with
  | nil => rfl
  | cons r rest ih => simp only [List.map_cons, List.sum_cons, ih]; omega

theorem sumWhere_split (t : Table ρ) (p q : ρ → Bool) (w : ρ → Int) :
    t.sumWhere p w = t.sumWhere (fun r => p r && q r) w + t.sumWhere (fun r => p r && !q r) w := by
  rw [sumWhere_eq_sum, sumWhere_eq_sum, sumWhere_eq_sum, ← sum_add]
  refine sum_congr (fun r _ => ?_)
  by_cases hp : p r <;> by_cases hq : q r <;> simp [hp, hq]

theorem sumWhere_sub (t : Table ρ) (p : ρ → Bool) (w w' : ρ → Int) :
    t.sumWhere p (fun r => w r - w' r) = t.sumWhere p w - t.sumWhere p w' := by
  rw [sumWhere_eq_sum, sumWhere_eq_sum, sumWhere_eq_sum, ← sum_sub]
  refine sum_congr (fun r _ => ?_)
  by_cases hp : p r <;> simp [hp]

theorem sumWhere_nonneg {t : Table ρ} {p : ρ → Bool} {w : ρ → Int}
    (h : ∀ r ∈ t.rows, 0 ≤ w r) : 0 ≤ t.sumWhere p w :=
  List.sum_nonneg (List.forall_mem_map.mpr (fun r hr => h r (mem_select.mp hr).1))

/-- A sum over more rows of non-negative weights is no smaller. -/
theorem sumWhere_le {t : Table ρ} {p q : ρ → Bool} {w : ρ → Int} (h : ∀ r ∈ t.rows, 0 ≤ w r)
    (hpq : ∀ r ∈ t.rows, p r = true → q r = true) : t.sumWhere p w ≤ t.sumWhere q w := by
  have hboth : t.sumWhere (fun r => q r && p r) w = t.sumWhere p w := by
    rw [sumWhere_eq_sum, sumWhere_eq_sum]
    refine sum_congr (fun r hr => ?_)
    by_cases hp : p r = true
    · simp [hp, hpq r hr hp]
    · simp [hp]
  have hrest : 0 ≤ t.sumWhere (fun r => q r && !p r) w := sumWhere_nonneg h
  have := t.sumWhere_split q p w
  omega

theorem sumWhere_le_weight {t : Table ρ} {p : ρ → Bool} {w w' : ρ → Int}
    (h : ∀ r ∈ t.rows, w r ≤ w' r) : t.sumWhere p w ≤ t.sumWhere p w' :=
  List.sum_le_sum (fun r hr => h r (mem_select.mp hr).1)

theorem sumWhere_eq_zero {t : Table ρ} {p : ρ → Bool} {w : ρ → Int}
    (h : ∀ r ∈ t.rows, p r = false) : t.sumWhere p w = 0 := by
  have hnone : t.select p = [] := List.filter_eq_nil_iff.mpr (fun r hr => by simp [h r hr])
  simp [sumWhere, hnone]

/-- Two weights that differ at one row only. -/
theorem sum_change (t : Table ρ) {r : ρ} (hr : r ∈ t.rows) {w w' : ρ → Int}
    (h : ∀ x ∈ t.rows, x ≠ r → w' x = w x) : t.sum w' = t.sum w - w r + w' r := by
  have hnodup : t.rows.Nodup := List.Nodup.of_map key t.nodup
  unfold sum
  generalize t.rows = rows at hr h hnodup
  induction rows with
  | nil => simp at hr
  | cons x rest ih =>
      obtain ⟨hx, hrest⟩ := List.nodup_cons.mp hnodup
      simp only [List.map_cons, List.sum_cons]
      by_cases hxr : x = r
      · subst hxr
        have hmap : rest.map w' = rest.map w := List.map_congr_left (fun y hy =>
          h y (List.mem_cons_of_mem _ hy) (fun he => hx (he ▸ hy)))
        rw [hmap]
        omega
      · have hmem : r ∈ rest := (List.mem_cons.mp hr).resolve_left (fun he => hxr he.symm)
        have := ih hmem (fun y hy => h y (List.mem_cons_of_mem _ hy)) hrest
        rw [h x List.mem_cons_self hxr]
        omega

end Table

/-! ## Tables with an automatic key -/

/-- A table whose integer key is given out by a counter. -/
structure AutoTable (ρ : Type) [Keyed ρ Nat] extends Table ρ where
  seq : Nat
  bounded : ∀ r ∈ rows, key r ≤ seq

namespace AutoTable

variable {ρ : Type} [Keyed ρ Nat]

/-- The table without rows, no key given out. -/
def empty : AutoTable ρ := ⟨Table.empty, 0, by simp⟩

/-- `INSERT` under the next key; `mk k` is the row with key `k`. -/
def insert (t : AutoTable ρ) (mk : Nat → ρ)
    (hmk : ∀ k, key (mk k) = k := by intro _; rfl) : AutoTable ρ where
  rows := t.rows ++ [mk (t.seq + 1)]
  nodup := by
    have hfresh : ∀ r ∈ t.rows, key r ≠ t.seq + 1 := fun r hr => by have := t.bounded r hr; omega
    simpa [List.nodup_append, t.nodup, hmk] using hfresh
  seq := t.seq + 1
  bounded := by
    intro r hr
    rcases List.mem_append.mp hr with h | h
    · exact Nat.le_succ_of_le (t.bounded r h)
    · exact Nat.le_of_eq (by rw [List.mem_singleton.mp h, hmk])

/-- `UPDATE … SET f WHERE p`, for a change `f` that keeps the key. -/
def updateWhere (t : AutoTable ρ) (p : ρ → Bool) (f : ρ → ρ)
    (hf : ∀ r, key (f r) = key r := by intro _; rfl) : AutoTable ρ where
  toTable := t.toTable.updateWhere p f hf
  seq := t.seq
  bounded := by
    intro r hr
    obtain ⟨r₀, hr₀, rfl⟩ := (Table.mem_updateWhere hf).mp hr
    have := t.bounded r₀ hr₀
    by_cases h : p r₀ <;> simpa [h, hf] using this

/-- `DELETE … WHERE p`; the counter is kept. -/
def deleteWhere (t : AutoTable ρ) (p : ρ → Bool) : AutoTable ρ where
  toTable := t.toTable.deleteWhere p
  seq := t.seq
  bounded := fun r hr => t.bounded r (Table.mem_deleteWhere.mp hr).1

variable {t : AutoTable ρ} {mk : Nat → ρ} {p : ρ → Bool} {f : ρ → ρ} {r : ρ}

@[simp] theorem rows_empty : (empty : AutoTable ρ).rows = [] := rfl

@[simp] theorem mem_insert (hmk : ∀ k, key (mk k) = k) :
    r ∈ (t.insert mk hmk).rows ↔ r ∈ t.rows ∨ r = mk (t.seq + 1) := by
  simp [insert]

@[simp] theorem seq_insert {hmk : ∀ k, key (mk k) = k} :
    (t.insert mk hmk).seq = t.seq + 1 := rfl

@[simp] theorem mem_updateWhere (hf : ∀ r, key (f r) = key r) :
    r ∈ (t.updateWhere p f hf).rows ↔ ∃ r₀ ∈ t.rows, (if p r₀ then f r₀ else r₀) = r :=
  List.mem_map

@[simp] theorem seq_updateWhere {hf : ∀ r, key (f r) = key r} :
    (t.updateWhere p f hf).seq = t.seq := rfl

/-- An update that marks its rows (a soft delete): the unmarked rows after it are the unmarked rows
    it did not select. -/
theorem mem_updateWhere_unmarked {q : ρ → Prop} (hmark : ∀ r, ¬q (f r)) (hr : q r)
    (hf : ∀ r, key (f r) = key r) :
    r ∈ (t.updateWhere p f hf).rows ↔ r ∈ t.rows ∧ p r = false := by
  rw [mem_updateWhere hf]
  constructor
  · rintro ⟨r₀, hr₀, rfl⟩
    by_cases hp : p r₀ = true
    · rw [if_pos hp] at hr
      exact absurd hr (hmark r₀)
    · rw [if_neg hp]
      exact ⟨hr₀, by simpa using hp⟩
  · rintro ⟨hmem, hp⟩
    exact ⟨r, hmem, by simp [hp]⟩

@[simp] theorem mem_deleteWhere : r ∈ (t.deleteWhere p).rows ↔ r ∈ t.rows ∧ p r = false :=
  Table.mem_deleteWhere

/-- An update that selects no row changes nothing. -/
theorem updateWhere_none (h : ∀ r ∈ t.rows, p r = false)
    (hf : ∀ r, key (f r) = key r) : t.updateWhere p f hf = t := by
  have htable : t.toTable.updateWhere p f hf = t.toTable := Table.updateWhere_none h hf
  cases t
  simp only [updateWhere] at htable ⊢
  simp [htable]

theorem deleteWhere_none (h : ∀ r ∈ t.rows, p r = false) : t.deleteWhere p = t := by
  have htable : t.toTable.deleteWhere p = t.toTable :=
    Table.ext_rows (List.filter_eq_self.mpr (fun r hr => by simp [h r hr]))
  cases t
  simp only [deleteWhere] at htable ⊢
  simp [htable]

/-- The key the next insert gives out is not in use. -/
theorem fresh (t : AutoTable ρ) {r : ρ} (hr : r ∈ t.rows) : key r ≠ t.seq + 1 := by
  have := t.bounded r hr
  omega

theorem sum_insert {w : ρ → Int} {hmk : ∀ k, key (mk k) = k} :
    (t.insert mk hmk).sum w = t.sum w + w (mk (t.seq + 1)) := by
  simp [Table.sum, insert]

end AutoTable

/-! ## Ordering and aggregates -/

/-- `ORDER BY k ASC`; rows with equal `k` keep their order. -/
def orderBy {ρ : Type} (k : ρ → Int) (rows : List ρ) : List ρ :=
  rows.insertionSort (fun a b => k a ≤ k b)

/-- `ORDER BY k DESC`; rows with equal `k` keep their order. -/
def orderByDesc {ρ : Type} (k : ρ → Int) (rows : List ρ) : List ρ :=
  rows.insertionSort (fun a b => k b ≤ k a)

theorem perm_orderBy {ρ : Type} (k : ρ → Int) (rows : List ρ) : (orderBy k rows).Perm rows :=
  List.perm_insertionSort _ rows

theorem perm_orderByDesc {ρ : Type} (k : ρ → Int) (rows : List ρ) :
    (orderByDesc k rows).Perm rows :=
  List.perm_insertionSort _ rows

theorem sorted_orderBy {ρ : Type} (k : ρ → Int) (rows : List ρ) :
    (orderBy k rows).Pairwise (fun a b => k a ≤ k b) := by
  have : Std.Total (fun a b : ρ => k a ≤ k b) := ⟨fun a b => Int.le_total (k a) (k b)⟩
  have : IsTrans ρ (fun a b : ρ => k a ≤ k b) := ⟨fun _ _ _ hab hbc => Int.le_trans hab hbc⟩
  exact List.pairwise_insertionSort _ rows

/-- Ordering is stable, so the rows with one value keep their order. -/
theorem filter_orderBy {ρ : Type} (k : ρ → Int) (x : Int) (rows : List ρ) :
    (orderBy k rows).filter (fun r => k r == x) = rows.filter (fun r => k r == x) := by
  have hsorted : (rows.filter (fun r => k r == x)).Pairwise (fun a b => k a ≤ k b) := by
    refine List.pairwise_of_forall_mem_list (fun a ha b hb => ?_)
    have hka : k a = x := by simpa using (List.mem_filter.mp ha).2
    have hkb : k b = x := by simpa using (List.mem_filter.mp hb).2
    rw [hka, hkb]
  have : Std.Total (fun a b : ρ => k a ≤ k b) := ⟨fun a b => Int.le_total (k a) (k b)⟩
  have : IsTrans ρ (fun a b : ρ => k a ≤ k b) := ⟨fun _ _ _ hab hbc => Int.le_trans hab hbc⟩
  have hsub : (rows.filter (fun r => k r == x)).Sublist (orderBy k rows) :=
    List.sublist_insertionSort hsorted List.filter_sublist
  have hfilter := hsub.filter (fun r => k r == x)
  rw [List.filter_filter] at hfilter
  simp only [Bool.and_self] at hfilter
  exact (hfilter.eq_of_length ((perm_orderBy k rows).symm.filter _).length_eq).symm

@[simp] theorem mem_orderByDesc {ρ : Type} {k : ρ → Int} {rows : List ρ} {r : ρ} :
    r ∈ orderByDesc k rows ↔ r ∈ rows := (perm_orderByDesc k rows).mem_iff

theorem sorted_orderByDesc {ρ : Type} (k : ρ → Int) (rows : List ρ) :
    (orderByDesc k rows).Pairwise (fun a b => k b ≤ k a) := by
  have : Std.Total (fun a b : ρ => k b ≤ k a) := ⟨fun a b => Int.le_total (k b) (k a)⟩
  have : IsTrans ρ (fun a b : ρ => k b ≤ k a) := ⟨fun _ _ _ hab hbc => Int.le_trans hbc hab⟩
  exact List.pairwise_insertionSort _ rows

/-- The sum of an integer column; `none` when a partial sum does not fit 64 bits. -/
def checkedSum (xs : List Int) : Option Int :=
  xs.foldlM (fun acc x =>
    if -2 ^ 63 ≤ acc + x ∧ acc + x < 2 ^ 63 then some (acc + x) else none) 0

theorem checkedSum_some {xs : List Int} {s : Int} (h : checkedSum xs = some s) : s = xs.sum := by
  have hgo : ∀ (acc : Int), xs.foldlM (fun acc x =>
      if -2 ^ 63 ≤ acc + x ∧ acc + x < 2 ^ 63 then some (acc + x) else none) acc = some s →
      s = acc + xs.sum := by
    clear h
    induction xs with
    | nil => intro acc h; simp at h; simp [h]
    | cons x rest ih =>
        intro acc h
        rw [List.foldlM_cons] at h
        split at h
        · rw [List.sum_cons, ← Int.add_assoc]
          exact ih (acc + x) h
        · cases h
  simpa using hgo 0 h

theorem checkedSum_lt {xs : List Int} {s : Int} (h : checkedSum xs = some s) : s < 2 ^ 63 := by
  have hgo : ∀ (acc : Int), acc < 2 ^ 63 → xs.foldlM (fun acc x =>
      if -2 ^ 63 ≤ acc + x ∧ acc + x < 2 ^ 63 then some (acc + x) else none) acc = some s →
      s < 2 ^ 63 := by
    clear h
    induction xs with
    | nil => intro acc hacc h; cases h; exact hacc
    | cons x rest ih =>
        intro acc _ h
        rw [List.foldlM_cons] at h
        split at h
        · next hfits => exact ih (acc + x) hfits.2 h
        · cases h
  exact hgo 0 (by omega) h

/-- Over non-negative values no partial sum is above the whole. -/
theorem checkedSum_eq_some {xs : List Int} (hpos : ∀ x ∈ xs, 0 ≤ x) (hsum : xs.sum < 2 ^ 63) :
    checkedSum xs = some xs.sum := by
  have hgo : ∀ acc : Int, 0 ≤ acc → acc + xs.sum < 2 ^ 63 → xs.foldlM (fun acc x =>
      if -2 ^ 63 ≤ acc + x ∧ acc + x < 2 ^ 63 then some (acc + x) else none) acc =
      some (acc + xs.sum) := by
    clear hsum
    induction xs with
    | nil => intro acc _ _; simp
    | cons x rest ih =>
        intro acc hacc hlt
        have hx := hpos x List.mem_cons_self
        have hrest : 0 ≤ rest.sum :=
          List.sum_nonneg (fun y hy => hpos y (List.mem_cons_of_mem _ hy))
        rw [List.sum_cons] at hlt ⊢
        rw [List.foldlM_cons, if_pos ⟨by omega, by omega⟩, Int.add_comm x rest.sum]
        have := ih (fun y hy => hpos y (List.mem_cons_of_mem _ hy)) (acc + x) (by omega) (by omega)
        rw [show acc + (rest.sum + x) = acc + x + rest.sum by omega]
        exact this
  simpa [checkedSum] using hgo 0 (by omega) (by omega)

end Sql

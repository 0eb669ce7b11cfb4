import MinotariWallet.Lib.Table
import Mathlib.Tactic.MkIffOfInductiveProp

set_option autoImplicit false

/-! # Double-entry journals with reversals

A journal is a table of entries, each a credit and a debit of an owner for a cause. An entry is never
removed: to undo it, it is marked as reversed and a reversal entry with the opposite amounts is
added. `Paired` is the invariant of these two writers: the balance over all entries is the balance
over the active ones, and every reversed entry is undone by exactly one reversal. `Reconciled` says
that the active entries are exactly the postings that some other record calls for. -/

namespace Sql

/-- What an entry books: a credit and a debit of an owner, for a cause. -/
structure Posting (ω κ : Type) where
  owner : ω
  cause : κ
  credit : Int
  debit : Int
deriving DecidableEq

def Posting.net {ω κ : Type} (p : Posting ω κ) : Int := p.credit - p.debit

/-- A row that is a posting, or the reversal of one. -/
class Entry (ρ : Type) (ω κ : outParam Type) [Keyed ρ Nat] where
  posting : ρ → Posting ω κ
  isReversal : ρ → Bool
  isReversed : ρ → Bool
  reversalOf : ρ → Option Nat

namespace Journal

open Entry

variable {ρ ω κ : Type} [Keyed ρ Nat] [Entry ρ ω κ]

/-- Neither a reversal nor reversed. -/
def active (r : ρ) : Bool := !isReversal r && !isReversed r

/-- Credits less debits of `a`, over all entries. -/
def balance [DecidableEq ω] (t : AutoTable ρ) (a : ω) : Int :=
  t.sumWhere (fun r => (posting r).owner == a) (fun r => (posting r).net)

/-- The postings of the active entries. -/
def postings (t : AutoTable ρ) : List (Posting ω κ) := (t.select active).map posting

/-- Credits less debits of `a`, over the active entries. -/
def activeBalance [DecidableEq ω] (t : AutoTable ρ) (a : ω) : Int :=
  t.sumWhere (fun r => (posting r).owner == a && active r) (fun r => (posting r).net)

/-- `r` is the reversal of `o`: same owner, opposite amounts. -/
@[mk_iff]
structure Undoes (r o : ρ) : Prop where
  isReversal : Entry.isReversal r = true
  reversalOf : Entry.reversalOf r = some (key o)
  owner : (posting r).owner = (posting o).owner
  credit : (posting r).credit = (posting o).debit
  debit : (posting r).debit = (posting o).credit

/-- `f` marks an entry as reversed and changes nothing else. -/
structure Marks (f : ρ → ρ) : Prop where
  key : ∀ r, key (f r) = key r
  posting : ∀ r, Entry.posting (f r) = Entry.posting r
  isReversal : ∀ r, Entry.isReversal (f r) = Entry.isReversal r
  reversalOf : ∀ r, Entry.reversalOf (f r) = Entry.reversalOf r
  isReversed : ∀ r, Entry.isReversed (f r) = true

/-- Every reversed entry is undone by exactly one reversal, and no other entry by any. -/
structure Paired (t : AutoTable ρ) : Prop where
  reversed : ∀ o ∈ t.rows, isReversed o = true → ∃ r ∈ t.rows, Undoes r o
  target : ∀ r ∈ t.rows, ∀ o ∈ t.rows, isReversal r = true → reversalOf r = some (key o) →
    isReversed o = true
  bounded : ∀ r ∈ t.rows, isReversal r = true → ∀ k, reversalOf r = some k → k ≤ t.seq
  unique : ∀ r ∈ t.rows, ∀ r' ∈ t.rows, isReversal r = true → isReversal r' = true →
    ∀ k, reversalOf r = some k → reversalOf r' = some k → r = r'

/-- The active entries are the postings that `expected` calls for, one entry for each. -/
def Reconciled (t : AutoTable ρ) (expected : List (Posting ω κ)) : Prop :=
  (postings t).Perm expected

variable {t : AutoTable ρ} {m : Nat → ρ} {f : ρ → ρ} {o : ρ}

theorem active_eq_true {r : ρ} :
    active r = true ↔ isReversal r = false ∧ isReversed r = false := by
  simp [active]

/-- Marking entries does not change what undoes what. -/
theorem Marks.undoes_iff (hf : Marks f) (p : ρ → Bool) (r o : ρ) :
    Undoes (if p r then f r else r) (if p o then f o else o) ↔ Undoes r o := by
  by_cases hr : p r <;> by_cases ho : p o <;>
    simp [hr, ho, Journal.undoes_iff, hf.key, hf.posting, hf.isReversal, hf.reversalOf]

/-! ## Balances -/

section Balances

variable [DecidableEq ω]

theorem balance_insert (hmk : ∀ k, key (m k) = k) (a : ω) : balance (t.insert m hmk) a =
    balance t a +
      if (posting (m (t.seq + 1))).owner = a then (posting (m (t.seq + 1))).net else 0 := by
  unfold balance
  rw [Table.sumWhere_eq_sum, Table.sumWhere_eq_sum, AutoTable.sum_insert]
  simp only [beq_iff_eq]

theorem activeBalance_insert (hmk : ∀ k, key (m k) = k) (a : ω) :
    activeBalance (t.insert m hmk) a =
      activeBalance t a +
        if (posting (m (t.seq + 1))).owner = a ∧ active (m (t.seq + 1)) = true
          then (posting (m (t.seq + 1))).net else 0 := by
  unfold activeBalance
  rw [Table.sumWhere_eq_sum, Table.sumWhere_eq_sum, AutoTable.sum_insert]
  simp only [Bool.and_eq_true, beq_iff_eq]

/-- Marking entries changes no amount. -/
theorem balance_mark {p : ρ → Bool} (hf : Marks f) (a : ω) :
    balance (t.updateWhere p f hf.key) a = balance t a := by
  unfold balance
  rw [Table.sumWhere_eq_sum, Table.sumWhere_eq_sum]
  refine (Table.sum_updateWhere t.toTable p f hf.key _).trans (Table.sum_congr (fun r _ => ?_))
  simp [hf.posting]

/-- Marking an active entry takes it out of the active balance. -/
theorem activeBalance_mark (hf : Marks f) (ho : o ∈ t.rows) (hactive : active o = true) (a : ω) :
    activeBalance (t.updateWhere (fun r => key r == key o) f hf.key) a =
      activeBalance t a - if (posting o).owner = a then (posting o).net else 0 := by
  unfold activeBalance
  rw [Table.sumWhere_eq_sum, Table.sumWhere_eq_sum]
  refine (Table.sum_updateWhere t.toTable _ f hf.key _).trans ?_
  rw [t.sum_change ho (w := fun r =>
    if ((posting r).owner == a && active r) = true then (posting r).net else 0)]
  · simp only [beq_self_eq_true, if_true, hactive, Bool.and_true, beq_iff_eq]
    simp [active, hf.isReversed]
  · intro x hx hne
    have hkey : key x ≠ key o := fun h => hne (t.eq_of_key_eq hx ho h)
    simp [hkey]

/-- A sum over the active entries is one over the postings called for. -/
theorem Reconciled.sumWhere {expected : List (Posting ω κ)} (h : Reconciled t expected)
    (w : Posting ω κ → Int) (a : ω) :
    t.sumWhere (fun r => (posting r).owner == a && active r) (fun r => w (posting r)) =
      ((expected.filter (fun p => p.owner == a)).map w).sum := by
  rw [← ((h.filter (fun p => p.owner == a)).map w).sum_eq]
  unfold postings Table.sumWhere Table.select
  rw [List.filter_map, List.map_map, List.filter_filter]
  rfl

/-- The active balance is the balance of the postings called for. -/
theorem Reconciled.activeBalance {expected : List (Posting ω κ)} (h : Reconciled t expected)
    (a : ω) : activeBalance t a =
      ((expected.filter (fun p => p.owner == a)).map Posting.net).sum :=
  h.sumWhere Posting.net a

end Balances

/-! ## The two writers -/

/-- Adding an active entry. -/
theorem Paired.post (h : Paired t) (hmk : ∀ k, key (m k) = k)
    (hactive : ∀ k, active (m k) = true) : Paired (t.insert m hmk) := by
  have hnew : ∀ k, isReversal (m k) = false ∧ isReversed (m k) = false :=
    fun k => active_eq_true.mp (hactive k)
  refine ⟨?_, ?_, ?_, ?_⟩
  · intro o ho hrev
    rcases (AutoTable.mem_insert hmk).mp ho with ho | rfl
    · obtain ⟨r, hr, hund⟩ := h.reversed o ho hrev
      exact ⟨r, (AutoTable.mem_insert hmk).mpr (Or.inl hr), hund⟩
    · simp [(hnew _).2] at hrev
  · intro r hr o ho hrev hof
    rcases (AutoTable.mem_insert hmk).mp hr with hr | rfl
    · rcases (AutoTable.mem_insert hmk).mp ho with ho | rfl
      · exact h.target r hr o ho hrev hof
      · have hle := h.bounded r hr hrev _ hof
        rw [hmk] at hle
        omega
    · simp [(hnew _).1] at hrev
  · intro r hr hrev k hof
    rcases (AutoTable.mem_insert hmk).mp hr with hr | rfl
    · exact Nat.le_succ_of_le (h.bounded r hr hrev k hof)
    · simp [(hnew _).1] at hrev
  · intro r hr r' hr' hrev hrev' k hof hof'
    rcases (AutoTable.mem_insert hmk).mp hr with hr | rfl
    · rcases (AutoTable.mem_insert hmk).mp hr' with hr' | rfl
      · exact h.unique r hr r' hr' hrev hrev' k hof hof'
      · simp [(hnew _).1] at hrev'
    · simp [(hnew _).1] at hrev

/-- Undoing an active entry: mark it, and add its reversal. -/
theorem Paired.reverse (h : Paired t) (hf : Marks f) (ho : o ∈ t.rows)
    (hactive : active o = true) (hmk : ∀ k, key (m k) = k) (hund : ∀ k, Undoes (m k) o)
    (hnew : ∀ k, isReversed (m k) = false) :
    Paired ((t.updateWhere (fun r => key r == key o) f hf.key).insert m hmk) := by
  obtain ⟨-, hunmarked⟩ := active_eq_true.mp hactive
  have hof : ∀ k, reversalOf (m k) = some (key o) := fun k => (hund k).reversalOf
  -- every row is the new reversal, or an old row that may have been marked
  let mark : ρ → ρ := fun r => if key r == key o then f r else r
  have hmem : ∀ r, r ∈ ((t.updateWhere (fun r => key r == key o) f hf.key).insert m hmk).rows →
      (∃ r₀ ∈ t.rows, r = mark r₀) ∨ r = m (t.seq + 1) := by
    intro r hr
    refine ((AutoTable.mem_insert hmk).mp hr).imp_left (fun hold => ?_)
    obtain ⟨r₀, hr₀, heq⟩ := (AutoTable.mem_updateWhere hf.key).mp hold
    exact ⟨r₀, hr₀, heq.symm⟩
  have hkey : ∀ r, key (mark r) = key r := fun r => by
    by_cases hk : key r = key o <;> simp [mark, hk, hf.key]
  have hreversal : ∀ r, isReversal (mark r) = isReversal r := fun r => by
    by_cases hk : key r = key o <;> simp [mark, hk, hf.isReversal]
  have hreversalOf : ∀ r, reversalOf (mark r) = reversalOf r := fun r => by
    by_cases hk : key r = key o <;> simp [mark, hk, hf.reversalOf]
  have hreversed : ∀ r, isReversed (mark r) = true ↔ key r = key o ∨ isReversed r = true :=
    fun r => by by_cases hk : key r = key o <;> simp [mark, hk, hf.isReversed]
  -- no reversal refers to `o` yet
  have hnone : ∀ r ∈ t.rows, isReversal r = true → reversalOf r ≠ some (key o) :=
    fun r hr hrev he => by simp [h.target r hr o ho hrev he] at hunmarked
  refine ⟨?_, ?_, ?_, ?_⟩
  · intro x hx hrev
    rcases hmem x hx with ⟨x₀, hx₀, rfl⟩ | rfl
    · by_cases hxo : key x₀ = key o
      · obtain rfl := t.eq_of_key_eq hx₀ ho hxo
        refine ⟨_, (AutoTable.mem_insert hmk).mpr (Or.inr rfl), ?_⟩
        have hu := hund (t.seq + 1)
        rw [AutoTable.seq_updateWhere, Journal.undoes_iff]
        rw [Journal.undoes_iff] at hu
        simpa [mark, hf.key, hf.posting] using hu
      · obtain ⟨r, hr, hu⟩ := h.reversed x₀ hx₀ (((hreversed x₀).mp hrev).resolve_left hxo)
        exact ⟨mark r, (AutoTable.mem_insert hmk).mpr (Or.inl
          ((AutoTable.mem_updateWhere hf.key).mpr ⟨r, hr, rfl⟩)),
          (hf.undoes_iff (fun r => key r == key o) r x₀).mpr hu⟩
    · simp [hnew] at hrev
  · intro r hr x hx hrev hofx
    rcases hmem r hr with ⟨r₀, hr₀, rfl⟩ | rfl <;> rcases hmem x hx with ⟨x₀, hx₀, rfl⟩ | rfl
    · rw [hreversal] at hrev
      rw [hreversalOf, hkey] at hofx
      exact (hreversed x₀).mpr (Or.inr (h.target r₀ hr₀ x₀ hx₀ hrev hofx))
    · rw [hreversal] at hrev
      rw [hreversalOf, hmk] at hofx
      have hle := h.bounded r₀ hr₀ hrev _ hofx
      omega
    · rw [hof, hkey, Option.some.injEq] at hofx
      exact (hreversed x₀).mpr (Or.inl hofx.symm)
    · rw [hof, hmk, Option.some.injEq] at hofx
      exact absurd hofx (t.fresh ho)
  · intro r hr hrev k hofk
    rcases hmem r hr with ⟨r₀, hr₀, rfl⟩ | rfl
    · rw [hreversal] at hrev
      rw [hreversalOf] at hofk
      exact Nat.le_succ_of_le (h.bounded r₀ hr₀ hrev k hofk)
    · rw [hof, Option.some.injEq] at hofk
      exact Nat.le_succ_of_le (hofk ▸ t.bounded o ho)
  · intro r hr r' hr' hrev hrev' k hofk hofk'
    rcases hmem r hr with ⟨r₀, hr₀, rfl⟩ | rfl <;> rcases hmem r' hr' with ⟨r₀', hr₀', rfl⟩ | rfl
    · rw [hreversal] at hrev hrev'
      rw [hreversalOf] at hofk hofk'
      rw [h.unique r₀ hr₀ r₀' hr₀' hrev hrev' k hofk hofk']
    · rw [hreversal] at hrev
      rw [hreversalOf] at hofk
      exact absurd (hofk.trans (hofk'.symm.trans (hof _))) (hnone r₀ hr₀ hrev)
    · rw [hreversal] at hrev'
      rw [hreversalOf] at hofk'
      exact absurd (hofk'.trans (hofk.symm.trans (hof _))) (hnone r₀' hr₀' hrev')
    · rfl

/-- A reversed entry is the target of exactly one reversal, with the opposite amounts. -/
theorem Paired.existsUnique (h : Paired t) (ho : o ∈ t.rows) (hrev : isReversed o = true) :
    ∃ r ∈ t.rows, Undoes r o ∧
      ∀ r' ∈ t.rows, isReversal r' = true → reversalOf r' = some (key o) → r' = r := by
  obtain ⟨r, hr, hund⟩ := h.reversed o ho hrev
  exact ⟨r, hr, hund, fun r' hr' hrev' hof' =>
    h.unique r' hr' r hr hrev' hund.isReversal (key o) hof' hund.reversalOf⟩

/-- Posting keeps the balance over all entries equal to that over the active ones. -/
theorem balanced_post [DecidableEq ω] (h : ∀ a, balance t a = activeBalance t a)
    (hmk : ∀ k, key (m k) = k) (hactive : ∀ k, active (m k) = true) (a : ω) :
    balance (t.insert m hmk) a = activeBalance (t.insert m hmk) a := by
  rw [balance_insert, activeBalance_insert, h a]
  simp [hactive]

/-- So does undoing: the mark and the reversal cancel. -/
theorem balanced_reverse [DecidableEq ω] (h : ∀ a, balance t a = activeBalance t a) (hf : Marks f)
    (ho : o ∈ t.rows) (hactive : active o = true) (hmk : ∀ k, key (m k) = k)
    (hund : ∀ k, Undoes (m k) o) (a : ω) :
    balance ((t.updateWhere (fun r => key r == key o) f hf.key).insert m hmk) a =
      activeBalance ((t.updateWhere (fun r => key r == key o) f hf.key).insert m hmk) a := by
  have hu := hund (t.seq + 1)
  have hinactive : active (m (t.seq + 1)) = false := by simp [active, hu.isReversal]
  have hnet : (posting (m (t.seq + 1))).net = -(posting o).net := by
    simp only [Posting.net, hu.credit, hu.debit]
    omega
  rw [balance_insert, activeBalance_insert, balance_mark hf, activeBalance_mark hf ho hactive, h a,
    AutoTable.seq_updateWhere, hu.owner, hnet, hinactive]
  by_cases hoa : (posting o).owner = a
  · simp [hoa]
    omega
  · simp [hoa]

theorem Reconciled.post {expected : List (Posting ω κ)} (h : Reconciled t expected)
    (hmk : ∀ k, key (m k) = k) (hactive : ∀ k, active (m k) = true) :
    Reconciled (t.insert m hmk) (expected ++ [posting (m (t.seq + 1))]) := by
  have hrows : postings (t.insert m hmk) = postings t ++ [posting (m (t.seq + 1))] := by
    simp [postings, Table.select, AutoTable.insert, hactive]
  unfold Reconciled
  rw [hrows]
  exact h.append_right _

/-- Undoing an active entry takes its posting off the list. -/
theorem Reconciled.reverse {expected rest : List (Posting ω κ)} (h : Reconciled t expected)
    (hf : Marks f) (ho : o ∈ t.rows) (hactive : active o = true) (hmk : ∀ k, key (m k) = k)
    (hund : ∀ k, Undoes (m k) o) (hrest : expected.Perm (posting o :: rest)) :
    Reconciled ((t.updateWhere (fun r => key r == key o) f hf.key).insert m hmk) rest := by
  have hinactive : active (m (t.seq + 1)) = false := by simp [active, (hund _).isReversal]
  have hmarked : ∀ r, active (f r) = false := fun r => by simp [active, hf.isReversed]
  -- the active rows left are the active rows of before other than `o`
  have hrows : ((t.updateWhere (fun r => key r == key o) f hf.key).insert m hmk).select active =
      (t.select active).filter (fun r => !(key r == key o)) := by
    rw [← Table.select_updateWhere_unmarked hmarked hf.key]
    simp [Table.select, AutoTable.insert, AutoTable.updateWhere, hinactive]
  have hsplit : (t.select active).Perm
      (o :: (t.select active).filter (fun r => !(key r == key o))) :=
    Table.perm_cons_filter_key (t.nodup_select active) (Table.mem_select.mpr ⟨ho, hactive⟩)
  have hperm := (hsplit.map posting).symm.trans (h.trans hrest)
  unfold Reconciled postings
  rw [hrows]
  exact hperm.cons_inv

/-- A journal in order, whose active entries are the postings called for. -/
structure Sound [DecidableEq ω] (t : AutoTable ρ) (expected : List (Posting ω κ)) : Prop where
  paired : Paired t
  balanced : ∀ a, balance t a = activeBalance t a
  reconciled : Reconciled t expected
  nonneg : ∀ r ∈ t.rows, 0 ≤ (posting r).credit ∧ 0 ≤ (posting r).debit

section Sound

variable [DecidableEq ω] {expected rest : List (Posting ω κ)}

theorem Sound.perm (h : Sound t expected) (hperm : expected.Perm rest) : Sound t rest :=
  ⟨h.paired, h.balanced, h.reconciled.trans hperm, h.nonneg⟩

theorem Sound.post (h : Sound t expected) (hmk : ∀ k, key (m k) = k)
    (hactive : ∀ k, active (m k) = true)
    (hpos : ∀ k, 0 ≤ (posting (m k)).credit ∧ 0 ≤ (posting (m k)).debit) :
    Sound (t.insert m hmk) (expected ++ [posting (m (t.seq + 1))]) := by
  refine ⟨h.paired.post hmk hactive, balanced_post h.balanced hmk hactive,
    h.reconciled.post hmk hactive, fun r hr => ?_⟩
  rcases (AutoTable.mem_insert hmk).mp hr with hr | rfl
  · exact h.nonneg r hr
  · exact hpos _

theorem Sound.reverse (h : Sound t expected) (hf : Marks f) (ho : o ∈ t.rows)
    (hactive : active o = true) (hmk : ∀ k, key (m k) = k) (hund : ∀ k, Undoes (m k) o)
    (hnew : ∀ k, isReversed (m k) = false) (hrest : expected.Perm (posting o :: rest)) :
    Sound ((t.updateWhere (fun r => key r == key o) f hf.key).insert m hmk) rest := by
  refine ⟨h.paired.reverse hf ho hactive hmk hund hnew,
    balanced_reverse h.balanced hf ho hactive hmk hund,
    h.reconciled.reverse hf ho hactive hmk hund hrest, fun r hr => ?_⟩
  rcases (AutoTable.mem_insert hmk).mp hr with hr | rfl
  · obtain ⟨r₀, hr₀, rfl⟩ := (AutoTable.mem_updateWhere hf.key).mp hr
    by_cases hk : (key r₀ == key o) = true
    · simpa [hk, hf.posting] using h.nonneg r₀ hr₀
    · simpa [hk] using h.nonneg r₀ hr₀
  · rw [(hund _).credit, (hund _).debit]
    exact (h.nonneg o ho).symm

/-- Every posting called for is that of an active entry. -/
theorem Sound.mem_expected (h : Sound t expected) {p : Posting ω κ} :
    p ∈ expected ↔ ∃ r ∈ t.rows, active r = true ∧ posting r = p := by
  rw [← h.reconciled.mem_iff]
  simp [postings, and_assoc]

end Sound

end Journal

end Sql

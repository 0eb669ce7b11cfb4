import Mathlib.Data.List.Sort

set_option autoImplicit false

/-! # Pages of an ordered query

`ORDER BY` says nothing about rows that tie, so each query may have them in another order. The pages
of one query each are a partition of the rows if and only if no page ends between rows that tie. -/

namespace Sql

variable {ρ κ : Type} [LinearOrder κ] {key : ρ → κ} {rows order order' : List ρ} {n size : Nat}

/-- The rows by descending keys. -/
structure Ordered (key : ρ → κ) (rows order : List ρ) : Prop where
  perm : order.Perm rows
  sorted : order.Pairwise (fun a b => key b ≤ key a)

/-- Rows that tie are on both sides of position `n`. -/
def SplitsTie (key : ρ → κ) (rows : List ρ) (n : Nat) : Prop :=
  ∃ x ∈ rows, rows.countP (fun r => key x < key r) < n ∧ n < rows.countP (fun r => key x ≤ key r)

instance (key : ρ → κ) (rows : List ρ) (n : Nat) : Decidable (SplitsTie key rows n) := by
  unfold SplitsTie
  infer_instance

/-- `LIMIT size OFFSET k * size`. -/
def page (size k : Nat) (order : List ρ) : List ρ :=
  (order.drop (k * size)).take size

/-- `LIMIT limit OFFSET offset` of SQLite: a negative limit is none, a negative offset is 0. -/
def limitOffset (limit offset : Int) (order : List ρ) : List ρ :=
  if limit < 0 then order.drop offset.toNat else (order.drop offset.toNat).take limit.toNat

/-- However each query orders the rows, the pages that cover them have every row once. -/
def Partitions (key : ρ → κ) (rows : List ρ) (size : Nat) : Prop :=
  ∀ orders : Nat → List ρ, (∀ k, Ordered key rows (orders k)) → ∀ n, rows.length ≤ n * size →
    ((List.range n).flatMap (fun k => page size k (orders k))).Perm rows

theorem exists_ordered (key : ρ → κ) (rows : List ρ) : ∃ order, Ordered key rows order := by
  have : Std.Total (fun a b : ρ => key b ≤ key a) := ⟨fun a b => le_total (key b) (key a)⟩
  have : IsTrans ρ (fun a b : ρ => key b ≤ key a) := ⟨fun _ _ _ hab hbc => hbc.trans hab⟩
  exact ⟨rows.insertionSort (fun a b => key b ≤ key a), List.perm_insertionSort _ rows,
    List.pairwise_insertionSort _ rows⟩

/-! ## Positions of an order -/

section Positions

variable {R : ρ → ρ → Prop} {p : ρ → Bool}

/-- What holds of a row and then of all rows before it holds of the front. -/
theorem take_countP (hp : ∀ a b, R a b → p b → p a) {l : List ρ} (hl : l.Pairwise R) :
    l.take (l.countP p) = l.filter p := by
  induction l with
  | nil => simp
  | cons a l ih =>
      obtain ⟨ha, hl⟩ := List.pairwise_cons.mp hl
      by_cases hpa : p a = true
      · simp [hpa, ih hl]
      · have hnone : ∀ b ∈ l, ¬p b = true := fun b hb hpb => hpa (hp a b (ha b hb) hpb)
        have hcount : l.countP p = 0 := List.countP_eq_zero.mpr hnone
        simp only [List.countP_cons, hcount, hpa, Bool.false_eq_true, if_false, List.take_zero,
          Nat.add_zero, List.filter_cons]
        exact (List.filter_eq_nil_iff.mpr hnone).symm

theorem lt_countP_iff (hp : ∀ a b, R a b → p b → p a) {l : List ρ} (hl : l.Pairwise R) {i : Nat}
    (hi : i < l.length) : i < l.countP p ↔ p l[i] = true := by
  induction l generalizing i with
  | nil => cases hi
  | cons a l ih =>
      obtain ⟨ha, hl⟩ := List.pairwise_cons.mp hl
      by_cases hpa : p a = true
      · cases i with
        | zero => simp [hpa]
        | succ i => simpa [hpa] using ih hl (Nat.lt_of_succ_lt_succ hi)
      · have hnone : ∀ b ∈ l, ¬p b = true := fun b hb hpb => hpa (hp a b (ha b hb) hpb)
        have hcount : l.countP p = 0 := List.countP_eq_zero.mpr hnone
        cases i with
        | zero => simp [hpa, hcount]
        | succ i =>
            simp only [List.countP_cons, hcount, hpa, List.getElem_cons_succ]
            simp [hnone _ (List.getElem_mem (Nat.lt_of_succ_lt_succ hi))]

end Positions

namespace Ordered

theorem length_eq (h : Ordered key rows order) : order.length = rows.length := h.perm.length_eq

theorem lt_countP (h : Ordered key rows order) (c : κ) {i : Nat} (hi : i < order.length) :
    i < rows.countP (fun r => c < key r) ↔ c < key order[i] := by
  rw [← h.perm.countP_eq, lt_countP_iff (fun a b hab hb => ?_) h.sorted hi, decide_eq_true_eq]
  exact decide_eq_true ((of_decide_eq_true hb).trans_le hab)

theorem le_countP (h : Ordered key rows order) (c : κ) {i : Nat} (hi : i < order.length) :
    i < rows.countP (fun r => c ≤ key r) ↔ c ≤ key order[i] := by
  rw [← h.perm.countP_eq, lt_countP_iff (fun a b hab hb => ?_) h.sorted hi, decide_eq_true_eq]
  exact decide_eq_true ((of_decide_eq_true hb).trans hab)

/-- The rows above a key come first. -/
theorem take_above (h : Ordered key rows order) (c : κ) :
    order.take (rows.countP (fun r => c < key r)) = order.filter (fun r => c < key r) := by
  rw [← h.perm.countP_eq]
  refine take_countP (fun a b hab hb => ?_) h.sorted
  exact decide_eq_true ((of_decide_eq_true hb).trans_le hab)

/-- Where no rows tie, all orders have the same rows in front. -/
theorem take_perm (h : Ordered key rows order) (h' : Ordered key rows order')
    (hsplit : ¬SplitsTie key rows n) : (order.take n).Perm (order'.take n) := by
  rcases Nat.lt_or_ge n order.length with hn | hn
  · have habove : ¬n < rows.countP (fun r => key order[n] < key r) := by
      rw [h.lt_countP _ hn]
      exact lt_irrefl _
    have hupto : n < rows.countP (fun r => key order[n] ≤ key r) := (h.le_countP _ hn).mpr le_rfl
    have hcount : rows.countP (fun r => key order[n] < key r) = n := by
      by_contra hne
      exact hsplit ⟨order[n], h.perm.mem_iff.mp (List.getElem_mem hn), by omega, hupto⟩
    have hfront := h.take_above (key order[n])
    have hfront' := h'.take_above (key order[n])
    rw [hcount] at hfront hfront'
    rw [hfront, hfront']
    exact (h.perm.trans h'.perm.symm).filter _
  · rw [List.take_of_length_le hn,
      List.take_of_length_le (h'.length_eq.trans h.length_eq.symm ▸ hn)]
    exact h.perm.trans h'.perm.symm

/-- The rows that tie at a position are next to each other. -/
theorem of_splitsTie (h : Ordered key rows order) (hsplit : SplitsTie key rows n) :
    ∃ before z y after, order = before ++ z :: y :: after ∧ before.length + 1 = n ∧
      key z = key y := by
  obtain ⟨x, -, habove, hupto⟩ := hsplit
  have hn : n < order.length := by
    rw [h.length_eq]
    exact hupto.trans_le List.countP_le_length
  have hkey : ∀ i (hi : i < order.length), rows.countP (fun r => key x < key r) ≤ i → i ≤ n →
      key order[i] = key x := by
    intro i hi hlow hhigh
    refine le_antisymm (not_lt.mp (fun hlt => ?_)) ((h.le_countP _ hi).mp (hhigh.trans_lt hupto))
    exact Nat.not_lt.mpr hlow ((h.lt_countP _ hi).mpr hlt)
  obtain ⟨m, rfl⟩ : ∃ m, n = m + 1 := ⟨n - 1, by omega⟩
  refine ⟨order.take m, order[m], order[m + 1], order.drop (m + 2), ?_, ?_, ?_⟩
  · rw [← List.drop_eq_getElem_cons hn, ← List.drop_eq_getElem_cons (by omega),
      List.take_append_drop]
  · rw [List.length_take, Nat.min_eq_left (by omega)]
  · rw [hkey m (by omega) (by omega) (by omega), hkey (m + 1) hn (by omega) (by omega)]

/-- Rows that tie may be swapped. -/
theorem swap {before after : List ρ} {z y : ρ} (h : Ordered key rows (before ++ z :: y :: after))
    (heq : key z = key y) : Ordered key rows (before ++ y :: z :: after) where
  perm := ((List.Perm.swap z y after).append_left before).trans h.perm
  sorted := by
    have hsorted := h.sorted
    simp only [List.pairwise_append, List.pairwise_cons, List.mem_cons] at hsorted ⊢
    obtain ⟨hbefore, ⟨hz, hy, hafter⟩, hcross⟩ := hsorted
    refine ⟨hbefore, ⟨?_, fun a ha => hz a (Or.inr ha), hafter⟩, fun a ha b hb => ?_⟩
    · rintro a (rfl | ha)
      · exact heq.le
      · exact hy a ha
    · exact hcross a ha b (or_left_comm.mp hb)

end Ordered

/-! ## Pages -/

theorem flatMap_page (order : List ρ) (n : Nat) :
    (List.range n).flatMap (fun k => page size k order) = order.take (n * size) := by
  induction n with
  | zero => simp
  | succ n ih =>
      rw [List.range_succ, List.flatMap_append, ih, Nat.succ_mul, List.take_add]
      simp [page]

theorem page_drop (k j : Nat) (order : List ρ) :
    page size (k + j) order = page size j (order.drop (k * size)) := by
  rw [page, page, List.drop_drop, Nat.add_mul]

theorem limitOffset_page (size k : Nat) (order : List ρ) :
    limitOffset size (k * size) order = page size k order := by
  rw [limitOffset, if_neg (by omega), ← Int.natCast_mul, Int.toNat_natCast, Int.toNat_natCast, page]

/-- A bound on the limit is a bound on the rows, unless the limit is negative. -/
theorem length_limitOffset_le_iff {limit offset : Int} {bound : Nat} (hlimit : limit ≤ bound)
    (order : List ρ) : (limitOffset limit offset order).length ≤ bound ↔
      0 ≤ limit ∨ order.length ≤ bound + offset.toNat := by
  unfold limitOffset
  split
  · rw [List.length_drop]
    omega
  · rw [List.length_take, List.length_drop]
    omega

/-- The pages from `k` on are of another order. -/
theorem flatMap_page_switch (order order' : List ρ) (k m : Nat) :
    (List.range (k + m)).flatMap (fun j => page size j (if j < k then order else order')) =
      order.take (k * size) ++ (order'.drop (k * size)).take (m * size) := by
  rw [List.range_add, List.flatMap_append, List.flatMap_map]
  congr 1
  · rw [← flatMap_page]
    refine List.flatMap_congr (fun j hj => ?_)
    rw [if_pos (List.mem_range.mp hj)]
  · rw [← flatMap_page]
    refine List.flatMap_congr (fun j _ => ?_)
    rw [if_neg (by omega), page_drop]

/-- Pages that end where no rows tie have the rows in front. -/
theorem flatMap_page_perm {orders : Nat → List ρ} (horders : ∀ k, Ordered key rows (orders k))
    (hsplit : ∀ k, ¬SplitsTie key rows (k * size)) (h : Ordered key rows order) (n : Nat) :
    ((List.range n).flatMap (fun k => page size k (orders k))).Perm (order.take (n * size)) := by
  induction n with
  | zero => simp
  | succ n ih =>
      rw [List.range_succ, List.flatMap_append, List.flatMap_singleton]
      have hfront := ih.trans (h.take_perm (horders n) (hsplit n))
      refine (hfront.append_right _).trans ?_
      rw [page, ← List.take_add, ← Nat.succ_mul]
      exact (horders n).take_perm h (hsplit (n + 1))

/-- The pages are a partition if and only if none ends between rows that tie. -/
theorem partitions_iff (hrows : rows.Nodup) (hsize : 0 < size) :
    Partitions key rows size ↔ ∀ k, ¬SplitsTie key rows (k * size) := by
  constructor
  · intro hall k hsplit
    obtain ⟨order, h⟩ := exists_ordered key rows
    obtain ⟨before, z, y, after, rfl, hlength, heq⟩ := h.of_splitsTie hsplit
    have hlengths := h.length_eq
    simp only [List.length_append, List.length_cons] at hlengths
    have hle : k ≤ k * size := Nat.le_mul_of_pos_right k hsize
    obtain ⟨m, hm⟩ : ∃ m, rows.length = k + (m + 1) := ⟨rows.length - k - 1, by omega⟩
    -- the pages from `k` on come from queries that have the two rows the other way round
    have hpages := hall (fun j => if j < k then before ++ z :: y :: after
      else before ++ y :: z :: after) ?_ (k + (m + 1)) ?_
    · have hfront : z ∈ (before ++ z :: y :: after).take (k * size) := by
        rw [← hlength, List.take_length_add_append]
        simp
      have hback : z ∈ ((before ++ y :: z :: after).drop (k * size)).take ((m + 1) * size) := by
        have hpos : 0 < (m + 1) * size := Nat.mul_pos m.succ_pos hsize
        rw [← hlength, List.drop_length_add_append, List.drop_succ_cons, List.drop_zero,
          List.take_cons hpos]
        exact List.mem_cons_self
      rw [flatMap_page_switch] at hpages
      have hnodup := hpages.nodup_iff.mpr hrows
      exact (List.nodup_append.mp hnodup).2.2 z hfront z hback rfl
    · intro j
      split
      · exact h
      · exact h.swap heq
    · rw [← hm]
      exact Nat.le_mul_of_pos_right _ hsize
  · intro hsplit orders horders n hn
    obtain ⟨order, h⟩ := exists_ordered key rows
    refine (flatMap_page_perm horders hsplit h n).trans ?_
    rw [List.take_of_length_le (h.length_eq ▸ hn)]
    exact h.perm

/-- Rows with distinct keys do not tie. -/
theorem not_splitsTie_of_nodup (hkeys : (rows.map key).Nodup) (n : Nat) :
    ¬SplitsTie key rows n := by
  intro hsplit
  obtain ⟨order, h⟩ := exists_ordered key rows
  obtain ⟨before, z, y, after, rfl, -, heq⟩ := h.of_splitsTie hsplit
  have hnodup := (h.perm.map key).nodup_iff.mpr hkeys
  simp [heq, List.nodup_append] at hnodup

end Sql

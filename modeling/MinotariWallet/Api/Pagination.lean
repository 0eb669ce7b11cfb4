import Mathlib.Data.Prod.Lex
import MinotariWallet.Lib.Pages
import MinotariWallet.Ledger.Machine
import MinotariWallet.Displayed.Payrefs

set_option autoImplicit false

/-! # `api/accounts/transactions.rs`: the pages of the transactions of an account

A query orders the rows of the account, and the endpoint converts each row it returns. Rows that tie
come in any order, which may be another one for each query. -/

namespace MinotariWallet

open Sql

def defaultPageLimit : Int := 50

def maxPageLimit : Int := 1000

structure PaginationParams where
  limit : Option Int
  offset : Option Int

namespace PaginationParams

/-- The limit of the query. -/
def pageLimit (pagination : PaginationParams) : Int :=
  min (pagination.limit.getD defaultPageLimit) maxPageLimit

/-- The offset of the query. -/
def pageOffset (pagination : PaginationParams) : Int :=
  max (pagination.offset.getD 0) 0

/-- Page `k` of this size. -/
def ofPage (size k : Nat) : PaginationParams := ⟨some size, some (k * size)⟩

end PaginationParams

section Pages

variable {ρ κ : Type} [LinearOrder κ]

/-- The rows that an endpoint may return. -/
def MayAnswer (key : ρ → κ) (history : List ρ) (pagination : PaginationParams) (page : List ρ) :
    Prop :=
  ∃ order, Ordered key history order ∧
    page = limitOffset pagination.pageLimit pagination.pageOffset order

/-- Whatever the endpoint returns for each page, the pages that cover the history have every row
    once. -/
def PagesPartition (key : ρ → κ) (history : List ρ) (size : Nat) : Prop :=
  ∀ pages : Nat → List ρ, (∀ k, MayAnswer key history (.ofPage size k) (pages k)) →
    ∀ n, history.length ≤ n * size → ((List.range n).flatMap pages).Perm history

/-- The query has no more rows than a page may have, or the limit of the request is no negative
    number. -/
def WithinPage (pagination : PaginationParams) (history : List ρ) : Prop :=
  0 ≤ pagination.limit.getD defaultPageLimit ∨
    history.length ≤ 1000 + (pagination.offset.getD 0).toNat

variable {key : ρ → κ} {history : List ρ}

theorem answers_bounded_iff (key : ρ → κ) (pagination : PaginationParams) (history : List ρ) :
    (∀ page, MayAnswer key history pagination page → page.length ≤ 1000) ↔
      WithinPage pagination history := by
  have hoffset : pagination.pageOffset.toNat = (pagination.offset.getD 0).toNat := by
    unfold PaginationParams.pageOffset
    omega
  have hlimit : pagination.pageLimit ≤ (1000 : Nat) := min_le_right _ _
  have hsign : 0 ≤ pagination.pageLimit ↔ 0 ≤ pagination.limit.getD defaultPageLimit := by
    simp [PaginationParams.pageLimit, maxPageLimit]
  have hlength : ∀ order, Ordered key history order →
      ((limitOffset pagination.pageLimit pagination.pageOffset order).length ≤ 1000 ↔
        WithinPage pagination history) := by
    intro order horder
    rw [length_limitOffset_le_iff hlimit, horder.length_eq, hoffset, hsign]
    rfl
  constructor
  · intro hall
    obtain ⟨order, horder⟩ := exists_ordered key history
    exact (hlength order horder).mp (hall _ ⟨order, horder, rfl⟩)
  · rintro hwithin _ ⟨order, horder, rfl⟩
    exact (hlength order horder).mpr hwithin

/-- A page of a size within the bounds is a page of its order. -/
theorem answers_ofPage {size : Nat} (h₁ : 1 ≤ size) (h₂ : size ≤ 1000) (k : Nat) (answer : List ρ) :
    MayAnswer key history (.ofPage size k) answer ↔
      ∃ order, Ordered key history order ∧ answer = page size k order := by
  have hlimit : (PaginationParams.ofPage size k).pageLimit = size := by
    simp only [PaginationParams.pageLimit, PaginationParams.ofPage, Option.getD_some, maxPageLimit]
    omega
  have hoffset : (PaginationParams.ofPage size k).pageOffset = k * size := by
    simp only [PaginationParams.pageOffset, PaginationParams.ofPage, Option.getD_some]
    exact max_eq_left (Int.mul_nonneg (Int.natCast_nonneg k) (Int.natCast_nonneg size))
  simp only [MayAnswer, hlimit, hoffset, limitOffset_page]

theorem pagesPartition_iff {size : Nat} (h₁ : 1 ≤ size) (h₂ : size ≤ 1000)
    (hhistory : history.Nodup) :
    PagesPartition key history size ↔ ∀ k, ¬SplitsTie key history (k * size) := by
  rw [← partitions_iff hhistory h₁]
  simp only [PagesPartition, answers_ofPage h₁ h₂]
  constructor
  · intro hall orders horders
    exact hall _ (fun k => ⟨orders k, horders k, rfl⟩)
  · intro hall pages hpages
    choose orders horders using hpages
    obtain rfl : pages = fun k => page size k (orders k) := funext (fun k => (horders k).2)
    exact hall orders (fun k => (horders k).1)

end Pages

/-! ## The two endpoints -/

/-- `ORDER BY created_at DESC, id DESC`. -/
def CompletedTransactionRow.position (c : CompletedTransactionRow) : Timestamp ×ₗ Int :=
  toLex (c.createdAt, asI64 c.id)

/-- `ORDER BY block_height DESC, timestamp DESC`. -/
def DisplayedTransactionRow.position (d : DisplayedTransactionRow) : Int ×ₗ Timestamp :=
  toLex (d.blockHeight, d.timestamp)

/-- The completed transactions of the account. -/
def Db.completedHistory (db : Db) (accountId : AccountId) : List CompletedTransactionRow :=
  db.completedTransactions.select (fun c => c.accountId == accountId)

/-- The displayed transactions of the account. -/
def Db.displayedHistory (db : Db) (accountId : AccountId) : List DisplayedTransactionRow :=
  db.displayedTransactions.select (fun d => d.accountId == accountId)

/-- What `api_get_completed_transactions` may return, by way of
    `get_completed_transactions_by_account`. -/
def ApiGetCompletedTransactions (db : Db) (accountId : AccountId) :
    PaginationParams → List CompletedTransactionRow → Prop :=
  MayAnswer CompletedTransactionRow.position (db.completedHistory accountId)

/-- What `api_get_displayed_transactions` may return, by way of
    `get_displayed_transactions_paginated`. -/
def ApiGetDisplayedTransactions (db : Db) (accountId : AccountId) :
    PaginationParams → List DisplayedTransactionRow → Prop :=
  MayAnswer DisplayedTransactionRow.position (db.displayedHistory accountId)

/-- The request gets at most 1000 rows, and the pages of the size are a partition of the history. -/
structure Paginates (db : Db) (accountId : AccountId) (pagination : PaginationParams)
    (pageSize : Nat) : Prop where
  completedBounded : ∀ page, ApiGetCompletedTransactions db accountId pagination page →
    page.length ≤ 1000
  displayedBounded : ∀ page, ApiGetDisplayedTransactions db accountId pagination page →
    page.length ≤ 1000
  completedPartition : PagesPartition CompletedTransactionRow.position
    (db.completedHistory accountId) pageSize
  displayedPartition : PagesPartition DisplayedTransactionRow.position
    (db.displayedHistory accountId) pageSize

/-- Ids of 64 bits are kept apart by their column. -/
theorem asI64_injOn {x y : Nat} (hx : x < 2 ^ 64) (hy : y < 2 ^ 64) (h : asI64 x = asI64 y) :
    x = y := by
  unfold asI64 at h
  rw [Nat.mod_eq_of_lt hx, Nat.mod_eq_of_lt hy] at h
  split at h <;> split at h <;> omega

/-- No two completed transactions tie. -/
theorem completedHistory_nodup (db : Db) (accountId : AccountId)
    (hids : ∀ c ∈ db.completedTransactions.rows, c.id < 2 ^ 64) :
    ((db.completedHistory accountId).map CompletedTransactionRow.position).Nodup := by
  refine List.Nodup.map_on (fun c hc c' hc' heq => ?_)
    (List.Nodup.of_map _ (db.completedTransactions.nodup_select _))
  have hmem := (Table.mem_select.mp hc).1
  have hmem' := (Table.mem_select.mp hc').1
  have hid := asI64_injOn (hids c hmem) (hids c' hmem') (congrArg (fun k => (ofLex k).2) heq)
  exact db.completedTransactions.eq_of_key_eq hmem hmem' hid

theorem displayedHistory_nodup (db : Db) (accountId : AccountId) :
    (db.displayedHistory accountId).Nodup :=
  List.Nodup.of_map _ (db.displayedTransactions.nodup_select _)

/-- The pages are bounded and a partition exactly if the limit is no negative number, or no page can
    be longer, and no page of displayed transactions ends between two that share their height and
    their time. -/
theorem paginates_iff (db : Db) (accountId : AccountId) (pagination : PaginationParams)
    (pageSize : Nat) (h₁ : 1 ≤ pageSize) (h₂ : pageSize ≤ 1000)
    (hids : ∀ c ∈ db.completedTransactions.rows, c.id < 2 ^ 64) :
    Paginates db accountId pagination pageSize ↔
      WithinPage pagination (db.completedHistory accountId) ∧
        WithinPage pagination (db.displayedHistory accountId) ∧
        ∀ k, ¬SplitsTie DisplayedTransactionRow.position (db.displayedHistory accountId)
          (k * pageSize) := by
  have hcompleted := answers_bounded_iff CompletedTransactionRow.position pagination
    (db.completedHistory accountId)
  have hdisplayed := answers_bounded_iff DisplayedTransactionRow.position pagination
    (db.displayedHistory accountId)
  have hpositions := completedHistory_nodup db accountId hids
  have hties := @not_splitsTie_of_nodup _ _ _ _ _ hpositions
  have hpages : PagesPartition DisplayedTransactionRow.position (db.displayedHistory accountId)
      pageSize ↔ _ := pagesPartition_iff h₁ h₂ (displayedHistory_nodup db accountId)
  constructor
  · intro h
    exact ⟨hcompleted.mp h.completedBounded, hdisplayed.mp h.displayedBounded,
      hpages.mp h.displayedPartition⟩
  · rintro ⟨hc, hd, hsplits⟩
    refine ⟨hcompleted.mpr hc, hdisplayed.mpr hd, ?_, hpages.mpr hsplits⟩
    exact (pagesPartition_iff h₁ h₂ (List.Nodup.of_map _ hpositions)).mpr (fun k => hties _)

/-- Copies of a displayed transaction under the ids below `n`. -/
def DisplayedTransactionRow.copies (d : DisplayedTransactionRow) (n : Nat) :
    Table DisplayedTransactionRow where
  rows := (List.range n).map (fun id => { d with id })
  nodup := by
    rw [List.map_map]
    exact List.Nodup.map (fun _ _ h => h) List.nodup_range

/-- A request with the limit -1 gets every row of a history of more than a thousand. -/
theorem displayed_unbounded {d : DisplayedTransactionRow} {n : Nat} (hn : 1000 < n) :
    ¬∀ page, ApiGetDisplayedTransactions { Db.empty with displayedTransactions := d.copies n }
      d.accountId ⟨some (-1), none⟩ page → page.length ≤ 1000 := by
  have hhistory : Db.displayedHistory { Db.empty with displayedTransactions := d.copies n }
      d.accountId = (d.copies n).rows := by
    refine List.filter_eq_self.mpr (fun row hrow => ?_)
    obtain ⟨id, -, rfl⟩ := List.mem_map.mp hrow
    exact beq_self_eq_true d.accountId
  have hlength : (d.copies n).rows.length = n := by
    simp [DisplayedTransactionRow.copies]
  unfold ApiGetDisplayedTransactions
  rw [answers_bounded_iff, hhistory, WithinPage, hlength, not_or]
  exact ⟨by decide, not_le.mpr hn⟩

/-- Account 1 receives an output in each of two blocks. -/
def receivedTwice : List LedgerAction :=
  [.processBlock oneAccount fundingBlock 1 0,
    .processBlock oneAccount ⟨12, 112, [(501, { outputHash := 501, value := 90 }, 0)], [], 1240⟩
      1 0]

/-- Account 1 receives two outputs in one block. -/
def receivedTogether : List LedgerAction :=
  [.processBlock oneAccount ⟨10, 110, [(500, { outputHash := 500, value := 100 }, 0),
    (501, { outputHash := 501, value := 90 }, 0)], [], 1000⟩ 1 0]

def receivedTwiceDb : Db :=
  (Transition.run (ledgerStep (plainEnv.toExternals.scanEnv .stable)) .empty receivedTwice).get
    (by decide +kernel)

/-- One transaction a page. -/
theorem receivedTwice_paginates : Paginates receivedTwiceDb 1 ⟨some 1, some 1⟩ 1 :=
  (paginates_iff receivedTwiceDb 1 ⟨some 1, some 1⟩ 1 (by decide) (by decide)
    (by decide +kernel)).mpr ⟨Or.inl (by decide), Or.inl (by decide),
      fun _ => not_splitsTie_of_nodup (by decide +kernel) _⟩

/-- Two transactions of one block tie, and a page of one transaction ends between them; and of more
    than a thousand transactions the limit -1 gives all in one page. -/
theorem receivedTogether_not_paginates :
    (¬∀ (env : ScanEnv) (actions : List LedgerAction) (db : Db),
      Transition.run (ledgerStep env) .empty actions = some db →
      ∀ (accountId : AccountId) (pagination : PaginationParams) (pageSize : Nat),
        1 ≤ pageSize → pageSize ≤ 1000 → Paginates db accountId pagination pageSize) ∧
    ∃ d : DisplayedTransactionRow,
      ¬Paginates { Db.empty with displayedTransactions := d.copies 1005 } d.accountId
        ⟨some (-1), none⟩ 50 := by
  constructor
  rotate_left
  · obtain ⟨d, -⟩ : ∃ d, d ∈ receivedTwiceDb.displayedTransactions.rows :=
      List.exists_mem_of_ne_nil _ (by decide +kernel)
    exact ⟨d, fun h => displayed_unbounded (by decide) h.displayedBounded⟩
  intro hall
  obtain ⟨db, hrun, hsplit⟩ : ∃ db, Transition.run (ledgerStep
      (plainEnv.toExternals.scanEnv .stable)) .empty receivedTogether = some db ∧
      decide (SplitsTie DisplayedTransactionRow.position (db.displayedHistory 1) (1 * 1)) = true :=
    Transition.exists_run_of_any (by decide +kernel)
  have h := hall _ _ db hrun 1 ⟨none, none⟩ 1 (by decide) (by decide)
  exact (pagesPartition_iff (by decide) (by decide) (displayedHistory_nodup db 1)).mp
    h.displayedPartition 1 (of_decide_eq_true hsplit)

end MinotariWallet

import MinotariWallet.Model.Schema

set_option autoImplicit false

/-! # `db/balance_changes.rs`

A function that is one SQL statement is a function of the database, in the namespace `Db`; a
function that runs several is a program in `DbM`. -/

namespace MinotariWallet

open Sql

/-- The row that `insert_balance_change` writes. -/
def BalanceChange.toRow (change : BalanceChange) (id : Id) : BalanceChangeRow where
  id := id
  accountId := change.accountId
  causedByOutputId := change.causedByOutputId
  causedByInputId := change.causedByInputId
  description := change.description
  balanceCredit := asI64 change.balanceCredit
  balanceDebit := asI64 change.balanceDebit
  effectiveDate := change.effectiveDate
  effectiveHeight := asI64 change.effectiveHeight
  claimedRecipientAddress := change.claimedRecipientAddress
  claimedSenderAddress := change.claimedSenderAddress
  memoParsed := change.memoParsed
  memoHex := change.memoHex
  claimedFee := change.claimedFee.map asI64
  claimedAmount := change.claimedAmount.map asI64
  isReversal := change.isReversal
  reversalOfBalanceChangeId := change.reversalOfBalanceChangeId
  isReversed := change.isReversed

namespace Db

def insertBalanceChange (db : Db) (change : BalanceChange) : Id × Db :=
  (db.balanceChanges.seq + 1,
    { db with balanceChanges := db.balanceChanges.insert change.toRow })

/-- The rows that the query of `get_all_balance_changes_by_account_id` selects, before they are
    deserialised. -/
def getAllBalanceChangesByAccountId (db : Db) (accountId : AccountId) : List BalanceChangeRow :=
  orderBy (·.effectiveHeight) (db.balanceChanges.select (fun b => b.accountId == accountId))

/-- The rows that the query of `get_all_active_balance_changes_by_account_id` selects, before they
    are deserialised. -/
def getAllActiveBalanceChangesByAccountId (db : Db) (accountId : AccountId) :
    List BalanceChangeRow :=
  orderBy (·.effectiveHeight)
    (db.balanceChanges.select (fun b => b.accountId == accountId && b.active))

/-- `ORDER BY id DESC LIMIT 1` over the active balance changes with `p`. -/
def lastActiveBalanceChangeId (db : Db) (p : BalanceChangeRow → Bool) : Option Id :=
  ((db.balanceChanges.select (fun b => p b && b.active)).map (·.id)).max?

def getBalanceChangeIdByOutput (db : Db) (outputId : Id) : Option Id :=
  db.lastActiveBalanceChangeId (fun b => b.causedByOutputId == some outputId)

def getBalanceChangeIdByInput (db : Db) (inputId : Id) : Option Id :=
  db.lastActiveBalanceChangeId (fun b => b.causedByInputId == some inputId)

def markBalanceChangeAsReversed (db : Db) (balanceChangeId : Id) : Db :=
  { db with
    balanceChanges := db.balanceChanges.updateWhere (fun b => b.id == balanceChangeId)
      (fun b => { b with isReversed := true }) }

end Db

/-- The change that undoes the change `originalBalanceChangeId` after a reorg at `height`. -/
def BalanceChange.reversal (accountId : AccountId) (causedByOutputId causedByInputId : Option Id)
    (description : String) (balanceCredit balanceDebit : MicroMinotari) (now : Timestamp)
    (height : Nat) (originalBalanceChangeId : Option Id) : BalanceChange where
  accountId := accountId
  causedByOutputId := causedByOutputId
  causedByInputId := causedByInputId
  description := description
  balanceCredit := balanceCredit
  balanceDebit := balanceDebit
  effectiveDate := now
  effectiveHeight := height
  claimedRecipientAddress := none
  claimedSenderAddress := none
  memoParsed := none
  memoHex := none
  claimedFee := none
  claimedAmount := none
  isReversal := true
  reversalOfBalanceChangeId := originalBalanceChangeId
  isReversed := false

/-- What both reversal loops do for one row: find the original change, mark it as reversed, and
    insert the reversal. -/
def reverseBalanceChange (original : Db → Option Id) (reversal : Option Id → BalanceChange) :
    DbM Unit := do
  let originalBalanceChangeId ← Exec.query original
  if let some originalId := originalBalanceChangeId then
    Exec.update (·.markBalanceChangeAsReversed originalId)
  let _ ← Exec.insert (·.insertBalanceChange (reversal originalBalanceChangeId))

/-- What `reverseBalanceChange` leaves when the lookup has found `originalBalanceChangeId`. -/
def Db.reverseBalanceChange (db : Db) (originalBalanceChangeId : Option Id)
    (reversal : Option Id → BalanceChange) : Db :=
  let marked := match originalBalanceChangeId with
    | some originalId => db.markBalanceChangeAsReversed originalId
    | none => db
  (marked.insertBalanceChange (reversal originalBalanceChangeId)).2

theorem reverseBalanceChange_frame (db : Db) (original : Option Id)
    (reversal : Option Id → BalanceChange) : db.reverseBalanceChange original reversal =
      { db with balanceChanges := (db.reverseBalanceChange original reversal).balanceChanges } := by
  cases original <;> rfl

theorem reverseBalanceChange_ensures {original : Db → Option Id}
    {reversal : Option Id → BalanceChange} {P Q : Db → Prop}
    (h : ∀ db, P db → Q (db.reverseBalanceChange (original db) reversal)) :
    Exec.Ensures P (reverseBalanceChange original reversal) (fun _ db => Q db) := by
  unfold reverseBalanceChange
  refine Exec.Ensures.bind (Q := fun o db => Q (db.reverseBalanceChange o reversal))
    (Exec.Ensures.query (fun db hp => h db hp)) (fun o => ?_)
  have hinsert : Exec.Ensures (fun db : Db => Q (db.insertBalanceChange (reversal o)).2)
      (do let _ ← Exec.insert (·.insertBalanceChange (reversal o)) : DbM Unit)
      (fun _ db => Q db) :=
    Exec.Ensures.bind (Q := fun _ db => Q db) (Exec.Ensures.insert (fun db hq => hq))
      (fun _ => Exec.Ensures.pure (fun db hq => hq))
  cases o with
  | none => exact hinsert
  | some id =>
      exact Exec.Ensures.bind (Q := fun _ (db : Db) => Q (db.insertBalanceChange (reversal id)).2)
        (Exec.Ensures.update (fun db hq => hq)) (fun _ => hinsert)

/-! ## Aggregates -/

structure DbBalanceAggregates where
  totalCredits : Option Int
  totalDebits : Option Int
  maxHeight : Option Int
  maxDate : Option Timestamp
deriving DecidableEq

/-- `SUM(column)`: `NULL` over no rows, an error when it overflows. -/
def sqlSum (xs : List Int) : Except WalletDbError (Option Int) :=
  if xs.isEmpty then .ok none
  else match checkedSum xs with
    | some s => .ok (some s)
    | none => .error (.rusqlite "integer overflow")

def Db.getBalanceAggregatesForAccount (db : Db) (accountId : AccountId) :
    Except WalletDbError DbBalanceAggregates := do
  let rows := db.balanceChanges.select (fun b => b.accountId == accountId)
  let totalCredits ← sqlSum (rows.map (·.balanceCredit))
  let totalDebits ← sqlSum (rows.map (·.balanceDebit))
  return {
    totalCredits, totalDebits
    maxHeight := (rows.map (·.effectiveHeight)).max?
    maxDate := (rows.map (·.effectiveDate)).max? }

/-! ## What the statements do -/

theorem sqlSum_ok {xs : List Int} {s : Option Int} (h : sqlSum xs = .ok s) :
    s.getD 0 = xs.sum := by
  unfold sqlSum at h
  split at h
  · next hnil =>
      rw [List.isEmpty_iff.mp hnil]
      cases h
      rfl
  · split at h
    · next s' hs => cases h; simpa using checkedSum_some hs
    · cases h

theorem sqlSum_lt {xs : List Int} {s : Option Int} (h : sqlSum xs = .ok s) : xs.sum < 2 ^ 63 := by
  unfold sqlSum at h
  split at h
  · next hnil =>
      rw [List.isEmpty_iff.mp hnil]
      decide
  · split at h
    · next s' hs =>
        rw [← checkedSum_some hs]
        exact checkedSum_lt hs
    · cases h

theorem sqlSum_isOk (xs : List Int) (hpos : ∀ x ∈ xs, 0 ≤ x) (hsum : xs.sum < 2 ^ 63) :
    ∃ s, sqlSum xs = .ok s := by
  unfold sqlSum
  split
  · exact ⟨none, rfl⟩
  · rw [checkedSum_eq_some hpos hsum]
    exact ⟨_, rfl⟩

/-- It returns when the columns are not negative and their sums fit. -/
theorem getBalanceAggregatesForAccount_isOk {db : Db} {accountId : AccountId}
    (hpos : ∀ b ∈ db.balanceChanges.rows, 0 ≤ b.balanceCredit ∧ 0 ≤ b.balanceDebit)
    (hcredit : db.balanceChanges.sumWhere (fun b => b.accountId == accountId) (·.balanceCredit) <
      2 ^ 63)
    (hdebit : db.balanceChanges.sumWhere (fun b => b.accountId == accountId) (·.balanceDebit) <
      2 ^ 63) : ∃ agg, db.getBalanceAggregatesForAccount accountId = .ok agg := by
  have hrows : ∀ b ∈ db.balanceChanges.select (fun b => b.accountId == accountId),
      0 ≤ b.balanceCredit ∧ 0 ≤ b.balanceDebit := fun b hb => hpos b (Table.mem_select.mp hb).1
  obtain ⟨c, hc⟩ := sqlSum_isOk _ (List.forall_mem_map.mpr (fun b hb => (hrows b hb).1)) hcredit
  obtain ⟨d, hd⟩ := sqlSum_isOk _ (List.forall_mem_map.mpr (fun b hb => (hrows b hb).2)) hdebit
  simp only [Db.getBalanceAggregatesForAccount, hc, hd, bind, Except.bind]
  exact ⟨_, rfl⟩

/-- `get_balance_aggregates_for_account` reports the sums of the two columns. -/
theorem getBalanceAggregatesForAccount_ok {db : Db} {accountId : AccountId}
    {agg : DbBalanceAggregates} (h : db.getBalanceAggregatesForAccount accountId = .ok agg) :
    agg.totalCredits.getD 0 = db.balanceChanges.sumWhere (fun b => b.accountId == accountId)
        (·.balanceCredit) ∧
      agg.totalDebits.getD 0 = db.balanceChanges.sumWhere (fun b => b.accountId == accountId)
        (·.balanceDebit) := by
  unfold Db.getBalanceAggregatesForAccount at h
  simp only [bind, Except.bind] at h
  split at h
  · cases h
  · next credits hc =>
      split at h
      · cases h
      · next debits hd =>
          cases h
          exact ⟨sqlSum_ok hc, sqlSum_ok hd⟩

/-- It does not return when one of them does not fit. -/
theorem getBalanceAggregatesForAccount_fits {db : Db} {accountId : AccountId}
    {agg : DbBalanceAggregates} (h : db.getBalanceAggregatesForAccount accountId = .ok agg) :
    db.balanceChanges.sumWhere (fun b => b.accountId == accountId) (·.balanceCredit) < 2 ^ 63 ∧
      db.balanceChanges.sumWhere (fun b => b.accountId == accountId) (·.balanceDebit) < 2 ^ 63 := by
  unfold Db.getBalanceAggregatesForAccount at h
  simp only [bind, Except.bind] at h
  split at h
  · cases h
  · next credits hc =>
      split at h
      · cases h
      · next debits hd => exact ⟨sqlSum_lt hc, sqlSum_lt hd⟩

/-- The id that the `LIMIT 1` lookup returns is that of an active row with `p`. -/
theorem lastActiveBalanceChangeId_some {db : Db} {p : BalanceChangeRow → Bool} {id : Id}
    (h : db.lastActiveBalanceChangeId p = some id) :
    ∃ b ∈ db.balanceChanges.rows, b.id = id ∧ p b = true ∧ b.active = true := by
  have hmem := List.max?_mem h
  obtain ⟨b, hb, hid⟩ := List.mem_map.mp hmem
  obtain ⟨hrow, hp⟩ := Table.mem_select.mp hb
  simp only [Bool.and_eq_true] at hp
  exact ⟨b, hrow, hid, hp⟩

theorem lastActiveBalanceChangeId_isSome {db : Db} {p : BalanceChangeRow → Bool}
    {b : BalanceChangeRow} (hb : b ∈ db.balanceChanges.rows) (hp : p b = true)
    (hactive : b.active = true) : ∃ id, db.lastActiveBalanceChangeId p = some id := by
  unfold Db.lastActiveBalanceChangeId
  have hmem : b.id ∈ (db.balanceChanges.select (fun b => p b && b.active)).map (·.id) :=
    List.mem_map_of_mem (Table.mem_select.mpr ⟨hb, by simp [hp, hactive]⟩)
  cases hm : ((db.balanceChanges.select (fun b => p b && b.active)).map (·.id)).max? with
  | some id => exact ⟨id, rfl⟩
  | none => rw [List.max?_eq_none_iff.mp hm] at hmem; cases hmem

end MinotariWallet

import Mathlib.Data.List.Dedup
import MinotariWallet.Displayed.Stored
import MinotariWallet.Ledger.Machine

set_option autoImplicit false

/-! # Replaying what was processed

Every balance change that `process_block` stores is one of an accumulator, and refers to rows that
later blocks keep. So the stored changes of a height are those of the block at that height, and
`process_all_stored_with_conn` rebuilds its accumulator where it reads the changes for what they
were. -/

namespace MinotariWallet

open Sql Exec

/-! ## Runs of blocks -/

/-- A call of `process_block`. -/
structure BlockCall where
  bp : BlockProcessor
  block : BlockScanResult
  accountId : AccountId
  now : Timestamp

namespace BlockCall

/-- The outputs that the block spends, as the account looks for them. -/
def spends (call : BlockCall) : List (AccountId × FixedHash) :=
  call.block.inputs.map (fun hash => (call.accountId, hash))

/-- The heights, values, fees and amounts are 64-bit values. -/
structure Sized (call : BlockCall) : Prop where
  height : call.block.height < 2 ^ 64
  outputs : ∀ w ∈ call.block.walletOutputs, w.2.1.value < 2 ^ 64 ∧
    (∀ fee ∈ w.2.1.paymentId.fee, fee < 2 ^ 64) ∧ ∀ amount ∈ w.2.1.paymentId.amount, amount < 2 ^ 64

instance (call : BlockCall) : Decidable call.Sized :=
  decidable_of_iff (call.block.height < 2 ^ 64 ∧ ∀ w ∈ call.block.walletOutputs,
    w.2.1.value < 2 ^ 64 ∧ (∀ fee ∈ w.2.1.paymentId.fee, fee < 2 ^ 64) ∧
      ∀ amount ∈ w.2.1.paymentId.amount, amount < 2 ^ 64)
    ⟨fun h => ⟨h.1, h.2⟩, fun h => ⟨h.height, h.outputs⟩⟩

/-- The database after a call that returns. -/
def step (env : ScanEnv) (db : Db) (call : BlockCall) : Option Db :=
  ledgerStep env db (.processBlock call.bp call.block call.accountId call.now)

/-- The first part of `process_block`, up to the record of the block. -/
def accumulate (env : ScanEnv) (call : BlockCall) : DbM BlockEventAccumulator := do
  let accountViewKey ← lift (call.bp.accountViewKey call.accountId)
  let st ← call.bp.processOutputs env call.now call.block call.accountId accountViewKey
    { accountId := call.accountId, height := call.block.height, blockHash := call.block.blockHash }
  BlockProcessor.processInputs call.now call.block call.accountId st.acc

/-- The accumulator of a call that returns. -/
def accumulated (env : ScanEnv) (db : Db) (call : BlockCall) (_ : Db) :
    List BlockEventAccumulator :=
  ((runOk (call.accumulate env) db).map (·.1)).toList

end BlockCall

/-- The accumulators of a run. -/
def accumulators (env : ScanEnv) (calls : List BlockCall) : List BlockEventAccumulator :=
  Transition.trace (BlockCall.step env) (BlockCall.accumulated env) Db.empty calls

/-- The blocks of each account are of one chain: there is one at a height, and no output is spent
    twice. -/
structure OneChain (calls : List BlockCall) : Prop where
  heights : (calls.map (fun call => (call.accountId, call.block.height))).Nodup
  spends : (calls.flatMap (·.spends)).Nodup

/-! ## What is stored -/

/-- The changes of an accumulator, in the order in which they were stored. -/
def BlockEventAccumulator.changes (acc : BlockEventAccumulator) : List BalanceChange :=
  acc.creditBalanceChanges.map (·.1) ++ acc.debitBalanceChanges.map (·.1)

/-- A change of an account at a height, as it is stored. -/
structure StoredChange (accountId : AccountId) (height : Nat) (change : BalanceChange) : Prop where
  account : change.accountId = accountId
  height : change.effectiveHeight = height
  sized : change.Sized
  notReversal : change.isReversal = false
  notReversed : change.isReversed = false

/-- The changes of an accumulator and the rows they refer to. -/
structure StoredAcc (L : Ledger) (acc : BlockEventAccumulator) : Prop where
  changes : ∀ change ∈ acc.changes, StoredChange acc.accountId acc.height change
  credits : ∀ credit ∈ acc.creditBalanceChanges, StoredCredit L.outputs credit
  debits : ∀ debit ∈ acc.debitBalanceChanges, StoredDebit L.outputs L.inputs debit

/-- The row is still that of the same output. -/
structure SameCoin (o o' : OutputRow) : Prop where
  id : o'.id = o.id
  account : o'.accountId = o.accountId
  hash : o'.outputHash = o.outputHash
  height : o'.minedInBlockHeight = o.minedInBlockHeight
  blockHash : o'.minedInBlockHash = o.minedInBlockHash
  output : o'.walletOutput = o.walletOutput

/-- No output and no input is lost. -/
structure Extends (L L' : Ledger) : Prop where
  outputs : ∀ o ∈ L.outputs.rows, ∃ o' ∈ L'.outputs.rows, SameCoin o o'
  inputs : ∀ i ∈ L.inputs.rows, i ∈ L'.inputs.rows

/-- The stored changes are those of the accumulators, and every input spends one of the outputs
    `spent`. -/
structure Accounted (accs : List BlockEventAccumulator) (spent : List (AccountId × FixedHash))
    (L : Ledger) : Prop where
  rows : L.balanceChanges.rows.map (fun b => { b with id := 0 }) =
    (accs.flatMap (·.changes)).map (·.toRow 0)
  accs : ∀ acc ∈ accs, StoredAcc L acc
  inputs : ∀ i ∈ L.inputs.rows, ∃ o ∈ L.outputs.rows, o.id = i.outputId ∧
    (o.accountId, o.outputHash) ∈ spent
  values : ∀ o ∈ L.outputs.rows, o.walletOutput.value < 2 ^ 64

section Steps

variable {L L' : Ledger} {acc : BlockEventAccumulator} {accs : List BlockEventAccumulator}
  {spent : List (AccountId × FixedHash)}

theorem StoredAcc.extend (h : StoredAcc L acc) (hext : Extends L L') : StoredAcc L' acc := by
  refine ⟨h.changes, fun credit hc => ?_, fun debit hd => ?_⟩
  · have hcredit := h.credits credit hc
    obtain ⟨o, ho, hcaused, hheight, hhash, houtput⟩ := hcredit.output
    obtain ⟨o', ho', hsame⟩ := hext.outputs o ho
    exact { hcredit with output := ⟨o', ho', hcaused.trans (congrArg some hsame.id.symm),
      hsame.height.trans hheight, hsame.blockHash.trans hhash, hsame.output.trans houtput⟩ }
  · have hdebit := h.debits debit hd
    obtain ⟨i, hi, hinput⟩ := hdebit.input
    obtain ⟨o, ho, hid, houtput⟩ := hdebit.output
    obtain ⟨o', ho', hsame⟩ := hext.outputs o ho
    exact { hdebit with
      input := ⟨i, hext.inputs i hi, hinput⟩
      output := ⟨o', ho', hsame.id.trans hid, hsame.output.trans houtput⟩ }

/-- Outputs that change in columns that are not read here. -/
theorem Accounted.updateOutputs (h : Accounted accs spent L) {p : OutputRow → Bool}
    {f : OutputRow → OutputRow} {hf : ∀ o, key (f o) = key o} (hsame : ∀ o, SameCoin o (f o)) :
    Accounted accs spent { L with outputs := L.outputs.updateWhere p f hf } := by
  have hupdated : ∀ o, SameCoin o (if p o then f o else o) := by
    intro o
    split
    · exact hsame o
    · exact ⟨rfl, rfl, rfl, rfl, rfl, rfl⟩
  have hext : Extends L { L with outputs := L.outputs.updateWhere p f hf } :=
    ⟨fun o ho => ⟨_, (AutoTable.mem_updateWhere hf).mpr ⟨o, ho, rfl⟩, hupdated o⟩, fun _ hi => hi⟩
  refine ⟨h.rows, fun acc hacc => (h.accs acc hacc).extend hext, fun i hi => ?_, fun o' ho' => ?_⟩
  · obtain ⟨o, ho, hid, hspent⟩ := h.inputs i hi
    obtain ⟨o', ho', hsame'⟩ := hext.outputs o ho
    exact ⟨o', ho', hsame'.id.trans hid, by rwa [hsame'.account, hsame'.hash]⟩
  · obtain ⟨o, ho, rfl⟩ := (AutoTable.mem_updateWhere hf).mp ho'
    rw [(hupdated o).output]
    exact h.values o ho

/-- A further change of the last accumulator. -/
theorem Accounted.post {acc' : BlockEventAccumulator} {spent' : List (AccountId × FixedHash)}
    {change : BalanceChange} (h : Accounted (accs ++ [acc]) spent L) (hext : Extends L L')
    (hrow : L'.balanceChanges = L.balanceChanges.insert change.toRow)
    (hchanges : acc'.changes = acc.changes ++ [change]) (hstored : StoredAcc L' acc')
    (hinputs : ∀ i ∈ L'.inputs.rows, ∃ o ∈ L'.outputs.rows, o.id = i.outputId ∧
      (o.accountId, o.outputHash) ∈ spent')
    (hvalues : ∀ o ∈ L'.outputs.rows, o.walletOutput.value < 2 ^ 64) :
    Accounted (accs ++ [acc']) spent' L' := by
  refine ⟨?_, fun a ha => ?_, hinputs, hvalues⟩
  · have hrows : L'.balanceChanges.rows = L.balanceChanges.rows ++
        [change.toRow (L.balanceChanges.seq + 1)] := by rw [hrow]; rfl
    have hbefore := h.rows
    rw [List.flatMap_append, List.map_append] at hbefore ⊢
    rw [hrows, List.map_append, hbefore, List.append_assoc]
    simp [hchanges, BalanceChange.toRow]
  · rcases List.mem_append.mp ha with ha | ha
    · exact (h.accs a (List.mem_append_left _ ha)).extend hext
    · rw [List.mem_singleton.mp ha]
      exact hstored

/-- An output found in the block, and its credit. -/
theorem Accounted.credit {db db' : Db} (h : Accounted (accs ++ [acc]) spent db.ledger)
    (hdebits : acc.debitBalanceChanges = []) {ext : Externals} {block : BlockScanResult}
    {w : FixedHash × WalletOutput × Nat} {viewKey : PrivateKey} {memo : MemoInfo}
    {payref : PaymentReference} {id : Id} {now : Timestamp} (hheight : acc.height = block.height)
    (hfits : block.height < 2 ^ 64) (hvalue : w.2.1.value < 2 ^ 64)
    (hfee : ∀ fee ∈ w.2.1.paymentId.fee, fee < 2 ^ 64)
    (hamount : ∀ amount ∈ w.2.1.paymentId.amount, amount < 2 ^ 64)
    (hins : db.insertOutput ext acc.accountId viewKey w.1 w.2.1 block.height block.blockHash
      block.minedTimestamp memo.parsed memo.hex payref w.2.1.isBurned = .ok (id, db')) :
    let change := makeBalanceChangeForOutput acc.accountId id block.minedTimestamp block.height
      w.2.1 now
    Accounted (accs ++ [acc.addCreditChange change ⟨block.height, block.blockHash, w.2.1⟩]) spent
      (db'.insertBalanceChange change).2.ledger := by
  obtain ⟨timestamp, -, -, rfl, rfl⟩ := insertOutput_ok hins
  intro change
  let mk := newOutputRow ext acc.accountId viewKey w.1 w.2.1 block.height block.blockHash timestamp
    memo.parsed memo.hex payref w.2.1.isBurned
  have hmem : ∀ o, o ∈ (db.outputs.insert mk (fun _ => rfl)).rows ↔
      o ∈ db.outputs.rows ∨ o = mk (db.outputs.seq + 1) := by
    intro o
    exact AutoTable.mem_insert (fun _ => rfl)
  have hext : Extends db.ledger { db.ledger with
      outputs := db.outputs.insert mk (fun _ => rfl)
      balanceChanges := db.balanceChanges.insert change.toRow (fun _ => rfl) } :=
    ⟨fun o ho => ⟨o, (hmem o).mpr (Or.inl ho), rfl, rfl, rfl, rfl, rfl, rfl⟩, fun _ hi => hi⟩
  have hchanges : (acc.addCreditChange change ⟨block.height, block.blockHash, w.2.1⟩).changes =
      acc.changes ++ [change] := by
    simp [BlockEventAccumulator.changes, BlockEventAccumulator.addCreditChange, hdebits]
  have hbefore := (h.accs acc (by simp)).extend hext
  refine h.post hext rfl hchanges ⟨fun c hc => ?_, fun credit hc => ?_, hbefore.debits⟩
    (fun i hi => ?_) (fun o ho => ?_)
  · rw [hchanges] at hc
    rcases List.mem_append.mp hc with hc | hc
    · exact hbefore.changes c hc
    · cases List.mem_singleton.mp hc
      exact ⟨rfl, hheight.symm, ⟨hvalue, Nat.two_pow_pos 64, hfits, hfee, hamount⟩, rfl, rfl⟩
  · rcases List.mem_append.mp hc with hc | hc
    · exact hbefore.credits credit hc
    · cases List.mem_singleton.mp hc
      exact ⟨rfl, rfl, hfits, mk (db.outputs.seq + 1), (hmem _).mpr (Or.inr rfl), rfl, rfl, rfl,
        rfl⟩
  · obtain ⟨o, ho, hrest⟩ := h.inputs i hi
    exact ⟨o, (hmem o).mpr (Or.inl ho), hrest⟩
  · rcases (hmem o).mp ho with ho | rfl
    · exact h.values o ho
    · exact hvalue

/-- An output spent in the block for the first time, and its debit. -/
theorem Accounted.debit {db : Db} (h : Accounted (accs ++ [acc]) spent db.ledger)
    {block : BlockScanResult} {hash : FixedHash} {info : DbWalletOutput} {timestamp now : Timestamp}
    {inputId : Id} (hheight : acc.height = block.height) (hfits : block.height < 2 ^ 64)
    (hfresh : (acc.accountId, hash) ∉ spent)
    (hinfo : db.getOutputInfoByHashForAccount acc.accountId hash = some info)
    (hid : (db.insertOrIgnoreInput acc.accountId info.id block.height block.blockHash
      timestamp).getActiveInputId info.id = .ok inputId) :
    let change := makeBalanceChangeForInput acc.accountId inputId info.output.value block now
    Accounted (accs ++ [acc.addDebitChange change
        ⟨block.blockHash, block.height, info.id, info.output⟩]) (spent ++ [(acc.accountId, hash)])
      ((db.insertOrIgnoreInput acc.accountId info.id block.height block.blockHash
        timestamp).insertBalanceChange change).2.ledger := by
  obtain ⟨o, ho, -, hacc, hhash, rfl⟩ := getOutputInfoByHashForAccount_some hinfo
  -- an input of the output would have spent its hash before
  have hunspent : ∀ i ∈ db.inputs.rows, i.outputId ≠ o.id := by
    intro i hi hio
    obtain ⟨o', ho', hid', hspent⟩ := h.inputs i hi
    obtain rfl : o' = o := db.outputs.eq_of_key_eq ho' ho (hid'.trans hio)
    rw [hacc, hhash] at hspent
    exact hfresh hspent
  rcases getActiveInputId_insertOrIgnoreInput hid with ⟨⟨i, hi, -, hio⟩, -⟩ | ⟨-, rfl, heq⟩
  · exact absurd hio (hunspent i hi)
  rw [heq]
  intro change
  let mk := newInputRow acc.accountId o.id block.height block.blockHash timestamp
  have hmem : ∀ i, i ∈ (db.inputs.insert mk (fun _ => rfl)).rows ↔
      i ∈ db.inputs.rows ∨ i = mk (db.inputs.seq + 1) := by
    intro i
    exact AutoTable.mem_insert (fun _ => rfl)
  have hext : Extends db.ledger { db.ledger with
      inputs := db.inputs.insert mk (fun _ => rfl)
      balanceChanges := db.balanceChanges.insert change.toRow (fun _ => rfl) } :=
    ⟨fun o ho => ⟨o, ho, rfl, rfl, rfl, rfl, rfl, rfl⟩, fun i hi => (hmem i).mpr (Or.inl hi)⟩
  have hchanges : (acc.addDebitChange change
      ⟨block.blockHash, block.height, o.id, o.walletOutput⟩).changes = acc.changes ++ [change] := by
    simp [BlockEventAccumulator.changes, BlockEventAccumulator.addDebitChange]
  have hbefore := (h.accs acc (by simp)).extend hext
  refine h.post hext rfl hchanges ⟨fun c hc => ?_, hbefore.credits, fun debit hd => ?_⟩
    (fun i hi => ?_) h.values
  · have hc' : c ∈ acc.changes ++ [change] := hchanges ▸ hc
    rcases List.mem_append.mp hc' with hc | hc
    · exact hbefore.changes c hc
    · cases List.mem_singleton.mp hc
      exact ⟨rfl, hheight.symm, ⟨Nat.two_pow_pos 64, h.values o ho, hfits, by simp [change,
        makeBalanceChangeForInput], by simp [change, makeBalanceChangeForInput]⟩, rfl, rfl⟩
  · rcases List.mem_append.mp hd with hd | hd
    · exact hbefore.debits debit hd
    · cases List.mem_singleton.mp hd
      exact ⟨rfl, hfits, ⟨mk (db.inputs.seq + 1), (hmem _).mpr (Or.inr rfl), rfl, rfl, rfl, rfl⟩,
        o, ho, rfl, rfl⟩
  · rcases (hmem i).mp hi with hi | rfl
    · obtain ⟨o', ho', hid', hspent⟩ := h.inputs i hi
      exact ⟨o', ho', hid', List.mem_append_left _ hspent⟩
    · exact ⟨o, ho, rfl, by simp [hacc, hhash]⟩

end Steps

/-! ## A block -/

section Block

variable {env : ScanEnv} {call : BlockCall} {accs : List BlockEventAccumulator}
  {spent : List (AccountId × FixedHash)}

/-- The accumulator of the block that is processed, after those of the blocks before it. -/
structure InBlock (call : BlockCall) (accs : List BlockEventAccumulator)
    (spent : List (AccountId × FixedHash)) (acc : BlockEventAccumulator) (L : Ledger) : Prop where
  accounted : Accounted (accs ++ [acc]) spent L
  account : acc.accountId = call.accountId
  height : acc.height = call.block.height

theorem processOutput_accounts (hsized : call.Sized) (viewKey : PrivateKey)
    (st : BlockProcessor.LoopState) {w : FixedHash × WalletOutput × Nat}
    (hw : w ∈ call.block.walletOutputs) :
    Ensures (fun db => InBlock call accs spent st.acc db.ledger ∧ st.acc.debitBalanceChanges = [])
      (call.bp.processOutput env call.now call.block call.accountId viewKey st w)
      (fun st' db => InBlock call accs spent st'.acc db.ledger ∧
        st'.acc.debitBalanceChanges = []) := by
  obtain ⟨hvalue, hfee, hamount⟩ := hsized.outputs w hw
  obtain ⟨hash, output, walletIdx⟩ := w
  unfold BlockProcessor.processOutput
  dsimp only
  split
  · exact Ensures.pure (fun _ h => h)
  refine Ensures.ite (fun _ => Ensures.pure (fun _ h => h)) (fun _ => ?_)
  let After : Id → Db → Prop := fun id db => st.acc.debitBalanceChanges = [] ∧
    let change := makeBalanceChangeForOutput call.accountId id call.block.minedTimestamp
      call.block.height output call.now
    InBlock call accs spent
      (st.acc.addCreditChange change ⟨call.block.height, call.block.blockHash, output⟩)
      (db.insertBalanceChange change).2.ledger
  refine Ensures.bind (Q := After) (Ensures.stmt (fun db id db' h hins => ?_)) (fun id => ?_)
  · obtain ⟨⟨haccounted, hacc, hheight⟩, hdebits⟩ := h
    rw [← hacc] at hins
    refine ⟨hdebits, ?_⟩
    dsimp only
    rw [← hacc]
    exact ⟨haccounted.credit hdebits hheight hsized.height hvalue hfee hamount hins, hacc, hheight⟩
  · refine Ensures.bind (Q := fun _ => After id) (Ensures.insert (fun db h => h)) (fun _ => ?_)
    refine Ensures.bind (Q := fun _ db => InBlock call accs spent _ db.ledger ∧
      st.acc.debitBalanceChanges = []) (Ensures.insert (fun db h => ⟨h.2, h.1⟩)) (fun _ => ?_)
    exact Ensures.pure (fun db h => h)

theorem processInput_accounts (hsized : call.Sized) (acc : BlockEventAccumulator) {hash : FixedHash}
    (hfresh : (call.accountId, hash) ∉ spent) :
    Ensures (fun db => InBlock call accs spent acc db.ledger)
      (BlockProcessor.processInput call.now call.block call.accountId acc hash)
      (fun acc' db => InBlock call accs (spent ++ [(call.accountId, hash)]) acc' db.ledger) := by
  unfold BlockProcessor.processInput
  refine Ensures.bind (Q := fun info db => InBlock call accs spent acc db.ledger ∧
    db.getOutputInfoByHashForAccount call.accountId hash = info)
    (Ensures.query (fun db h => ⟨h, rfl⟩)) (fun info => ?_)
  cases info with
  | none =>
      refine Ensures.pure (fun db h => ⟨⟨h.1.accounted.rows, h.1.accounted.accs, fun i hi => ?_,
        h.1.accounted.values⟩, h.1.account, h.1.height⟩)
      obtain ⟨o, ho, hid, hspent⟩ := h.1.accounted.inputs i hi
      exact ⟨o, ho, hid, List.mem_append_left _ hspent⟩
  | some info =>
      let After : Id → Db → Prop := fun inputId db =>
        let change := makeBalanceChangeForInput call.accountId inputId info.output.value call.block
          call.now
        InBlock call accs (spent ++ [(call.accountId, hash)])
          (acc.addDebitChange change
            ⟨call.block.blockHash, call.block.height, info.id, info.output⟩)
          (db.insertBalanceChange change).2.ledger
      refine Ensures.bind (Q := After) ?_ (fun inputId => ?_)
      · unfold insertInput
        split
        · exact Ensures.throw
        · next timestamp _ =>
            refine Ensures.bind (Q := fun _ db => ∃ db₀ : Db,
              InBlock call accs spent acc db₀.ledger ∧
              db₀.getOutputInfoByHashForAccount call.accountId hash = some info ∧
              db = db₀.insertOrIgnoreInput call.accountId info.id call.block.height
                call.block.blockHash timestamp)
              (Ensures.update (fun db h => ⟨db, h.1, h.2, rfl⟩)) (fun _ => ?_)
            refine Ensures.tryQuery (fun db inputId hdb hid => ?_)
            obtain ⟨db₀, ⟨haccounted, hacc, hheight⟩, hinfo, rfl⟩ := hdb
            dsimp only [After]
            rw [← hacc] at hinfo hid hfresh ⊢
            exact ⟨haccounted.debit hheight hsized.height hfresh hinfo hid, hacc, hheight⟩
      · refine Ensures.bind (Q := fun _ db => InBlock call accs (spent ++ [(call.accountId, hash)])
          _ db.ledger) (Ensures.insert (fun db h => h)) (fun _ => ?_)
        refine Ensures.bind (Q := fun _ db => InBlock call accs (spent ++ [(call.accountId, hash)])
          _ db.ledger) (Ensures.update (fun db h => ?_)) (fun _ => Ensures.pure (fun db h => h))
        exact ⟨h.accounted.updateOutputs (fun _ => ⟨rfl, rfl, rfl, rfl, rfl, rfl⟩), h.account,
          h.height⟩

/-- What `process_block` has accumulated when it records the block. -/
theorem accumulate_accounts (hsized : call.Sized) (hfresh : (spent ++ call.spends).Nodup) :
    Ensures (fun db => Accounted accs spent db.ledger) (call.accumulate env)
      (fun acc db => InBlock call accs (spent ++ call.spends) acc db.ledger) := by
  let start : BlockEventAccumulator :=
    { accountId := call.accountId, height := call.block.height, blockHash := call.block.blockHash }
  unfold BlockCall.accumulate
  refine Ensures.bind (Q := fun _ db => InBlock call accs spent start db.ledger)
    (Ensures.lift (fun db _ h _ => ?_)) (fun viewKey => ?_)
  · refine ⟨⟨by simpa [start, BlockEventAccumulator.changes] using h.rows, fun acc hacc => ?_,
      h.inputs, h.values⟩, rfl, rfl⟩
    rcases List.mem_append.mp hacc with hacc | hacc
    · exact h.accs acc hacc
    · rw [List.mem_singleton.mp hacc]
      constructor <;> intro _ h <;> cases h
  refine Ensures.bind (Q := fun st db => InBlock call accs spent st.acc db.ledger) ?_ (fun st => ?_)
  · unfold BlockProcessor.processOutputs
    let Part : List (FixedHash × WalletOutput × Nat) → BlockProcessor.LoopState → Db → Prop :=
      fun rest st db => (InBlock call accs spent st.acc db.ledger ∧
        st.acc.debitBalanceChanges = []) ∧ ∀ w ∈ rest, w ∈ call.block.walletOutputs
    refine Ensures.bind (Q := Part []) ?_ (fun st => ?_)
    · refine (Ensures.foldlM (I := Part) _ _ (fun w rest st => ?_)).mono
        (fun db h => ⟨⟨h, rfl⟩, fun w hw => hw⟩) (fun _ _ h => h)
      intro c st' c' h hrun
      refine ⟨?_, fun w' hw' => h.2 w' (List.mem_cons_of_mem w hw')⟩
      exact processOutput_accounts hsized viewKey st (h.2 w List.mem_cons_self) c st' c' h.1 hrun
    · exact Ensures.bind ((triggerWebhooks_keeps _ _ _ _).ensures (InBlock call accs spent st.acc)
        |>.mono (fun db h => h.1.1) (fun _ _ h => h)) (fun _ => Ensures.pure (fun db h => h))
  · unfold BlockProcessor.processInputs
    let Part : List FixedHash → BlockEventAccumulator → Db → Prop := fun rest acc db =>
      ∃ done, done ++ rest.map (fun hash => (call.accountId, hash)) = spent ++ call.spends ∧
        InBlock call accs done acc db.ledger
    refine (Ensures.foldlM (I := Part) _ _ (fun hash rest acc => ?_)).mono
      (fun db h => ⟨spent, rfl, h⟩) (fun acc db h => ?_)
    · rintro c acc' c' ⟨done, hdone, h⟩ hrun
      have hnew : (call.accountId, hash) ∉ done := by
        rw [← hdone] at hfresh
        intro hmem
        exact (List.disjoint_of_nodup_append hfresh) hmem (by simp)
      refine ⟨done ++ [(call.accountId, hash)], by simpa using hdone, ?_⟩
      exact processInput_accounts hsized acc hnew c acc' c' h hrun
    · obtain ⟨done, hdone, h⟩ := h
      rw [List.map_nil, List.append_nil] at hdone
      rwa [← hdone]

/-- A call that returns has accumulated the changes that it stored. -/
theorem blockCall_accounts {db db' : Db} (hsized : call.Sized)
    (hfresh : (spent ++ call.spends).Nodup) (h : Accounted accs spent db.ledger)
    (hstep : call.step env db = some db') :
    ∃ acc, call.accumulated env db db' = [acc] ∧
      InBlock call accs (spent ++ call.spends) acc db'.ledger := by
  obtain ⟨⟨outcome, db₁⟩, hrun, rfl⟩ := Option.map_eq_some_iff.mp hstep
  obtain ⟨c', hrun', rfl⟩ := runOk_eq_some.mp hrun
  unfold BlockProcessor.processBlock at hrun'
  obtain ⟨viewKey, c₁, hkey, hrest⟩ := bind_ok.mp hrun'
  obtain ⟨st, c₂, houtputs, hrest⟩ := bind_ok.mp hrest
  obtain ⟨acc, c₃, hinputs, hrest⟩ := bind_ok.mp hrest
  have hacc : call.accumulate env ⟨db, none⟩ = .ok acc c₃ :=
    bind_ok.mpr ⟨viewKey, c₁, hkey, bind_ok.mpr ⟨st, c₂, houtputs, hinputs⟩⟩
  refine ⟨acc, by simp [BlockCall.accumulated, runOk, hacc], ?_⟩
  have haccumulated := accumulate_accounts hsized hfresh ⟨db, none⟩ acc c₃ h hacc
  -- the rest of the call keeps the tables, but for columns that are not read
  let Done : Ledger → Prop := InBlock call accs (spent ++ call.spends) acc
  have hrecord : Ensures (fun db => Done db.ledger)
      (BlockProcessor.recordScannedBlock call.block call.accountId)
      (fun _ db => Done db.ledger) := by
    refine Ensures.update (fun db h => ?_)
    unfold Db.insertScannedTipBlock
    split
    · exact h
    · exact ⟨⟨h.accounted.rows, fun acc hacc => (h.accounted.accs acc hacc).extend
        ⟨fun o ho => ⟨o, ho, rfl, rfl, rfl, rfl, rfl, rfl⟩, fun i hi => hi⟩, h.accounted.inputs,
        h.accounted.values⟩, h.account, h.height⟩
  have hconfirm : Ensures (fun db => Done db.ledger)
      (call.bp.processConfirmations call.now call.block call.accountId)
      (fun _ db => Done db.ledger) :=
    confirmations_ensures (P := fun _ => Done) (fun db hash rest h =>
      ⟨h.accounted.updateOutputs (fun _ => ⟨rfl, rfl, rfl, rfl, rfl, rfl⟩), h.account, h.height⟩)
  have hsave := (saveAndEmitDisplayedTransactions_keeps env call.bp call.block.height
    call.accountId viewKey acc).ensures Done
  obtain ⟨_, c₄, hrecorded, hrest⟩ := bind_ok.mp hrest
  obtain ⟨confirmed, c₅, hconfirmed, hrest⟩ := bind_ok.mp hrest
  obtain ⟨ready, c₆, hsaved, hrest⟩ := bind_ok.mp hrest
  obtain ⟨-, rfl⟩ := pure_ok.mp hrest
  exact hsave c₅ ready c₆ (hconfirm c₄ confirmed c₅ (hrecord c₃ _ c₄ haccumulated hrecorded)
    hconfirmed) hsaved

end Block

/-! ## A run -/

section Runs

variable {env : ScanEnv} {calls : List BlockCall} {db db' : Db} {accountId : AccountId}

/-- The accumulators of a run account for all that it has stored. -/
theorem accounted_of_run {accs : List BlockEventAccumulator} {spent : List (AccountId × FixedHash)}
    (hsized : ∀ call ∈ calls, call.Sized) (hspends : (spent ++ calls.flatMap (·.spends)).Nodup)
    (h : Accounted accs spent db.ledger)
    (hrun : Transition.run (BlockCall.step env) db calls = some db') :
    let live := Transition.trace (BlockCall.step env) (BlockCall.accumulated env) db calls
    Accounted (accs ++ live) (spent ++ calls.flatMap (·.spends)) db'.ledger ∧
      live.map (fun acc => (acc.accountId, acc.height)) =
        calls.map (fun call => (call.accountId, call.block.height)) := by
  induction calls generalizing db accs spent with
  | nil =>
      cases hrun
      simpa [Transition.trace] using h
  | cons call calls ih =>
      obtain ⟨db₁, hstep, hrest⟩ := Transition.run_cons.mp hrun
      rw [List.flatMap_cons, ← List.append_assoc] at hspends ⊢
      obtain ⟨acc, hacc, hblock⟩ := blockCall_accounts (hsized call List.mem_cons_self)
        (List.Nodup.of_append_left hspends) h hstep
      obtain ⟨haccounted, hkeys⟩ := ih (fun c hc => hsized c (List.mem_cons_of_mem call hc)) hspends
        hblock.accounted hrest
      simp only [Transition.trace, hstep, hacc, List.append_assoc] at haccounted ⊢
      refine ⟨haccounted, ?_⟩
      rw [List.map_append, List.map_cons, hkeys]
      simp [hblock.account, hblock.height]

/-- Of lists that are told apart by a key, the elements with one key are those of one list. -/
theorem filter_flatMap_of_keys {α β κ : Type} [BEq κ] [LawfulBEq κ] {f : α → List β} {k : α → κ}
    {k' : β → κ} {l : List α} (hkey : ∀ a ∈ l, ∀ b ∈ f a, k' b = k a) (hnodup : (l.map k).Nodup)
    {a : α} (ha : a ∈ l) : (l.flatMap f).filter (fun b => k' b == k a) = f a := by
  induction l with
  | nil => cases ha
  | cons x l ih =>
      obtain ⟨hx, hl⟩ := List.nodup_cons.mp hnodup
      rw [List.flatMap_cons, List.filter_append]
      rcases List.mem_cons.mp ha with rfl | ha
      · have hself : (f a).filter (fun b => k' b == k a) = f a :=
          List.filter_eq_self.mpr (fun b hb => by simpa using hkey a List.mem_cons_self b hb)
        have hothers : (l.flatMap f).filter (fun b => k' b == k a) = [] := by
          refine List.filter_eq_nil_iff.mpr (fun b hb => ?_)
          obtain ⟨x, hxl, hbx⟩ := List.mem_flatMap.mp hb
          rw [hkey x (List.mem_cons_of_mem a hxl) b hbx]
          intro heq
          exact hx (eq_of_beq heq ▸ List.mem_map_of_mem hxl)
        rw [hself, hothers, List.append_nil]
      · have hne : (f x).filter (fun b => k' b == k a) = [] := by
          refine List.filter_eq_nil_iff.mpr (fun b hb => ?_)
          rw [hkey x List.mem_cons_self b hb]
          intro heq
          exact hx (eq_of_beq heq ▸ List.mem_map_of_mem ha)
        rw [hne, List.nil_append]
        exact ih (fun y hy => hkey y (List.mem_cons_of_mem x hy)) hl ha

/-- The credits and debits of the accumulator are rebuilt from the database. -/
def BlockEventAccumulator.RebuiltFrom (reads : ColumnReads) (db : Db)
    (live : BlockEventAccumulator) : Prop :=
  ∃ rebuilt, db.rebuiltAt reads live.accountId live.height = .ok rebuilt ∧
    rebuilt.creditBalanceChanges = live.creditBalanceChanges ∧
    rebuilt.debitBalanceChanges = live.debitBalanceChanges

/-- Every active change of the account can be read, with the rows it refers to; no spend has the
    value 0, and every input that is referred to has the id of the output it spends. -/
def ReplaysExactly (reads : ColumnReads) (db : Db) (accountId : AccountId) : Prop :=
  ∀ b ∈ db.balanceChanges.rows, b.accountId = accountId → b.active = true →
    b.Readable reads ∧ reads.timestamps = true ∧ ∀ inputId ∈ b.causedByInputId,
      b.balanceDebit ≠ 0 ∧ ∀ i ∈ db.inputs.rows, i.id = inputId → i.outputId = i.id

instance (reads : ColumnReads) (db : Db) (accountId : AccountId) :
    Decidable (ReplaysExactly reads db accountId) :=
  inferInstanceAs (Decidable (∀ b ∈ db.balanceChanges.rows, b.accountId = accountId →
    b.active = true → b.Readable reads ∧ reads.timestamps = true ∧ ∀ inputId ∈ b.causedByInputId,
      b.balanceDebit ≠ 0 ∧ ∀ i ∈ db.inputs.rows, i.id = inputId → i.outputId = i.id))

/-- A debit is rebuilt as it was when its value is not 0 and its input has the id of its output. -/
theorem StoredDebit.exact_iff {debit : BalanceChange × SpentInput}
    (h : StoredDebit db.outputs db.inputs debit) (hsized : debit.1.balanceDebit < 2 ^ 64) :
    (debit.1.balanceDebit ≠ 0 ∧ rebuiltDebit debit = debit) ↔
      ∀ inputId ∈ debit.1.causedByInputId, asI64 debit.1.balanceDebit ≠ 0 ∧
        ∀ i ∈ db.inputs.rows, i.id = inputId → i.outputId = i.id := by
  obtain ⟨i, hi, hcaused, hoid, -⟩ := h.input
  have hsame : rebuiltDebit debit = debit ↔ i.id = debit.2.outputId := by
    constructor
    · intro heq
      have hid := congrArg (fun d => d.2.outputId) heq
      simpa [rebuiltDebit, hcaused] using hid
    · intro hid
      simp [rebuiltDebit, hcaused, hid]
  simp only [hcaused, Option.mem_def, Option.some.injEq, forall_eq', ne_eq, asI64_eq_zero hsized,
    hsame]
  refine and_congr_right (fun _ => ⟨fun hid i' hi' hid' => ?_, fun hids => ?_⟩)
  · obtain rfl : i' = i := db.inputs.eq_of_key_eq hi' hi hid'
    exact hoid.trans hid.symm
  · exact (hids i hi rfl).symm.trans hoid

section Accounted

variable {accs : List BlockEventAccumulator} {spent : List (AccountId × FixedHash)}
  {live : BlockEventAccumulator}

/-- The rows, but for their ids, are those of the accumulated changes. -/
theorem Accounted.row_iff (h : Accounted accs spent db.ledger) {P : BalanceChangeRow → Prop}
    (hP : ∀ b : BalanceChangeRow, P { b with id := 0 } ↔ P b) :
    (∀ b ∈ db.balanceChanges.rows, P b) ↔ ∀ acc ∈ accs, ∀ c ∈ acc.changes, P (c.toRow 0) := by
  have hrows : (∀ b ∈ db.ledger.balanceChanges.rows.map (fun b => { b with id := 0 }), P b) ↔
      ∀ b ∈ (accs.flatMap (·.changes)).map (·.toRow 0), P b := by rw [h.rows]
  simp only [List.forall_mem_map, List.mem_flatMap, hP, forall_exists_index, and_imp] at hrows
  rw [show (∀ b ∈ db.balanceChanges.rows, P b) ↔ _ from hrows]
  exact ⟨fun h acc hacc c hc => h c acc hacc hc, fun h c acc hacc hc => h acc hacc c hc⟩

/-- An accumulated change is stored as an active one. -/
theorem StoredChange.active {height : Nat} {change : BalanceChange}
    (h : StoredChange accountId height change) : (change.toRow 0).active = true := by
  simp [BalanceChangeRow.active, BalanceChange.toRow, h.notReversal, h.notReversed]

/-- The changes of an account can be read when those accumulated for it can be. -/
theorem Accounted.readable_iff {reads : ColumnReads} (h : Accounted accs spent db.ledger) :
    db.Readable reads accountId ↔ ∀ acc ∈ accs, acc.accountId = accountId →
      ∀ c ∈ acc.changes, (c.toRow 0).Readable reads := by
  unfold Db.Readable
  rw [h.row_iff (P := fun b => b.accountId = accountId → b.active = true → b.Readable reads)
    (fun _ => Iff.rfl)]
  constructor
  · intro hread acc hacc hmine c hc
    have hchange := (h.accs acc hacc).changes c hc
    exact hread acc hacc c hc (hchange.account.trans hmine) hchange.active
  · intro hread acc hacc c hc hmine _
    exact hread acc hacc (((h.accs acc hacc).changes c hc).account.symm.trans hmine) c hc

/-- The active changes stored for a height are those accumulated for it. -/
theorem Accounted.changes_eq (h : Accounted accs spent db.ledger)
    (hkeys : (accs.map (fun acc => (acc.accountId, acc.height))).Nodup) (hlive : live ∈ accs)
    {reads : ColumnReads} (hread : db.Readable reads live.accountId) :
    (((db.balanceChanges.select (fun b => b.accountId == live.accountId && b.active)).filter
      (fun b => b.effectiveHeight == (live.height : Int))).map (·.change)) = live.changes := by
  let withoutId : BalanceChangeRow → BalanceChangeRow := fun b => { b with id := 0 }
  let mine : BalanceChangeRow → Bool := fun b => b.accountId == live.accountId && b.active
  let here : BalanceChangeRow → Bool := fun b => b.effectiveHeight == (live.height : Int)
  have hfits : ∀ acc ∈ accs, ∀ c ∈ acc.changes, c.accountId = live.accountId →
      (c.toRow 0).Fits := by
    intro acc hacc c hc haccount
    have hmine : acc.accountId = live.accountId :=
      ((h.accs acc hacc).changes c hc).account.symm.trans haccount
    exact (h.readable_iff.mp hread acc hacc hmine c hc).2
  have hselected : ∀ c ∈ accs.flatMap (·.changes), (mine (c.toRow 0) && here (c.toRow 0)) =
      ((c.accountId, c.effectiveHeight) == (live.accountId, live.height)) := by
    intro c hc
    obtain ⟨acc, hacc, hc⟩ := List.mem_flatMap.mp hc
    have hstored := (h.accs acc hacc).changes c hc
    rw [Bool.eq_iff_iff]
    simp only [mine, here, hstored.active, Bool.and_true, Bool.and_eq_true, beq_iff_eq, Prod.mk.injEq]
    refine and_congr_right (fun haccount => ?_)
    have hnonneg : 0 ≤ asI64 c.effectiveHeight := (hfits acc hacc c hc haccount).2.2.1
    have heq := toNat_asI64 hstored.sized.2.2.1 hnonneg
    show asI64 c.effectiveHeight = live.height ↔ _
    omega
  calc (((db.balanceChanges.select mine).filter here).map (·.change))
      = (((db.balanceChanges.rows.map withoutId).filter mine).filter here).map (·.change) := by
        simp only [Table.select, List.filter_map, List.map_map]
        rfl
    _ = ((((accs.flatMap (·.changes)).map (·.toRow 0)).filter mine).filter here).map
          (·.change) := by
        rw [show db.balanceChanges.rows.map withoutId = _ from h.rows]
    _ = ((accs.flatMap (·.changes)).filter (fun c =>
          (c.accountId, c.effectiveHeight) == (live.accountId, live.height))).map
            (fun c => (c.toRow 0).change) := by
        rw [List.filter_filter, List.filter_map, List.map_map]
        refine congrArg (List.map _) (List.filter_congr (fun c hc => ?_))
        rw [← hselected c hc, Bool.and_comm]
        rfl
    _ = live.changes.map (fun c => (c.toRow 0).change) := by
        have hkey : ∀ acc ∈ accs, ∀ c ∈ acc.changes,
            (c.accountId, c.effectiveHeight) = (acc.accountId, acc.height) := by
          intro acc hacc c hc
          have hstored := (h.accs acc hacc).changes c hc
          exact Prod.ext hstored.account hstored.height
        rw [filter_flatMap_of_keys hkey hkeys hlive]
    _ = live.changes := by
        rw [List.map_congr_left (g := id) (fun c hc => ?_), List.map_id]
        have hstored := (h.accs live hlive).changes c hc
        exact change_toRow hstored.sized (hfits live hlive c hc hstored.account)

/-- When an accumulator is rebuilt. -/
theorem Accounted.rebuiltFrom_iff {reads : ColumnReads} (h : Accounted accs spent db.ledger)
    (hkeys : (accs.map (fun acc => (acc.accountId, acc.height))).Nodup) (hlive : live ∈ accs) :
    live.RebuiltFrom reads db ↔ db.Readable reads live.accountId ∧
      (live.creditBalanceChanges ≠ [] → reads.timestamps = true) ∧
      ∀ debit ∈ live.debitBalanceChanges,
        (reads.timestamps = true ∧ debit.1.balanceDebit ≠ 0) ∧ rebuiltDebit debit = debit := by
  have hstored := h.accs live hlive
  have hdebits : live.debitBalanceChanges.map rebuiltDebit = live.debitBalanceChanges ↔
      ∀ debit ∈ live.debitBalanceChanges, rebuiltDebit debit = debit := by
    conv_lhs => rhs; rw [← List.map_id live.debitBalanceChanges]
    exact List.map_inj_left
  unfold BlockEventAccumulator.RebuiltFrom
  simp only [rebuiltAt_ok]
  constructor
  · rintro ⟨rebuilt, ⟨hread, hrebuilt⟩, hcredits, hsame⟩
    rw [h.changes_eq hkeys hlive hread, BlockEventAccumulator.changes,
      rebuildAccumulator_ok hstored.credits hstored.debits] at hrebuilt
    obtain ⟨hcredit, hdebit, rfl⟩ := hrebuilt
    exact ⟨hread, hcredit, fun debit hd => ⟨hdebit debit hd, hdebits.mp hsame debit hd⟩⟩
  · rintro ⟨hread, hcredit, hdebit⟩
    have hrebuilt : db.rebuildAccumulator reads live.accountId live.height live.changes =
        .ok _ := (rebuildAccumulator_ok hstored.credits hstored.debits).mpr
      ⟨hcredit, fun debit hd => (hdebit debit hd).1, rfl⟩
    rw [← h.changes_eq hkeys hlive hread] at hrebuilt
    exact ⟨_, ⟨hread, hrebuilt⟩, rfl, hdebits.mpr (fun debit hd => (hdebit debit hd).2)⟩

/-- An accumulator that is rebuilt differs from the live one in its block hash only. -/
theorem Accounted.rebuiltAt_eq {reads : ColumnReads} (h : Accounted accs spent db.ledger)
    (hkeys : (accs.map (fun acc => (acc.accountId, acc.height))).Nodup) (hlive : live ∈ accs)
    (hrebuilt : live.RebuiltFrom reads db) :
    db.rebuiltAt reads live.accountId live.height = .ok { live with blockHash := 0 } := by
  have hstored := h.accs live hlive
  obtain ⟨rebuilt, hok, hcredits, hdebits⟩ := hrebuilt
  obtain ⟨hread, hloop⟩ := rebuiltAt_ok.mp hok
  rw [h.changes_eq hkeys hlive hread, BlockEventAccumulator.changes,
    rebuildAccumulator_ok hstored.credits hstored.debits] at hloop
  obtain ⟨-, -, rfl⟩ := hloop
  rw [hok]
  exact congrArg (fun debits => Except.ok { live with
    blockHash := 0
    debitBalanceChanges := debits }) hdebits

/-- The heights of the stored changes are those of the accumulators with changes. -/
theorem Accounted.storedHeights {reads : ColumnReads} {balanceChanges : List BalanceChange}
    (h : Accounted accs spent db.ledger)
    (hstored : db.storedBalanceChanges reads accountId = .ok balanceChanges) (height : Nat) :
    height ∈ balanceChanges.map (·.effectiveHeight) ↔
      ∃ live ∈ accs, (live.accountId = accountId ∧ live.changes ≠ []) ∧ live.height = height := by
  obtain ⟨hread, rfl⟩ := storedBalanceChanges_ok.mp hstored
  have hnone := h.row_iff (P := fun b => b.accountId = accountId → b.active = true →
    b.change.effectiveHeight ≠ height) (fun _ => Iff.rfl)
  have hmem : height ∈ ((db.getAllActiveBalanceChangesByAccountId accountId).map (·.change)).map
      (·.effectiveHeight) ↔ ∃ b ∈ db.balanceChanges.rows, b.accountId = accountId ∧
        b.active = true ∧ b.change.effectiveHeight = height := by
    unfold Db.getAllActiveBalanceChangesByAccountId
    simp only [List.map_map, List.mem_map, (perm_orderBy _ _).mem_iff, Table.mem_select,
      Bool.and_eq_true, beq_iff_eq, Function.comp_apply, and_assoc]
  rw [hmem]
  constructor
  · rintro ⟨b, hb, haccount, hactive, hheight⟩
    by_contra hnot
    refine hnone.mpr (fun acc hacc c hc haccount _ heq => hnot ?_) b hb haccount hactive hheight
    have hchange := (h.accs acc hacc).changes c hc
    have hmine : acc.accountId = accountId := hchange.account.symm.trans haccount
    rw [change_toRow hchange.sized (h.readable_iff.mp hread acc hacc hmine c hc).2] at heq
    exact ⟨acc, hacc, ⟨hmine, List.ne_nil_of_mem hc⟩, hchange.height.symm.trans heq⟩
  · rintro ⟨live, hlive, ⟨hmine, hne⟩, hheight⟩
    obtain ⟨c, hc⟩ := List.exists_mem_of_ne_nil _ hne
    have hchange := (h.accs live hlive).changes c hc
    by_contra hnot
    refine hnone.mp (fun b hb hbacc hbact heq => hnot ⟨b, hb, hbacc, hbact, heq⟩) live hlive c hc
      (hchange.account.trans hmine) hchange.active ?_
    rw [change_toRow hchange.sized (h.readable_iff.mp hread live hlive hmine c hc).2]
    exact hchange.height.trans hheight

end Accounted

/-- The accumulators of a run on one chain account for the database, one for each block. -/
theorem accumulators_accounted (hsized : ∀ call ∈ calls, call.Sized) (hchain : OneChain calls)
    (hrun : Transition.run (BlockCall.step env) Db.empty calls = some db) :
    Accounted (accumulators env calls) (calls.flatMap (·.spends)) db.ledger ∧
      ((accumulators env calls).map (fun acc => (acc.accountId, acc.height))).Nodup := by
  have hempty : Accounted [] [] Db.empty.ledger :=
    ⟨rfl, fun _ h => (by cases h), fun _ h => (by cases h), fun _ h => (by cases h)⟩
  have hspends : ([] ++ calls.flatMap BlockCall.spends).Nodup := hchain.spends
  obtain ⟨haccounted, hheights⟩ := accounted_of_run hsized hspends hempty hrun
  rw [List.nil_append, List.nil_append] at haccounted
  refine ⟨haccounted, ?_⟩
  unfold accumulators
  rw [hheights]
  exact hchain.heights

/-- Where they are rebuilt, `process_all_stored_with_conn` hands on the accumulators that live
    processing has handed on, but for their block hash. -/
theorem processAllStoredWithConn_live {reads : ColumnReads} {ext : Externals} {std : StdOrder}
    {proc : DisplayedTransactionProcessor} (hsized : ∀ call ∈ calls, call.Sized)
    (hchain : OneChain calls)
    (hrun : Transition.run (BlockCall.step env) Db.empty calls = some db)
    (hrebuilt : ∀ live ∈ accumulators env calls, live.accountId = accountId →
      live.RebuiltFrom reads db) :
    ∃ lives : List BlockEventAccumulator,
      lives.Perm ((accumulators env calls).filter
        (fun live => live.accountId = accountId ∧ live.changes ≠ [])) ∧
      proc.processAllStoredWithConn ext std reads accountId db =
        lives.foldlM (fun transactions live =>
          proc.handOn ext std db transactions { live with blockHash := 0 }) ([], []) := by
  obtain ⟨haccounted, hkeys⟩ := accumulators_accounted hsized hchain hrun
  have hread : db.Readable reads accountId := by
    refine haccounted.readable_iff.mpr (fun acc hacc hmine => ?_)
    obtain ⟨hread, -⟩ := (haccounted.rebuiltFrom_iff hkeys hacc).mp (hrebuilt acc hacc hmine)
    exact haccounted.readable_iff.mp hread acc hacc rfl
  have hstored := storedBalanceChanges_ok.mpr ⟨hread, rfl⟩
  obtain ⟨heights, hperm, hreplay⟩ := processAllStoredWithConn_rebuilds ext std proc hstored
  let mine := (accumulators env calls).filter
    (fun live => live.accountId = accountId ∧ live.changes ≠ [])
  have hmine : ∀ live, live ∈ mine ↔ live ∈ accumulators env calls ∧
      live.accountId = accountId ∧ live.changes ≠ [] := by
    intro live
    simp [mine, List.mem_filter]
  -- the account has one accumulator at a height, so the heights tell them apart
  have hheights : heights.Perm (mine.map (·.height)) := by
    refine (List.perm_ext_iff_of_nodup (hperm.nodup_iff.mpr (List.nodup_dedup _)) ?_).mpr
      (fun height => ?_)
    · have hsub : (mine.map (fun acc => (acc.accountId, acc.height))).Nodup :=
        hkeys.sublist (List.filter_sublist.map _)
      have hpairs : mine.map (fun acc => (acc.accountId, acc.height)) =
          (mine.map (·.height)).map (fun height => (accountId, height)) := by
        rw [List.map_map]
        exact List.map_congr_left (fun live hl => Prod.ext ((hmine live).mp hl).2.1 rfl)
      rw [hpairs] at hsub
      exact hsub.of_map _
    · rw [hperm.mem_iff, List.mem_dedup, haccounted.storedHeights hstored, List.mem_map]
      simp only [hmine, and_assoc]
  obtain ⟨lives, hsame, hlives⟩ := List.perm_comp_forall₂ hheights
    (r := fun height live => height = live.height)
    (List.forall₂_map_left_iff.mpr (List.forall₂_same.mpr (fun _ _ => rfl)))
  have heq : heights = lives.map (·.height) :=
    List.forall₂_eq_eq_eq ▸ List.forall₂_map_right_iff.mpr hsame
  refine ⟨lives, hlives, ?_⟩
  rw [hreplay, heq, List.foldlM_map]
  refine foldlM_congr (fun live hl st => ?_) _
  obtain ⟨hacc, haccount, -⟩ := (hmine live).mp (hlives.mem_iff.mp hl)
  have hok : db.rebuiltAt reads accountId live.height = .ok { live with blockHash := 0 } := by
    rw [← haccount]
    exact haccounted.rebuiltAt_eq hkeys hacc (hrebuilt live hacc haccount)
  rw [hok]
  rfl

/-- `process_all_stored_with_conn` rebuilds what the blocks of one chain have accumulated exactly
    when every change is read as what it is and every input has the id of its output. -/
theorem replay_rebuilds_iff {reads : ColumnReads} (hsized : ∀ call ∈ calls, call.Sized)
    (hchain : OneChain calls)
    (hrun : Transition.run (BlockCall.step env) Db.empty calls = some db) :
    (∀ live ∈ accumulators env calls, live.accountId = accountId →
      live.RebuiltFrom reads db) ↔ ReplaysExactly reads db accountId := by
  obtain ⟨haccounted, hkeys⟩ := accumulators_accounted hsized hchain hrun
  have hiff : ∀ live ∈ accumulators env calls, live.RebuiltFrom reads db ↔ _ :=
    fun live hlive => haccounted.rebuiltFrom_iff hkeys hlive
  have hexact := haccounted.row_iff
    (P := fun b => b.accountId = accountId → b.active = true →
      b.Readable reads ∧ reads.timestamps = true ∧ ∀ inputId ∈ b.causedByInputId,
        b.balanceDebit ≠ 0 ∧ ∀ i ∈ db.inputs.rows, i.id = inputId → i.outputId = i.id)
    (fun _ => Iff.rfl)
  rw [ReplaysExactly, hexact]
  constructor
  · intro hrebuilt acc hacc c hc haccount _
    have hstored := haccounted.accs acc hacc
    have hmine : acc.accountId = accountId := (hstored.changes c hc).account.symm.trans haccount
    obtain ⟨hread, hcredit, hdebit⟩ := (hiff acc hacc).mp (hrebuilt acc hacc hmine)
    have hrow := haccounted.readable_iff.mp hread acc hacc rfl c hc
    have hchange := hstored.changes c hc
    rcases List.mem_append.mp hc with hc | hc
    · obtain ⟨credit, hmem, rfl⟩ := List.mem_map.mp hc
      refine ⟨hrow, hcredit (List.ne_nil_of_mem hmem), fun inputId hinput => ?_⟩
      have hnone : credit.1.causedByInputId = some inputId := hinput
      rw [(hstored.credits credit hmem).noInput] at hnone
      cases hnone
    · obtain ⟨debit, hmem, rfl⟩ := List.mem_map.mp hc
      obtain ⟨⟨hts, hnonzero⟩, hsame⟩ := hdebit debit hmem
      exact ⟨hrow, hts,
        ((hstored.debits debit hmem).exact_iff hchange.sized.2.1).mp ⟨hnonzero, hsame⟩⟩
  · intro hreplays live hlive haccount
    have hstored := haccounted.accs live hlive
    have hreplay := fun c hc => hreplays live hlive c hc
      ((hstored.changes c hc).account.trans haccount) (hstored.changes c hc).active
    refine (hiff live hlive).mpr ⟨?_, fun hne => ?_, fun debit hd => ?_⟩
    · refine haccounted.readable_iff.mpr (fun acc hacc hmine c hc => ?_)
      have hchange := (haccounted.accs acc hacc).changes c hc
      exact (hreplays acc hacc c hc ((hchange.account.trans hmine).trans haccount) hchange.active).1
    · obtain ⟨credit, hcredit⟩ := List.exists_mem_of_ne_nil _ hne
      exact (hreplay credit.1 (List.mem_append_left _ (List.mem_map_of_mem hcredit))).2.1
    · have hc : debit.1 ∈ live.changes := List.mem_append_right _ (List.mem_map_of_mem hd)
      obtain ⟨-, hts, hinput⟩ := hreplay debit.1 hc
      have hchange := hstored.changes debit.1 hc
      obtain ⟨hnonzero, hsame⟩ := ((hstored.debits debit hd).exact_iff hchange.sized.2.1).mpr hinput
      exact ⟨⟨hts, hnonzero⟩, hsame⟩

end Runs

/-- Outputs of these values in one block. -/
def receivedAbove (values : List Nat) : List BlockCall :=
  let outputs := values.zipIdx.map (fun (value, i) =>
    (500 + i, ({ outputHash := 500 + i, value } : WalletOutput), 0))
  [⟨BlockProcessor.withEventSender [(1, 7)] 3, ⟨10, 110, outputs, [], 1000⟩, 1, 1000⟩]

/-- Outputs of these values in one block, of which the next block spends one. -/
def spentAbove (values : List Nat) (spent : FixedHash) : List BlockCall :=
  receivedAbove values ++
    [⟨BlockProcessor.withEventSender [(1, 7)] 3, ⟨11, 111, [], [spent], 1120⟩, 1, 1120⟩]

theorem replay_spentAbove : ∃ db,
    Transition.run (BlockCall.step plainEnv) Db.empty (spentAbove [5] 500) = some db ∧
      db.inputs.rows.length = 1 ∧ ∀ reads : ColumnReads,
        ((∀ live ∈ accumulators plainEnv (spentAbove [5] 500), live.accountId = 1 →
          live.RebuiltFrom reads db) ↔ ReplaysExactly reads db 1) ∧
        (ReplaysExactly reads db 1 ↔ reads.newtypes = true ∧ reads.timestamps = true) := by
  obtain ⟨db, hrun, hq⟩ := Transition.exists_run_of_any (f := BlockCall.step plainEnv)
    (s := Db.empty) (l := spentAbove [5] 500)
    (q := fun db => decide (db.inputs.rows.length = 1 ∧ ∀ newtypes timestamps : Bool,
      ReplaysExactly ⟨newtypes, timestamps⟩ db 1 ↔ newtypes = true ∧ timestamps = true))
    (by decide +kernel)
  obtain ⟨hlength, hexact⟩ := of_decide_eq_true hq
  refine ⟨db, hrun, hlength, fun reads => ⟨?_, hexact reads.newtypes reads.timestamps⟩⟩
  exact replay_rebuilds_iff (by decide) ⟨by decide, by decide⟩ hrun

/-- The outputs that the rebuilt debits name, or why there are none. -/
def Db.rebuiltSpends (reads : ColumnReads) (db : Db) (accountId : AccountId) (height : Nat) :
    List Id ⊕ String :=
  match db.rebuiltAt reads accountId height with
  | .ok rebuilt => .inl (rebuilt.debitBalanceChanges.map (·.2.outputId))
  | .error (.missingError message) => .inr message
  | .error (.dbError (.serdeRusqlite message)) => .inr message
  | .error _ => .inr ""

theorem BlockEventAccumulator.RebuiltFrom.spends {reads : ColumnReads} {db : Db}
    {live : BlockEventAccumulator} (h : live.RebuiltFrom reads db) :
    db.rebuiltSpends reads live.accountId live.height =
      .inl (live.debitBalanceChanges.map (·.2.outputId)) := by
  obtain ⟨rebuilt, hrebuilt, -, hdebits⟩ := h
  simp [Db.rebuiltSpends, hrebuilt, hdebits]

/-- The run stores what it accumulates for account 1 at the height, with these outputs spent; the
    replay does not rebuild it. -/
def ReplayFails (reads : ColumnReads) (calls : List BlockCall) (height : Nat) (spends : List Id)
    (outcome : List Id ⊕ String) : Prop :=
  ∃ db live, Transition.run (BlockCall.step plainEnv) Db.empty calls = some db ∧
    (live ∈ accumulators plainEnv calls ∧ live.accountId = 1 ∧ live.height = height ∧
      live.debitBalanceChanges.map (·.2.outputId) = spends) ∧
    ¬live.RebuiltFrom reads db ∧ db.rebuiltSpends reads 1 height = outcome

theorem replayFails_of_outcome {reads : ColumnReads} {calls : List BlockCall} {height : Nat}
    {spends : List Id} {outcome : List Id ⊕ String} (hne : outcome ≠ .inl spends)
    (houtcome : (Transition.run (BlockCall.step plainEnv) Db.empty calls).any
      (fun db => decide (db.rebuiltSpends reads 1 height = outcome)) = true)
    (hlive : ∃ live ∈ accumulators plainEnv calls, live.accountId = 1 ∧ live.height = height ∧
      live.debitBalanceChanges.map (·.2.outputId) = spends) :
    ReplayFails reads calls height spends outcome := by
  obtain ⟨db, hrun, hq⟩ := Transition.exists_run_of_any houtcome
  have hspends := of_decide_eq_true hq
  obtain ⟨live, hmem, haccount, hheight, hspent⟩ := hlive
  refine ⟨db, live, hrun, ⟨hmem, haccount, hheight, hspent⟩, fun hrebuilt => ?_, hspends⟩
  have hinl := hrebuilt.spends
  rw [haccount, hheight, hspent, hspends] at hinl
  exact hne hinl

/-- Where newtypes are not read, one received output stops the replay. Where they are, a spend of
    the value 0 stops it, and the spend of the second of two outputs, by the first input, is rebuilt
    as one of the first output. -/
theorem replay_fails :
    (∀ timestamps : Bool, ReplayFails ⟨false, timestamps⟩ (receivedAbove [5]) 10 []
      (.inr "invalid type: integer, expected tuple struct MicroMinotari")) ∧
    ReplayFails ⟨true, true⟩ (spentAbove [0] 500) 11 [1]
      (.inr "Credit balance change has no associated input") ∧
    ReplayFails ⟨true, true⟩ (spentAbove [5, 6] 501) 11 [2] (.inl [1]) := by
  refine ⟨fun timestamps => ?_, ?_, ?_⟩
  · refine replayFails_of_outcome (by decide) ?_ (by decide +kernel)
    cases timestamps <;> decide +kernel
  · exact replayFails_of_outcome (by decide) (by decide +kernel) (by decide +kernel)
  · exact replayFails_of_outcome (by decide) (by decide +kernel) (by decide +kernel)

end MinotariWallet

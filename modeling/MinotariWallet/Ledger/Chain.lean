import MinotariWallet.Ledger.Accounts
import MinotariWallet.Lib.CoinChain

set_option autoImplicit false

/-! # The ledger is a function of the chain

Rollbacks delete softly, reverse what was booked and keep every row, so the tables of a wallet show
its whole history. What it owns is all the same a function of the blocks that stand, those it has
scanned and not rolled back: the undeleted outputs are the coins of this chain and the undeleted
inputs its spends. -/

namespace MinotariWallet

open Sql Exec

/-! ## What an account has -/

/-- What the ledger knows of a coin besides its hash and its height. -/
structure CoinData where
  output : WalletOutput
  value : Int
  minedInBlockHash : FixedHash
deriving DecidableEq

abbrev ChainBlock := Coins.Block FixedHash FixedHash CoinData

def OutputRow.coin (o : OutputRow) : Coins.Coin FixedHash CoinData where
  hash := o.outputHash
  data := ⟨o.walletOutput, o.value, o.minedInBlockHash⟩
  height := o.minedInBlockHeight

/-- The hash of the output that an input spends. -/
def spentHash (outputs : AutoTable OutputRow) (outputId : Id) : FixedHash :=
  ((outputs.get? outputId).map (·.outputHash)).getD 0

def InputRow.spend (outputs : AutoTable OutputRow) (i : InputRow) : Coins.Spend FixedHash where
  hash := spentHash outputs i.outputId
  height := i.minedInBlockHeight

namespace Ledger

/-- The undeleted outputs and inputs of the account. -/
def booksOf (accountId : AccountId) (L : Ledger) : Coins.Books FixedHash CoinData where
  coins := (L.outputs.select (fun o => o.accountId == accountId && o.active)).map OutputRow.coin
  spends := (L.inputs.select (fun i => i.accountId == accountId && i.active)).map
    (InputRow.spend L.outputs)

/-- The recorded blocks of the account. -/
def tipsOf (accountId : AccountId) (L : Ledger) : List (Int × FixedHash) :=
  (L.scannedTipBlocks.select (fun b => b.accountId == accountId)).map (fun b => (b.height, b.hash))

end Ledger

def chainTips (chain : List ChainBlock) : List (Int × FixedHash) :=
  chain.map (fun b => (b.height, b.name))

/-- The outputs of a list that are the account's, with what the ledger will know of them. -/
def BlockProcessor.coinsFor (bp : BlockProcessor) (accountId : AccountId) (blockHash : FixedHash)
    (walletOutputs : List (FixedHash × WalletOutput × Nat)) : List (FixedHash × CoinData) :=
  (walletOutputs.filter (fun w => bp.walletIndexToAccountId[w.2.2]? == some accountId)).map
    (fun w => (w.1, ⟨w.2.1, asI64 w.2.1.value, blockHash⟩))

/-- What `process_block` takes from a block for an account. -/
def BlockScanResult.forAccount (bp : BlockProcessor) (accountId : AccountId)
    (block : BlockScanResult) : ChainBlock where
  height := asI64 block.height
  name := block.blockHash
  found := bp.coinsFor accountId block.blockHash block.walletOutputs
  spent := block.inputs

/-- An undeleted input spends an output that is there. -/
def Ledger.InputsRefer (L : Ledger) : Prop :=
  ∀ i ∈ L.inputs.rows, i.active = true → ∃ o ∈ L.outputs.rows, o.id = i.outputId

/-- The account is where the chain leaves it. -/
structure Ledger.Follows (accountId : AccountId) (chain : List ChainBlock) (L : Ledger) : Prop where
  increasing : chain.Pairwise (fun b b' => b.height < b'.height)
  tips : L.tipsOf accountId = chainTips chain
  books : L.booksOf accountId = Coins.replay chain
  refs : L.InputsRefer

/-! ## Outputs that age -/

section Outputs

variable {outputs outputs' : AutoTable OutputRow} {L : Ledger} {accountId : AccountId}
  {chain : List ChainBlock}

theorem spentHash_eq {o : OutputRow} (ho : o ∈ outputs.rows) :
    spentHash outputs o.id = o.outputHash := by
  have hget : outputs.get? o.id = some o := Table.get?_eq_some.mpr ⟨ho, rfl⟩
  simp [spentHash, hget]

theorem spentHash_of_ages (hkept : outputs.Retains OutputRow.Ages outputs'.toTable)
    {outputId : Id} (hexists : ∃ o ∈ outputs.rows, o.id = outputId) :
    spentHash outputs' outputId = spentHash outputs outputId := by
  obtain ⟨o, ho, rfl⟩ := hexists
  obtain ⟨o', ho', hid, hage⟩ := hkept o ho
  have hid' : o'.id = o.id := hid
  rw [spentHash_eq ho, ← hid', spentHash_eq ho', hage.columns.2.2]

theorem OutputRow.Ages.coin {o o' : OutputRow} (h : o.Ages o') : o'.coin = o.coin := by
  have hfacts : o'.facts.coin = o.facts.coin := by rw [h.facts]
  exact hfacts

/-- The spends are the same while the outputs age. -/
theorem spends_of_ages (hkept : L.outputs.Retains OutputRow.Ages outputs.toTable)
    (hrefs : L.InputsRefer) (rows : List InputRow)
    (hrows : ∀ i ∈ rows, i ∈ L.inputs.rows ∧ i.active = true) :
    rows.map (InputRow.spend outputs) = rows.map (InputRow.spend L.outputs) := by
  refine List.map_congr_left (fun i hi => ?_)
  obtain ⟨hi, hactive⟩ := hrows i hi
  unfold InputRow.spend
  rw [spentHash_of_ages hkept (hrefs i hi hactive)]

theorem mem_activeInputs {i : InputRow}
    (hi : i ∈ L.inputs.select (fun i => i.accountId == accountId && i.active)) :
    i ∈ L.inputs.rows ∧ i.active = true := by
  obtain ⟨hi, hp⟩ := Table.mem_select.mp hi
  simp only [Bool.and_eq_true] at hp
  exact ⟨hi, hp.2⟩

theorem Ledger.InputsRefer.of_ages (hrefs : L.InputsRefer)
    (hkept : L.outputs.Retains OutputRow.Ages outputs.toTable) :
    Ledger.InputsRefer { L with outputs } := by
  intro i hi hactive
  obtain ⟨o, ho, hid⟩ := hrefs i hi hactive
  obtain ⟨o', ho', hid', -⟩ := hkept o ho
  exact ⟨o', ho', (show o'.id = o.id from hid').trans hid⟩

theorem coins_updateWhere {p : OutputRow → Bool} {f : OutputRow → OutputRow}
    (hage : ∀ o, p o = true → o.Ages (f o)) (hactive : ∀ o, p o = true → (f o).active = o.active)
    (hf : ∀ o, key (f o) = key o) :
    ((outputs.updateWhere p f hf).select (fun o => o.accountId == accountId && o.active)).map
      OutputRow.coin =
    (outputs.select (fun o => o.accountId == accountId && o.active)).map OutputRow.coin :=
  Table.map_select_updateWhere (t := outputs.toTable)
    (fun o hp => by simp [(hage o hp).columns.2.1, hactive o hp]) (fun o hp => (hage o hp).coin) hf

/-- An `UPDATE` of outputs that deletes none. -/
theorem Ledger.booksOf_updateOutputs {p : OutputRow → Bool} {f : OutputRow → OutputRow}
    (hrefs : L.InputsRefer) (hage : ∀ o, p o = true → o.Ages (f o))
    (hactive : ∀ o, p o = true → (f o).active = o.active) (hf : ∀ o, key (f o) = key o) :
    Ledger.booksOf accountId { L with outputs := L.outputs.updateWhere p f hf } =
      L.booksOf accountId := by
  refine Coins.Books.ext (coins_updateWhere hage hactive hf) ?_
  exact spends_of_ages (Table.retains_updateWhere _ hage hf) hrefs _ (fun _ hi => mem_activeInputs hi)

theorem Ledger.Follows.updateOutputs (h : L.Follows accountId chain) {p : OutputRow → Bool}
    {f : OutputRow → OutputRow} (hage : ∀ o, p o = true → o.Ages (f o))
    (hactive : ∀ o, p o = true → (f o).active = o.active) (hf : ∀ o, key (f o) = key o) :
    Ledger.Follows accountId chain { L with outputs := L.outputs.updateWhere p f hf } where
  increasing := h.increasing
  tips := h.tips
  books := (Ledger.booksOf_updateOutputs h.refs hage hactive hf).trans h.books
  refs := h.refs.of_ages (Table.retains_updateWhere _ hage hf)

end Outputs

/-! ## A block of the account -/

/-- While the next block of the chain is processed: what it has still to find and to spend is not in
    the books. -/
structure MidChain (accountId : AccountId) (chain : List ChainBlock) (b : ChainBlock)
    (found : List (FixedHash × CoinData)) (spent : List FixedHash) (L : Ledger) : Prop where
  tips : L.tipsOf accountId = chainTips chain
  coins : (L.booksOf accountId).coins ++
      found.map (fun c => { hash := c.1, data := c.2, height := b.height }) =
    ((Coins.replay chain).push b).coins
  spends : (L.booksOf accountId).spends ++ (spent.filter (fun h =>
      ((Coins.replay chain).push b).coins.any (fun c => c.hash == h))).map
        (fun h => { hash := h, height := b.height }) =
    ((Coins.replay chain).push b).spends
  refs : L.InputsRefer

namespace MidChain

variable {L : Ledger} {accountId : AccountId} {chain : List ChainBlock} {b : ChainBlock}
  {found : List (FixedHash × CoinData)} {spent : List FixedHash}

theorem start (h : L.Follows accountId chain) (b : ChainBlock) :
    MidChain accountId chain b b.found b.spent L where
  tips := h.tips
  coins := by rw [h.books]; rfl
  spends := by rw [h.books]; rfl
  refs := h.refs

theorem books (h : MidChain accountId chain b [] [] L) :
    L.booksOf accountId = Coins.replay (chain ++ [b]) := by
  rw [Coins.replay_concat]
  refine Coins.Books.ext ?_ ?_
  · simpa using h.coins
  · simpa using h.spends

theorem insertOutput {c : FixedHash × CoinData} (h : MidChain accountId chain b (c :: found) spent L)
    {m : Id → OutputRow} (hacc : (m (L.outputs.seq + 1)).accountId = accountId)
    (hactive : (m (L.outputs.seq + 1)).active = true)
    (hcoin : (m (L.outputs.seq + 1)).coin = { hash := c.1, data := c.2, height := b.height })
    (hmk : ∀ k, key (m k) = k) :
    MidChain accountId chain b found spent { L with outputs := L.outputs.insert m hmk } where
  tips := h.tips
  coins := by
    have hselect := Table.select_insert (t := L.outputs)
      (q := fun o => o.accountId == accountId && o.active) (by simp [hacc, hactive]) hmk
    have hcoins := h.coins
    simp only [Ledger.booksOf, List.map_cons] at hcoins ⊢
    rw [hselect, List.map_append, List.map_singleton, hcoin, List.append_assoc]
    exact hcoins
  spends := by
    have hsame := spends_of_ages (L := L) (Table.retains_insert L.outputs hmk) h.refs
      (L.inputs.select (fun i => i.accountId == accountId && i.active))
      (fun _ hi => mem_activeInputs hi)
    have hspends := h.spends
    simp only [Ledger.booksOf] at hspends ⊢
    rw [hsame]
    exact hspends
  refs := h.refs.of_ages (Table.retains_insert _ hmk)

theorem updateOutputs (h : MidChain accountId chain b found spent L) {p : OutputRow → Bool}
    {f : OutputRow → OutputRow} (hage : ∀ o, p o = true → o.Ages (f o))
    (hactive : ∀ o, p o = true → (f o).active = o.active) (hf : ∀ o, key (f o) = key o) :
    MidChain accountId chain b found spent
      { L with outputs := L.outputs.updateWhere p f hf } where
  tips := h.tips
  coins := by rw [Ledger.booksOf_updateOutputs h.refs hage hactive hf]; exact h.coins
  spends := by rw [Ledger.booksOf_updateOutputs h.refs hage hactive hf]; exact h.spends
  refs := h.refs.of_ages (Table.retains_updateWhere _ hage hf)

/-- A hash that no undeleted output of the account has. -/
theorem ignore {hash : FixedHash} (h : MidChain accountId chain b [] (hash :: spent) L)
    (hnone : ∀ o ∈ L.outputs.rows, o.accountId = accountId → o.active = true →
      o.outputHash ≠ hash) : MidChain accountId chain b [] spent L where
  tips := h.tips
  coins := h.coins
  spends := by
    have hcoins : (L.booksOf accountId).coins = ((Coins.replay chain).push b).coins := by
      simpa using h.coins
    have hunknown : ((Coins.replay chain).push b).coins.any (fun c => c.hash == hash) = false := by
      rw [← hcoins, List.any_eq_false]
      intro c hc
      obtain ⟨o, ho, rfl⟩ := List.mem_map.mp hc
      obtain ⟨ho, hp⟩ := Table.mem_select.mp ho
      simp only [Bool.and_eq_true, beq_iff_eq] at hp
      simpa [OutputRow.coin] using hnone o ho hp.1 hp.2
    have hspends := h.spends
    rwa [List.filter_cons, if_neg (by simp [hunknown])] at hspends
  refs := h.refs

theorem insertInput {hash : FixedHash} (h : MidChain accountId chain b [] (hash :: spent) L)
    {o : OutputRow} (ho : o ∈ L.outputs.rows) (hoacc : o.accountId = accountId)
    (hoactive : o.active = true) (hhash : o.outputHash = hash) {m : Id → InputRow}
    (hacc : (m (L.inputs.seq + 1)).accountId = accountId)
    (hactive : (m (L.inputs.seq + 1)).active = true)
    (hout : (m (L.inputs.seq + 1)).outputId = o.id)
    (hheight : (m (L.inputs.seq + 1)).minedInBlockHeight = b.height)
    (hmk : ∀ k, key (m k) = k) :
    MidChain accountId chain b [] spent { L with inputs := L.inputs.insert m hmk } where
  tips := h.tips
  coins := h.coins
  spends := by
    have hcoins : (L.booksOf accountId).coins = ((Coins.replay chain).push b).coins := by
      simpa using h.coins
    have hknown : ((Coins.replay chain).push b).coins.any (fun c => c.hash == hash) = true := by
      rw [← hcoins, List.any_eq_true]
      exact ⟨o.coin, List.mem_map.mpr ⟨o, Table.mem_select.mpr ⟨ho, by simp [hoacc, hoactive]⟩, rfl⟩,
        by simp [OutputRow.coin, hhash]⟩
    have hselect := Table.select_insert (t := L.inputs)
      (q := fun i => i.accountId == accountId && i.active) (by simp [hacc, hactive]) hmk
    have hspend : (m (L.inputs.seq + 1)).spend L.outputs = { hash, height := b.height } := by
      rw [InputRow.spend, hout, spentHash_eq ho, hhash, hheight]
    have hspends := h.spends
    rw [List.filter_cons, if_pos hknown, List.map_cons] at hspends
    simp only [Ledger.booksOf] at hspends ⊢
    rw [hselect, List.map_append, List.map_singleton, hspend, List.append_assoc]
    exact hspends
  refs := by
    intro i hi hia
    rcases (AutoTable.mem_insert hmk).mp hi with hi | rfl
    · exact h.refs i hi hia
    · exact ⟨o, ho, hout.symm⟩

end MidChain

section Block

variable {env : ScanEnv} {bp : BlockProcessor} {now : Timestamp} {block : BlockScanResult}
  {accountId : AccountId} {chain : List ChainBlock}

/-- A block of the account: the books of `Conservation` say that no output is spent twice, so that
    every debit is a spend of the chain. -/
theorem midChain_blockRule (env : ScanEnv) (bp : BlockProcessor) (now : Timestamp)
    (block : BlockScanResult) (accountId : AccountId) (chain : List ChainBlock) :
    BlockRule env bp now block accountId
      (fun rest L => ((MidBlock block accountId L ∧ ToSpend accountId block.inputs L) ∧
          ∀ w ∈ rest, w.2.1.value < 2 ^ 63) ∧
        MidChain accountId chain (block.forAccount bp accountId)
          (bp.coinsFor accountId block.blockHash rest) block.inputs L)
      (fun rest L => (MidBlock block accountId L ∧ ToSpend accountId rest L) ∧
        MidChain accountId chain (block.forAccount bp accountId) [] rest L)
      (fun _ => True) where
  skip w rest L hidx h := by
    refine ⟨(ledgerBooked_blockRule env bp now block accountId).skip w rest L hidx h.1, ?_⟩
    have hmid := h.2
    rwa [BlockProcessor.coinsFor, List.filter_cons, if_neg (by simpa using hidx)] at hmid
  credit w rest key memo payref id db db' hidx hins h := by
    refine ⟨(ledgerBooked_blockRule env bp now block accountId).credit w rest key memo payref id db
      db' hidx hins h.1, ?_⟩
    obtain ⟨timestamp, -, -, -, rfl⟩ := insertOutput_ok hins
    have hmid := h.2
    rw [BlockProcessor.coinsFor, List.filter_cons, if_pos (by simpa using hidx), List.map_cons]
      at hmid
    have hinserted := hmid.insertOutput (m := newOutputRow env.toExternals accountId key w.1 w.2.1
      block.height block.blockHash timestamp memo.parsed memo.hex payref w.2.1.isBurned) rfl rfl rfl
      (by intro _; rfl)
    exact ⟨hinserted.tips, hinserted.coins, hinserted.spends, hinserted.refs⟩
  outputsDone L h := ⟨h.1.1, h.2⟩
  ignore hash rest db hinfo h := by
    refine ⟨(ledgerBooked_blockRule env bp now block accountId).ignore hash rest db hinfo h.1,
      h.2.ignore (fun o ho hacc hactive hhash => ?_)⟩
    have hnone := Option.map_eq_none_iff.mp hinfo
    have hno := List.find?_eq_none.mp hnone o ho
    simp [hacc, hactive, hhash] at hno
  debit hash rest info timestamp inputId db hinfo hid h := by
    refine ⟨(ledgerBooked_blockRule env bp now block accountId).debit hash rest info timestamp
      inputId db hinfo hid h.1, ?_⟩
    obtain ⟨o, ho, hactive, hacc, hhash, rfl⟩ := getOutputInfoByHashForAccount_some hinfo
    rcases getActiveInputId_insertOrIgnoreInput hid with ⟨⟨i, hi, hia, hio⟩, -⟩ | ⟨-, -, heq⟩
    · exact absurd hio (h.1.2.2 o ho hactive hacc (by simp [hhash]) i hi hia)
    · have hspent := h.2.insertInput ho hacc hactive hhash
        (m := newInputRow accountId o.id block.height block.blockHash timestamp) rfl rfl rfl rfl
        (by intro _; rfl)
      have hmarked := hspent.updateOutputs (p := fun o' => o'.id == o.id)
        (f := fun o' => { o' with status := .spent }) (fun o' _ => o'.ages_spent)
        (fun _ _ => rfl) (by intro _; rfl)
      rw [heq]
      exact ⟨hmarked.tips, hmarked.coins, hmarked.spends, hmarked.refs⟩
  record _ _ := trivial
  confirm _ _ _ := trivial

/-- The block is recorded: it goes on top of the chain. -/
theorem follows_insertScannedTipBlock {db : Db}
    (hmid : MidBlock block accountId db.ledger)
    (h : MidChain accountId chain (block.forAccount bp accountId) [] [] db.ledger)
    (hchain : chain.Pairwise (fun b b' => b.height < b'.height)) :
    (db.insertScannedTipBlock accountId (asI64 block.height) block.blockHash).ledger.Follows accountId
      (chain ++ [block.forAccount bp accountId]) := by
  have htip : ∀ b ∈ chain, b.height < asI64 block.height := by
    intro b hb
    have hmem : (b.height, b.name) ∈ db.ledger.tipsOf accountId := by
      rw [h.tips]
      exact List.mem_map_of_mem hb
    obtain ⟨tip, htip, heq⟩ := List.mem_map.mp hmem
    obtain ⟨htip, hacc⟩ := Table.mem_select.mp htip
    have hlt := hmid.aboveTip tip htip (by simpa using hacc)
    rwa [(Prod.mk.inj heq).1] at hlt
  have hnew : db.scannedTipBlocks.exists? (fun b => b.accountId == accountId &&
      b.height == asI64 block.height && b.hash == block.blockHash) = false := by
    rw [← Bool.not_eq_true]
    intro hex
    obtain ⟨tip, htip, hp⟩ := Table.exists?_eq_true.mp hex
    simp only [Bool.and_eq_true, beq_iff_eq] at hp
    exact absurd hp.1.2 (Int.ne_of_lt (hmid.aboveTip tip htip hp.1.1))
  unfold Db.insertScannedTipBlock
  rw [if_neg (by simp [hnew])]
  refine ⟨?_, ?_, h.books, h.refs⟩
  · refine List.pairwise_append.mpr ⟨hchain, by simp, fun b hb b' hb' => ?_⟩
    obtain rfl := List.mem_singleton.mp hb'
    exact htip b hb
  · have htips := h.tips
    have hselect := Table.select_insert (t := db.scannedTipBlocks)
      (q := fun b => b.accountId == accountId) (m := fun id => {
        id, accountId
        height := asI64 block.height
        hash := block.blockHash }) (by simp) (by intro _; rfl)
    simp only [Ledger.tipsOf, chainTips, Db.ledger, List.map_append] at htips ⊢
    rw [hselect, List.map_append, htips]
    rfl

/-- A block of the account goes on top of its chain. -/
theorem processBlock_follows {db db' : Db} {outcome : BlockOutcome} (hbooked : LedgerBooked db.ledger)
    (hgood : WellFormedBlock db block accountId) (h : db.ledger.Follows accountId chain)
    (hrun : runOk (bp.processBlock env now block accountId) db = some (outcome, db')) :
    db'.ledger.Follows accountId (chain ++ [block.forAccount bp accountId]) := by
  obtain ⟨htip, hnodup, hspent, hvalues⟩ := hgood
  refine (processBlock_ensures_of (midChain_blockRule env bp now block accountId chain)
    (R := Ledger.Follows accountId (chain ++ [block.forAccount bp accountId]))
    (fun db₁ hmid => follows_insertScannedTipBlock hmid.1.1 hmid.2 h.increasing)
    (confirmations_ensures (P := fun _ => Ledger.Follows accountId
      (chain ++ [block.forAccount bp accountId])) (fun db₁ hash _ hfollows => ?_))).of_runOk
    ⟨⟨⟨⟨hbooked.1, fun o ho hactive => Or.inl (hbooked.2 o ho hactive), htip⟩, hnodup, hspent⟩,
      hvalues⟩, .start h _⟩ hrun
  exact hfollows.updateOutputs (p := fun o => o.outputHash == hash)
    (f := fun o => { o with
      confirmedHeight := some (asI64 block.height)
      confirmedHash := some block.blockHash }) (fun o _ => o.ages_confirmed _ _) (fun _ _ => rfl)
    (by intro _; rfl)

end Block

/-! ## A block of another account -/

section Other

variable {accountId other : AccountId} {chain : List ChainBlock} {L : Ledger}

theorem Ledger.Follows.insertOutput (h : L.Follows accountId chain) {m : Id → OutputRow}
    (hacc : (m (L.outputs.seq + 1)).accountId ≠ accountId) (hmk : ∀ k, key (m k) = k) :
    Ledger.Follows accountId chain { L with outputs := L.outputs.insert m hmk } where
  increasing := h.increasing
  tips := h.tips
  books := by
    have hselect := Table.select_insert_outside (t := L.outputs)
      (q := fun o => o.accountId == accountId && o.active) (by simp [hacc]) hmk
    rw [← h.books]
    exact Coins.Books.ext (by simp only [Ledger.booksOf, hselect])
      (spends_of_ages (L := L) (Table.retains_insert L.outputs hmk) h.refs _
        (fun _ hi => mem_activeInputs hi))
  refs := h.refs.of_ages (Table.retains_insert _ hmk)

theorem Ledger.Follows.insertInput (h : L.Follows accountId chain) {m : Id → InputRow}
    (hacc : (m (L.inputs.seq + 1)).accountId ≠ accountId)
    (hout : ∃ o ∈ L.outputs.rows, o.id = (m (L.inputs.seq + 1)).outputId)
    (hmk : ∀ k, key (m k) = k) :
    Ledger.Follows accountId chain { L with inputs := L.inputs.insert m hmk } where
  increasing := h.increasing
  tips := h.tips
  books := by
    have hselect := Table.select_insert_outside (t := L.inputs)
      (q := fun i => i.accountId == accountId && i.active) (by simp [hacc]) hmk
    rw [← h.books]
    simp only [Ledger.booksOf, hselect]
  refs := by
    intro i hi hactive
    rcases (AutoTable.mem_insert hmk).mp hi with hi | rfl
    · exact h.refs i hi hactive
    · exact hout

theorem follows_blockRule (env : ScanEnv) (bp : BlockProcessor) (now : Timestamp)
    (block : BlockScanResult) (chain : List ChainBlock) (hne : other ≠ accountId) :
    BlockRule env bp now block other (fun _ => Ledger.Follows accountId chain)
      (fun _ => Ledger.Follows accountId chain) (Ledger.Follows accountId chain) where
  skip _ _ _ _ h := h
  credit w rest key memo payref id db db' _ hins h := by
    obtain ⟨timestamp, -, -, -, rfl⟩ := insertOutput_ok hins
    have hinserted := h.insertOutput (m := newOutputRow env.toExternals other key w.1 w.2.1
      block.height block.blockHash timestamp memo.parsed memo.hex payref w.2.1.isBurned) hne
      (by intro _; rfl)
    exact ⟨hinserted.increasing, hinserted.tips, hinserted.books, hinserted.refs⟩
  outputsDone _ h := h
  ignore _ _ _ _ h := h
  debit hash rest info timestamp inputId db hinfo _ h := by
    obtain ⟨o, ho, -, -, -, rfl⟩ := getOutputInfoByHashForAccount_some hinfo
    have hinput : (db.insertOrIgnoreInput other o.id block.height block.blockHash
        timestamp).ledger.Follows accountId chain := by
      unfold Db.insertOrIgnoreInput
      split
      · exact h
      · exact h.insertInput (m := newInputRow other o.id block.height block.blockHash timestamp) hne
          ⟨o, ho, rfl⟩ (by intro _; rfl)
    have hmarked := hinput.updateOutputs (p := fun o' => o'.id == o.id)
      (f := fun o' => { o' with status := .spent }) (fun o' _ => o'.ages_spent) (fun _ _ => rfl)
      (by intro _; rfl)
    exact ⟨hmarked.increasing, hmarked.tips, hmarked.books, hmarked.refs⟩
  record db h := by
    unfold Db.insertScannedTipBlock
    split
    · exact h
    · refine ⟨h.increasing, ?_, h.books, h.refs⟩
      have htips := h.tips
      have hselect := Table.select_insert_outside (t := db.scannedTipBlocks)
        (q := fun b => b.accountId == accountId) (m := fun id => {
          id
          accountId := other
          height := asI64 block.height
          hash := block.blockHash }) (by simp [hne]) (by intro _; rfl)
      simp only [Ledger.tipsOf, Db.ledger] at htips ⊢
      rw [hselect, htips]
  confirm db hash h :=
    h.updateOutputs (p := fun o => o.outputHash == hash)
      (f := fun o => { o with
        confirmedHeight := some (asI64 block.height)
        confirmedHash := some block.blockHash }) (fun o _ => o.ages_confirmed _ _) (fun _ _ => rfl)
      (by intro _; rfl)

end Other

/-! ## Rollbacks -/

section Rollback

variable {accountId other : AccountId} {chain : List ChainBlock} {height : Nat} {now : Timestamp}
  {db db' : Db}

theorem retains_setOutputsDeleted (accountId : AccountId) (height : Nat) (now : Timestamp)
    (db : Db) :
    db.outputs.Retains OutputRow.Ages (db.setOutputsDeleted accountId height now).outputs.toTable :=
  Table.retains_updateWhere _ (fun _ hp => OutputRow.ages_deleted hp now) (by intro _; rfl)

/-- What a rollback leaves undeleted still refers to what is there. -/
theorem inputsRefer_of_rolledBack (h : db.ledger.InputsRefer)
    (hrolled : RolledBack other height now db db') : db'.ledger.InputsRefer := by
  intro i hi hactive
  have hi' : i ∈ (db.setInputsDeleted other height now).inputs.rows := hrolled.inputs ▸ hi
  obtain ⟨o, ho, hid⟩ := h i ((mem_setInputsDeleted_active hactive).mp hi').1 hactive
  obtain ⟨o', ho', hid', -⟩ := retains_setOutputsDeleted other height now db o ho
  refine ⟨o', ?_, (show o'.id = o.id from hid').trans hid⟩
  show o' ∈ db'.outputs.rows
  rw [hrolled.outputs]
  exact ho'

/-- A rollback of the account cuts its chain. -/
theorem follows_rolledBack (h : db.ledger.Follows accountId chain)
    (hrolled : RolledBack accountId height now db db') :
    db'.ledger.Follows accountId (Coins.cut (asI64 height) chain) where
  increasing := h.increasing.filter _
  tips := by
    have hcut : chainTips (Coins.cut (asI64 height) chain) =
        (chainTips chain).filter (fun tip => decide (tip.1 < asI64 height)) := by
      simp [chainTips, Coins.cut, List.filter_map, Function.comp_def]
    rw [hcut, ← h.tips]
    simp only [Ledger.tipsOf, Db.ledger]
    rw [hrolled.tips, Db.deleteScannedTipBlocksFromHeight, AutoTable.deleteWhere,
      Table.select_deleteWhere, List.filter_map]
    refine congrArg _ (List.filter_congr (fun b hb => ?_))
    have hacc := (Table.mem_select.mp hb).2
    rw [Bool.eq_iff_iff]
    simp [beq_iff_eq.mp hacc]
  books := by
    rw [Coins.replay_cut h.increasing, ← h.books]
    have houtputs : (db.setOutputsDeleted accountId height now).outputs.select
        (fun o => o.accountId == accountId && o.active) =
        (db.outputs.select (fun o => o.accountId == accountId && o.active)).filter
          (fun o => decide (o.minedInBlockHeight < asI64 height)) := by
      refine (Table.select_updateWhere_unmarked (fun o => by simp [OutputRow.active])
        (by intro _; rfl)).trans (List.filter_congr (fun o ho => ?_))
      have hp := (Table.mem_select.mp ho).2
      simp only [Bool.and_eq_true, beq_iff_eq] at hp
      rw [Bool.eq_iff_iff]
      simp [OutputRow.activeFrom, hp]
    have hinputs : (db.setInputsDeleted accountId height now).inputs.select
        (fun i => i.accountId == accountId && i.active) =
        (db.inputs.select (fun i => i.accountId == accountId && i.active)).filter
          (fun i => decide (i.minedInBlockHeight < asI64 height)) := by
      refine (Table.select_updateWhere_unmarked (fun i => by simp [InputRow.active])
        (by intro _; rfl)).trans (List.filter_congr (fun i hi => ?_))
      have hp := (Table.mem_select.mp hi).2
      simp only [Bool.and_eq_true, beq_iff_eq] at hp
      rw [Bool.eq_iff_iff]
      simp [InputRow.activeFrom, hp]
    have hspends := spends_of_ages (L := db.ledger) (retains_setOutputsDeleted accountId height now db)
      h.refs ((db.inputs.select (fun i => i.accountId == accountId && i.active)).filter
        (fun i => decide (i.minedInBlockHeight < asI64 height)))
      (fun i hi => mem_activeInputs (L := db.ledger) (List.mem_of_mem_filter hi))
    refine Coins.Books.ext ?_ ?_
    · simp only [Ledger.booksOf, Coins.Books.below, Db.ledger]
      rw [hrolled.outputs, houtputs, List.filter_map]
      rfl
    · simp only [Ledger.booksOf, Coins.Books.below, Db.ledger] at hspends ⊢
      rw [hrolled.inputs, hrolled.outputs, hinputs, hspends, List.filter_map]
      rfl
  refs := inputsRefer_of_rolledBack h.refs hrolled

/-- A rollback of another account does not change the chain. -/
theorem follows_rolledBack_other (hne : other ≠ accountId) (h : db.ledger.Follows accountId chain)
    (hrolled : RolledBack other height now db db') : db'.ledger.Follows accountId chain where
  increasing := h.increasing
  tips := by
    have htips := h.tips
    have hselect := Table.select_deleteWhere_outside (t := db.scannedTipBlocks.toTable)
      (p := fun b => b.accountId == other && decide (asI64 height ≤ b.height))
      (q := fun b => b.accountId == accountId) (fun b _ hp => by simp_all)
    simp only [Ledger.tipsOf, Db.ledger] at htips ⊢
    rw [hrolled.tips, ← htips]
    exact congrArg _ hselect
  books := by
    have houtputs : (db.setOutputsDeleted other height now).outputs.select
        (fun o => o.accountId == accountId && o.active) =
        db.outputs.select (fun o => o.accountId == accountId && o.active) :=
      Table.select_updateWhere_outside (t := db.outputs.toTable) (fun o _ hp => by
        have hacc := ((OutputRow.activeFrom_eq_true).mp hp).1.1
        simp [hacc, hne]) (by intro _; rfl)
    have hinputs : (db.setInputsDeleted other height now).inputs.select
        (fun i => i.accountId == accountId && i.active) =
        db.inputs.select (fun i => i.accountId == accountId && i.active) :=
      Table.select_updateWhere_outside (t := db.inputs.toTable) (fun i _ hp => by
        have hacc := ((InputRow.activeFrom_eq_true).mp hp).1.1
        simp [hacc, hne]) (by intro _; rfl)
    have hspends := spends_of_ages (L := db.ledger) (retains_setOutputsDeleted other height now db)
      h.refs (db.inputs.select (fun i => i.accountId == accountId && i.active))
      (fun _ hi => mem_activeInputs (L := db.ledger) hi)
    rw [← h.books]
    refine Coins.Books.ext ?_ ?_
    · simp only [Ledger.booksOf, Db.ledger]
      rw [hrolled.outputs, houtputs]
    · simp only [Ledger.booksOf, Db.ledger] at hspends ⊢
      rw [hrolled.inputs, hrolled.outputs, hinputs, hspends]
  refs := inputsRefer_of_rolledBack h.refs hrolled

end Rollback

/-! ## Balances -/

/-- What the unspent coins of a chain are worth. -/
def chainValue (chain : List ChainBlock) : Int :=
  ((Coins.replay chain).unspent.map (fun c => c.data.value)).sum

/-- An undeleted output of the account is spent by an undeleted input exactly where its coin is by a
    spend of the books: the outputs have hashes of their own, and no spend leaves its account. -/
theorem exists_spend_iff {db : Db} {accountId : AccountId}
    (hbooked : LedgerBooked db.ledger) (hunique : UniqueHashes db.outputs) {o : OutputRow}
    (ho : o ∈ db.outputs.rows) (hacc : o.accountId = accountId) (hactive : o.active = true) :
    (∃ x ∈ (db.ledger.booksOf accountId).spends, x.hash = o.outputHash) ↔
      ∃ i ∈ db.inputs.rows, i.active = true ∧ i.outputId = o.id := by
  constructor
  · rintro ⟨x, hx, hhash⟩
    obtain ⟨i, hi, rfl⟩ := List.mem_map.mp hx
    obtain ⟨hi, hia⟩ := mem_activeInputs hi
    obtain ⟨o', ho', hactive', hid, -, -⟩ := hbooked.1.refs i hi hia
    have hhash' : o'.outputHash = o.outputHash := by
      rw [← spentHash_eq ho', hid]
      exact hhash
    obtain rfl := hunique o' ho' o ho hactive' hactive hhash'
    exact ⟨i, hi, hia, hid.symm⟩
  · rintro ⟨i, hi, hia, hio⟩
    obtain ⟨o', ho', -, hid, hacc', -⟩ := hbooked.1.refs i hi hia
    obtain rfl : o' = o := db.outputs.eq_of_key_eq ho' ho (hid.trans hio)
    refine ⟨i.spend db.outputs, List.mem_map.mpr ⟨i, Table.mem_select.mpr ⟨hi, ?_⟩, rfl⟩, ?_⟩
    · simp [hia, ← hacc', hacc]
    · rw [InputRow.spend, hio]
      exact spentHash_eq ho

/-- The balance of the account is the value of the unspent coins of its chain. -/
theorem Ledger.Follows.unspentValue_eq {db : Db} {accountId : AccountId} {chain : List ChainBlock}
    (h : db.ledger.Follows accountId chain) (hbooked : LedgerBooked db.ledger)
    (hunique : UniqueHashes db.outputs) : db.unspentValue accountId = chainValue chain := by
  have hspent : ∀ o ∈ db.outputs.select (fun o => o.accountId == accountId && o.active),
      db.inputs.exists? (fun i => i.active && i.outputId == o.id) =
        (Coins.replay chain).spends.any (fun x => x.hash == o.coin.hash) := by
    intro o ho
    obtain ⟨ho, hp⟩ := Table.mem_select.mp ho
    simp only [Bool.and_eq_true, beq_iff_eq] at hp
    have hiff := exists_spend_iff hbooked hunique ho hp.1 hp.2
    rw [h.books] at hiff
    rw [Bool.eq_iff_iff, Table.exists?_eq_true, List.any_eq_true]
    simpa [OutputRow.coin] using hiff.symm
  have hcoins : (Coins.replay chain).coins =
      (db.outputs.select (fun o => o.accountId == accountId && o.active)).map OutputRow.coin := by
    rw [← h.books]
    rfl
  unfold Db.unspentValue chainValue Coins.Books.unspent
  rw [hcoins, List.filter_map, List.map_map, Table.sumWhere]
  refine congrArg List.sum ?_
  have hselect : db.outputs.select (fun o => (o.accountId == accountId && o.active) &&
      !db.inputs.exists? (fun i => i.active && i.outputId == o.id)) =
      (db.outputs.select (fun o => o.accountId == accountId && o.active)).filter
        (fun o => !db.inputs.exists? (fun i => i.active && i.outputId == o.id)) := by
    rw [Table.select, Table.select, List.filter_filter]
    exact List.filter_congr (fun o _ => Bool.and_comm _ _)
  rw [hselect]
  refine congrArg (List.map _) (List.filter_congr (fun o ho => ?_))
  rw [hspent o ho]
  rfl

end MinotariWallet

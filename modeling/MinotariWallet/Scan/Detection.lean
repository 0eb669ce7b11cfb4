import MinotariWallet.Scan.HttpScanner

set_option autoImplicit false

/-! # The processing of a page in `minotari-scanning/src/scanning/http/scanner.rs`

The processing task looks for outputs of the wallet in what `sync_utxos_by_block` returned, asks the
node for the full outputs of a block in which it has found some, and joins the two answers by the
encrypted data. -/

namespace MinotariWallet

/-! ## What the node sends and what other crates make of it -/

abbrev EncryptedData := Bytes
abbrev TariKeyId := Nat

structure MinimalUtxoSyncInfo where
  outputHash : Bytes
  commitment : Bytes
  encryptedData : Bytes
  senderOffsetPublicKey : Bytes
deriving DecidableEq

/-- `BlockUtxoInfo` as the node sends it. -/
structure SyncedBlock where
  height : Nat
  headerHash : Bytes
  outputs : List MinimalUtxoSyncInfo
  inputs : List Bytes
  minedTimestamp : Nat
deriving DecidableEq

/-- A `TransactionOutput` of `get_utxos_by_block`. The scanner reads its encrypted data. -/
structure FullTransactionOutput where
  hash : FixedHash
  encryptedData : EncryptedData
deriving DecidableEq

structure ScanningOutputStruct where
  minInfo : MinimalUtxoSyncInfo
  commitment : CompressedCommitment
  encryptedData : EncryptedData
  senderOffsetPublicKey : CompressedPublicKey
deriving DecidableEq

structure IncompleteScannedOutput where
  outputHash : FixedHash
  value : MicroMinotari
  commitmentMaskKeyId : TariKeyId
  senderOffsetPublicKey : CompressedPublicKey
  encryptedData : EncryptedData
  memo : Memo
  keyManagerIndex : Nat
deriving DecidableEq

/-- The functions of other crates; an error is known by its text. -/
structure ScanningEnv where
  /-- `FixedHash::try_from`. -/
  fixedHash : Bytes → Except String FixedHash
  /-- `from_canonical_bytes` of a commitment. -/
  commitment : Bytes → Except String CompressedCommitment
  /-- `EncryptedData::from_bytes`. -/
  encryptedData : Bytes → Except String EncryptedData
  /-- `from_canonical_bytes` of a public key. -/
  publicKey : Bytes → Except String CompressedPublicKey
  tryOutputKeyRecovery : PrivateKey → CompressedCommitment → EncryptedData → CompressedPublicKey →
    Except WalletError (Option (TariKeyId × MicroMinotari × Memo))
  /-- `WalletOutput::new_imported`. -/
  newImported : MicroMinotari → TariKeyId → Memo → FullTransactionOutput → PrivateKey →
    Except String WalletOutput

/-! ## Detection -/

/-- `TryFrom<MinimalUtxoSyncInfo>`. -/
def ScanningOutputStruct.tryFrom (env : ScanningEnv) (minInfo : MinimalUtxoSyncInfo) :
    Except WalletError ScanningOutputStruct := do
  let commitment ← (env.commitment minInfo.commitment).mapError .dataError
  let encryptedData ← (env.encryptedData minInfo.encryptedData).mapError .dataError
  let senderOffsetPublicKey ← (env.publicKey minInfo.senderOffsetPublicKey).mapError .dataError
  pure { minInfo, commitment, encryptedData, senderOffsetPublicKey }

/-- `IncompleteScannedOutput::new`. -/
def IncompleteScannedOutput.new (env : ScanningEnv) (scanningInfo : ScanningOutputStruct)
    (value : MicroMinotari) (commitmentMaskKeyId : TariKeyId) (memo : Memo) (index : Nat) :
    Except WalletError IncompleteScannedOutput := do
  let outputHash ← (env.fixedHash scanningInfo.minInfo.outputHash).mapError .dataError
  pure {
    outputHash
    value
    commitmentMaskKeyId
    senderOffsetPublicKey := scanningInfo.senderOffsetPublicKey
    encryptedData := scanningInfo.encryptedData
    memo
    keyManagerIndex := index }

/-- `scan_for_recoverable_output`, over the key managers from the index on. -/
def scanForRecoverableOutput (env : ScanningEnv) (output : ScanningOutputStruct) (index : Nat) :
    List PrivateKey → Except WalletError (Option IncompleteScannedOutput)
  | [] => pure none
  | keyManager :: keyManagers => do
    match ← env.tryOutputKeyRecovery keyManager output.commitment output.encryptedData
        output.senderOffsetPublicKey with
    | some (commitmentMask, value, memo) =>
      let output ← IncompleteScannedOutput.new env output value commitmentMask memo index
      pure (some output)
    | none => scanForRecoverableOutput env output (index + 1) keyManagers

/-- What the scanner makes of an output of a block. -/
def detectOutput (env : ScanningEnv) (keyManagers : List PrivateKey)
    (output : MinimalUtxoSyncInfo) : Except WalletError (Option IncompleteScannedOutput) := do
  let scannedOutput ← ScanningOutputStruct.tryFrom env output
  scanForRecoverableOutput env scannedOutput 0 keyManagers

/-- The errors that the pool pushes for the outputs. -/
def detectionErrors (env : ScanningEnv) (keyManagers : List PrivateKey)
    (outputs : List MinimalUtxoSyncInfo) : List WalletError :=
  outputs.filterMap (fun output =>
    match detectOutput env keyManagers output with
    | .error e => some e
    | .ok _ => none)

/-- The outputs that are recognised. -/
def recognised (env : ScanningEnv) (keyManagers : List PrivateKey)
    (outputs : List MinimalUtxoSyncInfo) : List IncompleteScannedOutput :=
  outputs.filterMap (fun output =>
    match detectOutput env keyManagers output with
    | .ok found => found
    | .error _ => none)

/-- The work of the pool on a block: the errors that it pushes, and the block with the outputs that
    it has recognised. An input that is no hash becomes the default one. -/
def detectBlock (env : ScanningEnv) (keyManagers : List PrivateKey) (block : SyncedBlock) :
    List WalletError × Option (BlockScanResult × List IncompleteScannedOutput) :=
  match env.fixedHash block.headerHash with
  | .error e => ([.conversionError e], none)
  | .ok headerHash =>
    (detectionErrors env keyManagers block.outputs, some ({
      height := block.height
      blockHash := headerHash
      walletOutputs := []
      inputs := block.inputs.map (fun input => (env.fixedHash input).toOption.getD 0)
      minedTimestamp := block.minedTimestamp }, recognised env keyManagers block.outputs))

/-- The pool's work on a page, in the order in which the blocks are done. -/
def detectPage (env : ScanningEnv) (keyManagers : List PrivateKey) (order : List SyncedBlock) :
    Except WalletError (List (BlockScanResult × List IncompleteScannedOutput)) :=
  let detected := order.map (detectBlock env keyManagers)
  match (detected.flatMap (·.1)).head? with
  | some e => .error e
  | none => .ok (detected.filterMap (·.2))

/-! ## Completion -/

/-- `to_wallet_output`; an output that is not imported is no error. -/
def IncompleteScannedOutput.toWalletOutput (env : ScanningEnv) (scanned : IncompleteScannedOutput)
    (output : FullTransactionOutput) (keyManager : PrivateKey) : Option WalletOutput :=
  (env.newImported scanned.value scanned.commitmentMaskKeyId scanned.memo output
    keyManager).toOption

/-- An output of the wallet with the first of the full outputs that has its encrypted data. -/
def completeOutput (env : ScanningEnv) (keyManagers : List PrivateKey)
    (outputs : List FullTransactionOutput) (output : IncompleteScannedOutput) :
    Option (FixedHash × WalletOutput × Nat) := do
  let txOutput ← outputs.find? (fun o => o.encryptedData = output.encryptedData)
  -- the index is one of the key managers' own
  let keyManager ← keyManagers[output.keyManagerIndex]?
  let finalOutput ← output.toWalletOutput env txOutput keyManager
  pure (output.outputHash, finalOutput, output.keyManagerIndex)

/-- The node is asked for the outputs of a block in which something was recognised. -/
def completeBlock (env : ScanningEnv) (keyManagers : List PrivateKey)
    (getUtxosByBlock : FixedHash → Except WalletError (List FullTransactionOutput))
    (found : BlockScanResult × List IncompleteScannedOutput) :
    Except WalletError BlockScanResult :=
  if found.2 = [] then pure found.1
  else do
    let outputs ← getUtxosByBlock found.1.blockHash
    pure { found.1 with
      walletOutputs := found.1.walletOutputs ++
        found.2.filterMap (completeOutput env keyManagers outputs) }

/-- The requests for a page, in the order in which they are answered; the results are sorted. -/
def completePage (env : ScanningEnv) (keyManagers : List PrivateKey)
    (getUtxosByBlock : FixedHash → Except WalletError (List FullTransactionOutput))
    (order : List (BlockScanResult × List IncompleteScannedOutput)) :
    Except WalletError (List BlockScanResult) := do
  let results ← order.mapM (completeBlock env keyManagers getUtxosByBlock)
  pure (results.mergeSort (fun a b => a.height ≤ b.height))

/-! ## A page -/

section Page

variable {env : ScanningEnv} {keyManagers : List PrivateKey}
  {getUtxosByBlock : FixedHash → Except WalletError (List FullTransactionOutput)}
  {block : SyncedBlock} {found : BlockScanResult × List IncompleteScannedOutput}
  {result : BlockScanResult}

/-- The result for a block in whose outputs nothing fails. -/
def ScansBlock (env : ScanningEnv) (keyManagers : List PrivateKey)
    (getUtxosByBlock : FixedHash → Except WalletError (List FullTransactionOutput))
    (block : SyncedBlock) (result : BlockScanResult) : Prop :=
  ∃ found, detectBlock env keyManagers block = ([], some found) ∧
    completeBlock env keyManagers getUtxosByBlock found = .ok result

theorem detectPage_ok {order : List SyncedBlock}
    {found : List (BlockScanResult × List IncompleteScannedOutput)}
    (h : detectPage env keyManagers order = .ok found) :
    List.Forall₂ (fun block f => detectBlock env keyManagers block = ([], some f)) order found := by
  unfold detectPage at h
  dsimp only at h
  split at h
  · cases h
  · next hnone =>
      rw [List.head?_eq_none_iff, List.flatMap_eq_nil_iff] at hnone
      cases h
      induction order with
      | nil => exact .nil
      | cons block order ih =>
          have hfirst := hnone (detectBlock env keyManagers block) (by simp)
          have hrest := ih (fun d hd => hnone d (List.mem_cons_of_mem _ hd))
          obtain ⟨f, hf⟩ : ∃ f, detectBlock env keyManagers block = ([], some f) := by
            unfold detectBlock at hfirst ⊢
            cases hhash : env.fixedHash block.headerHash with
            | error e => simp [hhash] at hfirst
            | ok headerHash =>
                simp only [hhash] at hfirst ⊢
                exact ⟨_, by rw [hfirst]⟩
          rw [List.map_cons, List.filterMap_cons, hf]
          exact .cons hf hrest

/-- What is delivered for a page has a result for each of its blocks, in whatever order they are
    done. -/
theorem completePage_ok {page order : List SyncedBlock}
    {found completed : List (BlockScanResult × List IncompleteScannedOutput)}
    {results : List BlockScanResult} (horder : order.Perm page)
    (hdetect : detectPage env keyManagers order = .ok found) (hcompleted : completed.Perm found)
    (hcomplete : completePage env keyManagers getUtxosByBlock completed = .ok results) :
    ∃ rs, rs.Perm results ∧
      List.Forall₂ (ScansBlock env keyManagers getUtxosByBlock) page rs := by
  unfold completePage at hcomplete
  cases hmap : completed.mapM (completeBlock env keyManagers getUtxosByBlock) with
  | error e => simp [hmap, bind, Except.bind] at hcomplete
  | ok unsorted =>
      simp only [hmap, bind, Except.bind, pure, Except.pure, Except.ok.injEq] at hcomplete
      have hpage := detectPage_ok hdetect
      obtain ⟨found', hpage', hperm⟩ := List.perm_comp_forall₂ horder.symm hpage
      obtain ⟨rs, hrs, hperm'⟩ := List.perm_comp_forall₂ (hperm.trans hcompleted.symm)
        (Exec.mapM_ok_iff.mp hmap)
      refine ⟨rs, ?_, ?_⟩
      · rw [← hcomplete]
        exact hperm'.trans (List.mergeSort_perm unsorted _).symm
      · clear hperm hperm' hpage hdetect horder
        induction hpage' generalizing rs with
        | nil =>
            cases hrs
            exact .nil
        | cons hblock hrest ih =>
            cases hrs with
            | cons hresult hrs => exact .cons ⟨_, hblock, hresult⟩ (ih _ hrs)

/-! ## What a result should say -/

/-- The full outputs that the node names for the block, none if it was not asked. -/
def fullOutputs (getUtxosByBlock : FixedHash → Except WalletError (List FullTransactionOutput))
    (blockHash : FixedHash) : List FullTransactionOutput :=
  (getUtxosByBlock blockHash).toOption.getD []

/-- The output of a result is built from the full output with the recorded hash. -/
structure BuiltFrom (env : ScanningEnv) (keyManagers : List PrivateKey)
    (outputs : List FullTransactionOutput) (scanned : IncompleteScannedOutput)
    (output : FixedHash × WalletOutput × Nat) : Prop where
  hash : output.1 = scanned.outputHash
  index : output.2.2 = scanned.keyManagerIndex
  full : ∃ full ∈ outputs, full.hash = scanned.outputHash ∧ ∃ keyManager,
    keyManagers[scanned.keyManagerIndex]? = some keyManager ∧
      scanned.toWalletOutput env full keyManager = some output.2.1

/-- The result has the recognised outputs of the block, each once, and its inputs. -/
structure Reports (env : ScanningEnv) (keyManagers : List PrivateKey)
    (getUtxosByBlock : FixedHash → Except WalletError (List FullTransactionOutput))
    (block : SyncedBlock) (result : BlockScanResult) : Prop where
  walletOutputs : List.Forall₂
    (BuiltFrom env keyManagers (fullOutputs getUtxosByBlock result.blockHash))
    (recognised env keyManagers block.outputs) result.walletOutputs
  inputs : block.inputs.map env.fixedHash = result.inputs.map .ok

/-- The join finds the output: the first full output with the encrypted data is the one with the
    recorded hash, and it can be imported. -/
def Joins (env : ScanningEnv) (keyManagers : List PrivateKey)
    (outputs : List FullTransactionOutput) (scanned : IncompleteScannedOutput) : Prop :=
  ∃ full, outputs.find? (fun o => o.encryptedData = scanned.encryptedData) = some full ∧
    full.hash = scanned.outputHash ∧ ∃ keyManager,
      keyManagers[scanned.keyManagerIndex]? = some keyManager ∧
        (scanned.toWalletOutput env full keyManager).isSome = true

/-- Every recognised output of the block is found by the join, and every input is a hash. -/
structure Resolves (env : ScanningEnv) (keyManagers : List PrivateKey)
    (getUtxosByBlock : FixedHash → Except WalletError (List FullTransactionOutput))
    (block : SyncedBlock) : Prop where
  outputs : ∀ blockHash, env.fixedHash block.headerHash = .ok blockHash →
    ∀ scanned ∈ recognised env keyManagers block.outputs,
      Joins env keyManagers (fullOutputs getUtxosByBlock blockHash) scanned
  inputs : ∀ input ∈ block.inputs, (env.fixedHash input).isOk = true

/-- `WalletOutput::new_imported` keeps the hash of the output. -/
def ImportKeepsHash (env : ScanningEnv) : Prop :=
  ∀ value commitmentMask memo output keyManager walletOutput,
    env.newImported value commitmentMask memo output keyManager = .ok walletOutput →
      walletOutput.outputHash = output.hash

theorem forall₂_filterMap_iff {α β : Type} {R : α → β → Prop} {f : α → Option β} {xs : List α} :
    List.Forall₂ R xs (xs.filterMap f) ↔ ∀ x ∈ xs, ∃ y, f x = some y ∧ R x y := by
  induction xs with
  | nil => simp
  | cons x xs ih =>
      rw [List.forall_mem_cons, ← ih]
      cases hx : f x with
      | none =>
          rw [List.filterMap_cons_none hx]
          constructor
          · intro h
            have hlength := h.length_eq
            have hle := List.length_filterMap_le f xs
            rw [List.length_cons] at hlength
            omega
          · rintro ⟨⟨y, hnone, -⟩, -⟩
            cases hnone
      | some y =>
          rw [List.filterMap_cons_some hx, List.forall₂_cons]
          simp

/-- Where imports keep hashes, an output is built from the right one if and only if the join finds
    it. -/
theorem completeOutput_builtFrom_iff (himport : ImportKeepsHash env)
    {outputs : List FullTransactionOutput} {scanned : IncompleteScannedOutput} :
    (∃ output, completeOutput env keyManagers outputs scanned = some output ∧
        BuiltFrom env keyManagers outputs scanned output) ↔
      Joins env keyManagers outputs scanned := by
  have hkeeps : ∀ {full keyManager walletOutput},
      scanned.toWalletOutput env full keyManager = some walletOutput →
        walletOutput.outputHash = full.hash := by
    intro full keyManager walletOutput h
    unfold IncompleteScannedOutput.toWalletOutput at h
    cases hnew : env.newImported scanned.value scanned.commitmentMaskKeyId scanned.memo full
        keyManager with
    | error e => simp [hnew, Except.toOption] at h
    | ok imported =>
        simp only [hnew, Except.toOption, Option.some.injEq] at h
        exact himport _ _ _ _ _ _ (h ▸ hnew)
  unfold completeOutput
  constructor
  · rintro ⟨output, hcomplete, hbuilt⟩
    simp only [Option.bind_eq_bind, Option.bind_eq_some_iff, Option.pure_def,
      Option.some.injEq] at hcomplete
    obtain ⟨first, hfirst, keyManager, hkey, walletOutput, hwallet, rfl⟩ := hcomplete
    obtain ⟨full, -, hhash, keyManager', hkey', hwallet'⟩ := hbuilt.full
    refine ⟨first, hfirst, ?_, keyManager, hkey, by rw [hwallet]; rfl⟩
    rw [← hkeeps hwallet, ← hhash, ← hkeeps hwallet']
  · rintro ⟨full, hfirst, hhash, keyManager, hkey, hsome⟩
    obtain ⟨walletOutput, hwallet⟩ := Option.isSome_iff_exists.mp hsome
    refine ⟨(scanned.outputHash, walletOutput, scanned.keyManagerIndex), ?_, rfl, rfl, full,
      List.mem_of_find?_eq_some hfirst, hhash, keyManager, hkey, hwallet⟩
    simp [hfirst, hkey, hwallet]

theorem inputs_eq_iff {inputs : List Bytes} :
    inputs.map env.fixedHash =
        (inputs.map (fun input => (env.fixedHash input).toOption.getD 0)).map .ok ↔
      ∀ input ∈ inputs, (env.fixedHash input).isOk = true := by
  rw [List.map_map, List.map_inj_left]
  refine forall₂_congr (fun input _ => ?_)
  cases h : env.fixedHash input <;> simp [h, Except.toOption, Except.isOk, Except.toBool]

/-- The result for a block is faithful if and only if everything in it resolves. -/
theorem ScansBlock.reports_iff (himport : ImportKeepsHash env)
    (h : ScansBlock env keyManagers getUtxosByBlock block result) :
    Reports env keyManagers getUtxosByBlock block result ↔
      Resolves env keyManagers getUtxosByBlock block := by
  obtain ⟨found, hdetect, hcomplete⟩ := h
  unfold detectBlock at hdetect
  cases hhash : env.fixedHash block.headerHash with
  | error e => simp [hhash] at hdetect
  | ok blockHash =>
      simp only [hhash, Prod.mk.injEq, Option.some.injEq] at hdetect
      obtain ⟨-, rfl⟩ := hdetect
      have hresult : result.blockHash = blockHash ∧
          result.inputs = block.inputs.map (fun input => (env.fixedHash input).toOption.getD 0) ∧
          result.walletOutputs = (recognised env keyManagers block.outputs).filterMap
            (completeOutput env keyManagers (fullOutputs getUtxosByBlock blockHash)) := by
        unfold completeBlock at hcomplete
        split at hcomplete
        · next hnil =>
            cases hcomplete
            have hnone : recognised env keyManagers block.outputs = [] := hnil
            exact ⟨rfl, rfl, by rw [hnone]; rfl⟩
        · cases hfull : getUtxosByBlock blockHash with
          | error e => simp [hfull, bind, Except.bind] at hcomplete
          | ok outputs =>
              simp only [hfull, bind, Except.bind, pure, Except.pure, Except.ok.injEq] at hcomplete
              subst hcomplete
              exact ⟨rfl, rfl, by simp [fullOutputs, hfull, Except.toOption]⟩
      obtain ⟨hblockHash, hinputs, hwallet⟩ := hresult
      have houtputs : List.Forall₂
          (BuiltFrom env keyManagers (fullOutputs getUtxosByBlock result.blockHash))
          (recognised env keyManagers block.outputs) result.walletOutputs ↔
            ∀ scanned ∈ recognised env keyManagers block.outputs,
              Joins env keyManagers (fullOutputs getUtxosByBlock blockHash) scanned := by
        rw [hblockHash, hwallet, forall₂_filterMap_iff]
        exact forall₂_congr (fun scanned _ => completeOutput_builtFrom_iff himport)
      constructor
      · intro hreports
        refine ⟨fun hash heq => ?_, ?_⟩
        · rw [hhash] at heq
          cases heq
          exact houtputs.mp hreports.walletOutputs
        · have heq := hreports.inputs
          rw [hinputs] at heq
          exact inputs_eq_iff.mp heq
      · intro hresolves
        refine ⟨houtputs.mpr (hresolves.outputs blockHash hhash), ?_⟩
        rw [hinputs]
        exact inputs_eq_iff.mpr hresolves.inputs

theorem ScansBlock.place (h : ScansBlock env keyManagers getUtxosByBlock block result) :
    result.height = block.height ∧ env.fixedHash block.headerHash = .ok result.blockHash := by
  obtain ⟨found, hdetect, hcomplete⟩ := h
  unfold detectBlock at hdetect
  cases hhash : env.fixedHash block.headerHash with
  | error e => simp [hhash] at hdetect
  | ok blockHash =>
      simp only [hhash, Prod.mk.injEq, Option.some.injEq] at hdetect
      obtain ⟨-, rfl⟩ := hdetect
      unfold completeBlock at hcomplete
      split at hcomplete
      · cases hcomplete
        exact ⟨rfl, rfl⟩
      · cases hfull : getUtxosByBlock blockHash with
        | error e => simp [hfull, bind, Except.bind] at hcomplete
        | ok outputs =>
            simp only [hfull, bind, Except.bind, pure, Except.pure, Except.ok.injEq] at hcomplete
            subst hcomplete
            exact ⟨rfl, rfl⟩

/-- The block of a page as the stream knows it, if its header hash is one. -/
def SyncedBlock.info (env : ScanningEnv) (block : SyncedBlock) : Option BlockUtxoInfo :=
  (env.fixedHash block.headerHash).toOption.map (fun headerHash => {
    height := block.height
    headerHash
    inputs := block.inputs.map (fun input => (env.fixedHash input).toOption.getD 0)
    minedTimestamp := block.minedTimestamp })

/-- What the stream relies on: the results are a batch of the page. -/
theorem completePage_scannedPage {page order : List SyncedBlock}
    {found completed : List (BlockScanResult × List IncompleteScannedOutput)}
    {results : List BlockScanResult} (horder : order.Perm page)
    (hdetect : detectPage env keyManagers order = .ok found) (hcompleted : completed.Perm found)
    (hcomplete : completePage env keyManagers getUtxosByBlock completed = .ok results) :
    ScannedPage (page.filterMap (·.info env)) results := by
  obtain ⟨rs, hperm, hrs⟩ := completePage_ok horder hdetect hcompleted hcomplete
  constructor
  · refine (hperm.symm.map _).trans (List.Perm.of_eq ?_)
    clear hperm horder
    induction hrs with
    | nil => rfl
    | cons hblock hrest ih =>
        obtain ⟨hheight, hhash⟩ := hblock.place
        rw [List.filterMap_cons, SyncedBlock.info, hhash]
        simp [hheight, ih, Except.toOption]
  · unfold completePage at hcomplete
    cases hmap : completed.mapM (completeBlock env keyManagers getUtxosByBlock) with
    | error e => simp [hmap, bind, Except.bind] at hcomplete
    | ok unsorted =>
        simp only [hmap, bind, Except.bind, pure, Except.pure, Except.ok.injEq] at hcomplete
        exact hcomplete ▸ pairwise_sortByHeight unsorted

/-- Where no error is delivered for a page, each of its blocks has a result, and the result reports
    the outputs and inputs of the block if and only if they resolve. -/
theorem scannedPage_reports_iff {page order : List SyncedBlock}
    {found completed : List (BlockScanResult × List IncompleteScannedOutput)}
    {results : List BlockScanResult} (himport : ImportKeepsHash env) (horder : order.Perm page)
    (hdetect : detectPage env keyManagers order = .ok found) (hcompleted : completed.Perm found)
    (hcomplete : completePage env keyManagers getUtxosByBlock completed = .ok results) :
    ∃ rs, rs.Perm results ∧ List.Forall₂ (fun block result => result.height = block.height ∧
      env.fixedHash block.headerHash = .ok result.blockHash ∧
      (Reports env keyManagers getUtxosByBlock block result ↔
        Resolves env keyManagers getUtxosByBlock block)) page rs := by
  obtain ⟨rs, hperm, hrs⟩ := completePage_ok horder hdetect hcompleted hcomplete
  refine ⟨rs, hperm, hrs.imp (fun block result hblock => ?_)⟩
  obtain ⟨hheight, hhash⟩ := hblock.place
  exact ⟨hheight, hhash, hblock.reports_iff himport⟩

end Page

/-- Hashes of one byte, keys and encrypted data of any bytes, and one key manager, which finds a
    hundred in an output with the commitment 1. -/
def exampleScanning : ScanningEnv where
  fixedHash
    | [b] => .ok b.toNat
    | _ => .error "Invalid size"
  commitment := .ok
  encryptedData := .ok
  publicKey := .ok
  tryOutputKeyRecovery _ commitment _ _ :=
    .ok (if commitment = [1] then some (3, 100, []) else none)
  newImported value _ _ output _ := .ok { outputHash := output.hash, value }

/-- A block with an output of the wallet, whose hash is 5, and one input. -/
def exampleBlock (input : Bytes) : SyncedBlock where
  height := 10
  headerHash := [7]
  outputs := [⟨[5], [1], [42], [2]⟩]
  inputs := [input]
  minedTimestamp := 0

/-- What is delivered for the block with the full outputs. -/
def exampleResults (input : Bytes) (outputs : List FullTransactionOutput) :
    Except WalletError (List BlockScanResult) := do
  let found ← detectPage exampleScanning [9] [exampleBlock input]
  completePage exampleScanning [9] (fun _ => .ok outputs) found

theorem importKeepsHash_example : ImportKeepsHash exampleScanning := by
  intro value commitmentMask memo output keyManager walletOutput h
  cases h
  rfl

theorem scannedPage_reports_example :
    ∃ rs, rs.Perm [⟨10, 7, [(5, { outputHash := 5, value := 100 }, 0)], [6], 0⟩] ∧
      List.Forall₂ (fun block result => result.height = block.height ∧
        exampleScanning.fixedHash block.headerHash = .ok result.blockHash ∧
        (Reports exampleScanning [9] (fun _ => .ok [⟨5, [42]⟩]) block result ↔
          Resolves exampleScanning [9] (fun _ => .ok [⟨5, [42]⟩]) block)) [exampleBlock [6]] rs :=
  scannedPage_reports_iff importKeepsHash_example (.refl _) rfl (.refl _) (by decide +kernel)

/-- The output is replaced where another one comes first with its encrypted data, and dropped where
    the node does not name it; and an input that is no hash is replaced. -/
theorem unfaithful_results :
    (exampleResults [6] [⟨8, [42]⟩, ⟨5, [42]⟩] =
        .ok [⟨10, 7, [(5, { outputHash := 8, value := 100 }, 0)], [6], 0⟩] ∧
      ¬Reports exampleScanning [9] (fun _ => .ok [⟨8, [42]⟩, ⟨5, [42]⟩]) (exampleBlock [6])
        ⟨10, 7, [(5, { outputHash := 8, value := 100 }, 0)], [6], 0⟩) ∧
    (exampleResults [6] [] = .ok [⟨10, 7, [], [6], 0⟩] ∧
      ¬Reports exampleScanning [9] (fun _ => .ok []) (exampleBlock [6]) ⟨10, 7, [], [6], 0⟩) ∧
    exampleResults [6, 6] [⟨5, [42]⟩] =
        .ok [⟨10, 7, [(5, { outputHash := 5, value := 100 }, 0)], [0], 0⟩] ∧
      ¬Reports exampleScanning [9] (fun _ => .ok [⟨5, [42]⟩]) (exampleBlock [6, 6])
        ⟨10, 7, [(5, { outputHash := 5, value := 100 }, 0)], [0], 0⟩ := by
  refine ⟨⟨by decide +kernel, fun h => ?_⟩, ⟨by decide +kernel, fun h => ?_⟩, by decide +kernel,
    fun h => ?_⟩
  · cases h.walletOutputs with
    | cons hbuilt hrest =>
        obtain ⟨full, -, hhash, keyManager, -, hwallet⟩ := hbuilt.full
        have hkept : (8 : FixedHash) = full.hash := by
          simpa [IncompleteScannedOutput.toWalletOutput, exampleScanning, Except.toOption,
            eq_comm] using hwallet
        rw [← hkept] at hhash
        exact absurd hhash (by decide)
  · exact absurd h.walletOutputs.length_eq (by decide)
  · cases h.inputs

end MinotariWallet

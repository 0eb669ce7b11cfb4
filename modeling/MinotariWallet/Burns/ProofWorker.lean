import MinotariWallet.Ledger.Machine

set_option autoImplicit false

/-! # `tasks/burn_proof_worker.rs` and `db/burn_proofs.rs`

The worker completes the pending proofs with the Merkle proofs of the base node, while burns are
created and blocks are scanned and rolled back beside it. -/

namespace MinotariWallet

open Sql Exec Transition

inductive BurnProofStatus where
  | pendingMerkle
  | complete
deriving DecidableEq

structure NewBurnProof where
  accountId : AccountId
  outputHash : FixedHash
  commitment : Bytes
  claimPublicKey : String
  ownershipProofNonce : Bytes
  ownershipProofSig : Bytes
  kernelExcess : Bytes
  kernelExcessNonce : Bytes
  kernelExcessSig : Bytes
  senderOffsetPublicKey : Bytes
  encryptedData : Bytes
  value : Nat
  kernelFee : Nat
  kernelLockHeight : Nat
deriving DecidableEq

/-- `burn_proofs`. -/
structure DbBurnProof where
  id : Id
  accountId : AccountId
  outputHash : FixedHash
  commitment : Bytes
  claimPublicKey : String
  ownershipProofNonce : Bytes
  ownershipProofSig : Bytes
  kernelExcess : Bytes
  kernelExcessNonce : Bytes
  kernelExcessSig : Bytes
  senderOffsetPublicKey : Bytes
  encryptedData : Bytes
  value : Int
  kernelFee : Int
  kernelLockHeight : Int
  status : BurnProofStatus
  createdAt : Timestamp
deriving DecidableEq

instance : Sql.Keyed DbBurnProof Id := ⟨DbBurnProof.id⟩

abbrev BurnProofs := AutoTable DbBurnProof

namespace BurnProofs

/-- `insert_burn_proof`; `none` when the output has a proof already. -/
def insertBurnProof (proofs : BurnProofs) (new : NewBurnProof) (now : Timestamp) :
    Option BurnProofs :=
  if proofs.exists? (·.outputHash == new.outputHash) then none
  else some (proofs.insert (fun id => {
    id
    accountId := new.accountId
    outputHash := new.outputHash
    commitment := new.commitment
    claimPublicKey := new.claimPublicKey
    ownershipProofNonce := new.ownershipProofNonce
    ownershipProofSig := new.ownershipProofSig
    kernelExcess := new.kernelExcess
    kernelExcessNonce := new.kernelExcessNonce
    kernelExcessSig := new.kernelExcessSig
    senderOffsetPublicKey := new.senderOffsetPublicKey
    encryptedData := new.encryptedData
    value := asI64 new.value
    kernelFee := asI64 new.kernelFee
    kernelLockHeight := asI64 new.kernelLockHeight
    status := .pendingMerkle
    createdAt := now }))

/-- An order that `get_pending_burn_proofs` may return the rows in. -/
def PendingOrder (proofs : BurnProofs) (order : List DbBurnProof) : Prop :=
  order.Perm (proofs.select (·.status == .pendingMerkle)) ∧
    order.Pairwise (fun proof proof' => proof.createdAt ≤ proof'.createdAt)

instance (proofs : BurnProofs) (order : List DbBurnProof) :
    Decidable (proofs.PendingOrder order) := by
  unfold PendingOrder
  infer_instance

/-- `mark_burn_proof_complete`. -/
def markBurnProofComplete (proofs : BurnProofs) (id : Id) : BurnProofs :=
  proofs.updateWhere (·.id == id) (fun proof => { proof with status := .complete })

end BurnProofs

/-! ## The complete proof -/

structure GenerateKernelMerkleProofResponse where
  blockHash : FixedHash
  encodedMerkleProof : Bytes
  leafIndex : Nat
deriving DecidableEq

structure EncodedMerkleProof where
  blockHash : FixedHash
  encodedMerkleProof : Bytes
  leafIndex : Nat
deriving DecidableEq

/-- A Schnorr signature: its public nonce and its scalar. -/
structure SchnorrSignature where
  publicNonce : CompressedPublicKey
  signature : PrivateKey
deriving DecidableEq

structure AbridgedTransactionKernel where
  version : Nat
  fee : Nat
  lockHeight : Nat
  excess : CompressedCommitment
  excessSig : SchnorrSignature
deriving DecidableEq

structure BurnClaimProof where
  burnPublicKey : CompressedPublicKey
  commitment : CompressedCommitment
  ownershipProof : SchnorrSignature
  encodedMerkleProof : EncodedMerkleProof
  kernel : AbridgedTransactionKernel
  value : Nat
  senderOffsetPublicKey : CompressedPublicKey
deriving DecidableEq

structure CompleteClaimBurnProof where
  claimProof : BurnClaimProof
  encryptedData : Bytes
deriving DecidableEq

/-- `from_canonical_bytes` of the types of the proof, and `hex::decode`. -/
structure CanonicalBytes where
  publicKey : Bytes → Except String CompressedPublicKey
  commitment : Bytes → Except String CompressedCommitment
  privateKey : Bytes → Except String PrivateKey
  hexDecode : String → Except String Bytes

/-- The value, or the error with the name of the field. -/
def orInvalid {α : Type} (field : String) : Except String α → Except String α :=
  Except.mapError (fun e => s!"Invalid {field}: {e}")

def assembleCompleteProof (codec : CanonicalBytes) (proof : DbBurnProof)
    (merkle : GenerateKernelMerkleProofResponse) : Except String CompleteClaimBurnProof := do
  let senderOffsetPublicKey ←
    orInvalid "sender_offset_public_key" (codec.publicKey proof.senderOffsetPublicKey)
  let commitment ← orInvalid "commitment" (codec.commitment proof.commitment)
  let nonce ← orInvalid "ownership_proof_nonce" (codec.publicKey proof.ownershipProofNonce)
  let sigScalar ← orInvalid "ownership_proof_sig" (codec.privateKey proof.ownershipProofSig)
  let excess ← orInvalid "kernel_excess" (codec.commitment proof.kernelExcess)
  let excessNonce ← orInvalid "kernel_excess_nonce" (codec.publicKey proof.kernelExcessNonce)
  let excessSigScalar ← orInvalid "kernel_excess_sig" (codec.privateKey proof.kernelExcessSig)
  let burnPublicKey ← orInvalid "claim_public_key" (codec.publicKey
    (← orInvalid "claim_public_key hex" (codec.hexDecode proof.claimPublicKey)))
  pure {
    claimProof := {
      burnPublicKey, commitment
      ownershipProof := ⟨nonce, sigScalar⟩
      encodedMerkleProof := ⟨merkle.blockHash, merkle.encodedMerkleProof, merkle.leafIndex⟩
      kernel := {
        version := 0
        fee := asU64 proof.kernelFee
        lockHeight := asU64 proof.kernelLockHeight
        excess
        excessSig := ⟨excessNonce, excessSigScalar⟩ }
      value := asU64 proof.value
      senderOffsetPublicKey }
    encryptedData := proof.encryptedData }

/-- The proof has the block of the node's answer. -/
theorem assembleCompleteProof_blockHash {codec : CanonicalBytes} {proof : DbBurnProof}
    {merkle : GenerateKernelMerkleProofResponse} {content : CompleteClaimBurnProof}
    (h : assembleCompleteProof codec proof merkle = .ok content) :
    content.claimProof.encodedMerkleProof.blockHash = merkle.blockHash := by
  unfold assembleCompleteProof at h
  simp only [except_bind_ok] at h
  obtain ⟨_, -, _, -, _, -, _, -, _, -, _, -, _, -, _, -, _, -, hpure⟩ := h
  cases hpure
  rfl

/-- The name of the file has the claim key and the commitment. -/
def DbBurnProof.path (proof : DbBurnProof) : String × Bytes :=
  (proof.claimPublicKey, proof.commitment)

/-- A file, and the confirmations that the kernel had when its Merkle proof was fetched. -/
structure WrittenProof where
  content : CompleteClaimBurnProof
  confirmations : Nat
deriving DecidableEq

def WrittenProof.blockHash (written : WrittenProof) : FixedHash :=
  written.content.claimProof.encodedMerkleProof.blockHash

/-! ## The worker beside the scanner -/

/-- The proof at hand, and those of the poll that come after it. -/
inductive BurnProofWorker where
  /-- About to ask the node about the first. -/
  | processing (todo : List DbBurnProof)
  | fetched (proof : DbBurnProof) (merkle : GenerateKernelMerkleProofResponse)
      (confirmations : Nat) (todo : List DbBurnProof)
  | written (proof : DbBurnProof) (todo : List DbBurnProof)

/-- The proofs that the worker still works on. -/
def BurnProofWorker.proofs : BurnProofWorker → List DbBurnProof
  | .processing todo => todo
  | .fetched proof _ _ todo => proof :: todo
  | .written proof todo => proof :: todo

/-- The blocks of the wallet's chain, for each account the ones it has scanned and not rolled
    back. -/
abbrev WalletChain := AccountId → List (Nat × FixedHash)

/-- The chain after a call. -/
def WalletChain.after (chain : WalletChain) : LedgerAction → WalletChain
  | .processBlock _ block accountId _ => fun account =>
    if account = accountId then
      (chain account).filter (·.1 ≠ block.height) ++ [(block.height, block.blockHash)]
    else chain account
  | .rollbackFromHeight accountId height _ _ => fun account =>
    if account = accountId then (chain account).filter (·.1 < height) else chain account
  | .lockOutput _ _ _ => chain
  | .unlockOutputsForRequest _ => chain

/-- The blocks that a call takes off the chain of an account: those that it rolls back, or another
    block at the height of the one that it adds. -/
def WalletChain.takenOff (chain : WalletChain) (a : LedgerAction) (account : AccountId) :
    List (Nat × FixedHash) :=
  match a with
  | .processBlock _ block accountId _ =>
    if account = accountId then
      (chain account).filter (fun b => b.1 = block.height ∧ b.2 ≠ block.blockHash)
    else []
  | .rollbackFromHeight accountId height _ _ =>
    if account = accountId then (chain account).filter (height ≤ ·.1) else []
  | .lockOutput _ _ _ => []
  | .unlockOutputsForRequest _ => []

def WalletChain.Has (chain : WalletChain) (accountId : AccountId) (blockHash : FixedHash) : Prop :=
  blockHash ∈ (chain accountId).map (·.2)

instance (chain : WalletChain) (accountId : AccountId) (blockHash : FixedHash) :
    Decidable (chain.Has accountId blockHash) := by
  unfold WalletChain.Has
  infer_instance

/-- A block that is not taken off stays on the chain. -/
theorem WalletChain.has_after {chain : WalletChain} {a : LedgerAction} {accountId : AccountId}
    {blockHash : FixedHash} (h : chain.Has accountId blockHash)
    (hkept : ∀ block ∈ chain.takenOff a accountId, block.2 ≠ blockHash) :
    (chain.after a).Has accountId blockHash := by
  obtain ⟨⟨height, hash⟩, hmem, rfl⟩ := List.mem_map.mp h
  cases a with
  | processBlock bp block account now =>
      by_cases hsame : accountId = account
      · simp only [WalletChain.takenOff, if_pos hsame, List.mem_filter] at hkept
        simp only [WalletChain.Has, WalletChain.after, if_pos hsame]
        by_cases hreplaced : height = block.height
        · have heq : hash = block.blockHash := by
            by_contra hne
            exact hkept (height, hash) ⟨hmem, by simp [hreplaced, hne]⟩ rfl
          simp [heq]
        · exact List.mem_map.mpr ⟨(height, hash), by simp [hmem, hreplaced], rfl⟩
      · simpa only [WalletChain.Has, WalletChain.after, if_neg hsame] using h
  | lockOutput _ _ _ => exact h
  | unlockOutputsForRequest _ => exact h
  | rollbackFromHeight account lowest webhookConfig now =>
      by_cases hsame : accountId = account
      · simp only [WalletChain.takenOff, if_pos hsame, List.mem_filter] at hkept
        simp only [WalletChain.Has, WalletChain.after, if_pos hsame]
        have hbelow : height < lowest := by
          by_contra hnot
          exact hkept (height, hash) ⟨hmem, by simpa using Nat.le_of_not_lt hnot⟩ rfl
        exact List.mem_map.mpr ⟨(height, hash), by simp [hmem, hbelow], rfl⟩
      · simpa only [WalletChain.Has, WalletChain.after, if_neg hsame] using h

structure BurnProofSystem where
  db : Db
  chain : WalletChain
  burnProofs : BurnProofs
  files : String × Bytes → Option WrittenProof
  worker : BurnProofWorker

inductive BurnProofAction where
  /-- A call that scans, locks or rolls back. -/
  | wallet (a : LedgerAction)
  | insertBurnProof (new : NewBurnProof) (now : Timestamp)
  /-- The worker lists the pending proofs. -/
  | poll (order : List DbBurnProof)
  /-- The node answers, when the kernel has these confirmations. -/
  | getKernelMerkleProof (merkle : GenerateKernelMerkleProofResponse) (confirmations : Nat)
  | writeProofFile
  | markBurnProofComplete
  /-- The request, the file or the database fails, and the worker goes on to the next proof. -/
  | fail
  | restart

namespace BurnProofSystem

def start : BurnProofSystem := ⟨.empty, fun _ => [], AutoTable.empty, fun _ => none, .processing []⟩

/-- The system after one action, `none` when the action is not possible. -/
def step (env : ScanEnv) (codec : CanonicalBytes) (s : BurnProofSystem) :
    BurnProofAction → Option BurnProofSystem
  | .wallet a => (ledgerStep env s.db a).map (fun db => { s with db, chain := s.chain.after a })
  | .insertBurnProof new now =>
    (s.burnProofs.insertBurnProof new now).map (fun burnProofs => { s with burnProofs })
  | .poll order =>
    match s.worker with
    | .processing [] =>
      if s.burnProofs.PendingOrder order then some { s with worker := .processing order } else none
    | _ => none
  | .getKernelMerkleProof merkle confirmations =>
    match s.worker with
    | .processing (proof :: todo) =>
      some { s with worker := .fetched proof merkle confirmations todo }
    | _ => none
  | .writeProofFile =>
    match s.worker with
    | .fetched proof merkle confirmations todo =>
      match assembleCompleteProof codec proof merkle with
      | .error _ => some { s with worker := .processing todo }
      | .ok content => some { s with
          files := fun path =>
            if path = proof.path then some ⟨content, confirmations⟩ else s.files path
          worker := .written proof todo }
    | _ => none
  | .markBurnProofComplete =>
    match s.worker with
    | .written proof todo => some { s with
        burnProofs := s.burnProofs.markBurnProofComplete proof.id
        worker := .processing todo }
    | _ => none
  | .fail =>
    match s.worker with
    | .processing [] => none
    | .processing (_ :: todo) => some { s with worker := .processing todo }
    | .fetched _ _ _ todo => some { s with worker := .processing todo }
    | .written _ todo => some { s with worker := .processing todo }
  | .restart => some { s with worker := .processing [] }

/-- The kernel had the required confirmations, and the block is on the chain of the account. -/
def Final (s : BurnProofSystem) (required : Nat) (accountId : AccountId)
    (written : WrittenProof) : Prop :=
  required ≤ written.confirmations ∧ s.chain.Has accountId written.blockHash

instance (s : BurnProofSystem) (required : Nat) (accountId : AccountId) (written : WrittenProof) :
    Decidable (s.Final required accountId written) :=
  inferInstanceAs (Decidable (_ ∧ _))

/-- Every complete proof has a file that is final. -/
def FinalWhenComplete (required : Nat) (s : BurnProofSystem) : Prop :=
  ∀ proof ∈ s.burnProofs.rows, proof.status = .complete →
    ∃ written ∈ s.files proof.path, s.Final required proof.accountId written

/-- The account of a proof, and those with a complete proof that has the same file. -/
def accountsOf (s : BurnProofSystem) (proof : DbBurnProof) : List AccountId :=
  proof.accountId :: (s.burnProofs.select (fun row =>
    row.status == .complete && row.path == proof.path)).map (·.accountId)

/-- The blocks that complete proofs and the proof in the worker's hands refer to, each with the
    account whose chain it has to be on. -/
def referredTo (s : BurnProofSystem) : List (AccountId × FixedHash) :=
  (s.burnProofs.select (·.status == .complete)).flatMap (fun row =>
    (s.files row.path).toList.map (fun written => (row.accountId, written.blockHash))) ++
  match s.worker with
  | .processing _ => []
  | .fetched proof merkle _ _ => (s.accountsOf proof).map (fun accountId =>
      (accountId, merkle.blockHash))
  | .written proof _ => (s.files proof.path).toList.map (fun written =>
      (proof.accountId, written.blockHash))

/-- The node answers about a kernel that has the required confirmations in a block of the account's
    chain, and no block that a proof refers to is taken off a chain. -/
def FinalAnswers (required : Nat) (s : BurnProofSystem) : BurnProofAction → Prop
  | .wallet a => ∀ ref ∈ s.referredTo, ∀ block ∈ s.chain.takenOff a ref.1, block.2 ≠ ref.2
  | .getKernelMerkleProof merkle confirmations =>
    match s.worker with
    | .processing (proof :: _) => required ≤ confirmations ∧
        ∀ accountId ∈ s.accountsOf proof, s.chain.Has accountId merkle.blockHash
    | _ => True
  | _ => True

instance (required : Nat) (s : BurnProofSystem) : Decidable (FinalWhenComplete required s) := by
  unfold FinalWhenComplete
  infer_instance

instance (required : Nat) (s : BurnProofSystem) (a : BurnProofAction) :
    Decidable (FinalAnswers required s a) := by
  unfold FinalAnswers
  repeat' split
  all_goals infer_instance

/-! ## Runs -/

variable {env : ScanEnv} {codec : CanonicalBytes} {required : Nat} {s s' : BurnProofSystem}

/-- The proof is a row, but for its status. -/
def Stored (burnProofs : BurnProofs) (proof : DbBurnProof) : Prop :=
  ∃ row ∈ burnProofs.rows, row.id = proof.id ∧ row.path = proof.path ∧
    row.accountId = proof.accountId

/-- What the worker has fetched or written is final for the proof that it is about. -/
def FinalInHand (required : Nat) (s : BurnProofSystem) : Prop :=
  match s.worker with
  | .processing _ => True
  | .fetched proof merkle confirmations _ => required ≤ confirmations ∧
      ∀ accountId ∈ s.accountsOf proof, s.chain.Has accountId merkle.blockHash
  | .written proof _ => ∃ written ∈ s.files proof.path, s.Final required proof.accountId written

/-- Complete proofs are final, and so is what the worker has in its hands; it works on rows. -/
structure Tracked (required : Nat) (s : BurnProofSystem) : Prop where
  final : FinalWhenComplete required s
  inHand : FinalInHand required s
  stored : ∀ proof ∈ s.worker.proofs, Stored s.burnProofs proof

theorem mem_accountsOf {proof : DbBurnProof} {accountId : AccountId} :
    accountId ∈ s.accountsOf proof ↔ accountId = proof.accountId ∨
      ∃ row ∈ s.burnProofs.rows, row.status = .complete ∧ row.path = proof.path ∧
        row.accountId = accountId := by
  simp only [accountsOf, List.mem_cons, List.mem_map, Table.mem_select, Bool.and_eq_true,
    beq_iff_eq, and_assoc]

theorem mem_insertBurnProof {burnProofs burnProofs' : BurnProofs} {new : NewBurnProof}
    {now : Timestamp} (h : burnProofs.insertBurnProof new now = some burnProofs') :
    ∃ row, row.status = .pendingMerkle ∧
      ∀ proof, proof ∈ burnProofs'.rows ↔ proof ∈ burnProofs.rows ∨ proof = row := by
  unfold BurnProofs.insertBurnProof at h
  split at h
  · cases h
  · simp only [Option.some.injEq] at h
    subst h
    refine ⟨_, ?_, fun proof => AutoTable.mem_insert (by intro _; rfl)⟩
    rfl

theorem stored_insertBurnProof {burnProofs burnProofs' : BurnProofs} {new : NewBurnProof}
    {now : Timestamp} (h : burnProofs.insertBurnProof new now = some burnProofs')
    {proof : DbBurnProof} (hproof : Stored burnProofs proof) : Stored burnProofs' proof := by
  obtain ⟨row, -, hmem⟩ := mem_insertBurnProof h
  obtain ⟨r, hr, hsame⟩ := hproof
  exact ⟨r, (hmem r).mpr (Or.inl hr), hsame⟩

theorem stored_markBurnProofComplete {burnProofs : BurnProofs} {id : Id} {proof : DbBurnProof}
    (h : Stored burnProofs proof) : Stored (burnProofs.markBurnProofComplete id) proof := by
  obtain ⟨row, hrow, hid, hpath, haccount⟩ := h
  refine ⟨_, (AutoTable.mem_updateWhere (by intro _; rfl)).mpr ⟨row, hrow, rfl⟩, ?_⟩
  split
  · exact ⟨hid, hpath, haccount⟩
  · exact ⟨hid, hpath, haccount⟩

/-- The rows of a poll are stored. -/
theorem stored_of_order {burnProofs : BurnProofs} {order : List DbBurnProof}
    (h : burnProofs.PendingOrder order) : ∀ proof ∈ order, Stored burnProofs proof := by
  intro proof hproof
  have hrow := (Table.mem_select.mp (h.1.mem_iff.mp hproof)).1
  exact ⟨proof, hrow, rfl, rfl, rfl⟩

/-- What a step that changes no file and no row but pending ones keeps. -/
theorem FinalInHand.of_rows {burnProofs : BurnProofs}
    (h : FinalInHand required s)
    (hrows : ∀ row ∈ burnProofs.rows, row.status = .complete → row ∈ s.burnProofs.rows) :
    FinalInHand required { s with burnProofs } := by
  unfold FinalInHand at h ⊢
  dsimp only
  split
  · trivial
  · next proof merkle confirmations todo hworker =>
      simp only [hworker] at h
      refine ⟨h.1, fun accountId hmem => h.2 accountId (mem_accountsOf.mpr ?_)⟩
      rcases mem_accountsOf.mp hmem with hown | ⟨row, hrow, hcomplete, hrest⟩
      · exact Or.inl hown
      · exact Or.inr ⟨row, hrows row hrow hcomplete, hcomplete, hrest⟩
  · next proof todo hworker =>
      simp only [hworker] at h
      exact h

/-- A call that takes no block off that is referred to. -/
theorem Tracked.wallet {a : LedgerAction} (h : Tracked required s)
    (hkept : ∀ ref ∈ s.referredTo, ∀ block ∈ s.chain.takenOff a ref.1, block.2 ≠ ref.2) (db : Db) :
    Tracked required { s with db, chain := s.chain.after a } := by
  refine ⟨fun proof hproof hcomplete => ?_, ?_, h.stored⟩
  · obtain ⟨written, hwritten, hconfirmed, hchain⟩ := h.final proof hproof hcomplete
    have hreferred : (proof.accountId, written.blockHash) ∈ s.referredTo := by
      refine List.mem_append_left _ (List.mem_flatMap.mpr ⟨proof, ?_, ?_⟩)
      · exact Table.mem_select.mpr ⟨hproof, by simp [hcomplete]⟩
      · exact List.mem_map.mpr ⟨written, Option.mem_toList.mpr hwritten, rfl⟩
    exact ⟨written, hwritten, hconfirmed, WalletChain.has_after hchain (hkept _ hreferred)⟩
  · have hinHand := h.inHand
    unfold FinalInHand at hinHand ⊢
    dsimp only
    split
    · trivial
    · next proof merkle confirmations todo hworker =>
        simp only [hworker] at hinHand
        refine ⟨hinHand.1, fun accountId hmem =>
          WalletChain.has_after (hinHand.2 accountId hmem) ?_⟩
        refine hkept (accountId, merkle.blockHash) (List.mem_append_right _ ?_)
        rw [hworker]
        exact List.mem_map.mpr ⟨accountId, hmem, rfl⟩
    · next proof todo hworker =>
        simp only [hworker] at hinHand
        obtain ⟨written, hwritten, hconfirmed, hchain⟩ := hinHand
        refine ⟨written, hwritten, hconfirmed, WalletChain.has_after hchain ?_⟩
        refine hkept (proof.accountId, written.blockHash) (List.mem_append_right _ ?_)
        rw [hworker]
        exact List.mem_map.mpr ⟨written, Option.mem_toList.mpr hwritten, rfl⟩

/-- Marking the proof in hand keeps complete proofs final. -/
theorem Tracked.markBurnProofComplete {proof : DbBurnProof} {todo : List DbBurnProof}
    (h : Tracked required s) (hworker : s.worker = .written proof todo) :
    FinalWhenComplete required { s with
      burnProofs := s.burnProofs.markBurnProofComplete proof.id
      worker := .processing todo } := by
  have hfinal : ∃ written ∈ s.files proof.path, s.Final required proof.accountId written := by
    have hinHand := h.inHand
    simpa only [FinalInHand, hworker] using hinHand
  intro proof' hproof' hcomplete
  obtain ⟨row, hrow, rfl⟩ := (AutoTable.mem_updateWhere (by intro _; rfl)).mp hproof'
  by_cases hid : (row.id == proof.id) = true
  · obtain ⟨stored, hstored, hsid, hpath, haccount⟩ :=
      h.stored proof (by rw [hworker]; exact List.mem_cons_self)
    have heq : row = stored := s.burnProofs.eq_of_key_eq hrow hstored
      ((beq_iff_eq.mp hid).trans hsid.symm)
    subst heq
    simp only [hid, if_true]
    rw [show ({ row with status := .complete } : DbBurnProof).path = row.path from rfl, hpath,
      haccount]
    exact hfinal
  · simp only [hid] at hcomplete ⊢
    exact h.final row hrow hcomplete

/-- A file written from the node's answer is final for its proof, and for every complete proof that
    has this file. -/
theorem Tracked.writeProofFile {proof : DbBurnProof} {merkle : GenerateKernelMerkleProofResponse}
    {confirmations : Nat} {todo : List DbBurnProof} {content : CompleteClaimBurnProof}
    (h : Tracked required s) (hworker : s.worker = .fetched proof merkle confirmations todo)
    (hcontent : assembleCompleteProof codec proof merkle = .ok content) :
    Tracked required { s with
      files := fun path =>
        if path = proof.path then some ⟨content, confirmations⟩ else s.files path
      worker := .written proof todo } := by
  have hanswer : required ≤ confirmations ∧
      ∀ accountId ∈ s.accountsOf proof, s.chain.Has accountId merkle.blockHash := by
    have hinHand := h.inHand
    simpa only [FinalInHand, hworker] using hinHand
  obtain ⟨hconfirmed, hchain⟩ := hanswer
  have hhash : (⟨content, confirmations⟩ : WrittenProof).blockHash = merkle.blockHash :=
    assembleCompleteProof_blockHash hcontent
  refine ⟨fun proof' hproof' hcomplete => ?_, ⟨⟨content, confirmations⟩, by simp, hconfirmed, ?_⟩,
    fun p hp => h.stored p ?_⟩
  · by_cases hpath : proof'.path = proof.path
    · refine ⟨⟨content, confirmations⟩, by simp [hpath], hconfirmed, ?_⟩
      rw [hhash]
      exact hchain _ (mem_accountsOf.mpr (Or.inr ⟨proof', hproof', hcomplete, hpath, rfl⟩))
    · obtain ⟨written, hwritten, hfinal⟩ := h.final proof' hproof' hcomplete
      exact ⟨written, by simpa [hpath] using hwritten, hfinal⟩
  · rw [hhash]
    exact hchain _ (mem_accountsOf.mpr (Or.inl rfl))
  · rw [hworker]
    exact hp

theorem Tracked.step {a : BurnProofAction} (h : Tracked required s)
    (hmeets : FinalAnswers required s a) (hstep : s.step env codec a = some s') :
    Tracked required s' := by
  cases a with
  | wallet a =>
      obtain ⟨db, -, rfl⟩ := Option.map_eq_some_iff.mp hstep
      exact h.wallet hmeets db
  | insertBurnProof new now =>
      obtain ⟨burnProofs, hinsert, rfl⟩ := Option.map_eq_some_iff.mp hstep
      obtain ⟨row, hpending, hmem⟩ := mem_insertBurnProof hinsert
      have hrows : ∀ proof ∈ burnProofs.rows, proof.status = .complete →
          proof ∈ s.burnProofs.rows := by
        intro proof hproof hcomplete
        rcases (hmem proof).mp hproof with hproof | rfl
        · exact hproof
        · rw [hpending] at hcomplete
          cases hcomplete
      exact ⟨fun proof hproof hcomplete => h.final proof (hrows proof hproof hcomplete) hcomplete,
        h.inHand.of_rows hrows,
        fun proof hproof => stored_insertBurnProof hinsert (h.stored proof hproof)⟩
  | poll order =>
      simp only [BurnProofSystem.step] at hstep
      split at hstep
      · split at hstep
        · next horder =>
            cases hstep
            exact ⟨h.final, trivial, stored_of_order horder⟩
        · cases hstep
      · cases hstep
  | getKernelMerkleProof merkle confirmations =>
      simp only [BurnProofSystem.step] at hstep
      split at hstep
      · next proof todo hworker =>
          simp only [FinalAnswers, hworker] at hmeets
          cases hstep
          refine ⟨h.final, hmeets, fun p hp => h.stored p ?_⟩
          rw [hworker]
          exact hp
      · cases hstep
  | writeProofFile =>
      simp only [BurnProofSystem.step] at hstep
      split at hstep
      · next proof merkle confirmations todo hworker =>
          split at hstep
          · cases hstep
            refine ⟨h.final, trivial, fun p hp => h.stored p ?_⟩
            rw [hworker]
            exact List.mem_cons_of_mem _ hp
          · next content hcontent =>
              cases hstep
              exact h.writeProofFile hworker hcontent
      · cases hstep
  | markBurnProofComplete =>
      simp only [BurnProofSystem.step] at hstep
      split at hstep
      · next proof todo hworker =>
          cases hstep
          refine ⟨h.markBurnProofComplete hworker, trivial, fun p hp =>
            stored_markBurnProofComplete (h.stored p ?_)⟩
          rw [hworker]
          exact List.mem_cons_of_mem _ hp
      · cases hstep
  | fail =>
      simp only [BurnProofSystem.step] at hstep
      split at hstep
      · cases hstep
      all_goals
        next hworker =>
          cases hstep
          refine ⟨h.final, trivial, fun p hp => h.stored p ?_⟩
          rw [hworker]
          exact List.mem_cons_of_mem _ hp
  | restart =>
      cases hstep
      exact ⟨h.final, trivial, fun p hp => by cases hp⟩

/-- Where the node answers about confirmed kernels in blocks of the wallet's chain, and no block
    that a proof refers to is rolled back or replaced, complete proofs are final in every state. -/
theorem finalWhenComplete_of_run (env : ScanEnv) (codec : CanonicalBytes) (required : Nat)
    (actions : List BurnProofAction)
    (hmeets : Along (BurnProofSystem.step env codec) (FinalAnswers required) start actions) :
    Always (BurnProofSystem.step env codec) (FinalWhenComplete required) start actions :=
  always_of_along (I := Tracked required) (fun _ _ _ h hg hstep => h.step hg hstep)
    (fun _ h => h.final)
    ⟨(fun _ hp => by cases hp), trivial, (fun _ hp => by cases hp)⟩ hmeets

/-- Bytes that are all canonical. -/
def plainCodec : CanonicalBytes where
  publicKey := .ok
  commitment := .ok
  privateKey := fun bytes => .ok bytes.length
  hexDecode := fun _ => .ok []

def burnProof : NewBurnProof where
  accountId := 1
  outputHash := 700
  commitment := [7]
  claimPublicKey := "0a"
  ownershipProofNonce := []
  ownershipProofSig := []
  kernelExcess := []
  kernelExcessNonce := []
  kernelExcessSig := []
  senderOffsetPublicKey := []
  encryptedData := []
  value := 1000
  kernelFee := 10
  kernelLockHeight := 0

/-- The row of the proof. -/
def pendingBurnProof : DbBurnProof where
  id := 1
  accountId := 1
  outputHash := 700
  commitment := [7]
  claimPublicKey := "0a"
  ownershipProofNonce := []
  ownershipProofSig := []
  kernelExcess := []
  kernelExcessNonce := []
  kernelExcessSig := []
  senderOffsetPublicKey := []
  encryptedData := []
  value := 1000
  kernelFee := 10
  kernelLockHeight := 0
  status := .pendingMerkle
  createdAt := 0

/-- The burn is mined in block 10, and completed when its kernel has three confirmations. -/
def completedBurn : List BurnProofAction :=
  [.insertBurnProof burnProof 0,
    .wallet (.processBlock (.withEventSender [(1, 7)] 3) ⟨10, 110, [], [], 1000⟩ 1 0),
    .poll [pendingBurnProof], .getKernelMerkleProof ⟨110, [], 0⟩ 3, .writeProofFile,
    .markBurnProofComplete]

theorem completedBurn_final :
    Always (BurnProofSystem.step plainEnv plainCodec) (FinalWhenComplete 3) start completedBurn ∧
      (Transition.run (BurnProofSystem.step plainEnv plainCodec) start completedBurn).isSome :=
  ⟨finalWhenComplete_of_run plainEnv plainCodec 3 completedBurn (by decide +kernel),
    by decide +kernel⟩

/-- After a rollback of the block the proof stays complete. -/
theorem rolledBackBurn_not_final :
    ¬∀ (env : ScanEnv) (codec : CanonicalBytes) (required : Nat) (actions : List BurnProofAction),
      Always (BurnProofSystem.step env codec) (FinalWhenComplete required) start actions := by
  intro hall
  have hfails : ¬Always (BurnProofSystem.step plainEnv plainCodec) (FinalWhenComplete 3) start
      (completedBurn ++ [.wallet (.rollbackFromHeight 1 10 none 1100)]) := by
    decide +kernel
  exact hfails (hall plainEnv plainCodec 3 _)

/-- The worker completes a proof whose kernel has no confirmations. -/
example : ¬Always (BurnProofSystem.step plainEnv plainCodec) (FinalWhenComplete 3) start
    [.insertBurnProof burnProof 0, .poll [pendingBurnProof], .getKernelMerkleProof ⟨110, [], 0⟩ 0,
      .writeProofFile, .markBurnProofComplete] := by
  decide +kernel

end BurnProofSystem

end MinotariWallet

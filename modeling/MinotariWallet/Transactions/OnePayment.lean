import MinotariWallet.Lib.Shared
import MinotariWallet.Transactions.Refused

set_option autoImplicit false

/-! # One payment for a key

The calls that pay under one key work on one pending transaction, each with the outputs that it finds
locked for it. Those of the call that created it are the outputs it selected; it locks them one by
one, and other calls may read what is locked so far. -/

namespace MinotariWallet

open Sql Processes WalletSystem SetFamily

/-- `start_new_transaction`, `finalize_transaction_and_broadcast`, `lock` and the unlocker, with the
    messages. -/
def SystemAction.pays : SystemAction → Bool
  | .monitor _ => false
  | .processBlock _ _ _ _ => false
  | .rollbackFromHeight _ _ _ _ => false
  | _ => true

/-- The inputs cover the amount and the fee. -/
def StartRequest.coveredBy (env : TransactionEnv) (req : StartRequest)
    (inputs : List DbWalletOutput) : Bool :=
  decide (req.recipient.amount + env.transactionFee (inputs.map (·.output)) ≤
    (inputs.map (·.output.value)).sum)

/-- The request and the inputs of the transaction that the builder makes in an action. -/
def WalletSystem.built? (s : WalletSystem) :
    SystemAction → Option (StartRequest × List DbWalletOutput)
  | .statement i ch =>
    match s.calls[i]?, ch.external with
    | some (.start req (.build _ _ inputs)), .ok _ => some (req, inputs)
    | _, _ => none
  | _ => none

/-- The builder makes no transaction of inputs that do not cover the amount and the fee. -/
def BuilderCovers (env : TransactionEnv) (s : WalletSystem) (a : SystemAction) : Prop :=
  ∀ built ∈ s.built? a, built.1.coveredBy env built.2 = true

instance (env : TransactionEnv) (s : WalletSystem) (a : SystemAction) :
    Decidable (BuilderCovers env s a) := by
  unfold BuilderCovers
  infer_instance

/-- Any two transactions submitted for a key spend an output in common. -/
def OnePayment (s : WalletSystem) : Prop :=
  ∀ key accountId, ∀ tx ∈ s.payments key accountId, ∀ tx' ∈ s.payments key accountId,
    ∃ hash ∈ tx.inputs, hash ∈ tx'.inputs

namespace Call

/-- The inputs that the call builds or has built with, and the pending transaction. -/
def inputsFor : Call → Option (RequestId × List DbWalletOutput)
  | .start _ (.build id _ inputs) => some (id, inputs)
  | .start _ (.ok prepared) => some (prepared.id, prepared.inputs)
  | .finalize prepared _ _ => some (prepared.id, prepared.inputs)
  | _ => none

/-- The outputs that the call locks one by one for the pending transaction that it created. -/
def locking : Call → Option (RequestId × List DbWalletOutput)
  | .start _ (.locking id _ utxos _) => some (id, utxos)
  | _ => none

/-- Those of them that it has not come to. -/
def toLock : Call → List DbWalletOutput
  | .start _ (.locking _ _ _ todo) => todo
  | _ => []

/-- What the call has prepared, or was given to finalize. -/
def prepares : Call → Option PreparedTransaction
  | .start _ (.ok prepared) => some prepared
  | .finalize prepared _ _ => some prepared
  | _ => none

/-- The outputs that the call works with. -/
def known : Call → List DbWalletOutput
  | .start _ (.create _ selection) => selection.utxos
  | .start _ (.locking _ _ utxos _) => utxos
  | .start _ (.build _ _ inputs) => inputs
  | .start _ (.ok prepared) => prepared.inputs
  | .finalize prepared _ _ => prepared.inputs
  | _ => []

end Call

/-- No call has outputs in hand that it read or selected for the pending transaction. -/
def NothingInHand (s : WalletSystem) (req : RequestId) : Prop :=
  ∀ c ∈ s.calls, ∀ h ∈ c.inputsFor, h.1 = req → h.2 = []

/-- While a call still locks outputs for a pending transaction, the step does not unlock it after
    another call has read some of them. -/
def Undivided (s : WalletSystem) (a : SystemAction) : Prop :=
  ∀ i ∈ a.caller?, ∀ c ∈ s.calls[i]?, ∀ req ∈ c.toUnlock, ∀ d ∈ s.calls, ∀ l ∈ d.locking,
    l.1 = req → NothingInHand s req

instance (s : WalletSystem) (req : RequestId) : Decidable (NothingInHand s req) := by
  unfold NothingInHand; infer_instance

instance (s : WalletSystem) (a : SystemAction) : Decidable (Undivided s a) := by
  unfold Undivided; infer_instance

/-- The ids of the outputs. -/
def ids (utxos : List DbWalletOutput) : Set Id := {v | ∃ u ∈ utxos, u.id = v}

/-- The outputs that carry the id of the pending transaction. -/
def carrying (outputs : AutoTable OutputRow) (req : RequestId) : Set Id :=
  {v | ∃ o ∈ outputs.rows, o.id = v ∧ o.lockedByRequestId = some req}

/-- Those that carry it still when it is unlocked. -/
def keeping (outputs : AutoTable OutputRow) (req : RequestId) : Set Id :=
  {v | ∃ o ∈ outputs.rows, o.id = v ∧ o.lockedByRequestId = some req ∧ o.status ≠ .locked}

/-- The sets of outputs that a payment under the pending transaction spends or may come to spend. -/
inductive Hand (s : WalletSystem) (req : RequestId) : Set Id → Prop where
  | call {i : Nat} {c : Call} {utxos : List DbWalletOutput} (hc : s.calls[i]? = some c)
      (h : c.inputsFor = some (req, utxos)) : Hand s req (ids utxos)
  | carrying : Hand s req (carrying s.db.outputs req)
  | keeping : Hand s req (keeping s.db.outputs req)

/-- What is true while call `i` locks `utxos` for the pending transaction. -/
structure Looping (s : WalletSystem) (i : Nat) (req : RequestId) (utxos : List DbWalletOutput) :
    Prop where
  only : ∀ (j : Nat) (d : Call) us, s.calls[j]? = some d → d.locking = some (req, us) → j = i
  locked : carrying s.db.outputs req ⊆ ids utxos
  hands : ∀ (j : Nat) (d : Call) us, s.calls[j]? = some d → d.inputsFor = some (req, us) →
    ids us ⊆ carrying s.db.outputs req

/-- What is true of a call in every state. -/
structure Paying (db : Db) (c : Call) : Prop where
  known : ∀ u ∈ c.known, ∃ o ∈ db.outputs.rows, o.toDbWalletOutput = u
  toLock : ∀ l, c.locking = some l → c.toLock ≠ [] ∧ ∀ u ∈ c.toLock, u ∈ l.2
  prepares : ∀ prepared, c.prepares = some prepared → prepared.inputs ≠ []
  signed : ∀ prepared signed st, c = .finalize prepared signed st →
    signed.transaction.inputs = prepared.inputs.map (·.output.outputHash)

structure AllPaying (s : WalletSystem) : Prop where
  keyed : AllKeyed s
  calls : Each (fun _ c => Paying s.db c) s.calls
  locking : Each (fun i c => ∀ req utxos, c.locking = some (req, utxos) → Looping s i req utxos)
    s.calls
  shared : ∀ req, Shared {H | Hand s req H}

variable {env : TransactionEnv} {ch : Choice} {db : Db} {x : Statement} {c c' : Call}
  {s s' : WalletSystem} {a : SystemAction} {req : RequestId}

theorem keeping_subset (outputs : AutoTable OutputRow) (req : RequestId) :
    keeping outputs req ⊆ carrying outputs req := by
  rintro v ⟨o, ho, hid, hreq, -⟩
  exact ⟨o, ho, hid, hreq⟩

/-! ## Statements and the outputs that carry an id -/

section OutputsFrom

variable {locks : Option (RequestId × List Id)} {unlocks : Option RequestId}
  {before after : AutoTable OutputRow}

theorem OutputChange.id_eq {o o' : OutputRow} (h : OutputChange locks unlocks o o') :
    o'.id = o.id ∧ o'.toDbWalletOutput = o.toDbWalletOutput := by
  cases h <;> exact ⟨rfl, rfl⟩

/-- An output stays known to the calls that have read it. -/
theorem OutputsFrom.known (h : OutputsFrom locks unlocks before after) {u : DbWalletOutput}
    (hu : ∃ o ∈ before.rows, o.toDbWalletOutput = u) : ∃ o ∈ after.rows, o.toDbWalletOutput = u := by
  obtain ⟨o, ho, rfl⟩ := hu
  obtain ⟨o', ho', hchange⟩ := h.forward o ho
  exact ⟨o', ho', hchange.id_eq.2⟩

theorem OutputsFrom.carrying_subset (h : OutputsFrom locks unlocks before after) (req : RequestId) :
    carrying after req ⊆
      carrying before req ∪ {v | ∃ vs, locks = some (req, vs) ∧ v ∈ vs} := by
  rintro v ⟨o', ho', rfl, hreq⟩
  obtain ⟨o, ho, hchange⟩ := h.backward o' ho'
  cases hchange with
  | stays => exact Or.inl ⟨o', ho, rfl, hreq⟩
  | locks hlocks hid hstatus lockedAt =>
      cases hreq
      exact Or.inr ⟨_, hlocks, hid⟩
  | unlocks => cases hreq

/-- What carries an id carries it until it is unlocked; no lock takes it over. -/
theorem OutputsFrom.subset_carrying (h : OutputsFrom locks unlocks before after)
    (hfree : ∀ o ∈ before.rows, ∀ req, o.lockedByRequestId = some req → o.status ≠ .unspent)
    (hnot : unlocks ≠ some req) : carrying before req ⊆ carrying after req := by
  rintro v ⟨o, ho, rfl, hreq⟩
  obtain ⟨o', ho', hchange⟩ := h.forward o ho
  cases hchange with
  | stays => exact ⟨o, ho', rfl, hreq⟩
  | locks hlocks hid hstatus lockedAt => exact absurd hstatus (hfree o ho req hreq)
  | unlocks hunlocks hstatus hreq' =>
      rw [hreq] at hreq'
      cases hreq'
      exact absurd hunlocks hnot

theorem OutputsFrom.keeping_eq (h : OutputsFrom locks unlocks before after)
    (hfree : ∀ o ∈ before.rows, ∀ req, o.lockedByRequestId = some req → o.status ≠ .unspent)
    (req : RequestId) : keeping after req = keeping before req := by
  ext v
  constructor
  · rintro ⟨o', ho', rfl, hreq, hstatus⟩
    obtain ⟨o, ho, hchange⟩ := h.backward o' ho'
    cases hchange with
    | stays => exact ⟨o', ho, rfl, hreq, hstatus⟩
    | locks => exact absurd rfl hstatus
    | unlocks => cases hreq
  · rintro ⟨o, ho, rfl, hreq, hstatus⟩
    obtain ⟨o', ho', hchange⟩ := h.forward o ho
    cases hchange with
    | stays => exact ⟨o, ho', rfl, hreq, hstatus⟩
    | locks hlocks hid hunspent lockedAt => exact absurd hunspent (hfree o ho req hreq)
    | unlocks hunlocks hlocked hreq' => exact absurd hlocked hstatus

theorem OutputsFrom.carrying_of_unlocks (h : OutputsFrom none (some req) before after)
    (hfree : ∀ o ∈ before.rows, ∀ req, o.lockedByRequestId = some req → o.status ≠ .unspent) :
    carrying after req = keeping before req := by
  rw [← h.keeping_eq hfree]
  refine Set.Subset.antisymm ?_ (keeping_subset after req)
  rintro v ⟨o', ho', rfl, hreq⟩
  refine ⟨o', ho', rfl, hreq, fun hlocked => ?_⟩
  obtain ⟨o, ho, hchange⟩ := h.backward o' ho'
  cases hchange with
  | stays hnot => exact hnot req rfl ⟨hlocked, hreq⟩
  | locks hlocks => cases hlocks
  | unlocks => cases hreq

end OutputsFrom

theorem Consistent.free (h : Consistent db) : ∀ o ∈ db.outputs.rows, ∀ req,
    o.lockedByRequestId = some req → o.status ≠ .unspent :=
  fun o ho req hreq => (h.carried o ho req hreq).1

/-- Nothing carries the id of a pending transaction that does not exist. -/
theorem Consistent.carrying_empty (h : Consistent db)
    (hnot : ¬PendingExists db.pendingTransactions req) : carrying db.outputs req = ∅ := by
  rw [Set.eq_empty_iff_forall_notMem]
  rintro v ⟨o, ho, -, hreq⟩
  exact hnot (h.carried o ho req hreq).2

theorem locks_none_of_unlocks (hx : x.unlocks = some req) : x.locks db = none := by
  cases x <;> first | rfl | cases hx

/-! ## The next state of a call -/

theorem ids_fetchOutputsByLockRequestId (db : Db) (req : RequestId) :
    ids (db.fetchOutputsByLockRequestId req) = carrying db.outputs req := by
  ext v
  constructor
  · rintro ⟨u, hu, rfl⟩
    obtain ⟨o, ho, rfl⟩ := List.mem_map.mp hu
    obtain ⟨hmem, hreq⟩ := Table.mem_select.mp ho
    exact ⟨o, hmem, rfl, by simpa using hreq⟩
  · rintro ⟨o, ho, rfl, hreq⟩
    exact ⟨_, List.mem_map.mpr ⟨o, Table.mem_select.mpr ⟨ho, by simpa using hreq⟩, rfl⟩, rfl⟩

theorem Call.inputsFor_none_of_locking {l : RequestId × List DbWalletOutput}
    (h : c.locking = some l) : c.inputsFor = none := by
  unfold Call.locking at h
  split at h <;> cases h
  rfl

theorem Call.pendingTxId_of_locking {l : RequestId × List DbWalletOutput}
    (h : c.locking = some l) : c.pendingTxId = some l.1 := by
  unfold Call.locking at h
  split at h <;> cases h
  rfl

theorem Call.pendingTxId_of_inputsFor {l : RequestId × List DbWalletOutput}
    (h : c.inputsFor = some l) : c.pendingTxId = some l.1 := by
  unfold Call.inputsFor at h
  split at h <;> cases h <;> rfl

theorem StartState.inputsFor_afterLocking {r : StartRequest} {id : RequestId}
    {utxos : List DbWalletOutput} {l : RequestId × List DbWalletOutput}
    (h : (Call.start r (.afterLocking id utxos)).inputsFor = some l) : l = (id, utxos) := by
  unfold StartState.afterLocking at h
  split at h <;> cases h
  rfl

/-- The inputs of a call are what it has read, or the outputs that it has just locked. -/
theorem CallStep.inputsFor (h : CallStep env ch db c x c') (hc : Paying db c)
    {us : List DbWalletOutput} (hc' : c'.inputsFor = some (req, us)) :
    c.inputsFor = some (req, us) ∨
      (ids us = carrying db.outputs req ∧ x = .read) ∨ c.locking = some (req, us) := by
  cases h with
  | lock h => cases hc'
  | start h =>
      cases h with
      | created new db' huuid hkeys haccount hok => split at hc' <;> cases hc'
      | allLocked id expiresAt utxos => exact absurd rfl (hc.toLock _ rfl).1
      | locked id expiresAt utxos rest utxo =>
          split at hc'
          · cases StartState.inputsFor_afterLocking hc'
            exact Or.inr (Or.inr rfl)
          · cases hc'
      | fetched id =>
          cases hc'
          exact Or.inr (Or.inl ⟨ids_fetchOutputsByLockRequestId db _, rfl⟩)
      | built id selectedUtxos inputs prepared hid hinputs =>
          cases hc'
          rw [hid, hinputs]
          exact Or.inl rfl
      | _ => cases hc'
  | finalize h => exact Or.inl hc'
  | unlocker h => cases hc'
  | monitor h => cases hc'

theorem CallStep.locking (h : CallStep env ch db c x c') {us : List DbWalletOutput}
    (hc' : c'.locking = some (req, us)) :
    c.locking = some (req, us) ∨
      (¬PendingExists db.pendingTransactions req ∧ x.locks db = none) := by
  cases h with
  | lock h => cases hc'
  | start h =>
      cases h with
      | created new db' huuid hkeys haccount hok =>
          split at hc'
          · cases hc'
          · cases hc'
            exact Or.inr ⟨createPending_fresh hok, rfl⟩
      | allLocked id expiresAt utxos =>
          unfold StartState.afterLocking at hc'
          split at hc' <;> cases hc'
      | locked id expiresAt utxos rest utxo =>
          unfold StartState.afterLocking at hc'
          split at hc'
          · split at hc' <;> cases hc'
          · cases hc'
            exact Or.inl rfl
      | _ => cases hc'
  | finalize h => cases hc'
  | unlocker h => cases hc'
  | monitor h => cases hc'

/-- A call locks the next of the outputs it selected, or all at once for a new pending transaction. -/
theorem CallStep.locks (h : CallStep env ch db c x c') {vs : List Id}
    (hx : x.locks db = some (req, vs)) :
    (∃ u us, c.locking = some (req, us) ∧ u ∈ c.toLock ∧ vs = [u.id]) ∨
      ¬PendingExists db.pendingTransactions req := by
  cases h with
  | lock h =>
      cases h with
      | created new result db' hid hkey haccount hok =>
          simp only [Statement.locks, hok, Except.toOption, Option.map_some, Option.some.injEq,
            Prod.mk.injEq] at hx
          exact Or.inr (hx.1 ▸ createPending_fresh hok)
      | notCreated new e hfail => simp [Statement.locks, hfail, Except.toOption] at hx
      | _ => cases hx
  | start h =>
      cases h with
      | locked id expiresAt utxos rest utxo =>
          cases hx
          exact Or.inl ⟨utxo, utxos, rfl, List.mem_cons_self, rfl⟩
      | _ => cases hx
  | finalize h => cases h <;> cases hx
  | unlocker h => cases h <;> cases hx
  | monitor h => cases h <;> cases hx

/-- What a call works with was read from the outputs. -/
theorem CallStep.known (h : CallStep env ch db c x c') {u : DbWalletOutput} (hu : u ∈ c'.known) :
    u ∈ c.known ∨ ∃ o ∈ db.outputs.rows, o.toDbWalletOutput = u := by
  cases h with
  | lock h => cases hu
  | start h =>
      cases h with
      | selected expiresAt st selection hsel =>
          refine Or.inr ?_
          obtain ⟨minHeight, total, hselect⟩ := InputSelector.step_inr hsel
          obtain ⟨o, ho, rfl⟩ := List.mem_map.mp (InputSelector.select_mem hselect u hu)
          exact ⟨o, (Table.mem_select.mp (mem_orderByDesc.mp ho)).1, rfl⟩
      | created new db' huuid hkeys haccount hok =>
          split at hu
          · cases hu
          · exact Or.inl hu
      | allLocked id expiresAt utxos =>
          unfold StartState.afterLocking at hu
          split at hu
          · cases hu
          · exact Or.inl hu
      | locked id expiresAt utxos rest utxo =>
          unfold StartState.afterLocking at hu
          split at hu
          · split at hu
            · cases hu
            · exact Or.inl hu
          · exact Or.inl hu
      | fetched id =>
          obtain ⟨o, ho, rfl⟩ := List.mem_map.mp hu
          exact Or.inr ⟨o, (Table.mem_select.mp ho).1, rfl⟩
      | built id selectedUtxos inputs prepared hid hinputs =>
          refine Or.inl ?_
          rw [← hinputs]
          exact hu
      | _ => cases hu
  | finalize h => exact Or.inl hu
  | unlocker h => cases hu
  | monitor h => cases hu

theorem Paying.other (hc : Paying db c) (x : Statement) : Paying (x.apply db) c where
  known u hu := (outputsFrom_apply db x).known (hc.known u hu)
  toLock := hc.toLock
  prepares := hc.prepares
  signed := hc.signed

theorem coveredBy_nil (hfee : 0 < env.transactionFee []) (r : StartRequest) :
    r.coveredBy env [] = false := by
  simp only [StartRequest.coveredBy, List.map_nil, List.sum_nil, decide_eq_false_iff_not]
  exact Nat.not_le_of_lt (Nat.lt_of_lt_of_le hfee (Nat.le_add_left _ _))

theorem Paying.own (hc : Paying db c) (hfee : 0 < env.transactionFee [])
    (hbuilder : ∀ req id selectedUtxos inputs, c = .start req (.build id selectedUtxos inputs) →
      ch.external = .ok () → req.coveredBy env inputs = true)
    (h : CallStep env ch db c x c') : Paying (x.apply db) c' where
  known u hu := by
    refine (outputsFrom_apply db x).known ?_
    rcases h.known hu with hu | hu
    · exact hc.known u hu
    · exact hu
  toLock l hl := by
    cases h with
    | lock h => cases hl
    | start h =>
        cases h with
        | created new db' huuid hkeys haccount hok =>
            split at hl
            · cases hl
            · next hne =>
                cases hl
                refine ⟨?_, fun u hu => ?_⟩
                · rw [if_neg hne]
                  show new.selection.utxos ≠ []
                  simpa using hne
                · rw [if_neg hne] at hu
                  exact hu
        | allLocked id expiresAt utxos => exact absurd rfl (hc.toLock _ rfl).1
        | locked id expiresAt utxos rest utxo =>
            split at hl
            · unfold StartState.afterLocking at hl
              split at hl <;> cases hl
            · next hne =>
                cases hl
                refine ⟨?_, fun u hu => ?_⟩
                · rw [if_neg hne]
                  show rest ≠ []
                  simpa using hne
                · rw [if_neg hne] at hu
                  exact (hc.toLock _ rfl).2 u (List.mem_cons_of_mem _ hu)
        | _ => cases hl
    | finalize h => cases hl
    | unlocker h => cases hl
    | monitor h => cases hl
  prepares prepared hp := by
    cases h with
    | lock h => cases hp
    | start h =>
        cases h with
        | created new => split at hp <;> cases hp
        | allLocked id expiresAt utxos => exact absurd rfl (hc.toLock _ rfl).1
        | locked id expiresAt utxos rest utxo =>
            unfold StartState.afterLocking at hp
            split at hp
            · split at hp <;> cases hp
            · cases hp
        | built id selectedUtxos inputs p hid hinputs hkey haccount hbuilt =>
            cases hp
            rw [hinputs]
            rintro rfl
            have hcovered := hbuilder _ _ _ _ rfl hbuilt
            rw [coveredBy_nil hfee] at hcovered
            cases hcovered
        | _ => cases hp
    | finalize h => exact hc.prepares prepared hp
    | unlocker h => cases hp
    | monitor h => cases hp
  signed prepared signed st heq := by
    cases h with
    | finalize h =>
        cases heq
        exact hc.signed _ _ _ rfl
    | _ => cases heq

/-! ## One step of the system -/

/-- The inputs of a call after a step: another call or itself had them before, or it has just read
    them, or has just locked them. -/
theorem inputsFor_step {j : Nat} {us : List DbWalletOutput} (h : AllPaying s)
    (hstep : s.step env a = some s') (hj : s'.calls[j]? = some c')
    (hc' : c'.inputsFor = some (req, us)) :
    (∃ (k : Nat) (d : Call), s.calls[k]? = some d ∧ d.inputsFor = some (req, us)) ∨
      (ids us = carrying s.db.outputs req ∧ s'.db = s.db) ∨
      ∃ d, s.calls[j]? = some d ∧ d.locking = some (req, us) := by
  cases step_calls hstep hj with
  | stay hc => exact Or.inl ⟨j, c', hc, hc'⟩
  | statement hc hcall hdb =>
      rcases hcall.inputsFor (h.calls j _ hc) hc' with hold | ⟨hread, rfl⟩ | hloop
      · exact Or.inl ⟨j, _, hc, hold⟩
      · exact Or.inr (Or.inl ⟨hread, hdb⟩)
      · exact Or.inr (Or.inr ⟨_, hc, hloop⟩)
  | send hc hsend =>
      refine Or.inl ⟨j, _, hc, ?_⟩
      unfold Call.toSend at hsend
      split at hsend <;> cases hsend <;> exact hc'
  | receive hc hawait hresult =>
      refine Or.inl ⟨j, _, hc, ?_⟩
      unfold Call.awaiting at hawait
      split at hawait <;> cases hawait <;> exact hc'
  | retry hc hretry =>
      refine Or.inl ⟨j, _, hc, ?_⟩
      unfold Call.retry at hretry
      split at hretry <;> cases hretry <;> exact hc'
  | fail hc hawait =>
      refine Or.inl ⟨j, _, hc, ?_⟩
      unfold Call.awaiting at hawait
      split at hawait <;> cases hawait <;> exact hc'
  | finalize kernelExcess sentOutputHash displayed hc => exact Or.inl ⟨_, _, hc, hc'⟩
  | _ => cases hc'

/-- A call that locks outputs one by one did so before, or its pending transaction is new. -/
theorem locking_step {j : Nat} {us : List DbWalletOutput} (hstep : s.step env a = some s')
    (hj : s'.calls[j]? = some c') (hc' : c'.locking = some (req, us)) :
    (∃ d, s.calls[j]? = some d ∧ d.locking = some (req, us)) ∨
      ((∃ ch, a = .statement j ch) ∧ ¬PendingExists s.db.pendingTransactions req ∧
        carrying s'.db.outputs req ⊆ carrying s.db.outputs req) := by
  cases step_calls hstep hj with
  | stay hc => exact Or.inl ⟨c', hc, hc'⟩
  | statement hc hcall hdb =>
      rcases hcall.locking hc' with hold | ⟨hnew, hlocks⟩
      · exact Or.inl ⟨_, hc, hold⟩
      · refine Or.inr ⟨⟨_, rfl⟩, hnew, ?_⟩
        rw [hdb]
        refine ((outputsFrom_apply s.db _).carrying_subset req).trans ?_
        refine Set.union_subset subset_rfl ?_
        rintro v ⟨vs, hvs, -⟩
        rw [hlocks] at hvs
        cases hvs
  | send hc hsend =>
      unfold Call.toSend at hsend
      split at hsend <;> cases hsend <;> cases hc'
  | receive hc hawait hresult =>
      unfold Call.awaiting at hawait
      split at hawait <;> cases hawait <;> cases hc'
  | retry hc hretry =>
      unfold Call.retry at hretry
      split at hretry <;> cases hretry <;> cases hc'
  | fail hc hawait =>
      unfold Call.awaiting at hawait
      split at hawait <;> cases hawait <;> cases hc'
  | _ => cases hc'

/-- What a step does to the outputs that carry the id of a pending transaction. -/
inductive CarryStep (s s' : WalletSystem) (req : RequestId) : Prop where
  | same (h : carrying s'.db.outputs req = carrying s.db.outputs req)
  | unlocked (h : carrying s'.db.outputs req = keeping s.db.outputs req)
      (hloop : (∃ d ∈ s.calls, ∃ us, d.locking = some (req, us)) → NothingInHand s req)
  | locked {k : Nat} {d : Call} {us : List DbWalletOutput} (hd : s.calls[k]? = some d)
      (hlocking : d.locking = some (req, us))
      (hkept : carrying s.db.outputs req ⊆ carrying s'.db.outputs req)
      (hnew : carrying s'.db.outputs req ⊆ carrying s.db.outputs req ∪ ids us)
  | fresh (h : ¬PendingExists s.db.pendingTransactions req)

theorem carry_step (h : AllPaying s) (ha : a.pays = true) (hu : Undivided s a)
    (hstep : s.step env a = some s') (req : RequestId) :
    CarryStep s s' req ∧ keeping s'.db.outputs req = keeping s.db.outputs req := by
  have hfree := h.keyed.consistent.db.free
  rcases step_db hstep with hdb | ⟨i, ch, rfl⟩ | ⟨bp, block, accountId, now, rfl⟩ |
    ⟨accountId, height, webhookConfig, now, rfl⟩
  · rw [hdb]
    exact ⟨.same (by rw [hdb]), rfl⟩
  · obtain ⟨c, x, c', hc, -, hcall, rfl⟩ := step_statement hstep
    have hfrom := outputsFrom_apply s.db x
    refine ⟨?_, hfrom.keeping_eq hfree req⟩
    by_cases hunlocks : x.unlocks = some req
    · rw [hunlocks, locks_none_of_unlocks hunlocks] at hfrom
      refine .unlocked (hfrom.carrying_of_unlocks hfree) ?_
      rintro ⟨d, hd, us, hlocking⟩
      exact hu i rfl c hc req (hcall.unlocks hunlocks) d hd (req, us) hlocking rfl
    · have hkept := hfrom.subset_carrying hfree hunlocks
      have hnew := hfrom.carrying_subset req
      by_cases hlocks : ∃ vs, x.locks s.db = some (req, vs)
      · obtain ⟨vs, hvs⟩ := hlocks
        rcases hcall.locks hvs with ⟨u, us, hlocking, humem, rfl⟩ | hfresh
        · refine .locked hc hlocking hkept (hnew.trans (Set.union_subset_union_right _ ?_))
          rintro v ⟨ws, hws, hv⟩
          rw [hvs] at hws
          cases hws
          rw [List.mem_singleton.mp hv]
          exact ⟨u, ((h.calls i c hc).toLock _ hlocking).2 u humem, rfl⟩
        · exact .fresh hfresh
      · refine .same (Set.Subset.antisymm (hnew.trans ?_) hkept)
        refine Set.union_subset subset_rfl ?_
        rintro v ⟨vs, hvs, -⟩
        exact absurd ⟨vs, hvs⟩ hlocks
  · cases ha
  · cases ha

theorem ids_eq_empty {us : List DbWalletOutput} (h : us = []) : ids us = ∅ := by
  subst h
  ext v
  simp [ids]

/-- The step while call `k` locks outputs for the pending transaction. -/
theorem Looping.step {k : Nat} {d : Call} {us : List DbWalletOutput} (hloop : Looping s k req us)
    (h : AllPaying s) (ha : a.pays = true) (hu : Undivided s a) (hd : s.calls[k]? = some d)
    (hlocking : d.locking = some (req, us)) (hstep : s.step env a = some s') :
    carrying s'.db.outputs req ⊆ ids us ∧
      ∀ (j : Nat) (e : Call) vs, s'.calls[j]? = some e → e.inputsFor = some (req, vs) → j ≠ k →
        ids vs ⊆ carrying s'.db.outputs req := by
  have hexists := h.keyed.consistent.recorded k d hd req (Call.pendingTxId_of_locking hlocking)
  obtain ⟨hcarry, -⟩ := carry_step h ha hu hstep req
  have hlocked : carrying s'.db.outputs req ⊆ ids us := by
    cases hcarry with
    | same heq => rw [heq]; exact hloop.locked
    | unlocked heq _ => rw [heq]; exact (keeping_subset _ req).trans hloop.locked
    | locked he hl _ hnew =>
        obtain rfl := hloop.only _ _ _ he hl
        obtain rfl := Option.some.inj (he.symm.trans hd)
        obtain ⟨-, rfl⟩ := Prod.mk.inj (Option.some.inj (hl.symm.trans hlocking))
        exact hnew.trans (Set.union_subset hloop.locked subset_rfl)
    | fresh hnot => exact absurd hexists hnot
  refine ⟨hlocked, fun j e vs he hin hne => ?_⟩
  rcases inputsFor_step h hstep he hin with ⟨m, e₀, he₀, hold⟩ | ⟨hread, hdb⟩ | ⟨e₀, he₀, hl⟩
  · cases hcarry with
    | same heq => rw [heq]; exact hloop.hands m e₀ vs he₀ hold
    | unlocked _ hnothing =>
        have hnil := hnothing ⟨d, List.mem_of_getElem? hd, us, hlocking⟩ e₀
          (List.mem_of_getElem? he₀) (req, vs) hold rfl
        rw [ids_eq_empty hnil]
        exact Set.empty_subset _
    | locked _ _ hkept _ => exact (hloop.hands m e₀ vs he₀ hold).trans hkept
    | fresh hnot => exact absurd hexists hnot
  · rw [hdb]
    exact hread.le
  · exact absurd (hloop.only j e₀ vs he₀ hl) hne

theorem looping_step (h : AllPaying s) (ha : a.pays = true) (hu : Undivided s a)
    (hstep : s.step env a = some s') {j : Nat} {d : Call} {us : List DbWalletOutput}
    (hj : s'.calls[j]? = some d) (hlocking : d.locking = some (req, us)) :
    Looping s' j req us := by
  have hrec := h.keyed.consistent.recorded
  rcases locking_step hstep hj hlocking with ⟨d₀, hd₀, hl₀⟩ | hfresh
  · have hexists := hrec j d₀ hd₀ req (Call.pendingTxId_of_locking hl₀)
    have hloop := h.locking j d₀ hd₀ req us hl₀
    obtain ⟨hlocked, hhands⟩ := hloop.step h ha hu hd₀ hl₀ hstep
    refine ⟨fun k e vs he hl => ?_, hlocked, fun k e vs he hin => ?_⟩
    · rcases locking_step hstep he hl with ⟨e₀, he₀, hl'⟩ | hfresh
      · exact hloop.only k e₀ vs he₀ hl'
      · exact absurd hexists hfresh.2.1
    · refine hhands k e vs he hin ?_
      rintro rfl
      obtain rfl := Option.some.inj (he.symm.trans hj)
      rw [Call.inputsFor_none_of_locking hlocking] at hin
      cases hin
  · -- the pending transaction is new: nothing carries its id, and no other call has it
    obtain ⟨⟨ch, rfl⟩, hnew, hsub⟩ := hfresh
    have hempty := h.keyed.consistent.db.carrying_empty hnew
    refine ⟨fun k e vs he hl => ?_, ?_, fun k e vs he hin => ?_⟩
    · rcases locking_step hstep he hl with ⟨e₀, he₀, hl'⟩ | ⟨⟨ch', heq⟩, -⟩
      · exact absurd (hrec k e₀ he₀ req (Call.pendingTxId_of_locking hl')) hnew
      · cases heq
        rfl
    · rw [hempty] at hsub
      exact hsub.trans (Set.empty_subset _)
    · rcases inputsFor_step h hstep he hin with ⟨m, e₀, he₀, hold⟩ | ⟨hread, -⟩ | ⟨e₀, he₀, hl⟩
      · exact absurd (hrec m e₀ he₀ req (Call.pendingTxId_of_inputsFor hold)) hnew
      · rw [hread, hempty]
        exact Set.empty_subset _
      · exact absurd (hrec k e₀ he₀ req (Call.pendingTxId_of_locking hl)) hnew

theorem shared_step (h : AllPaying s) (ha : a.pays = true) (hu : Undivided s a)
    (hstep : s.step env a = some s') (req : RequestId) : Shared {H | Hand s' req H} := by
  have hrec := h.keyed.consistent.recorded
  obtain ⟨hcarry, hkeeping⟩ := carry_step h ha hu hstep req
  by_cases hloops : ∃ (k : Nat) (d : Call) (us : List DbWalletOutput),
      s.calls[k]? = some d ∧ d.locking = some (req, us)
  · obtain ⟨k, d, us, hd, hlocking⟩ := hloops
    have hloop := h.locking k d hd req us hlocking
    have hexists := hrec k d hd req (Call.pendingTxId_of_locking hlocking)
    obtain ⟨hlocked, -⟩ := hloop.step h ha hu hd hlocking hstep
    by_cases hne : (carrying s.db.outputs req).Nonempty
    · -- what is locked already stays in all that is read, and in what the call has selected
      refine (h.shared req).of_contains ?_
      rintro K (⟨hj, hin⟩ | _ | _) hK
      · rcases inputsFor_step h hstep hj hin with ⟨m, e, he, hold⟩ | ⟨hread, -⟩ | ⟨e, he, hl⟩
        · exact ⟨_, .call he hold, hK, subset_rfl⟩
        · exact ⟨_, .carrying, hne, hread.ge⟩
        · exact ⟨_, .carrying, hne, (h.locking _ e he req _ hl).locked⟩
      · cases hcarry with
        | same heq => exact ⟨_, .carrying, hne, heq.ge⟩
        | unlocked heq _ => exact ⟨_, .keeping, heq ▸ hK, heq.ge⟩
        | locked _ _ hkept _ => exact ⟨_, .carrying, hne, hkept⟩
        | fresh hnot => exact absurd hexists hnot
      · exact ⟨_, .keeping, hkeeping ▸ hK, hkeeping.ge⟩
    · -- nothing is locked and nothing read: only the first lock and the selection are left
      rw [Set.not_nonempty_iff_eq_empty] at hne
      have hcases : ∀ K ∈ {H | Hand s' req H}, K.Nonempty →
          K = ids us ∨ K = carrying s'.db.outputs req := by
        rintro K (⟨hj, hin⟩ | _ | _) hK
        · rcases inputsFor_step h hstep hj hin with ⟨m, e, he, hold⟩ | ⟨hread, -⟩ | ⟨e, he, hl⟩
          · have hsub := hloop.hands m e _ he hold
            rw [hne] at hsub
            exact absurd (Set.subset_empty_iff.mp hsub) hK.ne_empty
          · exact absurd (hread.trans hne) hK.ne_empty
          · obtain rfl := hloop.only _ e _ he hl
            obtain rfl := Option.some.inj (he.symm.trans hd)
            obtain ⟨-, rfl⟩ := Prod.mk.inj (Option.some.inj (hl.symm.trans hlocking))
            exact Or.inl rfl
        · exact Or.inr rfl
        · have hsub := keeping_subset s.db.outputs req
          rw [hne, ← hkeeping] at hsub
          exact absurd (Set.subset_empty_iff.mp hsub) hK.ne_empty
      rcases (carrying s'.db.outputs req).eq_empty_or_nonempty with hempty | ⟨f, hf⟩
      · refine shared_of_eq (ids us) (fun K hK hKne => (hcases K hK hKne).resolve_right ?_)
        rintro rfl
        exact hKne.ne_empty hempty
      · refine ⟨f, fun K hK hKne => ?_⟩
        rcases hcases K hK hKne with rfl | rfl
        · exact hlocked hf
        · exact hf
  · have hmono : carrying s'.db.outputs req = carrying s.db.outputs req ∨
        carrying s'.db.outputs req = keeping s.db.outputs req → Shared {H | Hand s' req H} := by
      refine fun hcarrying => (h.shared req).mono ?_
      rintro K (⟨hj, hin⟩ | _ | _) hK
      · rcases inputsFor_step h hstep hj hin with ⟨m, e, he, hold⟩ | ⟨hread, -⟩ | ⟨e, he, hl⟩
        · exact .call he hold
        · exact hread ▸ .carrying
        · exact absurd ⟨_, e, _, he, hl⟩ hloops
      · rcases hcarrying with heq | heq
        · exact heq ▸ .carrying
        · exact heq ▸ .keeping
      · exact hkeeping ▸ .keeping
    cases hcarry with
    | same heq => exact hmono (Or.inl heq)
    | unlocked heq _ => exact hmono (Or.inr heq)
    | locked he hl _ _ => exact absurd ⟨_, _, _, he, hl⟩ hloops
    | fresh hnot =>
        have hempty := h.keyed.consistent.db.carrying_empty hnot
        refine shared_of_eq (carrying s'.db.outputs req) ?_
        rintro K (⟨hj, hin⟩ | _ | _) hK
        · rcases inputsFor_step h hstep hj hin with ⟨m, e, he, hold⟩ | ⟨hread, -⟩ | ⟨e, he, hl⟩
          · exact absurd (hrec m e he req (Call.pendingTxId_of_inputsFor hold)) hnot
          · exact absurd (hread.trans hempty) hK.ne_empty
          · exact absurd (hrec _ e he req (Call.pendingTxId_of_locking hl)) hnot
        · rfl
        · have hsub := keeping_subset s.db.outputs req
          rw [hempty, ← hkeeping] at hsub
          exact absurd (Set.subset_empty_iff.mp hsub) hK.ne_empty

theorem Paying.none (hprepares : c.prepares = none) (hknown : c.known = [])
    (hlocking : c.locking = none) (hfinalize : ∀ prepared signed st, c ≠ .finalize prepared signed st) :
    Paying db c where
  known u hu := by rw [hknown] at hu; cases hu
  toLock l hl := by rw [hlocking] at hl; cases hl
  prepares prepared hp := by rw [hprepares] at hp; cases hp
  signed prepared signed st heq := absurd heq (hfinalize prepared signed st)

/-- It does not matter how far a call has come with what it finalizes. -/
theorem Paying.finalize {prepared : PreparedTransaction} {signed : SignedTransaction}
    {st st' : FinalizeState} (h : Paying db (.finalize prepared signed st)) :
    Paying db (.finalize prepared signed st') where
  known := h.known
  toLock l hl := by cases hl
  prepares := h.prepares
  signed p q st'' heq := by
    cases heq
    exact h.signed _ _ _ rfl

theorem Paying.monitor (m : TransactionMonitor) (st : MonitorState) : Paying db (.monitor m st) :=
  .none rfl rfl rfl (fun _ _ _ h => by cases h)

theorem paying_step (h : AllPaying s) (hfee : 0 < env.transactionFee [])
    (hbuilder : BuilderCovers env s a) (ha : a.pays = true)
    (hstep : s.step env a = some s') : Each (fun _ c => Paying s'.db c) s'.calls := by
  have hstay : ∀ {j : Nat} {c : Call}, s.calls[j]? = some c → Paying s'.db c := by
    intro j c hc
    rcases step_db hstep with hdb | ⟨i, ch, rfl⟩ | ⟨bp, block, accountId, now, rfl⟩ |
      ⟨accountId, height, webhookConfig, now, rfl⟩
    · rw [hdb]
      exact h.calls j c hc
    · obtain ⟨_, x, _, -, -, -, rfl⟩ := step_statement hstep
      exact (h.calls j c hc).other x
    · cases ha
    · cases ha
  intro j c' hj
  cases step_calls hstep hj with
  | stay hc => exact hstay hc
  | statement hc hcall hdb =>
      rw [hdb]
      refine (h.calls j _ hc).own hfee ?_ hcall
      rintro req id selectedUtxos inputs rfl hbuilt
      exact hbuilder (req, inputs) (by simp [built?, hc, hbuilt])
  | send hc hsend =>
      unfold Call.toSend at hsend
      split at hsend <;> cases hsend
      · exact (hstay hc).finalize
      · exact .monitor _ _
  | receive hc hawait hresult =>
      unfold Call.awaiting at hawait
      split at hawait <;> cases hawait
      · exact (hstay hc).finalize
      · exact .monitor _ _
  | retry hc hretry =>
      unfold Call.retry at hretry
      split at hretry <;> cases hretry
      · exact (hstay hc).finalize
      · exact .monitor _ _
  | fail hc hawait =>
      unfold Call.awaiting at hawait
      split at hawait <;> cases hawait
      · exact (hstay hc).finalize
      · exact .monitor _ _
  | lock r => exact .none rfl rfl rfl (fun _ _ _ h => by cases h)
  | start r => exact .none rfl rfl rfl (fun _ _ _ h => by cases h)
  | finalize kernelExcess sentOutputHash displayed hc =>
      have hstart := hstay hc
      exact ⟨hstart.known, fun l hl => (by cases hl), hstart.prepares, fun _ _ _ heq => (by cases heq; rfl)⟩
  | unlocker => exact .none rfl rfl rfl (fun _ _ _ h => by cases h)
  | monitor m => exact .none rfl rfl rfl (fun _ _ _ h => by cases h)

theorem allPaying_step (h : AllPaying s) (hfee : 0 < env.transactionFee [])
    (hbuilder : BuilderCovers env s a) (ha : a.pays = true) (hu : Undivided s a)
    (hstep : s.step env a = some s') : AllPaying s' where
  keyed := allKeyed_step h.keyed hstep
  calls := paying_step h hfee hbuilder ha hstep
  locking _ _ hj _ _ hlocking := looping_step h ha hu hstep hj hlocking
  shared := shared_step h ha hu hstep

theorem allKeyed_init (hdb : Consistent s.db) (hcalls : s.calls = []) (hsubs : s.submissions = []) :
    AllKeyed s where
  consistent := ⟨hdb, by rw [hcalls]; exact each_nil⟩
  calls := by rw [hcalls]; exact each_nil
  submitted sub hsub := by rw [hsubs] at hsub; cases hsub

theorem allPaying_init (hdb : Consistent s.db) (hcalls : s.calls = []) (hsubs : s.submissions = []) :
    AllPaying s where
  keyed := allKeyed_init hdb hcalls hsubs
  calls := by rw [hcalls]; exact each_nil
  locking := by rw [hcalls]; exact each_nil
  shared req := by
    -- what stays when the request is unlocked is a part of what carries its id
    have hhands : ∀ K ∈ {H | Hand s req H}, K = carrying s.db.outputs req ∨
        K = keeping s.db.outputs req := by
      rintro K (⟨hc, -⟩ | _ | _)
      · rw [hcalls] at hc
        cases hc
      · exact Or.inl rfl
      · exact Or.inr rfl
    rcases (keeping s.db.outputs req).eq_empty_or_nonempty with hempty | ⟨f, hf⟩
    · refine shared_of_eq (carrying s.db.outputs req)
        (fun K hK hne => (hhands K hK).resolve_right ?_)
      rintro rfl
      exact hne.ne_empty hempty
    · refine ⟨f, fun K hK _ => ?_⟩
      rcases hhands K hK with rfl | rfl
      · exact keeping_subset _ req hf
      · exact hf

theorem onePayment_of_allPaying (h : AllPaying s) : OnePayment s := by
  intro key accountId tx htx tx' htx'
  obtain ⟨i, prepared, signed, st, hc, rfl, hkey, -⟩ := h.keyed.payment htx
  obtain ⟨j, prepared', signed', st', hd, rfl, hkey', -⟩ := h.keyed.payment htx'
  have hid := h.keyed.consistent.db.keys _ _ _ _ hkey hkey'
  have hnonempty : ∀ {us : List DbWalletOutput}, us ≠ [] → (ids us).Nonempty := by
    intro us hus
    obtain ⟨u, hu⟩ := List.exists_mem_of_ne_nil us hus
    exact ⟨u.id, u, hu, rfl⟩
  have hpaying := h.calls i _ hc
  have hpaying' := h.calls j _ hd
  have hhand : Hand s prepared.id (ids prepared'.inputs) := .call hd (by rw [hid]; rfl)
  obtain ⟨f, ⟨u, hu, huf⟩, ⟨u', hu', huf'⟩⟩ := (h.shared prepared.id).inter_nonempty
    (.call hc rfl) hhand (hnonempty (hpaying.prepares prepared rfl))
    (hnonempty (hpaying'.prepares prepared' rfl))
  -- one output of the database, so the same hash
  obtain ⟨o, ho, rfl⟩ := hpaying.known u hu
  obtain ⟨o', ho', rfl⟩ := hpaying'.known u' hu'
  obtain rfl : o = o' := s.db.outputs.eq_of_key_eq ho ho' (huf.trans huf'.symm)
  rw [hpaying.signed _ _ _ rfl, hpaying'.signed _ _ _ rfl]
  exact ⟨_, List.mem_map_of_mem hu, List.mem_map_of_mem hu'⟩

/-- From a database that the wallet has come to, where no transaction is free of fees: in every run
    of start, finalize, lock and unlocker calls in which the builder makes no transaction of inputs
    that do not cover it, if no pending transaction is unlocked in the middle of being locked, any
    two transactions submitted for a key spend an output in common. Whatever is unlocked, once the
    node has a transaction of the key, a start call that begins under the key returns an error. -/
theorem onePayment_always (env : TransactionEnv) (hfee : 0 < env.transactionFee [])
    (db : Db) (hdb : Reached env db) :
    (∀ as, (∀ a ∈ as, a.pays = true) →
      Transition.Along (WalletSystem.step env) (BuilderCovers env) { db } as →
      Transition.Along (WalletSystem.step env) Undivided { db } as →
      Transition.Always (WalletSystem.step env) OnePayment { db } as) ∧
    ∀ bs cs s s' key accountId, Transition.run (WalletSystem.step env) { db } bs = some s →
      Accepted s key accountId → Transition.run (WalletSystem.step env) s cs = some s' →
      ∀ (j : Nat) req st, s.calls.length ≤ j → s'.calls[j]? = some (.start req st) →
        req.idempotencyKey = key → req.accountId = accountId →
        (∀ prepared, st ≠ .ok prepared) ∧
          (∀ ch, (st.next env ch s'.db req).isSome ∨ ∃ e, st = .failed e) ∧
          (7 ≤ cs.countP (fun a => a.caller? == some j) → ∃ e, st = .failed e) := by
  constructor
  · intro as has hbuilder hundivided
    exact Transition.always_of_along
      (fun _ _ _ h hg hstep => allPaying_step h hfee hg.1 hg.2.2 hg.2.1 hstep)
      (fun _ => onePayment_of_allPaying) (allPaying_init hdb.consistent rfl rfl)
      (hbuilder.and (hundivided.and (Transition.along_of_forall _ has)))
  · rintro bs cs s s' key accountId hbs ⟨tx, htx, -⟩ hcs j req st hj hst hkey haccount
    have hkeyed := Transition.inv_of_steps (fun _ _ _ => allKeyed_step)
      (allKeyed_init hdb.consistent rfl rfl) hbs
    exact start_refused hkeyed.consistent (hkeyed.usedUp htx) hj hcs hst hkey haccount

/-! ## Two payments of one key -/

/-- One payment, asked for with another amount or payment id. -/
def requestOf (amount : MicroMinotari) (paymentId : Option Memo) : StartRequest :=
  { startRequest with recipient := ⟨77, amount, paymentId⟩ }

/-- Call 0 selects both outputs and locks the first; calls 1 and 2 resume its pending transaction,
    and call 1 builds with what is locked; call 3 resumes it too, has a payment id that is too long
    for a memo and fails and unlocks. Then call 0 locks the second output, and call 2 builds with
    that. -/
def dividedStarts : List SystemAction :=
  [[.startNewTransaction (requestOf 150000 none)],
    List.replicate 8 (.statement 0 { uuid := 11, txId := 20 }),
    [.startNewTransaction (requestOf 1000 none)], List.replicate 4 (.statement 1 { txId := 21 }),
    [.startNewTransaction (requestOf 1000 none)], List.replicate 2 (.statement 2 {}),
    [.startNewTransaction (requestOf 1000 (some (List.replicate 300 97)))],
    List.replicate 3 (.statement 3 {}),
    List.replicate 3 (.statement 3 { external := .error "the payment id is too long" }),
    [.statement 0 {}], List.replicate 2 (.statement 2 { txId := 22 })].flatten

/-- What calls `i` and `j` prepared is finalized and submitted by calls `i'` and `j'`. -/
def submitBoth (i j i' j' : Nat) : List SystemAction :=
  [[.finalize i 901 none (.error "not displayed")], List.replicate 4 (.statement i' { now := 10 }),
    [.finalize j 902 none (.error "not displayed")], List.replicate 4 (.statement j' { now := 10 }),
    [.send i', .send j']].flatten

/-- Calls 1 and 2 are finalized and submitted. -/
def dividedPayments : List SystemAction := dividedStarts ++ submitBoth 1 2 4 5

/-- Whether two transactions submitted for the key spend no output in common. -/
def paysTwice (s : WalletSystem) : Bool :=
  (s.payments "payment" 1).any (fun tx => (s.payments "payment" 1).any (fun tx' =>
    tx.inputs.all (fun hash => decide (hash ∉ tx'.inputs))))

/-- The wallet comes to the database after one block, or the block is refused. -/
theorem reached_processBlock (env : TransactionEnv) (bp : BlockProcessor) (block : BlockScanResult)
    (accountId : AccountId) (now : Timestamp) : Reached env
      ((ledgerStep env.toScanEnv Db.empty (.processBlock bp block accountId now)).getD Db.empty) := by
  cases hstep : ledgerStep env.toScanEnv Db.empty (.processBlock bp block accountId now) with
  | none => exact ⟨[], _, rfl, rfl⟩
  | some db =>
      obtain ⟨⟨outcome, db'⟩, hrun, rfl⟩ := Option.map_eq_some_iff.mp hstep
      refine ⟨[.processBlock bp block accountId now], { db := db' },
        Transition.run_cons.mpr ⟨{ db := db' }, ?_, rfl⟩, rfl⟩
      exact Option.map_eq_some_iff.mpr ⟨_, hrun, rfl⟩

theorem fundedDb_reached : Reached plainTransactionEnv fundedDb := by
  unfold fundedDb
  exact reached_processBlock plainTransactionEnv _ _ _ _

theorem dividedPayments_twice :
    (∀ a ∈ dividedPayments, a.pays = true) ∧ Reached plainTransactionEnv fundedDb ∧
      Transition.Along (WalletSystem.step plainTransactionEnv) (BuilderCovers plainTransactionEnv)
        { db := fundedDb } dividedPayments ∧
      ¬Transition.Always (WalletSystem.step plainTransactionEnv) OnePayment { db := fundedDb }
        dividedPayments := by
  refine ⟨by decide +kernel, fundedDb_reached, by decide +kernel, fun h => ?_⟩
  obtain ⟨s, hrun, hs⟩ := Transition.exists_run_of_any
    (f := WalletSystem.step plainTransactionEnv) (s := { db := fundedDb })
    (l := dividedPayments) (q := paysTwice) (by decide +kernel)
  obtain ⟨tx, htx, hs⟩ := List.any_eq_true.mp hs
  obtain ⟨tx', htx', hs⟩ := List.any_eq_true.mp hs
  obtain ⟨hash, hin, hin'⟩ := h.final hrun "payment" 1 tx htx tx' htx'
  exact of_decide_eq_true (List.all_eq_true.mp hs hash hin) hin'

/-- Call 0 prepares the payment and call 1 resumes it; both are submitted, and the node takes one. -/
def resumedPayments : List SystemAction :=
  [prepareStatements, [.startNewTransaction startRequest],
    List.replicate 4 (.statement 1 { txId := 22 }), submitBoth 0 1 2 3,
    [.answer 0 (.ok ⟨true, .other ""⟩)]].flatten

/-- Whether the key of the payment is accepted and four calls have been made. -/
def acceptedByFour (s : WalletSystem) : Bool :=
  decide (∃ tx ∈ s.payments "payment" 1, tx ∈ s.network.held) && s.calls.length == 4

/-- Whether call 4 is a start call for the payment. -/
def startsAgain (s : WalletSystem) : Bool :=
  match (s.calls[4]? : Option Call) with
  | some (.start req _) => req == startRequest
  | _ => false

theorem resumedPayments_one :
    Transition.Always (WalletSystem.step plainTransactionEnv) OnePayment { db := fundedDb }
        resumedPayments ∧
      ∃ s st, Transition.run (WalletSystem.step plainTransactionEnv) { db := fundedDb }
          (resumedPayments ++ [.startNewTransaction startRequest, .statement 4 {}]) = some s ∧
        s.calls[4]? = some (.start startRequest st) ∧ ∀ prepared, st ≠ .ok prepared := by
  have h := onePayment_always plainTransactionEnv (by decide) fundedDb fundedDb_reached
  refine ⟨h.1 resumedPayments (by decide +kernel) (by decide +kernel) (by decide +kernel), ?_⟩
  obtain ⟨s, hs, haccepted⟩ := Transition.exists_run_of_any
    (f := WalletSystem.step plainTransactionEnv) (s := { db := fundedDb }) (l := resumedPayments)
    (q := acceptedByFour) (by decide +kernel)
  obtain ⟨s', hs', hstarts⟩ := Transition.exists_run_of_any
    (f := WalletSystem.step plainTransactionEnv) (s := { db := fundedDb })
    (l := resumedPayments ++ [.startNewTransaction startRequest, .statement 4 {}])
    (q := startsAgain) (by decide +kernel)
  obtain ⟨t, ht, hrest⟩ := Transition.run_append.mp hs'
  obtain rfl := Option.some.inj (ht.symm.trans hs)
  simp only [acceptedByFour, Bool.and_eq_true, decide_eq_true_eq, beq_iff_eq] at haccepted
  unfold startsAgain at hstarts
  split at hstarts
  · next req st hst =>
      rw [beq_iff_eq.mp hstarts] at hst
      exact ⟨s', st, hs', hst, (h.2 _ _ t s' "payment" 1 hs haccepted.1 hrest 4 _ st
        (Nat.le_of_eq haccepted.2) hst rfl rfl).1⟩
  · cases hstarts

end MinotariWallet

import MinotariWallet.Db.Events
import MinotariWallet.Lib.Transition

set_option autoImplicit false

/-! # `webhooks/worker.rs` and `db/webhooks.rs`

The queue as the worker sees it. Times are in nanoseconds, since the worker schedules retries more
finely than the seconds of `datetime('now')`, which what is due is compared with as text. -/

namespace MinotariWallet

open Sql

def nanosPerSecond : Nat := 1000000000

/-- The second of the time, as `datetime('now')` gives it. -/
def datetimeNow (now : Nat) : Nat := now / nanosPerSecond * nanosPerSecond

theorem datetimeNow_le (now : Nat) : datetimeNow now ≤ now := Nat.div_mul_le_self now _

structure WebhookQueueItem where
  id : Id
  eventId : Option Id
  eventType : String
  payload : WebhookPayload
  targetUrl : String
  status : WebhookStatus
  attemptCount : Nat
  nextRetryAt : Nat
  createdAt : Nat
  lastError : Option String
deriving DecidableEq

instance : Sql.Keyed WebhookQueueItem Id := ⟨WebhookQueueItem.id⟩

inductive DeliveryResult where
  | success
  | retryableFailure (msg : String)
  | permanentFailure (msg : String)
deriving DecidableEq

def DeliveryResult.retryable : DeliveryResult → Bool
  | .retryableFailure _ => true
  | _ => false

abbrev WebhookQueue := AutoTable WebhookQueueItem

namespace WebhookQueue

/-- `enqueue_webhook`. -/
def enqueueWebhook (queue : WebhookQueue) (eventId : Option Id) (eventType : String)
    (payload : WebhookPayload) (targetUrl : String) (now : Nat) : WebhookQueue :=
  queue.insert (fun id => {
    id, eventId, eventType, payload, targetUrl
    status := .pending
    attemptCount := 0
    nextRetryAt := datetimeNow now
    createdAt := datetimeNow now
    lastError := none })

/-- The rows that `fetch_due_webhooks` selects. -/
def due (queue : WebhookQueue) (now : Nat) : List WebhookQueueItem :=
  queue.select (fun item =>
    (item.status == .pending || item.status == .failed) && item.nextRetryAt ≤ datetimeNow now)

/-- An order that `fetch_due_webhooks` may return them in. -/
def DueOrder (queue : WebhookQueue) (now : Nat) (order : List WebhookQueueItem) : Prop :=
  order.Perm (queue.due now) ∧
    order.Pairwise (fun item item' => item.nextRetryAt ≤ item'.nextRetryAt)

instance (queue : WebhookQueue) (now : Nat) (order : List WebhookQueueItem) :
    Decidable (queue.DueOrder now order) := by
  unfold DueOrder
  infer_instance

/-- `update_webhook_status`. -/
def updateWebhookStatus (queue : WebhookQueue) (id : Id) (status : WebhookStatus)
    (attemptCount nextRetryAt : Nat) (lastError : Option String) : WebhookQueue :=
  queue.updateWhere (·.id == id) (fun item => { item with
    status, attemptCount, nextRetryAt, lastError })

end WebhookQueue

def batchSize : Nat := 10

def maxAttempts : Nat := 10

def maxAge : Nat := 24 * 60 * 60

/-- What the random generator answers: a number of the range from 0, and a coin. -/
structure BackoffRng where
  genRange : Nat → Nat
  genRange_le : ∀ n, genRange n ≤ n
  genBool : Bool

/-- The number, unless it is out of the range of unsigned 64-bit numbers. -/
def checkedU64 (n : Nat) : Option Nat := if n < 2 ^ 64 then some n else none

/-- `calculate_backoff`: the next time and whether to stop; `none` where the arithmetic
    overflows. -/
def calculateBackoff (rng : BackoffRng) (now attempt : Nat) : Option (Nat × Bool) :=
  if maxAttempts ≤ attempt then some (now, true)
  else do
    let baseSeconds ← checkedU64 (30 * (← checkedU64 (4 ^ (attempt - 1))))
    let cappedSeconds := min baseSeconds maxAge
    let jitterRange := cappedSeconds / 10
    let jitter := rng.genRange jitterRange
    let finalSeconds ←
      if rng.genBool then checkedU64 (cappedSeconds + jitter) else some (cappedSeconds - jitter)
    -- `final_seconds as i64`, which `chrono::Duration` takes up to `i64::MAX / 1000`
    if finalSeconds ≤ (2 ^ 63 - 1) / 1000 then some (now + finalSeconds * nanosPerSecond, false)
    else none

/-- What `process_item` writes: the status, the count, the next time and the error. -/
def WebhookQueueItem.afterDelivery (item : WebhookQueueItem) (rng : BackoffRng) (now : Nat) :
    DeliveryResult → Option (WebhookStatus × Nat × Nat × Option String)
  | .success => some (.success, item.attemptCount + 1, item.nextRetryAt, none)
  | .permanentFailure msg =>
    some (.permanentFailure, item.attemptCount + 1, item.nextRetryAt, some msg)
  | .retryableFailure msg => do
    let (nextRetry, stopRetrying) ← calculateBackoff rng now (item.attemptCount + 1)
    if stopRetrying then
      pure (.permanentFailure, item.attemptCount + 1, nextRetry, some msg)
    else pure (.failed, item.attemptCount + 1, nextRetry, some msg)

/-! ## The worker -/

/-- One `send`, with the `next_retry_at` that is written after it. -/
structure DeliveryAttempt where
  sentAt : Nat
  result : DeliveryResult
  nextRetryAt : Nat

/-- The queue, the items of the batch still to process, the time the worker last looked at the clock
    and what has been sent of each item. -/
structure WebhookWorker where
  queue : WebhookQueue
  batch : List WebhookQueueItem
  clock : Nat
  panicked : Bool
  sent : Id → List DeliveryAttempt

inductive WebhookAction where
  /-- Some other task puts an item into the queue. -/
  | enqueueWebhook (eventId : Option Id) (eventType : String) (payload : WebhookPayload)
      (targetUrl : String) (now : Nat)
  /-- `process_batch` starts. -/
  | fetchDueWebhooks (now : Nat) (order : List WebhookQueueItem)
  /-- `process_item` of the next item: `wait` nanoseconds after the last look at the clock it is
      sent, and after another `elapsed` there is a result. -/
  | processItem (wait elapsed : Nat) (result : DeliveryResult) (rng : BackoffRng)

namespace WebhookWorker

def start : WebhookWorker := ⟨AutoTable.empty, [], 0, false, fun _ => []⟩

def step (s : WebhookWorker) : WebhookAction → Option WebhookWorker
  | .enqueueWebhook eventId eventType payload targetUrl now =>
    some { s with queue := s.queue.enqueueWebhook eventId eventType payload targetUrl now }
  | .fetchDueWebhooks now order =>
    if s.batch = [] ∧ s.panicked = false ∧ s.queue.DueOrder now order then
      some { s with batch := order.take batchSize, clock := now }
    else none
  | .processItem wait elapsed result rng =>
    match s.batch with
    | [] => none
    | item :: rest =>
      let sentAt := s.clock + wait
      let now := sentAt + elapsed
      match item.afterDelivery rng now result with
      | none => some { s with batch := [], clock := now, panicked := true }
      | some (status, attemptCount, nextRetryAt, lastError) => some {
          queue := s.queue.updateWebhookStatus item.id status attemptCount nextRetryAt lastError
          batch := rest
          clock := now
          panicked := s.panicked
          sent := fun id =>
            if id = item.id then s.sent id ++ [⟨sentAt, result, nextRetryAt⟩] else s.sent id }

end WebhookWorker

/-! ## The backoff -/

/-- The seconds before the attempt after attempt `k`, without jitter. -/
def cappedBackoff (k : Nat) : Nat := min (30 * 4 ^ (k - 1)) 86400

theorem checkedU64_eq_some {n : Nat} (h : n < 2 ^ 64) : checkedU64 n = some n := if_pos h

/-- The jitter takes off a tenth at most, and no attempt before the last overflows. -/
theorem calculateBackoff_spec (rng : BackoffRng) (now : Nat) {attempt : Nat}
    (hlt : attempt < maxAttempts) :
    ∃ finalSeconds, calculateBackoff rng now attempt =
        some (now + finalSeconds * nanosPerSecond, false) ∧
      9 * cappedBackoff attempt ≤ 10 * finalSeconds := by
  have hpow : 4 ^ (attempt - 1) ≤ 4 ^ 8 := by
    refine Nat.pow_le_pow_right (by decide) ?_
    have : attempt < 10 := hlt
    omega
  unfold calculateBackoff
  rw [if_neg (by omega), checkedU64_eq_some (n := 4 ^ (attempt - 1)) (by omega)]
  simp only [Option.bind_eq_bind, Option.bind_some]
  rw [checkedU64_eq_some (n := 30 * 4 ^ (attempt - 1)) (by omega)]
  simp only [Option.bind_some]
  have hcapped : cappedBackoff attempt ≤ 86400 := Nat.min_le_right _ _
  rw [show min (30 * 4 ^ (attempt - 1)) maxAge = cappedBackoff attempt from rfl]
  have hjitter := rng.genRange_le (cappedBackoff attempt / 10)
  split
  · refine ⟨cappedBackoff attempt + rng.genRange (cappedBackoff attempt / 10), ?_, by omega⟩
    rw [checkedU64_eq_some (by omega), Option.bind_some, if_pos (by omega)]
  · refine ⟨cappedBackoff attempt - rng.genRange (cappedBackoff attempt / 10), ?_, by omega⟩
    rw [if_pos (by omega)]

theorem calculateBackoff_stops (rng : BackoffRng) (now : Nat) {attempt : Nat}
    (hle : maxAttempts ≤ attempt) : calculateBackoff rng now attempt = some (now, true) :=
  if_pos hle

/-! ## What is kept of every item -/

namespace DeliveryAttempt

/-- The `next_retry_at` that the attempts leave of an item that was created with the first. -/
def nextRetryAfter (createdAt : Nat) (sent : List DeliveryAttempt) : Nat :=
  (sent.getLast?.map (·.nextRetryAt)).getD createdAt

/-- Attempts on an item that are few enough, none after a final one and each in time; after a
    failure that may be retried the next time is nine tenths of the capped backoff away. -/
structure BoundedAndFinal (createdAt : Nat) (sent : List DeliveryAttempt) : Prop where
  bounded : sent.length ≤ 10
  final : ∀ k (hk : k + 1 < sent.length), sent[k].result.retryable = true
  waits : ∀ k (hk : k < sent.length), nextRetryAfter createdAt (sent.take k) ≤ sent[k].sentAt
  spaced : ∀ k (hk : k < sent.length), k + 1 < 10 → sent[k].result.retryable = true →
    10 * sent[k].sentAt + 9 * cappedBackoff (k + 1) * nanosPerSecond ≤ 10 * sent[k].nextRetryAt

variable {createdAt : Nat} {sent : List DeliveryAttempt} {a : DeliveryAttempt}

@[simp] theorem nextRetryAfter_append :
    nextRetryAfter createdAt (sent ++ [a]) = a.nextRetryAt := by
  simp [nextRetryAfter]

theorem boundedAndFinal_nil (createdAt : Nat) : BoundedAndFinal createdAt [] where
  bounded := Nat.zero_le _
  final := by simp
  waits := by simp
  spaced := by simp

/-- One more attempt, after attempts that may all be retried. -/
theorem BoundedAndFinal.append (h : BoundedAndFinal createdAt sent) (hlt : sent.length < 10)
    (hretryable : ∀ b ∈ sent, b.result.retryable = true)
    (hwaits : nextRetryAfter createdAt sent ≤ a.sentAt)
    (hspaced : sent.length + 1 < 10 → a.result.retryable = true →
      10 * a.sentAt + 9 * cappedBackoff (sent.length + 1) * nanosPerSecond ≤ 10 * a.nextRetryAt) :
    BoundedAndFinal createdAt (sent ++ [a]) where
  bounded := by
    rw [List.length_append]
    exact hlt
  final := by
    intro k hk
    have hlt : k < sent.length := by simpa using hk
    rw [List.getElem_append_left hlt]
    exact hretryable _ (List.getElem_mem hlt)
  waits := by
    intro k hk
    by_cases hlt : k < sent.length
    · rw [List.getElem_append_left hlt, List.take_append_of_le_length hlt.le]
      exact h.waits k hlt
    · obtain rfl : k = sent.length := by simp at hk; omega
      simpa using hwaits
  spaced := by
    intro k hk
    by_cases hlt : k < sent.length
    · rw [List.getElem_append_left hlt]
      exact h.spaced k hlt
    · obtain rfl : k = sent.length := by simp at hk; omega
      simpa using hspaced

end DeliveryAttempt

namespace WebhookQueueItem

/-- The item may be sent again. -/
def Open (item : WebhookQueueItem) : Prop := item.status = .pending ∨ item.status = .failed

/-- The row counts its attempts and has the time that the last of them left. -/
structure Records (item : WebhookQueueItem) (sent : List DeliveryAttempt) : Prop where
  attemptCount : item.attemptCount = sent.length
  nextRetryAt : item.nextRetryAt = DeliveryAttempt.nextRetryAfter item.createdAt sent
  attempts : DeliveryAttempt.BoundedAndFinal item.createdAt sent

/-- An item that may be sent again has had fewer than ten attempts, and only failures that may be
    retried. -/
structure Tracked (item : WebhookQueueItem) (sent : List DeliveryAttempt) : Prop
    extends Records item sent where
  fewer : item.Open → sent.length < 10
  retryable : item.Open → ∀ a ∈ sent, a.result.retryable = true

/-- One more attempt, and what is written after it. -/
theorem Tracked.deliver {item : WebhookQueueItem} {sent : List DeliveryAttempt}
    (h : item.Tracked sent) (hopen : item.Open) {sentAt nextRetryAt : Nat}
    {result : DeliveryResult} {status : WebhookStatus} {lastError : Option String}
    (hdue : item.nextRetryAt ≤ sentAt)
    (hspaced : sent.length + 1 < 10 → result.retryable = true →
      10 * sentAt + 9 * cappedBackoff (sent.length + 1) * nanosPerSecond ≤ 10 * nextRetryAt)
    (hstatus : status = .pending ∨ status = .failed →
      sent.length + 1 < 10 ∧ result.retryable = true) :
    ({ item with
      status, nextRetryAt, lastError
      attemptCount := item.attemptCount + 1 } : WebhookQueueItem).Tracked
        (sent ++ [⟨sentAt, result, nextRetryAt⟩]) where
  attemptCount := by
    show item.attemptCount + 1 = _
    rw [h.attemptCount, List.length_append, List.length_singleton]
  nextRetryAt := by rw [DeliveryAttempt.nextRetryAfter_append]
  attempts := h.attempts.append (h.fewer hopen) (h.retryable hopen) (h.nextRetryAt ▸ hdue) hspaced
  fewer := by
    intro hnew
    rw [List.length_append]
    exact (hstatus hnew).1
  retryable := by
    intro hnew b hb
    rcases List.mem_append.mp hb with hb | hb
    · exact h.retryable hopen b hb
    · rw [List.mem_singleton.mp hb]
      exact (hstatus hnew).2

/-- What `process_item` writes after an item was sent in time. -/
theorem Tracked.afterDelivery {item : WebhookQueueItem} {sent : List DeliveryAttempt}
    (h : item.Tracked sent) (hopen : item.Open) (rng : BackoffRng) {sentAt now : Nat}
    (hdue : item.nextRetryAt ≤ sentAt) (hle : sentAt ≤ now) (result : DeliveryResult) :
    ∃ status attemptCount nextRetryAt lastError,
      item.afterDelivery rng now result =
        some (status, attemptCount, nextRetryAt, lastError) ∧
      ({ item with status, attemptCount, nextRetryAt, lastError } : WebhookQueueItem).Tracked
        (sent ++ [⟨sentAt, result, nextRetryAt⟩]) := by
  cases result with
  | success =>
      refine ⟨_, _, _, _, rfl, ?_⟩
      exact h.deliver hopen hdue (by simp [DeliveryResult.retryable]) (by simp)
  | permanentFailure msg =>
      refine ⟨_, _, _, _, rfl, ?_⟩
      exact h.deliver hopen hdue (by simp [DeliveryResult.retryable]) (by simp)
  | retryableFailure msg =>
      unfold WebhookQueueItem.afterDelivery
      by_cases hlast : maxAttempts ≤ item.attemptCount + 1
      · rw [calculateBackoff_stops rng now hlast]
        refine ⟨_, _, _, _, rfl, ?_⟩
        rw [h.attemptCount] at hlast
        exact h.deliver hopen hdue (fun hlt => absurd hlt (Nat.not_lt.mpr hlast)) (by simp)
      · have hlt : item.attemptCount + 1 < maxAttempts := Nat.not_le.mp hlast
        obtain ⟨finalSeconds, hbackoff, hspaced⟩ := calculateBackoff_spec rng now hlt
        rw [hbackoff]
        rw [h.attemptCount] at hlt hspaced
        refine ⟨_, _, _, _, rfl, ?_⟩
        refine h.deliver hopen hdue (fun _ _ => ?_) (fun _ => ⟨hlt, rfl⟩)
        have hscaled := Nat.mul_le_mul_right nanosPerSecond hspaced
        rw [Nat.mul_add, ← Nat.mul_assoc]
        omega

end WebhookQueueItem

/-! ## Runs of the worker -/

namespace WebhookWorker

/-- No item is sent too often, after a final result or too early, and the backoff does not
    overflow. -/
structure DeliversWithinBounds (s : WebhookWorker) : Prop where
  running : s.panicked = false
  records : ∀ item ∈ s.queue.rows, item.Records (s.sent item.id)
  unknown : ∀ id, (∀ item ∈ s.queue.rows, item.id ≠ id) → s.sent id = []

/-- Every row is tracked, and what is left of the batch is due and as it is in the queue. -/
structure Coherent (s : WebhookWorker) : Prop where
  running : s.panicked = false
  tracked : ∀ item ∈ s.queue.rows, item.Tracked (s.sent item.id)
  unknown : ∀ id, (∀ item ∈ s.queue.rows, item.id ≠ id) → s.sent id = []
  batchNodup : (s.batch.map (·.id)).Nodup
  batch : ∀ item ∈ s.batch, item ∈ s.queue.rows ∧ item.Open ∧ item.nextRetryAt ≤ s.clock

theorem Coherent.deliversWithinBounds {s : WebhookWorker} (h : s.Coherent) :
    s.DeliversWithinBounds where
  running := h.running
  records := fun item hitem => (h.tracked item hitem).toRecords
  unknown := h.unknown

theorem coherent_start : start.Coherent where
  running := rfl
  tracked := fun item hitem => by cases hitem
  unknown := fun _ _ => rfl
  batchNodup := List.nodup_nil
  batch := fun item hitem => by cases hitem

variable {s s' : WebhookWorker}

theorem Coherent.enqueueWebhook (h : s.Coherent) {eventId : Option Id} {eventType : String}
    {payload : WebhookPayload} {targetUrl : String} {now : Nat} :
    { s with
      queue := s.queue.enqueueWebhook eventId eventType payload targetUrl now }.Coherent where
  running := h.running
  tracked := by
    intro item hitem
    rcases (AutoTable.mem_insert (by intro _; rfl)).mp hitem with hitem | rfl
    · exact h.tracked item hitem
    · have hnone : s.sent (s.queue.seq + 1) = [] :=
        h.unknown _ (fun item hitem => s.queue.fresh hitem)
      show WebhookQueueItem.Tracked _ (s.sent (s.queue.seq + 1))
      rw [hnone]
      exact {
        attemptCount := rfl
        nextRetryAt := rfl
        attempts := DeliveryAttempt.boundedAndFinal_nil _
        fewer := fun _ => by decide
        retryable := fun _ a ha => by cases ha }
  unknown := fun id hother => h.unknown id (fun item hitem =>
    hother item ((AutoTable.mem_insert (by intro _; rfl)).mpr (Or.inl hitem)))
  batchNodup := h.batchNodup
  batch := by
    intro item hitem
    obtain ⟨hmem, hopen, hdue⟩ := h.batch item hitem
    exact ⟨(AutoTable.mem_insert (by intro _; rfl)).mpr (Or.inl hmem), hopen, hdue⟩

theorem Coherent.fetchDueWebhooks (h : s.Coherent) {now : Nat} {order : List WebhookQueueItem}
    (horder : s.queue.DueOrder now order) :
    { s with batch := order.take batchSize, clock := now }.Coherent where
  running := h.running
  tracked := h.tracked
  unknown := h.unknown
  batchNodup := by
    have hnodup : (order.map (·.id)).Nodup :=
      (horder.1.map _).nodup_iff.mpr (s.queue.nodup_select _)
    exact hnodup.sublist ((List.take_sublist batchSize order).map _)
  batch := by
    intro item hitem
    obtain ⟨hmem, hdue⟩ := Table.mem_select.mp (horder.1.mem_iff.mp (List.mem_of_mem_take hitem))
    simp only [Bool.and_eq_true, Bool.or_eq_true, beq_iff_eq, decide_eq_true_eq] at hdue
    exact ⟨hmem, hdue.1, hdue.2.trans (datetimeNow_le now)⟩

/-- The next item of the batch is sent and its row written. -/
theorem Coherent.processItem (h : s.Coherent) {item : WebhookQueueItem}
    {rest : List WebhookQueueItem} (hbatch : s.batch = item :: rest) {sentAt now : Nat}
    (hwait : s.clock ≤ sentAt) (hle : sentAt ≤ now) {status : WebhookStatus}
    {attemptCount nextRetryAt : Nat} {lastError : Option String} {a : DeliveryAttempt}
    (htracked : ({ item with status, attemptCount, nextRetryAt, lastError } :
      WebhookQueueItem).Tracked (s.sent item.id ++ [a])) :
    WebhookWorker.Coherent {
      queue := s.queue.updateWebhookStatus item.id status attemptCount nextRetryAt lastError
      batch := rest
      clock := now
      panicked := s.panicked
      sent := fun id => if id = item.id then s.sent id ++ [a] else s.sent id } := by
  have hnodup := h.batchNodup
  rw [hbatch, List.map_cons, List.nodup_cons] at hnodup
  have hitem := (h.batch item (hbatch ▸ List.mem_cons_self)).1
  have hkept : ∀ item' ∈ s.queue.rows, item'.id ≠ item.id → item' ∈ (s.queue.updateWebhookStatus
      item.id status attemptCount nextRetryAt lastError).rows := fun item' hitem' hne =>
    (Table.mem_updateWhere (by intro _; rfl)).mpr ⟨item', hitem', by simp [hne]⟩
  refine { running := h.running, tracked := ?_, unknown := ?_, batchNodup := hnodup.2, batch := ?_ }
  · intro item' hitem'
    obtain ⟨item₀, hitem₀, rfl⟩ := (Table.mem_updateWhere (by intro _; rfl)).mp hitem'
    by_cases hid : item₀.id = item.id
    · obtain rfl := s.queue.eq_of_key_eq hitem₀ hitem hid
      simpa using htracked
    · simpa [hid] using h.tracked item₀ hitem₀
  · intro id hother
    have hne : id ≠ item.id := by
      rintro rfl
      exact hother _ ((Table.mem_updateWhere (by intro _; rfl)).mpr ⟨item, hitem, rfl⟩) (by simp)
    show (if id = item.id then _ else s.sent id) = []
    rw [if_neg hne]
    refine h.unknown id (fun item' hitem' hid => ?_)
    exact hother item' (hkept item' hitem' (hid ▸ hne)) hid
  · intro item' hitem'
    obtain ⟨hmem, hopen, hdue⟩ := h.batch item' (hbatch ▸ List.mem_cons_of_mem item hitem')
    refine ⟨hkept item' hmem ?_, hopen, hdue.trans (hwait.trans hle)⟩
    intro hid
    exact hnodup.1 (hid ▸ List.mem_map_of_mem hitem')

theorem Coherent.step {a : WebhookAction} (h : s.Coherent) (hstep : s.step a = some s') :
    s'.Coherent := by
  cases a with
  | enqueueWebhook eventId eventType payload targetUrl now =>
      cases hstep
      exact h.enqueueWebhook
  | fetchDueWebhooks now order =>
      simp only [WebhookWorker.step, Option.ite_none_right_eq_some] at hstep
      obtain ⟨⟨-, -, horder⟩, hstep⟩ := hstep
      cases hstep
      exact h.fetchDueWebhooks horder
  | processItem wait elapsed result rng =>
      cases hbatch : s.batch with
      | nil =>
          simp only [WebhookWorker.step, hbatch] at hstep
          cases hstep
      | cons item rest =>
          obtain ⟨hmem, hopen, hdue⟩ := h.batch item (hbatch ▸ List.mem_cons_self)
          obtain ⟨status, attemptCount, nextRetryAt, lastError, hafter, htracked⟩ :=
            (h.tracked item hmem).afterDelivery hopen rng
              (hdue.trans (Nat.le_add_right s.clock wait))
              (Nat.le_add_right (s.clock + wait) elapsed) result
          simp only [WebhookWorker.step, hbatch, hafter] at hstep
          cases hstep
          exact h.processItem hbatch (Nat.le_add_right _ _) (Nat.le_add_right _ _) htracked

/-- Whatever the results and the times of the polls, the delivery of every item is bounded and
    final, and its retries are spaced. -/
theorem deliversWithinBounds_of_run (actions : List WebhookAction) :
    Transition.Always WebhookWorker.step DeliversWithinBounds start actions :=
  Transition.always_of_steps (fun _ _ _ h hstep => h.step hstep)
    (fun _ h => h.deliversWithinBounds) coherent_start

end WebhookWorker

end MinotariWallet

import Mathlib.Data.List.Basic
import Mathlib.Data.List.Forall2
import Mathlib.Tactic.Common

set_option autoImplicit false

/-! # Programs over a store, one statement at a time

A program that works on a database runs a sequence of statements on a connection. Each statement is
a pure function of the store; between two statements the program may fail, and the statements that
ran before stay done unless a transaction around them undoes them. `Conn.budget` makes that failure
part of the semantics: with `some n`, the `n + 1`-th statement fails whatever it is, so a result for
every budget covers a fault at every statement.

`Ensures P x Q` is the partial-correctness triple of such a program, with its rules for sequencing,
statements, loops and transactions. -/

namespace Exec

/-- A connection: the store, and the number of statements that run before one faults (`none`: no
    fault). -/
structure Conn (σ : Type) where
  store : σ
  budget : Option Nat := none

/-- A program over a store `σ` that returns an `α` or fails with an `ε`. -/
abbrev Prog (ε σ α : Type) := EStateM ε (Conn σ) α

/-- The error of a statement that faults. -/
class Fault (ε : Type) where
  fault : ε

variable {ε σ α β γ : Type}

/-- Run one statement: a fault when the budget is used up, else `f` on the store. -/
def stmt [Fault ε] (f : σ → Except ε (α × σ)) : Prog ε σ α := fun c =>
  match c.budget with
  | some 0 => .error Fault.fault c
  | b =>
    match f c.store with
    | .ok (a, s) => .ok a ⟨s, b.map (· - 1)⟩
    | .error e => .error e ⟨c.store, b.map (· - 1)⟩

/-- A step that does not talk to the store. -/
def lift (r : Except ε α) : Prog ε σ α := fun c =>
  match r with
  | .ok a => .ok a c
  | .error e => .error e c

/-- A statement that only reads. -/
def query [Fault ε] (f : σ → α) : Prog ε σ α := stmt (fun s => .ok (f s, s))

/-- A statement that reads and may find what it reads malformed. -/
def tryQuery [Fault ε] (f : σ → Except ε α) : Prog ε σ α := stmt (fun s => (f s).map (·, s))

/-- A statement that only writes. -/
def update [Fault ε] (f : σ → σ) : Prog ε σ Unit := stmt (fun s => .ok ((), f s))

/-- A statement that writes and returns the key of what it wrote. -/
def insert [Fault ε] (f : σ → α × σ) : Prog ε σ α := stmt (fun s => .ok (f s))

/-- `BEGIN … COMMIT`: the commit is a statement of its own, and a failure undoes the whole program. -/
def inTransaction [Fault ε] (x : Prog ε σ α) : Prog ε σ α := fun c =>
  match (do let a ← x; update id; pure a : Prog ε σ α) c with
  | .ok a c' => .ok a c'
  | .error e c' => .error e ⟨c.store, c'.budget⟩

/-- What a program run to its end leaves: its result and the store, `none` when it failed. -/
def runOk (x : Prog ε σ α) (s : σ) : Option (α × σ) :=
  match x ⟨s, none⟩ with
  | .ok a c => some (a, c.store)
  | .error _ _ => none

/-! ## Which runs return -/

theorem runOk_eq_some {x : Prog ε σ α} {s s' : σ} {a : α} :
    runOk x s = some (a, s') ↔ ∃ c', x ⟨s, none⟩ = .ok a c' ∧ c'.store = s' := by
  unfold runOk
  cases hx : x ⟨s, none⟩ with
  | ok b c => simp
  | error e c => simp

theorem bind_ok {x : Prog ε σ α} {f : α → Prog ε σ β} {c c'' : Conn σ} {b : β} :
    (x >>= f) c = .ok b c'' ↔ ∃ a c', x c = .ok a c' ∧ f a c' = .ok b c'' := by
  show EStateM.bind x f c = _ ↔ _
  unfold EStateM.bind
  cases hx : x c with
  | ok a c' => simp
  | error e c' => simp

theorem pure_ok {a b : α} {c c' : Conn σ} :
    (pure a : Prog ε σ α) c = .ok b c' ↔ a = b ∧ c = c' := by
  show EStateM.pure a c = _ ↔ _
  simp [EStateM.pure]

theorem stmt_ok [Fault ε] {f : σ → Except ε (α × σ)} {c c' : Conn σ} {a : α}
    (h : stmt f c = .ok a c') : f c.store = .ok (a, c'.store) := by
  unfold stmt at h
  split at h
  · cases h
  · split at h
    · next hf => cases h; exact hf
    · cases h

theorem lift_ok {r : Except ε α} {c c' : Conn σ} {a : α} (h : lift r c = .ok a c') :
    r = .ok a ∧ c' = c := by
  unfold lift at h
  split at h
  · cases h; exact ⟨rfl, rfl⟩
  · cases h

theorem tryQuery_ok [Fault ε] {f : σ → Except ε α} {c c' : Conn σ} {a : α}
    (h : tryQuery f c = .ok a c') : f c.store = .ok a ∧ c'.store = c.store := by
  have hs := stmt_ok h
  cases hf : f c.store with
  | error e => simp [hf, Except.map] at hs
  | ok v =>
      simp only [hf, Except.map, Except.ok.injEq, Prod.mk.injEq] at hs
      exact ⟨by rw [hs.1], hs.2.symm⟩

theorem query_ok [Fault ε] {f : σ → α} {c c' : Conn σ} {a : α}
    (h : (query f : Prog ε σ α) c = .ok a c') : a = f c.store ∧ c'.store = c.store := by
  have hs := stmt_ok h
  simp only [Except.ok.injEq, Prod.mk.injEq] at hs
  exact ⟨hs.1.symm, hs.2.symm⟩

theorem update_ok [Fault ε] {f : σ → σ} {c c' : Conn σ} {u : Unit}
    (h : (update f : Prog ε σ Unit) c = .ok u c') : c'.store = f c.store := by
  have hs := stmt_ok h
  simp only [Except.ok.injEq, Prod.mk.injEq, true_and] at hs
  exact hs.symm

/-- A loop that writes for each element. -/
theorem forM_update_ok [Fault ε] {f : α → σ → σ} {xs : List α} {c c' : Conn σ} {u : PUnit}
    (h : xs.forM (fun x => (update (f x) : Prog ε σ Unit)) c = .ok u c') :
    c'.store = xs.foldl (fun s x => f x s) c.store := by
  induction xs generalizing c with
  | nil =>
      obtain ⟨-, rfl⟩ := pure_ok.mp h
      rfl
  | cons x xs ih =>
      obtain ⟨_, c₁, hx, h⟩ := bind_ok.mp h
      rw [ih h, update_ok hx]
      rfl

/-- A loop that writes for each element and lists what it wrote. -/
theorem foldlM_update [Fault ε] (f : α → σ → σ) (g : α → β) (xs : List α) (bs : List β) (s : σ) :
    (xs.foldlM (fun bs x => do
      update (f x)
      pure (bs ++ [g x])) bs : Prog ε σ (List β)) ⟨s, none⟩ =
      .ok (bs ++ xs.map g) ⟨xs.foldl (fun s x => f x s) s, none⟩ := by
  induction xs generalizing bs s with
  | nil => exact pure_ok.mpr ⟨by simp, rfl⟩
  | cons x xs ih =>
      rw [List.foldlM_cons]
      refine bind_ok.mpr ⟨bs ++ [g x], ⟨f x s, none⟩, rfl, ?_⟩
      rw [ih]
      simp

/-- A program that starts by reading. -/
theorem runOk_tryQuery_bind [Fault ε] (f : σ → Except ε α) (g : α → Prog ε σ β) (s : σ) :
    runOk (tryQuery f >>= g) s = (f s).toOption.bind (fun a => runOk (g a) s) := by
  show (match EStateM.bind (tryQuery f) g ⟨s, none⟩ with
    | .ok b c => some (b, c.store)
    | .error _ _ => none) = _
  unfold EStateM.bind tryQuery stmt
  cases hf : f s with
  | error e => simp [hf, Except.map, Except.toOption]
  | ok a => simp [hf, Except.map, Except.toOption, runOk]

@[simp] theorem runOk_pure (a : α) (s : σ) : runOk (pure a : Prog ε σ α) s = some (a, s) := rfl

/-! ## Which runs fail -/

theorem bind_error {x : Prog ε σ α} {f : α → Prog ε σ β} {c c'' : Conn σ} {e : ε} :
    (x >>= f) c = .error e c'' ↔
      x c = .error e c'' ∨ ∃ a c', x c = .ok a c' ∧ f a c' = .error e c'' := by
  show EStateM.bind x f c = _ ↔ _
  unfold EStateM.bind
  cases hx : x c with
  | ok a c' => simp
  | error e' c' => simp

theorem lift_error {r : Except ε α} {c c' : Conn σ} {e : ε} (h : lift r c = .error e c') :
    c' = c := by
  unfold lift at h
  split at h
  · cases h
  · cases h; rfl

/-- A statement that fails changes nothing. -/
theorem stmt_error [Fault ε] {f : σ → Except ε (α × σ)} {c c' : Conn σ} {e : ε}
    (h : stmt f c = .error e c') : c'.store = c.store := by
  unfold stmt at h
  split at h
  · cases h; rfl
  · split at h
    · cases h
    · cases h; rfl

/-- A transaction that fails leaves the store as it was. -/
theorem inTransaction_error [Fault ε] {x : Prog ε σ α} {c c' : Conn σ} {e : ε}
    (h : inTransaction x c = .error e c') : c'.store = c.store := by
  unfold inTransaction at h
  split at h
  · cases h
  · cases h; rfl

theorem inTransaction_ok [Fault ε] {x : Prog ε σ α} {c c' : Conn σ} {a : α}
    (h : inTransaction x c = .ok a c') : ∃ c₁, x c = .ok a c₁ ∧ c'.store = c₁.store := by
  unfold inTransaction at h
  split at h
  · next a' c₂ hx =>
      cases h
      obtain ⟨a₁, c₁, h₁, h₂⟩ := bind_ok.mp hx
      obtain ⟨_, c₃, h₃, h₄⟩ := bind_ok.mp h₂
      obtain ⟨rfl, rfl⟩ := pure_ok.mp h₄
      have hs := stmt_ok h₃
      simp only [Except.ok.injEq, Prod.mk.injEq, id, true_and] at hs
      exact ⟨c₁, h₁, hs.symm⟩
  · cases h

/-! ## Triples -/

/-- From every store with `P`, a run of `x` that returns `a` leaves a store with `Q a`. -/
def Ensures (P : σ → Prop) (x : Prog ε σ α) (Q : α → σ → Prop) : Prop :=
  ∀ c a c', P c.store → x c = .ok a c' → Q a c'.store

variable {P P' : σ → Prop} {x : Prog ε σ α} {Q Q' : α → σ → Prop}

namespace Ensures

theorem mono (h : Ensures P x Q) (hP : ∀ s, P' s → P s) (hQ : ∀ a s, Q a s → Q' a s) :
    Ensures P' x Q' :=
  fun c a c' hp hx => hQ a _ (h c a c' (hP _ hp) hx)

theorem post (h : Ensures P x Q) (hQ : ∀ a s, Q a s → Q' a s) : Ensures P x Q' :=
  h.mono (fun _ hp => hp) hQ

theorem and (h : Ensures P x Q) (h' : Ensures P' x Q') :
    Ensures (fun s => P s ∧ P' s) x (fun a s => Q a s ∧ Q' a s) :=
  fun c a c' hp hx => ⟨h c a c' hp.1 hx, h' c a c' hp.2 hx⟩

/-- A part of the precondition that does not speak of the store. -/
theorem of_pre {p : Prop} (h : p → Ensures P x Q) : Ensures (fun s => P s ∧ p) x Q :=
  fun c a c' hp hx => h hp.2 c a c' hp.1 hx

theorem pure {a : α} (h : ∀ s, P s → Q a s) : Ensures P (Pure.pure a : Prog ε σ α) Q := by
  intro c b c' hp hx
  obtain ⟨rfl, rfl⟩ := pure_ok.mp hx
  exact h _ hp

theorem bind {f : α → Prog ε σ β} {R : β → σ → Prop} (hx : Ensures P x Q)
    (hf : ∀ a, Ensures (Q a) (f a) R) : Ensures P (x >>= f) R := by
  intro c b c'' hp hb
  obtain ⟨a, c', h₁, h₂⟩ := bind_ok.mp hb
  exact hf a c' b c'' (hx c a c' hp h₁) h₂

theorem lift {r : Except ε α} (h : ∀ s a, P s → r = .ok a → Q a s) :
    Ensures P (lift r) Q := by
  intro c a c' hp hx
  obtain ⟨hr, rfl⟩ := lift_ok hx
  exact h _ a hp hr

theorem throw {e : ε} : Ensures P (MonadExcept.throw e : Prog ε σ α) Q := by
  intro c a c' _ hx
  cases hx

theorem stmt [Fault ε] {f : σ → Except ε (α × σ)}
    (h : ∀ s a s', P s → f s = .ok (a, s') → Q a s') : Ensures P (stmt f) Q :=
  fun c a c' hp hx => h c.store a c'.store hp (stmt_ok hx)

theorem query [Fault ε] {f : σ → α} (h : ∀ s, P s → Q (f s) s) :
    Ensures P (query f : Prog ε σ α) Q :=
  Ensures.stmt (fun s a s' hp hs => by
    simp only [Except.ok.injEq, Prod.mk.injEq] at hs
    obtain ⟨rfl, rfl⟩ := hs
    exact h s hp)

theorem tryQuery [Fault ε] {f : σ → Except ε α} (h : ∀ s a, P s → f s = .ok a → Q a s) :
    Ensures P (tryQuery f) Q := by
  intro c a c' hp hx
  obtain ⟨hf, hc⟩ := tryQuery_ok hx
  exact hc ▸ h c.store a hp hf

theorem update [Fault ε] {f : σ → σ} {Q : Unit → σ → Prop} (h : ∀ s, P s → Q () (f s)) :
    Ensures P (update f : Prog ε σ Unit) Q :=
  Ensures.stmt (fun s a s' hp hs => by
    simp only [Except.ok.injEq, Prod.mk.injEq, true_and] at hs
    exact hs ▸ h s hp)

theorem insert [Fault ε] {f : σ → α × σ} (h : ∀ s, P s → Q (f s).1 (f s).2) :
    Ensures P (insert f : Prog ε σ α) Q :=
  Ensures.stmt (fun s a s' hp hs => by
    simp only [Except.ok.injEq] at hs
    have := h s hp
    rw [hs] at this
    exact this)

theorem ite {b : Prop} [Decidable b] {y : Prog ε σ α}
    (hx : b → Ensures P x Q) (hy : ¬b → Ensures P y Q) : Ensures P (if b then x else y) Q := by
  by_cases hb : b
  · rw [if_pos hb]; exact hx hb
  · rw [if_neg hb]; exact hy hb

/-- A loop over a list that carries an accumulator: the invariant `I` sees the part of the list that
    is still to come. -/
theorem foldlM {f : β → α → Prog ε σ β} {I : List α → β → σ → Prop} (xs : List α) (b : β)
    (hf : ∀ x rest b, Ensures (I (x :: rest) b) (f b x) (fun b' => I rest b')) :
    Ensures (I xs b) (List.foldlM f b xs) (fun b' => I [] b') := by
  induction xs generalizing b with
  | nil => exact Ensures.pure (fun s hs => hs)
  | cons x rest ih =>
      rw [List.foldlM_cons]
      exact Ensures.bind (hf x rest b) (fun b' => ih b')

/-- A loop over a list without an accumulator. -/
theorem forM {f : α → Prog ε σ PUnit} {I : List α → σ → Prop} (xs : List α)
    (hf : ∀ x rest, Ensures (I (x :: rest)) (f x) (fun _ => I rest)) :
    Ensures (I xs) (List.forM xs f) (fun _ => I []) := by
  induction xs with
  | nil => exact Ensures.pure (fun s hs => hs)
  | cons x rest ih => exact Ensures.bind (hf x rest) (fun _ => ih)

theorem inTransaction [Fault ε] (h : Ensures P x Q) : Ensures P (inTransaction x) Q := by
  intro c a c' hp hx
  obtain ⟨c₁, h₁, h₂⟩ := inTransaction_ok hx
  exact h₂ ▸ h c a c₁ hp h₁

theorem of_runOk (h : Ensures P x Q) {s s' : σ} {a : α} (hp : P s)
    (hr : runOk x s = some (a, s')) : Q a s' := by
  obtain ⟨c', hx, rfl⟩ := runOk_eq_some.mp hr
  exact h _ _ _ hp hx

end Ensures

/-! ## Runs without a fault -/

/-- From every store with `P`, a run of `x` without a fault returns, and leaves a store with `Q`. -/
def Returns (P : σ → Prop) (x : Prog ε σ α) (Q : α → σ → Prop) : Prop :=
  ∀ s, P s → ∃ a s', x ⟨s, none⟩ = .ok a ⟨s', none⟩ ∧ Q a s'

namespace Returns

theorem pure {a : α} (h : ∀ s, P s → Q a s) : Returns P (Pure.pure a : Prog ε σ α) Q :=
  fun s hp => ⟨a, s, rfl, h s hp⟩

theorem bind {f : α → Prog ε σ β} {R : β → σ → Prop} (hx : Returns P x Q)
    (hf : ∀ a, Returns (Q a) (f a) R) : Returns P (x >>= f) R := by
  intro s hp
  obtain ⟨a, s', h₁, hq⟩ := hx s hp
  obtain ⟨b, s'', h₂, hr⟩ := hf a s' hq
  exact ⟨b, s'', bind_ok.mpr ⟨a, _, h₁, h₂⟩, hr⟩

theorem lift {r : Except ε α} {a : α} (hr : r = .ok a) (h : ∀ s, P s → Q a s) :
    Returns P (Exec.lift r) Q := by
  intro s hp
  subst hr
  exact ⟨a, s, rfl, h s hp⟩

theorem tryQuery [Fault ε] {f : σ → Except ε α} (h : ∀ s, P s → ∃ a, f s = .ok a ∧ Q a s) :
    Returns P (Exec.tryQuery f) Q := by
  intro s hp
  obtain ⟨a, ha, hq⟩ := h s hp
  refine ⟨a, s, ?_, hq⟩
  unfold Exec.tryQuery stmt
  simp [ha, Except.map]

theorem query [Fault ε] {f : σ → α} (h : ∀ s, P s → Q (f s) s) :
    Returns P (Exec.query f : Prog ε σ α) Q :=
  fun s hp => ⟨f s, s, rfl, h s hp⟩

theorem update [Fault ε] {f : σ → σ} {Q : Unit → σ → Prop} (h : ∀ s, P s → Q () (f s)) :
    Returns P (Exec.update f : Prog ε σ Unit) Q :=
  fun s hp => ⟨(), f s, rfl, h s hp⟩

theorem insert [Fault ε] {f : σ → α × σ} (h : ∀ s, P s → Q (f s).1 (f s).2) :
    Returns P (Exec.insert f : Prog ε σ α) Q :=
  fun s hp => ⟨(f s).1, (f s).2, rfl, h s hp⟩

theorem ite {b : Prop} [Decidable b] {y : Prog ε σ α} (hx : b → Returns P x Q)
    (hy : ¬b → Returns P y Q) : Returns P (if b then x else y) Q := by
  by_cases hb : b
  · rw [if_pos hb]; exact hx hb
  · rw [if_neg hb]; exact hy hb

theorem foldlM {f : β → α → Prog ε σ β} {I : σ → Prop} (xs : List α) (b : β)
    (hf : ∀ b x, Returns I (f b x) (fun _ => I)) :
    Returns I (List.foldlM f b xs) (fun _ => I) := by
  induction xs generalizing b with
  | nil => exact Returns.pure (fun s hs => hs)
  | cons x rest ih =>
      rw [List.foldlM_cons]
      exact Returns.bind (hf b x) (fun b' => ih b')

theorem forM {f : α → Prog ε σ PUnit} {I : σ → Prop} (xs : List α)
    (hf : ∀ x, Returns I (f x) (fun _ => I)) : Returns I (List.forM xs f) (fun _ => I) := by
  induction xs with
  | nil => exact Returns.pure (fun s hs => hs)
  | cons x rest ih => exact Returns.bind (hf x) (fun _ => ih)

theorem inTransaction [Fault ε] (h : Returns P x Q) : Returns P (Exec.inTransaction x) Q := by
  intro s hp
  obtain ⟨a, s', hx, hq⟩ := h s hp
  refine ⟨a, s', ?_, hq⟩
  have hcommit : (do let a ← x; Exec.update id; Pure.pure a : Prog ε σ α) ⟨s, none⟩ =
      .ok a ⟨s', none⟩ := bind_ok.mpr ⟨a, _, hx, rfl⟩
  unfold Exec.inTransaction
  rw [hcommit]

end Returns

/-! ## Frames -/

/-- The connection after a run of `x`, whether it returned or failed. -/
def after (x : Prog ε σ α) (c : Conn σ) : Conn σ :=
  match x c with
  | .ok _ c' => c'
  | .error _ c' => c'

/-- A program that starts by reading faults there, or goes on with what it read. -/
theorem after_query_bind [Fault ε] {f : σ → α} {g : α → Prog ε σ β} {I : σ → Prop} {c : Conn σ}
    (hc : I c.store) (hg : ∀ b, I (after (g (f c.store)) ⟨c.store, b⟩).store) :
    I (after (query f >>= g) c).store := by
  obtain ⟨s, b⟩ := c
  match b with
  | some 0 => exact hc
  | none => exact hg none
  | some (n + 1) => exact hg (some n)

/-- No run of `x` changes the `view` of the store, also none that fails. -/
def Keeps {τ : Type} (view : σ → τ) (x : Prog ε σ α) : Prop :=
  ∀ c, view (after x c).store = view c.store

namespace Keeps

variable {τ : Type} {view : σ → τ}

/-- What holds of the view before a program that keeps it holds after. -/
theorem ensures (h : Keeps view x) (I : τ → Prop) :
    Ensures (fun s => I (view s)) x (fun _ s => I (view s)) := by
  intro c a c' hp hx
  have hk := h c
  rw [after, hx] at hk
  exact hk ▸ hp

/-- The same for an assertion about stores that depends on the view only. -/
theorem carries (h : Keeps view x) {I : σ → Prop}
    (hI : ∀ s s', view s' = view s → I s → I s') : Ensures I x (fun _ => I) := by
  intro c a c' hp hx
  have hk := h c
  rw [after, hx] at hk
  exact hI _ _ hk hp

theorem pure {a : α} : Keeps view (Pure.pure a : Prog ε σ α) := fun _ => rfl

theorem throw {e : ε} : Keeps view (MonadExcept.throw e : Prog ε σ α) := fun _ => rfl

theorem bind {f : α → Prog ε σ β} (hx : Keeps view x) (hf : ∀ a, Keeps view (f a)) :
    Keeps view (x >>= f) := by
  intro c
  have hc := hx c
  show view (match EStateM.bind x f c with | .ok _ c' => c' | .error _ c' => c').store = _
  unfold EStateM.bind
  unfold after at hc
  cases h : x c with
  | ok a c' =>
      rw [h] at hc
      exact (hf a c').trans hc
  | error e c' =>
      rw [h] at hc
      exact hc

theorem ite {b : Prop} [Decidable b] {y : Prog ε σ α} (hx : Keeps view x) (hy : Keeps view y) :
    Keeps view (if b then x else y) := by
  by_cases hb : b
  · rw [if_pos hb]; exact hx
  · rw [if_neg hb]; exact hy

theorem stmt [Fault ε] {f : σ → Except ε (α × σ)}
    (h : ∀ s a s', f s = .ok (a, s') → view s' = view s) : Keeps view (Exec.stmt f) := by
  intro c
  unfold after Exec.stmt
  split
  · next a c' hx =>
      split at hx
      · cases hx
      · split at hx
        · next hf => cases hx; exact h _ _ _ hf
        · cases hx
  · next e c' hx =>
      split at hx
      · cases hx; rfl
      · split at hx
        · cases hx
        · cases hx; rfl

theorem query [Fault ε] {f : σ → α} : Keeps view (Exec.query f : Prog ε σ α) :=
  Keeps.stmt (fun s a s' hs => by
    simp only [Except.ok.injEq, Prod.mk.injEq] at hs
    rw [hs.2])

theorem tryQuery [Fault ε] {f : σ → Except ε α} : Keeps view (Exec.tryQuery f) :=
  Keeps.stmt (fun s a s' hs => by
    cases hf : f s with
    | error e => simp [hf, Except.map] at hs
    | ok v =>
        simp only [hf, Except.map, Except.ok.injEq, Prod.mk.injEq] at hs
        rw [hs.2])

theorem update [Fault ε] {f : σ → σ} (h : ∀ s, view (f s) = view s) :
    Keeps view (Exec.update f : Prog ε σ Unit) :=
  Keeps.stmt (fun s a s' hs => by
    simp only [Except.ok.injEq, Prod.mk.injEq, true_and] at hs
    rw [← hs, h])

theorem insert [Fault ε] {f : σ → α × σ} (h : ∀ s, view (f s).2 = view s) :
    Keeps view (Exec.insert f : Prog ε σ α) :=
  Keeps.stmt (fun s a s' hs => by
    simp only [Except.ok.injEq] at hs
    have hv := h s
    rw [hs] at hv
    exact hv)

theorem foldlM {f : β → α → Prog ε σ β} {xs : List α} {b : β}
    (hf : ∀ b x, Keeps view (f b x)) : Keeps view (List.foldlM f b xs) := by
  induction xs generalizing b with
  | nil => exact Keeps.pure
  | cons x rest ih =>
      rw [List.foldlM_cons]
      exact Keeps.bind (hf b x) (fun _ => ih)

theorem forM {f : α → Prog ε σ PUnit} {xs : List α} (hf : ∀ x, Keeps view (f x)) :
    Keeps view (List.forM xs f) := by
  induction xs with
  | nil => exact Keeps.pure
  | cons x rest ih => exact Keeps.bind (hf x) (fun _ => ih)

end Keeps

/-! ## Runs that stop anywhere -/

/-- From every store with `P`, a run of `x` leaves a store with `Q a` when it returns `a`, and one
    with `E` when it fails on the way. -/
def Throughout (P : σ → Prop) (x : Prog ε σ α) (Q : α → σ → Prop) (E : σ → Prop) : Prop :=
  ∀ c, P c.store →
    match x c with
    | .ok a c' => Q a c'.store
    | .error _ c' => E c'.store

namespace Throughout

variable {E : σ → Prop}

theorem ok (h : Throughout P x Q E) : Ensures P x Q := by
  intro c a c' hp hx
  have hc := h c hp
  rwa [hx] at hc

theorem after (h : Throughout P x Q E) (hQ : ∀ a s, Q a s → E s) {c : Conn σ} (hp : P c.store) :
    E (after x c).store := by
  have hc := h c hp
  unfold Exec.after
  cases hx : x c with
  | ok a c' =>
      rw [hx] at hc
      exact hQ a _ hc
  | error e c' => rwa [hx] at hc

theorem bind {f : α → Prog ε σ β} {R : β → σ → Prop} (hx : Throughout P x Q E)
    (hf : ∀ a, Throughout (Q a) (f a) R E) : Throughout P (x >>= f) R E := by
  intro c hp
  have hc := hx c hp
  show match EStateM.bind x f c with | .ok a c' => R a c'.store | .error _ c' => E c'.store
  unfold EStateM.bind
  cases h : x c with
  | ok a c' =>
      rw [h] at hc
      exact hf a c' hc
  | error e c' => rwa [h] at hc

theorem pure {a : α} (h : ∀ s, P s → Q a s) :
    Throughout P (Pure.pure a : Prog ε σ α) Q E := fun _ hp => h _ hp

theorem update [Fault ε] {f : σ → σ} {Q : Unit → σ → Prop} (hE : ∀ s, P s → E s)
    (h : ∀ s, P s → Q () (f s)) : Throughout P (Exec.update f : Prog ε σ Unit) Q E := by
  intro c hp
  cases hx : (Exec.update f : Prog ε σ Unit) c with
  | ok a c' => exact (Ensures.update h) c a c' hp hx
  | error e c' =>
      show E c'.store
      rw [stmt_error hx]
      exact hE _ hp

theorem insert [Fault ε] {f : σ → α × σ} (hE : ∀ s, P s → E s)
    (h : ∀ s, P s → Q (f s).1 (f s).2) : Throughout P (Exec.insert f : Prog ε σ α) Q E := by
  intro c hp
  cases hx : (Exec.insert f : Prog ε σ α) c with
  | ok a c' => exact (Ensures.insert h) c a c' hp hx
  | error e c' =>
      show E c'.store
      rw [stmt_error hx]
      exact hE _ hp

/-- A program that keeps a view, and an assertion that depends on the view only. -/
theorem of_keepsView {τ : Type} {view : σ → τ} (h : Keeps view x) {I : σ → Prop}
    (hI : ∀ s s', view s' = view s → I s → I s') : Throughout I x (fun _ => I) I := by
  intro c hp
  have hk := h c
  unfold Exec.after at hk
  cases hx : x c with
  | ok a c' =>
      rw [hx] at hk
      exact hI _ _ hk hp
  | error e c' =>
      rw [hx] at hk
      exact hI _ _ hk hp

/-- A program that keeps a view, wherever it stops. -/
theorem of_keeps {τ : Type} {view : σ → τ} {v : τ} (h : Keeps view x)
    (hE : ∀ s, view s = v → E s) :
    Throughout (fun s => view s = v) x (fun _ s => view s = v) E := by
  intro c hp
  have hk := h c
  unfold Exec.after at hk
  cases hx : x c with
  | ok a c' =>
      rw [hx] at hk
      exact hk.trans hp
  | error e c' =>
      rw [hx] at hk
      exact hE _ (hk.trans hp)

end Throughout

/-! ## Fallible functions -/

theorem except_bind_ok {x : Except ε α} {f : α → Except ε β} {b : β} :
    (x >>= f) = .ok b ↔ ∃ a, x = .ok a ∧ f a = .ok b := by
  cases x <;> simp [bind, Except.bind]

/-- A fallible function run on a list returns when it does on each element. -/
theorem mapM_ok_iff {f : α → Except ε β} {l : List α} {r : List β} :
    l.mapM f = .ok r ↔ List.Forall₂ (fun a b => f a = .ok b) l r := by
  induction l generalizing r with
  | nil =>
      rw [List.mapM_nil, List.forall₂_nil_left_iff]
      simp [pure, Except.pure, eq_comm]
  | cons a l ih =>
      rw [List.mapM_cons, List.forall₂_cons_left_iff]
      cases ha : f a with
      | error e => simp [bind, Except.bind]
      | ok b =>
          cases hl : l.mapM f with
          | error e => simp [bind, Except.bind, ← ih, hl]
          | ok bs => simp [bind, Except.bind, pure, Except.pure, ← ih, hl, eq_comm]

/-- A fallible function that returns `g a` exactly where `p` holds. -/
theorem mapM_ok_iff_map {f : α → Except ε β} {p : α → Prop} {g : α → β}
    (hf : ∀ a b, f a = .ok b ↔ p a ∧ b = g a) {l : List α} {r : List β} :
    l.mapM f = .ok r ↔ (∀ a ∈ l, p a) ∧ r = l.map g := by
  simp only [mapM_ok_iff, hf]
  induction l generalizing r with
  | nil => simp
  | cons a l ih =>
      simp only [List.forall₂_cons_left_iff, ih, List.forall_mem_cons, List.map_cons]
      constructor
      · rintro ⟨_, _, ⟨ha, rfl⟩, ⟨hl, rfl⟩, rfl⟩
        exact ⟨⟨ha, hl⟩, rfl⟩
      · rintro ⟨⟨ha, hl⟩, rfl⟩
        exact ⟨_, _, ⟨ha, rfl⟩, ⟨hl, rfl⟩, rfl⟩

/-- A fallible loop whose body returns `g b a` exactly where `p` holds. -/
theorem foldlM_ok_iff_foldl {f : β → α → Except ε β} {p : α → Prop} {g : β → α → β} {l : List α}
    (hf : ∀ a ∈ l, ∀ b b', f b a = .ok b' ↔ p a ∧ b' = g b a) {b b' : β} :
    l.foldlM f b = .ok b' ↔ (∀ a ∈ l, p a) ∧ b' = l.foldl g b := by
  induction l generalizing b with
  | nil => simp [pure, Except.pure, eq_comm]
  | cons a l ih =>
      rw [List.foldlM_cons, except_bind_ok, List.forall_mem_cons, List.foldl_cons]
      simp only [hf a List.mem_cons_self, ih (fun a' h => hf a' (List.mem_cons_of_mem a h))]
      constructor
      · rintro ⟨_, ⟨ha, rfl⟩, hl, hb'⟩
        exact ⟨⟨ha, hl⟩, hb'⟩
      · rintro ⟨⟨ha, hl⟩, hb'⟩
        exact ⟨_, ⟨ha, rfl⟩, hl, hb'⟩

/-- Loops whose bodies do the same with the elements of the list. -/
theorem foldlM_congr {m : Type → Type} [Monad m] {α β : Type} {f g : β → α → m β} {l : List α}
    (h : ∀ a ∈ l, ∀ b, f b a = g b a) (b : β) : l.foldlM f b = l.foldlM g b := by
  induction l generalizing b with
  | nil => rfl
  | cons a l ih =>
      rw [List.foldlM_cons, List.foldlM_cons, h a List.mem_cons_self]
      exact congrArg (_ >>= ·) (funext (ih (fun a' ha' => h a' (List.mem_cons_of_mem a ha'))))

end Exec

import MinotariWallet.Lib.Exec

set_option autoImplicit false

/-! # The first statement that changes something

A program outside a transaction that fails has left what its statements did until then. `Reads` says
that a program only read in the store it was run from, and `FirstChange` how many statements it runs
there before the first that leaves a trace. A trace is a condition `C` that no later statement takes
back, so a run that fails has left the store alone exactly if it failed before that statement. -/

namespace Exec

variable {ε σ α β : Type}

/-! ## What no statement takes back -/

/-- What holds of the store before a run of `x` holds after it, also when the run fails. -/
def Stays (I : σ → Prop) (x : Prog ε σ α) : Prop :=
  ∀ c, I c.store → I (after x c).store

variable {I C : σ → Prop} {x : Prog ε σ α} {s : σ}

namespace Stays

theorem of_keeps {τ : Type} {view : σ → τ} {J : τ → Prop} (h : Keeps view x) :
    Stays (fun s => J (view s)) x := by
  intro c hc
  show J (view (after x c).store)
  rw [h c]
  exact hc

theorem pure {a : α} : Stays I (Pure.pure a : Prog ε σ α) := fun _ hc => hc

theorem bind {f : α → Prog ε σ β} (hx : Stays I x) (hf : ∀ a, Stays I (f a)) :
    Stays I (x >>= f) := by
  intro c hc
  have h := hx c hc
  show I (after (EStateM.bind x f) c).store
  unfold after EStateM.bind
  unfold after at h
  cases hrun : x c with
  | ok a c' =>
      rw [hrun] at h
      exact hf a c' h
  | error e c' =>
      rw [hrun] at h
      exact h

theorem ite {b : Prop} [Decidable b] {y : Prog ε σ α} (hx : Stays I x) (hy : Stays I y) :
    Stays I (if b then x else y) := by
  by_cases hb : b
  · rw [if_pos hb]; exact hx
  · rw [if_neg hb]; exact hy

theorem stmt [Fault ε] {f : σ → Except ε (α × σ)}
    (h : ∀ s a s', I s → f s = .ok (a, s') → I s') : Stays I (Exec.stmt f) := by
  intro c hc
  unfold after
  cases hrun : Exec.stmt f c with
  | ok a c' => exact h _ _ _ hc (stmt_ok hrun)
  | error e c' =>
      show I c'.store
      rw [stmt_error hrun]
      exact hc

theorem query [Fault ε] {f : σ → α} : Stays I (Exec.query f : Prog ε σ α) :=
  of_keeps (Keeps.query : Keeps id _)

theorem tryQuery [Fault ε] {f : σ → Except ε α} : Stays I (Exec.tryQuery f) :=
  of_keeps (Keeps.tryQuery : Keeps id _)

theorem update [Fault ε] {f : σ → σ} (h : ∀ s, I s → I (f s)) :
    Stays I (Exec.update f : Prog ε σ Unit) :=
  Stays.stmt (fun s a s' hs hf => by
    simp only [Except.ok.injEq, Prod.mk.injEq, true_and] at hf
    exact hf ▸ h s hs)

theorem insert [Fault ε] {f : σ → α × σ} (h : ∀ s, I s → I (f s).2) :
    Stays I (Exec.insert f : Prog ε σ α) :=
  Stays.stmt (fun s a s' hs hf => by
    simp only [Except.ok.injEq] at hf
    have := h s hs
    rwa [hf] at this)

theorem foldlM_mem {f : β → α → Prog ε σ β} {xs : List α} {b : β}
    (hf : ∀ b, ∀ x ∈ xs, Stays I (f b x)) : Stays I (List.foldlM f b xs) := by
  induction xs generalizing b with
  | nil => exact Stays.pure
  | cons x rest ih =>
      rw [List.foldlM_cons]
      exact Stays.bind (hf b x List.mem_cons_self)
        (fun _ => ih (fun b y hy => hf b y (List.mem_cons_of_mem x hy)))

theorem foldlM {f : β → α → Prog ε σ β} {xs : List α} {b : β} (hf : ∀ b x, Stays I (f b x)) :
    Stays I (List.foldlM f b xs) := foldlM_mem (fun b x _ => hf b x)

theorem forM {f : α → Prog ε σ PUnit} {xs : List α} (hf : ∀ x, Stays I (f x)) :
    Stays I (List.forM xs f) := by
  induction xs with
  | nil => exact Stays.pure
  | cons x rest ih => exact Stays.bind (hf x) (fun _ => ih)

end Stays

/-! ## Reading -/

/-- From `s`, `x` runs `k` statements, none of which changes anything, and returns `a`. -/
def Reads [Fault ε] (x : Prog ε σ α) (s : σ) (k : Nat) (a : α) : Prop :=
  ∀ b : Option Nat, x ⟨s, b⟩ =
    if b.all (k ≤ ·) then .ok a ⟨s, b.map (· - k)⟩ else .error Fault.fault ⟨s, some 0⟩

namespace Reads

variable [Fault ε]

theorem pure {a : α} : Reads (Pure.pure a : Prog ε σ α) s 0 a := by
  intro b
  cases b <;> rfl

theorem stmt {f : σ → Except ε (α × σ)} {a : α} (h : f s = .ok (a, s)) :
    Reads (Exec.stmt f) s 1 a := by
  intro b
  match b with
  | none => simp [Exec.stmt, h]
  | some 0 => simp [Exec.stmt]
  | some (n + 1) => simp [Exec.stmt, h]

theorem query {f : σ → α} : Reads (Exec.query f : Prog ε σ α) s 1 (f s) := Reads.stmt rfl

theorem tryQuery {f : σ → Except ε α} {a : α} (h : f s = .ok a) :
    Reads (Exec.tryQuery f) s 1 a := Reads.stmt (by simp [h, Except.map])

/-- A write of what is there already. -/
theorem update {f : σ → σ} (h : f s = s) : Reads (Exec.update f : Prog ε σ Unit) s 1 () :=
  Reads.stmt (by rw [h])

theorem bind_eq {f : α → Prog ε σ β} {k : Nat} {a : α} (hx : Reads x s k a) (b : Option Nat) :
    (x >>= f) ⟨s, b⟩ =
      if b.all (k ≤ ·) then f a ⟨s, b.map (· - k)⟩ else .error Fault.fault ⟨s, some 0⟩ := by
  show EStateM.bind x f ⟨s, b⟩ = _
  unfold EStateM.bind
  rw [hx b]
  by_cases h : (b.all (k ≤ ·)) = true <;> simp [h]

theorem bind {f : α → Prog ε σ β} {k l : Nat} {a : α} {d : β} (hx : Reads x s k a)
    (hf : Reads (f a) s l d) : Reads (x >>= f) s (k + l) d := by
  intro b
  rw [hx.bind_eq]
  cases b with
  | none => simp [hf none]
  | some n =>
      simp only [Option.all_some, Option.map_some, hf (some (n - k)), decide_eq_true_eq]
      by_cases hk : k ≤ n
      · by_cases hl : l ≤ n - k
        · have hkl : k + l ≤ n := by omega
          simp [hk, hl, hkl, Nat.sub_sub]
        · have hkl : ¬k + l ≤ n := by omega
          simp [hk, hl, hkl]
      · have hkl : ¬k + l ≤ n := by omega
        simp [hk, hkl]

/-- A loop whose bodies all return at once. -/
theorem forM {f : β → Prog ε σ PUnit} {xs : List β} (hf : ∀ x ∈ xs, Reads (f x) s 0 ⟨⟩) :
    Reads (List.forM xs f) s 0 ⟨⟩ := by
  induction xs with
  | nil => exact Reads.pure
  | cons x rest ih =>
      exact Reads.bind (f := fun _ => List.forM rest f) (hf x List.mem_cons_self)
        (ih (fun y hy => hf y (List.mem_cons_of_mem _ hy)))

/-- A program that only reads leaves the store alone when it fails. -/
theorem error {k : Nat} {a : α} {b : Option Nat} {e : ε} {c' : Conn σ} (hx : Reads x s k a)
    (h : x ⟨s, b⟩ = .error e c') : c'.store = s := by
  rw [hx b] at h
  split at h
  · cases h
  · cases h; rfl

end Reads

/-! ## The first change -/

/-- From `s`, `x` reads with `k` statements, and changes something with the next: with those alone
    it fails without a trace, and with more it leaves `C`. -/
structure FirstChange [Fault ε] (C : σ → Prop) (k : Nat) (x : Prog ε σ α) (s : σ) : Prop where
  before : ∀ n ≤ k, x ⟨s, some n⟩ = .error Fault.fault ⟨s, some 0⟩
  after : ∀ b : Option Nat, (∀ n, b = some n → k < n) → C (after x ⟨s, b⟩).store

namespace FirstChange

variable [Fault ε] {k l : Nat}

theorem stmt {f : σ → Except ε (α × σ)} {a : α} {s' : σ} (h : f s = .ok (a, s')) (hC : C s') :
    FirstChange C 0 (Exec.stmt f) s where
  before := fun n hn => by
    obtain rfl : n = 0 := Nat.le_zero.mp hn
    rfl
  after := fun b hb => by
    match b with
    | none => simpa [Exec.after, Exec.stmt, h] using hC
    | some 0 => exact absurd (hb 0 rfl) (Nat.lt_irrefl 0)
    | some (n + 1) => simpa [Exec.after, Exec.stmt, h] using hC

theorem update {f : σ → σ} (hC : C (f s)) :
    FirstChange C 0 (Exec.update f : Prog ε σ Unit) s := FirstChange.stmt rfl hC

theorem insert {f : σ → α × σ} (hC : C (f s).2) :
    FirstChange C 0 (Exec.insert f : Prog ε σ α) s := FirstChange.stmt (a := (f s).1) rfl hC

/-- What comes after the change does not take it back. -/
theorem bind {f : α → Prog ε σ β} (hx : FirstChange C k x s) (hf : ∀ a, Stays C (f a)) :
    FirstChange C k (x >>= f) s where
  before := fun n hn => by
    show EStateM.bind x f ⟨s, some n⟩ = _
    unfold EStateM.bind
    rw [hx.before n hn]
  after := fun b hb => by
    have h := hx.after b hb
    show C (Exec.after (EStateM.bind x f) ⟨s, b⟩).store
    unfold Exec.after EStateM.bind
    unfold Exec.after at h
    cases hrun : x ⟨s, b⟩ with
    | ok a c' =>
        rw [hrun] at h
        exact hf a c' h
    | error e c' =>
        rw [hrun] at h
        exact h

/-- What comes before the change only reads. -/
theorem of_reads {f : α → Prog ε σ β} {a : α} (hx : Reads x s k a)
    (hf : FirstChange C l (f a) s) : FirstChange C (k + l) (x >>= f) s where
  before := fun n hn => by
    rw [hx.bind_eq]
    by_cases hk : k ≤ n
    · simp only [Option.all_some, hk, decide_true, if_true, Option.map_some]
      exact hf.before (n - k) (by omega)
    · simp [hk]
  after := fun b hb => by
    have hall : b.all (k ≤ ·) = true := by
      cases b with
      | none => rfl
      | some n =>
          have := hb n rfl
          simp only [Option.all_some, decide_eq_true_eq]
          omega
    have h := hf.after (b.map (· - k)) (by
      intro n hn
      obtain ⟨m, rfl, rfl⟩ := Option.map_eq_some_iff.mp hn
      have := hb m rfl
      omega)
    unfold Exec.after at h ⊢
    rwa [hx.bind_eq, if_pos hall]

/-- A loop whose first body that does not return at once changes something. -/
theorem forM {f : β → Prog ε σ PUnit} {xs : List β} (hstays : ∀ x, Stays C (f x))
    (hidle : ∀ x ∈ xs, Reads (f x) s 0 ⟨⟩ ∨ FirstChange C 0 (f x) s)
    (hchange : ∃ x ∈ xs, FirstChange C 0 (f x) s) : FirstChange C 0 (List.forM xs f) s := by
  induction xs with
  | nil => obtain ⟨x, hx, -⟩ := hchange; cases hx
  | cons x rest ih =>
      by_cases hx : FirstChange C 0 (f x) s
      · exact FirstChange.bind hx (fun _ => Stays.forM hstays)
      · have hreads := (hidle x List.mem_cons_self).resolve_right hx
        have hrest : ∃ y ∈ rest, FirstChange C 0 (f y) s := by
          obtain ⟨y, hy, hchanges⟩ := hchange
          rcases List.mem_cons.mp hy with rfl | hy
          · exact absurd hchanges hx
          · exact ⟨y, hy, hchanges⟩
        exact FirstChange.of_reads (f := fun _ => List.forM rest f) hreads
          (ih (fun y hy => hidle y (List.mem_cons_of_mem _ hy)) hrest)

/-- A run that fails has left the store alone exactly if it came no further than the first change. -/
theorem error_iff (hx : FirstChange C k x s) (hC : ¬C s) {b : Option Nat} {e : ε} {c' : Conn σ}
    (h : x ⟨s, b⟩ = .error e c') : c'.store = s ↔ ∃ n, b = some n ∧ n ≤ k := by
  constructor
  · intro heq
    by_contra hmore
    have htrace := hx.after b (fun n hn => by
      by_contra hle
      exact hmore ⟨n, hn, Nat.le_of_not_lt hle⟩)
    rw [Exec.after, h] at htrace
    exact hC (heq ▸ htrace)
  · rintro ⟨n, rfl, hn⟩
    rw [hx.before n hn] at h
    cases h
    rfl

end FirstChange

/-- The same for what is left of a program after `j` statements that only read: the first change of
    the whole comes after `k` reads when `o` is `some k`, and nowhere when it is `none`. -/
def FirstAt [Fault ε] (C : σ → Prop) (j : Nat) (o : Option Nat) (x : Prog ε σ α) (s : σ) : Prop :=
  match o with
  | some k => j ≤ k ∧ FirstChange C (k - j) x s
  | none => ∃ k a, Reads x s k a

namespace FirstAt

variable [Fault ε] {j k : Nat} {o : Option Nat}

theorem change (h : FirstChange C k x s) : FirstAt C j (some (j + k)) x s :=
  ⟨Nat.le_add_right j k, by rwa [Nat.add_sub_cancel_left]⟩

theorem pure {a : α} : FirstAt C j none (Pure.pure a : Prog ε σ α) s := ⟨0, a, Reads.pure⟩

theorem after {f : α → Prog ε σ β} {a : α} (hx : Reads x s k a)
    (hf : FirstAt C (j + k) o (f a) s) : FirstAt C j o (x >>= f) s := by
  cases o with
  | none =>
      obtain ⟨l, d, hl⟩ := hf
      exact ⟨k + l, d, hx.bind hl⟩
  | some m =>
      obtain ⟨hm, hchange⟩ := hf
      refine ⟨Nat.le_of_add_right_le hm, ?_⟩
      have hsum : m - j = k + (m - (j + k)) := by omega
      rw [hsum]
      exact FirstChange.of_reads hx hchange

/-- What follows takes nothing back, and only reads where nothing has changed. -/
theorem bind {f : α → Prog ε σ β} (hx : FirstAt C j o x s) (hstays : ∀ a, Stays C (f a))
    (hreads : ∀ a, ∃ k d, Reads (f a) s k d) : FirstAt C j o (x >>= f) s := by
  cases o with
  | none =>
      obtain ⟨k, a, hk⟩ := hx
      obtain ⟨l, d, hl⟩ := hreads a
      exact ⟨k + l, d, hk.bind hl⟩
  | some m => exact ⟨hx.1, FirstChange.bind hx.2 hstays⟩

/-- A part that changes something first when `p` holds, and only reads otherwise. -/
theorem choose {p : Prop} [Decidable p] {f : α → Prog ε σ β} {l : Nat} {a : α}
    (hchange : p → FirstChange C l x s) (hreads : ¬p → Reads x s k a)
    (hf : ¬p → FirstAt C (j + k) o (f a) s) (hstays : ∀ a, Stays C (f a)) :
    FirstAt C j (if p then some (j + l) else o) (x >>= f) s := by
  by_cases hp : p
  · rw [if_pos hp]
    exact FirstAt.change (FirstChange.bind (hchange hp) hstays)
  · rw [if_neg hp]
    exact FirstAt.after (hreads hp) (hf hp)

end FirstAt

end Exec

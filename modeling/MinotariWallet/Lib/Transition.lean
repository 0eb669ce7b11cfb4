import Mathlib.Algebra.GroupWithZero.Nat
import Mathlib.Data.List.Basic
import Mathlib.Tactic.Common

set_option autoImplicit false

/-! # Runs of a labelled step function

A system is a step function `step : σ → α → Option σ`: an action carries every choice that the
environment makes (what is answered, what is picked, what time it is), and `none` means that the
action is not possible in the state. A run is a list of actions. `Along G` says that every step of a
run meets the condition `G` on the state before it, and the invariant rules below are about runs
whose steps all do. -/

namespace Transition

variable {σ α : Type}

/-- The state after the actions, `none` when one of them is not possible. -/
def run (step : σ → α → Option σ) : σ → List α → Option σ
  | s, [] => some s
  | s, a :: as => (step s a).bind (fun s' => run step s' as)

/-- Every step that the run from `s` takes meets `G` on the state before it. -/
def Along (step : σ → α → Option σ) (G : σ → α → Prop) : σ → List α → Prop
  | _, [] => True
  | s, a :: as =>
    match step s a with
    | none => True
    | some s' => G s a ∧ Along step G s' as

/-- Every state that the run from `s` reaches, `s` included, has `P`. -/
def Always (step : σ → α → Option σ) (P : σ → Prop) : σ → List α → Prop
  | s, [] => P s
  | s, a :: as =>
    P s ∧
      match step s a with
      | none => True
      | some s' => Always step P s' as

/-- What the steps of the run from `s` show, in order. -/
def trace {ε : Type} (step : σ → α → Option σ) (observe : σ → α → σ → List ε) :
    σ → List α → List ε
  | _, [] => []
  | s, a :: as =>
    match step s a with
    | none => []
    | some s' => observe s a s' ++ trace step observe s' as

instance decidableAlong {step : σ → α → Option σ} {G : σ → α → Prop}
    [∀ s a, Decidable (G s a)] : ∀ s as, Decidable (Along step G s as)
  | _, [] => isTrue trivial
  | s, a :: as =>
    match h : step s a with
    | none => isTrue (by simp only [Along, h])
    | some s' =>
      have : Decidable (Along step G s' as) := decidableAlong s' as
      decidable_of_iff (G s a ∧ Along step G s' as) (by simp only [Along, h])

instance decidableAlways {step : σ → α → Option σ} {P : σ → Prop} [∀ s, Decidable (P s)] :
    ∀ s as, Decidable (Always step P s as)
  | s, [] => inferInstanceAs (Decidable (P s))
  | s, a :: as =>
    match h : step s a with
    | none => decidable_of_iff (P s) (by simp only [Always, h, and_true])
    | some s' =>
      have : Decidable (Always step P s' as) := decidableAlways s' as
      decidable_of_iff (P s ∧ Always step P s' as) (by simp only [Always, h])

/-- A check that every final state of a run passes, as a fact about that run. -/
theorem exists_run_of_any {f : σ → α → Option σ} {s : σ} {l : List α} {q : σ → Bool}
    (h : (run f s l).any q = true) : ∃ s', run f s l = some s' ∧ q s' = true := by
  cases hr : run f s l with
  | none => simp [hr] at h
  | some s' => exact ⟨s', rfl, by simpa [hr] using h⟩

variable {step : σ → α → Option σ} {G R : σ → α → Prop} {I P : σ → Prop}

@[simp] theorem run_nil (s : σ) : run step s [] = some s := rfl

theorem run_cons {s s'' : σ} {a : α} {as : List α} :
    run step s (a :: as) = some s'' ↔ ∃ s', step s a = some s' ∧ run step s' as = some s'' :=
  Option.bind_eq_some_iff

theorem run_append {s s'' : σ} {as bs : List α} :
    run step s (as ++ bs) = some s'' ↔ ∃ s', run step s as = some s' ∧ run step s' bs = some s'' := by
  induction as generalizing s with
  | nil => simp
  | cons a as ih =>
      rw [List.cons_append, run_cons]
      constructor
      · rintro ⟨t, ht, hrest⟩
        obtain ⟨s', h₁, h₂⟩ := ih.mp hrest
        exact ⟨s', run_cons.mpr ⟨t, ht, h₁⟩, h₂⟩
      · rintro ⟨s', h₁, h₂⟩
        obtain ⟨t, ht, hrest⟩ := run_cons.mp h₁
        exact ⟨t, ht, ih.mpr ⟨s', hrest, h₂⟩⟩

theorem along_cons {s s' : σ} {a : α} {as : List α} (h : step s a = some s') :
    Along step G s (a :: as) ↔ G s a ∧ Along step G s' as := by
  simp only [Along, h]

theorem always_cons {s s' : σ} {a : α} {as : List α} (h : step s a = some s') :
    Always step P s (a :: as) ↔ P s ∧ Always step P s' as := by
  simp only [Always, h]

theorem Always.head {s : σ} {as : List α} (h : Always step P s as) : P s := by
  cases as with
  | nil => exact h
  | cons a as => exact h.1

/-- The state that the run ends in is one of those it reaches. -/
theorem Always.final {s s' : σ} {as : List α} (h : Always step P s as)
    (hrun : run step s as = some s') : P s' := by
  induction as generalizing s with
  | nil => cases hrun; exact h
  | cons a as ih =>
      obtain ⟨t, ht, hrest⟩ := run_cons.mp hrun
      exact ih ((always_cons ht).mp h).2 hrest

/-- An invariant of the steps that meet `G` is kept by every run of such steps. -/
theorem inv_of_run (hstep : ∀ s a s', I s → G s a → step s a = some s' → I s')
    {s s' : σ} {as : List α} (hs : I s) (hG : Along step G s as)
    (hrun : run step s as = some s') : I s' := by
  induction as generalizing s with
  | nil => cases hrun; exact hs
  | cons a as ih =>
      obtain ⟨t, ht, hrest⟩ := run_cons.mp hrun
      obtain ⟨hg, hGs⟩ := (along_cons ht).mp hG
      exact ih (hstep s a t hs hg ht) hGs hrest

/-- An invariant that also speaks of a ghost value, which each action updates. -/
theorem inv_of_run_ghost {γ : Type} {J : γ → σ → Prop} {f : γ → α → γ}
    (hstep : ∀ g s a s', J g s → G s a → step s a = some s' → J (f g a) s')
    {g : γ} {s s' : σ} {as : List α} (hs : J g s) (hG : Along step G s as)
    (hrun : run step s as = some s') : J (as.foldl f g) s' := by
  induction as generalizing g s with
  | nil => cases hrun; exact hs
  | cons a as ih =>
      obtain ⟨t, ht, hrest⟩ := run_cons.mp hrun
      obtain ⟨hg, hGs⟩ := (along_cons ht).mp hG
      exact ih (hstep g s a t hs hg ht) hGs hrest

/-- The same for every state on the way. -/
theorem always_of_along (hstep : ∀ s a s', I s → G s a → step s a = some s' → I s')
    (hP : ∀ s, I s → P s) {s : σ} {as : List α} (hs : I s) (hG : Along step G s as) :
    Always step P s as := by
  induction as generalizing s with
  | nil => exact hP s hs
  | cons a as ih =>
      cases ht : step s a with
      | none => simp only [Always, ht]; exact ⟨hP s hs, trivial⟩
      | some t =>
          obtain ⟨hg, hGs⟩ := (along_cons ht).mp hG
          exact (always_cons ht).mpr ⟨hP s hs, ih (hstep s a t hs hg ht) hGs⟩

/-- What the steps that meet `G` have under the invariant, every step of such a run has. -/
theorem along_of_along (hstep : ∀ s a s', I s → G s a → step s a = some s' → I s')
    (hR : ∀ s a s', I s → G s a → step s a = some s' → R s a) {s : σ} {as : List α} (hs : I s)
    (hG : Along step G s as) : Along step R s as := by
  induction as generalizing s with
  | nil => trivial
  | cons a as ih =>
      cases ht : step s a with
      | none => simp only [Along, ht]
      | some t =>
          obtain ⟨hg, hGs⟩ := (along_cons ht).mp hG
          exact (along_cons ht).mpr ⟨hR s a t hs hg ht, ih (hstep s a t hs hg ht) hGs⟩

/-- What the steps show under an invariant, every run of them shows. -/
theorem forall_mem_trace {ε : Type} {observe : σ → α → σ → List ε} {K : ε → Prop}
    (hstep : ∀ s a s', I s → step s a = some s' → I s')
    (hobs : ∀ s a s', I s → step s a = some s' → ∀ e ∈ observe s a s', K e) {s : σ} {as : List α}
    (hs : I s) : ∀ e ∈ trace step observe s as, K e := by
  induction as generalizing s with
  | nil => intro e he; cases he
  | cons a as ih =>
      cases ht : step s a with
      | none => simp [trace, ht]
      | some t =>
          simp only [trace, ht, List.mem_append]
          rintro e (he | he)
          · exact hobs s a t hs ht e he
          · exact ih (hstep s a t hs ht) e he

/-- Two conditions on the steps of a run. -/
theorem Along.and {s : σ} {as : List α} (hG : Along step G s as) (hR : Along step R s as) :
    Along step (fun s a => G s a ∧ R s a) s as := by
  induction as generalizing s with
  | nil => trivial
  | cons a as ih =>
      cases ht : step s a with
      | none => simp only [Along, ht]
      | some t =>
          obtain ⟨hg, hGs⟩ := (along_cons ht).mp hG
          obtain ⟨hr, hRs⟩ := (along_cons ht).mp hR
          exact (along_cons ht).mpr ⟨⟨hg, hr⟩, ih hGs hRs⟩

/-- A condition on all actions of a run is one on its steps. -/
theorem along_of_forall {K : α → Prop} (s : σ) {as : List α} (hK : ∀ a ∈ as, K a) :
    Along step (fun _ a => K a) s as := by
  induction as generalizing s with
  | nil => trivial
  | cons a as ih =>
      cases ht : step s a with
      | none => simp only [Along, ht]
      | some t =>
          exact (along_cons ht).mpr
            ⟨hK a List.mem_cons_self, ih t (fun b hb => hK b (List.mem_cons_of_mem a hb))⟩

/-- An invariant of all steps. -/
theorem inv_of_steps (hstep : ∀ s a s', I s → step s a = some s' → I s') {s s' : σ} {as : List α}
    (hs : I s) (hrun : run step s as = some s') : I s' :=
  inv_of_run (fun s a s' h _ => hstep s a s' h) hs (along_of_forall s (fun _ _ => trivial)) hrun

/-- The same for every state on the way. -/
theorem always_of_steps (hstep : ∀ s a s', I s → step s a = some s' → I s')
    (hP : ∀ s, I s → P s) {s : σ} {as : List α} (hs : I s) : Always step P s as :=
  always_of_along (fun s a s' hI _ => hstep s a s' hI) hP hs
    (along_of_forall s (K := fun _ => True) (fun _ _ => trivial))

/-- What is never undone and does not hold at the end of a run held nowhere in it. -/
theorem always_not_of_final (hstep : ∀ s a s', P s → G s a → step s a = some s' → P s')
    {s s' : σ} {as : List α} (hG : Along step G s as) (hrun : run step s as = some s')
    (hs' : ¬P s') : Always step (fun s => ¬P s) s as := by
  induction as generalizing s with
  | nil => cases hrun; exact hs'
  | cons a as ih =>
      obtain ⟨t, ht, hrest⟩ := run_cons.mp hrun
      obtain ⟨hg, hGs⟩ := (along_cons ht).mp hG
      have hlater := ih hGs hrest
      exact (always_cons ht).mpr ⟨fun hp => hlater.head (hstep s a t hp hg ht), hlater⟩

/-- Where every step uses up some of a measure, but for what its action adds, a run is no longer than
    the measure and what its actions add. -/
theorem length_le_of_measure {m : σ → Nat} {c : α → Nat}
    (hstep : ∀ s a s', step s a = some s' → m s' < m s + c a) {s s' : σ} {as : List α}
    (hrun : run step s as = some s') : as.length + m s' ≤ m s + (as.map c).sum := by
  induction as generalizing s with
  | nil => cases hrun; simp
  | cons a as ih =>
      obtain ⟨t, ht, hrest⟩ := run_cons.mp hrun
      have hle := ih hrest
      have hlt := hstep s a t ht
      simp only [List.length_cons, List.map_cons, List.sum_cons]
      omega

theorem along_append {s s' : σ} {as bs : List α} (hrun : run step s as = some s') :
    Along step G s (as ++ bs) ↔ Along step G s as ∧ Along step G s' bs := by
  induction as generalizing s with
  | nil => cases hrun; simp [Along]
  | cons a as ih =>
      obtain ⟨t, ht, hrest⟩ := run_cons.mp hrun
      rw [List.cons_append, along_cons ht, along_cons ht, ih hrest, and_assoc]

/-- Where `I` and `P` hold, a step that meets `K` either meets `G` or breaks `P`: then a run of such
    steps with `P` throughout has only steps that meet `G`. -/
theorem along_of_always {K : σ → α → Prop}
    (hstep : ∀ s a s', I s → P s → K s a → step s a = some s' → I s')
    (hbreak : ∀ s a s', I s → P s → K s a → step s a = some s' → P s' → G s a)
    {s : σ} {as : List α} (hs : I s) (hK : Along step K s as) (h : Always step P s as) :
    Along step G s as := by
  induction as generalizing s with
  | nil => trivial
  | cons a as ih =>
      cases ht : step s a with
      | none => simp only [Along, ht]
      | some t =>
          obtain ⟨hp, hrest⟩ := (always_cons ht).mp h
          obtain ⟨hk, hKs⟩ := (along_cons ht).mp hK
          exact (along_cons ht).mpr
            ⟨hbreak s a t hs hp hk ht hrest.head, ih (hstep s a t hs hp hk ht) hKs hrest⟩

end Transition

import Mathlib.Logic.Relation

/-! # Runs of a step function that may stop

A machine is a step function into `Except`: an error is a failed assertion, after
which nothing more happens. The rules below peel a run apart and carry an
invariant, a frame condition, or totality from one step to every run. -/

namespace Scarab.Execution

universe u v w

variable {σ α β : Type u} {ι : Type v} {ε : Type w}

/-! ## One step after another -/

/-- A sequence of two computations succeeds through an intermediate result. -/
theorem bind_eq_ok {first : Except ε α} {next : α → Except ε β} {out : β} :
    first >>= next = .ok out ↔ ∃ mid, first = .ok mid ∧ next mid = .ok out := by
  cases first <;> simp [bind, Except.bind]

theorem map_eq_ok {f : α → β} {x : Except ε α} {out : β} : f <$> x = .ok out ↔ ∃ a, x = .ok a ∧ f a = out := by
  cases x <;> simp [Functor.map, Except.map]

/-- A sequence of two computations fails in the first or in the second. -/
theorem bind_eq_error {first : Except ε α} {next : α → Except ε β} {e : ε} :
    first >>= next = .error e ↔ first = .error e ∨ ∃ mid, first = .ok mid ∧ next mid = .error e := by
  cases first <;> simp [bind, Except.bind]

/-- A guard lets the computation continue exactly when its condition holds. -/
theorem ite_error_eq_ok {c : Prop} [Decidable c] {e : ε} {x : Except ε α} {a : α} :
    (if c then x else .error e) = .ok a ↔ c ∧ x = .ok a := by
  by_cases h : c <;> simp [h]

theorem ite_error_eq_error {c : Prop} [Decidable c] {e e' : ε} {x : Except ε α} :
    (if c then x else .error e) = .error e' ↔ c ∧ x = .error e' ∨ ¬ c ∧ e = e' := by
  by_cases h : c <;> simp [h]

/-- A fold fails at one of its elements. -/
theorem foldlM_eq_error {f : β → α → Except ε β} {b : β} {as : List α} {e : ε}
    (h : as.foldlM f b = .error e) : ∃ a ∈ as, ∃ b, f b a = .error e := by
  induction as generalizing b with
  | nil => cases h
  | cons a as ih =>
      rw [List.foldlM_cons] at h
      cases bind_eq_error.mp h with
      | inl hfirst => exact ⟨a, by simp, b, hfirst⟩
      | inr hlater =>
          obtain ⟨c, _, hc⟩ := hlater
          obtain ⟨a', ha', hfail⟩ := ih hc
          exact ⟨a', by simp [ha'], hfail⟩

theorem exists_ok {x : Except ε α} (h : x.isOk = true) : ∃ a, x = .ok a := by
  cases x with
  | error e => cases h
  | ok a => exact ⟨a, rfl⟩

theorem toOption_eq_some {x : Except ε α} {a : α} : x.toOption = some a ↔ x = .ok a := by
  cases x <;> simp [Except.toOption]

/-! ## Runs -/

/-- Feed the inputs to the step function in order, stopping at the first error. -/
def run (step : σ → ι → Except ε σ) : σ → List ι → Except ε σ
  | s, [] => .ok s
  | s, i :: inputs => step s i >>= fun t => run step t inputs

section

variable {step : σ → ι → Except ε σ}

@[simp] theorem run_nil (s : σ) : run step s [] = .ok s := rfl

theorem run_cons_eq_ok {s t : σ} {i : ι} {inputs : List ι} :
    run step s (i :: inputs) = .ok t ↔ ∃ m, step s i = .ok m ∧ run step m inputs = .ok t :=
  bind_eq_ok

theorem run_congr {step' : σ → ι → Except ε σ} {s : σ} {inputs : List ι}
    (h : ∀ s, ∀ i ∈ inputs, step s i = step' s i) : run step s inputs = run step' s inputs := by
  induction inputs generalizing s with
  | nil => rfl
  | cons i inputs ih =>
      rw [run, run, h s i List.mem_cons_self]
      exact congrArg _ (funext fun t => ih fun s j hj => h s j (List.mem_cons_of_mem i hj))

theorem run_append (s : σ) (first rest : List ι) :
    run step s (first ++ rest) = run step s first >>= fun t => run step t rest := by
  induction first generalizing s with
  | nil => rfl
  | cons i first ih =>
      rw [List.cons_append, run, run]
      cases step s i with
      | error e => rfl
      | ok t => exact ih t

theorem run_append_eq_ok {s t : σ} {first rest : List ι} :
    run step s (first ++ rest) = .ok t ↔
      ∃ m, run step s first = .ok m ∧ run step m rest = .ok t := by
  rw [run_append]
  exact bind_eq_ok

/-- An invariant kept by every step is kept by every run. -/
theorem run_invariant {I : σ → Prop}
    (hstep : ∀ s i t, I s → step s i = .ok t → I t)
    {s t : σ} {inputs : List ι} (hs : I s) (h : run step s inputs = .ok t) : I t := by
  induction inputs generalizing s with
  | nil =>
      obtain rfl : s = t := by simpa using h
      exact hs
  | cons i inputs ih =>
      obtain ⟨m, hm, ht⟩ := run_cons_eq_ok.mp h
      exact ih (hstep s i m hs hm) ht

/-- Every step of the run meets a condition on its input and the state before it. -/
def Along (step : σ → ι → Except ε σ) (P : σ → ι → Prop) : σ → List ι → Prop
  | _, [] => True
  | s, i :: inputs => P s i ∧
      match step s i with
      | .ok t => Along step P t inputs
      | .error _ => True

instance Along.decidable (step : σ → ι → Except ε σ) (P : σ → ι → Prop) [∀ s i, Decidable (P s i)] :
    (s : σ) → (inputs : List ι) → Decidable (Along step P s inputs)
  | _, [] => .isTrue trivial
  | s, i :: inputs =>
      match h : step s i with
      | .ok t =>
          have := Along.decidable step P t inputs
          decidable_of_iff (P s i ∧ Along step P t inputs) (by rw [Along, h])
      | .error _ => decidable_of_iff (P s i) (by rw [Along, h, and_true])

theorem along_cons {P : σ → ι → Prop} {s t : σ} {i : ι} {inputs : List ι} (hi : step s i = .ok t) :
    Along step P s (i :: inputs) ↔ P s i ∧ Along step P t inputs := by
  rw [Along, hi]

theorem Along.of_forall {P : σ → ι → Prop} (hP : ∀ s i, P s i) (s : σ) (inputs : List ι) : Along step P s inputs := by
  induction inputs generalizing s with
  | nil => trivial
  | cons i inputs ih =>
      rw [Along]
      refine ⟨hP s i, ?_⟩
      cases step s i with
      | ok t => exact ih t
      | error e => trivial

/-- A condition on the inputs alone. -/
theorem along_of_mem {P : ι → Prop} {inputs : List ι} (h : ∀ i ∈ inputs, P i) (s : σ) : Along step (fun _ i => P i) s inputs := by
  induction inputs generalizing s with
  | nil => trivial
  | cons i inputs ih =>
      rw [Along]
      refine ⟨h i List.mem_cons_self, ?_⟩
      cases step s i with
      | ok t => exact ih (fun j hj => h j (List.mem_cons_of_mem i hj)) t
      | error e => trivial

/-- The condition along a run in two parts. -/
theorem along_append {P : σ → ι → Prop} {s t : σ} {first rest : List ι} (h : run step s first = .ok t) :
    Along step P s (first ++ rest) ↔ Along step P s first ∧ Along step P t rest := by
  induction first generalizing s with
  | nil =>
      obtain rfl : s = t := by simpa using h
      rw [List.nil_append, Along, true_and]
  | cons i first ih =>
      obtain ⟨m, hm, ht⟩ := run_cons_eq_ok.mp h
      rw [List.cons_append, along_cons hm, along_cons hm, ih ht, and_assoc]

theorem Along.mono {P Q : σ → ι → Prop} (hPQ : ∀ s i, P s i → Q s i) {s : σ} {inputs : List ι}
    (h : Along step P s inputs) : Along step Q s inputs := by
  induction inputs generalizing s with
  | nil => trivial
  | cons i inputs ih =>
      rw [Along] at h ⊢
      refine ⟨hPQ s i h.1, ?_⟩
      cases hi : step s i with
      | ok t =>
          rw [hi] at h
          exact ih h.2
      | error e => trivial

/-- An invariant kept by every step that meets the condition. -/
theorem run_invariant_along {P : σ → ι → Prop} {I : σ → Prop}
    (hstep : ∀ s i t, I s → P s i → step s i = .ok t → I t)
    {s t : σ} {inputs : List ι} (hs : I s) (halong : Along step P s inputs) (h : run step s inputs = .ok t) :
    I t := by
  induction inputs generalizing s with
  | nil =>
      obtain rfl : s = t := by simpa using h
      exact hs
  | cons i inputs ih =>
      obtain ⟨m, hm, ht⟩ := run_cons_eq_ok.mp h
      obtain ⟨hi, halong⟩ := (along_cons hm).mp halong
      exact ih (hstep s i m hs hi hm) halong ht

/-- A simulation that may leave out inputs: if the second machine follows each step, by the
same step where the input is kept and by none where it is not, then it follows every run. -/
theorem run_filter {R : σ → σ → Prop} (keep : ι → Bool) {P : ι → Prop}
    (hstep : ∀ s u i t, R s u → P i → step s i = .ok t →
      ∃ v, run step u ([i].filter keep) = .ok v ∧ R t v)
    {s u t : σ} {inputs : List ι} (hR : R s u) (hP : ∀ i ∈ inputs, P i)
    (h : run step s inputs = .ok t) : ∃ v, run step u (inputs.filter keep) = .ok v ∧ R t v := by
  induction inputs generalizing s u with
  | nil =>
      obtain rfl : s = t := by simpa using h
      exact ⟨u, rfl, hR⟩
  | cons i inputs ih =>
      obtain ⟨m, hm, ht⟩ := run_cons_eq_ok.mp h
      obtain ⟨n, hn, hmn⟩ := hstep s u i m hR (hP i (by simp)) hm
      obtain ⟨v, hv, htv⟩ := ih hmn (fun j hj => hP j (by simp [hj])) ht
      refine ⟨v, ?_, htv⟩
      rw [← List.singleton_append, List.filter_append]
      exact run_append_eq_ok.mpr ⟨n, hn, hv⟩

/-- A run is a chain of any relation that contains the steps. -/
theorem run_reflTransGen {R : σ → σ → Prop} (hstep : ∀ s i t, step s i = .ok t → R s t)
    {s t : σ} {inputs : List ι} (h : run step s inputs = .ok t) : Relation.ReflTransGen R s t := by
  induction inputs generalizing s with
  | nil =>
      obtain rfl : s = t := by simpa using h
      exact .refl
  | cons i inputs ih =>
      obtain ⟨m, hm, ht⟩ := run_cons_eq_ok.mp h
      exact .head (hstep s i m hm) (ih ht)

end

/-! ## One machine following another -/

/-- The outcome belongs to what the other machine came to, or it is a failure that is allowed. -/
def Follows (R : σ → α → Prop) (stop : ε → Prop) (x : Except ε σ) (t : α) : Prop :=
  (∃ s, x = .ok s ∧ R s t) ∨ ∃ e, x = .error e ∧ stop e

section

variable {κ : Type v} {γ : Type u} {R : σ → α → Prop} {R' : β → γ → Prop} {stop : ε → Prop} {x : Except ε σ} {t : α}

theorem Follows.ok {s : σ} (h : R s t) : Follows R stop (.ok s) t := .inl ⟨s, rfl, h⟩

theorem Follows.bind {u : γ} {f : σ → Except ε β} (h : Follows R stop x t)
    (hnext : ∀ s, R s t → Follows R' stop (f s) u) : Follows R' stop (x >>= f) u := by
  obtain ⟨s, rfl, hs⟩ | ⟨e, rfl, he⟩ := h
  · exact hnext s hs
  · exact .inr ⟨e, rfl, he⟩

/-- The first machine makes a step of its own for each input of the other one. -/
theorem run_follows {step : σ → ι → Except ε σ} {step' : α → κ → Except ε α} (f : ι → κ)
    (hstep : ∀ s t i t', R s t → step' t (f i) = .ok t' → Follows R stop (step s i) t')
    {s : σ} {t' : α} {inputs : List ι} (hR : R s t) (h : run step' t (inputs.map f) = .ok t') :
    Follows R stop (run step s inputs) t' := by
  induction inputs generalizing s t with
  | nil =>
      obtain rfl : t = t' := by simpa using h
      exact .ok hR
  | cons i inputs ih =>
      obtain ⟨m, hm, ht⟩ := run_cons_eq_ok.mp h
      exact (hstep s t i m hR hm).bind fun s' hs' => ih hs' ht

/-- A loop over a list is a run. -/
theorem foldlM_eq_run (f : σ → ι → Except ε σ) (s : σ) (as : List ι) : as.foldlM f s = run f s as := by
  induction as generalizing s with
  | nil => rfl
  | cons a as ih =>
      rw [List.foldlM_cons, run]
      exact congrArg _ (funext ih)

end

/-! ## Chains of steps -/

/-- Some chain of steps from an initial state leads here. -/
def Visited (init : σ → Prop) (next : σ → σ → Prop) (s : σ) : Prop :=
  ∃ start, init start ∧ Relation.ReflTransGen next start s

variable {init : σ → Prop} {next : σ → σ → Prop}

theorem Visited.step {s t : σ} (h : Visited init next s) (hs : next s t) : Visited init next t := by
  obtain ⟨start, hi, hsteps⟩ := h
  exact ⟨start, hi, hsteps.tail hs⟩

/-- What holds initially and is kept by every step holds of every visited state. -/
theorem Visited.invariant {I : σ → Prop} (hinit : ∀ s, init s → I s)
    (hstep : ∀ s t, I s → next s t → I t) {s : σ} (h : Visited init next s) : I s := by
  obtain ⟨start, hi, hsteps⟩ := h
  induction hsteps with
  | refl => exact hinit start hi
  | tail _ hs ih => exact hstep _ _ ih hs

/-- A simulation carries visited states to visited states. -/
theorem Visited.map {init' : α → Prop} {next' : α → α → Prop} {f : σ → α}
    (hinit : ∀ s, init s → init' (f s))
    (hnext : ∀ s t, next s t → Relation.ReflTransGen next' (f s) (f t)) {s : σ}
    (h : Visited init next s) : Visited init' next' (f s) := by
  obtain ⟨start, hi, hsteps⟩ := h
  refine ⟨f start, hinit start hi, ?_⟩
  induction hsteps with
  | refl => exact .refl
  | tail _ hs ih => exact ih.trans (hnext _ _ hs)

/-- A run of a function whose successes are chains of steps visits its last state. -/
theorem visited_of_run {step : σ → ι → Except ε σ}
    (hstep : ∀ s i t, step s i = .ok t → Relation.ReflTransGen next s t)
    {s t : σ} {inputs : List ι} (hs : init s) (h : run step s inputs = .ok t) :
    Visited init next t := by
  refine ⟨s, hs, ?_⟩
  exact run_invariant (I := Relation.ReflTransGen next s)
    (fun _ i _ hm hn => hm.trans (hstep _ i _ hn)) .refl h

end Scarab.Execution

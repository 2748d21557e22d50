import Mathlib.Order.WellFounded
import Scarab.Lib.Execution

/-! # Loops

A `while` loop is a body that ends it with a value or leads to the next state. It is run with fuel,
and it returns when some amount of fuel and every larger one give its value. -/

namespace Scarab.Loop

universe u v

variable {σ α : Type u} {ε : Type v}

/-- Run the loop for as many turns as there is fuel. -/
def loop (body : σ → Except ε (σ ⊕ α)) : ℕ → σ → Except ε (Option α)
  | 0, _ => .ok none
  | fuel + 1, s => do
      match ← body s with
      | .inl t => loop body fuel t
      | .inr a => return some a

/-- With enough fuel the result is always the same. -/
def Returns (run : ℕ → Except ε (Option α)) (a : α) : Prop := ∃ enough, ∀ fuel ≥ enough, run fuel = .ok (some a)

/-- With enough fuel an assertion fails, always the same. -/
def Fails (run : ℕ → Except ε (Option α)) (e : ε) : Prop := ∃ enough, ∀ fuel ≥ enough, run fuel = .error e

variable {body : σ → Except ε (σ ⊕ α)} {s t : σ} {a : α}

theorem Returns.unique {run : ℕ → Except ε (Option α)} {a b : α} (ha : Returns run a) (hb : Returns run b) : a = b := by
  obtain ⟨n, hn⟩ := ha
  obtain ⟨m, hm⟩ := hb
  have h := (hn (max n m) (Nat.le_max_left n m)).symm.trans (hm (max n m) (Nat.le_max_right n m))
  simpa using h

theorem returns_of_end (h : body s = .ok (.inr a)) : Returns (fun fuel => loop body fuel s) a := by
  refine ⟨1, fun fuel hfuel => ?_⟩
  obtain ⟨n, rfl⟩ := Nat.exists_eq_add_of_le' hfuel
  dsimp only
  rw [loop, h]
  rfl

theorem returns_of_turn (h : body s = .ok (.inl t)) (ht : Returns (fun fuel => loop body fuel t) a) :
    Returns (fun fuel => loop body fuel s) a := by
  obtain ⟨n, hn⟩ := ht
  refine ⟨n + 1, fun fuel hfuel => ?_⟩
  obtain ⟨k, rfl⟩ := Nat.exists_eq_add_of_le' (Nat.le_trans (Nat.le_add_left 1 n) hfuel)
  dsimp only
  rw [loop, h]
  exact hn k (by omega)

/-- A result with some fuel is the result with more. -/
theorem returns_of_loop {n : ℕ} (h : loop body n s = .ok (some a)) : Returns (fun fuel => loop body fuel s) a := by
  induction n generalizing s with
  | zero => cases h
  | succ n ih =>
      rw [loop] at h
      obtain ⟨out, hbody, h⟩ := Execution.bind_eq_ok.mp h
      cases out with
      | inl t => exact returns_of_turn hbody (ih h)
      | inr b =>
          cases h
          exact returns_of_end hbody

/-- The first turn does not change what the loop returns. -/
theorem returns_turn_iff (h : body s = .ok (.inl t)) :
    Returns (fun fuel => loop body fuel s) a ↔ Returns (fun fuel => loop body fuel t) a := by
  constructor
  · rintro ⟨enough, hall⟩
    refine ⟨enough, fun fuel hfuel => ?_⟩
    have hnext := hall (fuel + 1) (Nat.le_succ_of_le hfuel)
    dsimp only at hnext
    rw [loop, h] at hnext
    exact hnext
  · exact returns_of_turn h

/-- What every turn keeps and the last one turns into a property of the value. -/
theorem Returns.invariant {I : σ → Prop} {Q : α → Prop} (hturn : ∀ s t, I s → body s = .ok (.inl t) → I t)
    (hend : ∀ s a, I s → body s = .ok (.inr a) → Q a) (hs : I s)
    (h : Returns (fun fuel => loop body fuel s) a) : Q a := by
  obtain ⟨enough, hall⟩ := h
  have hrun := hall enough (Nat.le_refl enough)
  clear hall
  dsimp only at hrun
  induction enough generalizing s with
  | zero => cases hrun
  | succ fuel ih =>
      rw [loop] at hrun
      obtain ⟨out, hbody, hrun⟩ := Execution.bind_eq_ok.mp hrun
      cases out with
      | inl t => exact ih (hturn s t hs hbody) hrun
      | inr b =>
          cases hrun
          exact hend s a hs hbody

/-- A loop whose turns never end it has no result. -/
theorem loop_forever {I : σ → Prop} (hturn : ∀ s, I s → ∃ t, body s = .ok (.inl t) ∧ I t) (hs : I s) (fuel : ℕ) :
    loop body fuel s = .ok none := by
  induction fuel generalizing s with
  | zero => rfl
  | succ fuel ih =>
      obtain ⟨t, hbody, ht⟩ := hturn s hs
      rw [loop, hbody]
      exact ih ht

theorem not_returns_of_forever {I : σ → Prop} (hturn : ∀ s, I s → ∃ t, body s = .ok (.inl t) ∧ I t) (hs : I s) :
    ¬ Returns (fun fuel => loop body fuel s) a := by
  rintro ⟨enough, hall⟩
  have hnone := loop_forever hturn hs enough
  have hsome := hall enough (Nat.le_refl enough)
  dsimp only at hsome
  rw [hnone] at hsome
  cases hsome

/-- The loop takes a turn at each of the states and ends with a value. -/
inductive Turns (body : σ → Except ε (σ ⊕ α)) : σ → List σ → α → Prop where
  | last {s : σ} {a : α} (h : body s = .ok (.inr a)) : Turns body s [s] a
  | next {s t : σ} {turns : List σ} {a : α} (h : body s = .ok (.inl t)) (later : Turns body t turns a) : Turns body s (s :: turns) a

theorem Turns.returns {turns : List σ} (h : Turns body s turns a) : Returns (fun fuel => loop body fuel s) a := by
  induction h with
  | last h => exact returns_of_end h
  | next h _ ih => exact returns_of_turn h ih

theorem Turns.head {turns : List σ} (h : Turns body s turns a) : ∃ later, turns = s :: later := by
  cases h with
  | last h => exact ⟨_, rfl⟩
  | next h later => exact ⟨_, rfl⟩

/-- A loop whose body keeps an invariant and goes down in a well-founded order returns. -/
theorem returns_of_wellFounded {I : σ → Prop} {Q : α → Prop} {r : σ → σ → Prop} (hwf : WellFounded r)
    (hstep : ∀ s, I s → (∃ t, body s = .ok (.inl t) ∧ I t ∧ r t s) ∨ ∃ a, body s = .ok (.inr a) ∧ Q a)
    (hs : I s) : ∃ a, Q a ∧ Returns (fun fuel => loop body fuel s) a := by
  induction s using hwf.induction with
  | _ s ih =>
      rcases hstep s hs with ⟨t, hbody, ht, hlt⟩ | ⟨a, hbody, ha⟩
      · obtain ⟨a, ha, hreturns⟩ := ih t hlt ht
        exact ⟨a, ha, returns_of_turn hbody hreturns⟩
      · exact ⟨a, ha, returns_of_end hbody⟩

end Scarab.Loop

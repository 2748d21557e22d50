import Mathlib.Data.List.Basic

/-! # Closing a bubble

A row of places, some of which are free. The places behind the first free one move up by one, and
the free one ends up behind them. -/

namespace Scarab.Bubble

universe u v

variable {β : Type u} {γ : Type v} (free : β → Bool)

/-- The pass over the places from `a` on: a free place changes places with the next one. -/
def closeFrom (a : β) : List β → List β
  | [] => [a]
  | b :: l => if free a = true then b :: closeFrom a l else a :: closeFrom b l

/-- The pass over all places. -/
def close : List β → List β
  | [] => []
  | a :: l => closeFrom free a l

variable {free} {a b : β} {l l' before : List β}

theorem close_cons_free (ha : free a = true) (l : List β) : close free (a :: l) = l ++ [a] := by
  induction l with
  | nil => rfl
  | cons b l ih =>
      rw [close, closeFrom, if_pos ha, List.cons_append]
      exact congrArg (List.cons b) ih

theorem close_cons_full (ha : free a = false) (l : List β) : close free (a :: l) = a :: close free l := by
  cases l with
  | nil => rfl
  | cons b l => rw [close, closeFrom, if_neg (ne_true_of_eq_false ha), close]

theorem close_append_full (h : ∀ b ∈ before, free b = false) (l : List β) :
    close free (before ++ l) = before ++ close free l := by
  induction before with
  | nil => rfl
  | cons b before ih =>
      rw [List.cons_append, close_cons_full (h b (List.mem_cons_self ..)),
        ih fun c hc => h c (List.mem_cons_of_mem b hc), List.cons_append]

theorem close_full (h : ∀ b ∈ l, free b = false) : close free l = l := by
  simpa [close] using close_append_full h []

/-- A row is full, or it has a first free place. -/
theorem full_or_first (free : β → Bool) (l : List β) : (∀ b ∈ l, free b = false) ∨
    ∃ before a rest, l = before ++ a :: rest ∧ free a = true ∧ ∀ b ∈ before, free b = false := by
  induction l with
  | nil => exact .inl fun b hb => absurd hb List.not_mem_nil
  | cons b l ih =>
      cases hb : free b with
      | true => exact .inr ⟨[], b, l, rfl, hb, fun c hc => absurd hc List.not_mem_nil⟩
      | false =>
          cases ih with
          | inl hfull => exact .inl fun c hc => (List.mem_cons.mp hc).elim (fun heq => heq ▸ hb) (hfull c)
          | inr hfirst =>
              obtain ⟨before, a, rest, rfl, ha, hbefore⟩ := hfirst
              refine .inr ⟨b :: before, a, rest, rfl, ha, fun c hc => ?_⟩
              exact (List.mem_cons.mp hc).elim (fun heq => heq ▸ hb) (hbefore c)

/-- The first free place is taken out and put at the end. -/
theorem close_first {rest : List β} (hbefore : ∀ b ∈ before, free b = false) (ha : free a = true) :
    close free (before ++ a :: rest) = before ++ rest ++ [a] := by
  rw [close_append_full hbefore, close_cons_free ha, List.append_assoc]

theorem close_perm (free : β → Bool) (l : List β) : (close free l).Perm l := by
  cases full_or_first free l with
  | inl hfull => rw [close_full hfull]
  | inr hfirst =>
      obtain ⟨before, a, rest, rfl, ha, hbefore⟩ := hfirst
      rw [close_first hbefore ha, List.append_assoc]
      exact (List.perm_append_singleton a rest).append_left before

theorem length_close (free : β → Bool) (l : List β) : (close free l).length = l.length :=
  (close_perm free l).length_eq

theorem mem_close : b ∈ close free l ↔ b ∈ l := (close_perm free l).mem_iff

/-- What the places hold does not change, and neither does its order. -/
theorem flatMap_close {content : β → List γ} (hfree : ∀ b ∈ l, free b = true → content b = []) :
    (close free l).flatMap content = l.flatMap content := by
  cases full_or_first free l with
  | inl hfull => rw [close_full hfull]
  | inr hfirst =>
      obtain ⟨before, a, rest, rfl, ha, hbefore⟩ := hfirst
      have hempty : content a = [] := hfree a (by simp) ha
      rw [close_first hbefore ha]
      simp [hempty]

end Scarab.Bubble

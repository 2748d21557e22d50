import Mathlib.Data.List.Basic
import Mathlib.Data.List.Induction

/-! # Histories

A history lists what a machine did, oldest first. The rules here speak about every
event together with the events before it, and about the newest event that carries
a value, one appended event at a time. -/

namespace Scarab.History

variable {ε β : Type*}

/-- Splitting a history that has just grown: the split is at the new event, or it is
a split of the old history. -/
theorem concat_eq_append_cons {h pre post : List ε} {e c : ε} (hs : h ++ [e] = pre ++ c :: post) :
    (pre = h ∧ c = e ∧ post = []) ∨ ∃ rest, post = rest ++ [e] ∧ h = pre ++ c :: rest := by
  rcases List.eq_nil_or_concat' post with rfl | ⟨rest, last, rfl⟩
  · left
    obtain ⟨hh, hc⟩ := List.append_inj' hs rfl
    exact ⟨hh.symm, by simpa using hc.symm, rfl⟩
  · right
    rw [show pre ++ c :: (rest ++ [last]) = (pre ++ c :: rest) ++ [last] by simp] at hs
    obtain ⟨hh, hc⟩ := List.append_inj' hs rfl
    exact ⟨rest, by simpa using hc.symm, hh⟩

/-! ## Every event -/

/-- Every event of the history satisfies `P` of the events before it. -/
def Always (P : List ε → ε → Prop) (h : List ε) : Prop :=
  ∀ pre e post, h = pre ++ e :: post → P pre e

variable {P Q : List ε → ε → Prop}

@[simp] theorem always_nil : Always P [] := by
  intro pre e post h
  simp at h

@[simp] theorem always_concat {h : List ε} {e : ε} :
    Always P (h ++ [e]) ↔ Always P h ∧ P h e := by
  constructor
  · intro ha
    refine ⟨?_, ha h e [] rfl⟩
    intro pre c post hs
    exact ha pre c (post ++ [e]) (by simp [hs])
  · rintro ⟨ha, he⟩ pre c post hs
    rcases concat_eq_append_cons hs with ⟨rfl, rfl, rfl⟩ | ⟨rest, rfl, hrest⟩
    · exact he
    · exact ha pre c rest hrest

theorem Always.of_append {h rest : List ε} (ha : Always P (h ++ rest)) : Always P h := by
  intro pre e post hs
  exact ha pre e (post ++ rest) (by simp [hs])

theorem always_iff_forall_fin {h : List ε} :
    Always P h ↔ ∀ i : Fin h.length, P (h.take i) (h.get i) := by
  constructor
  · intro ha i
    exact ha _ _ (h.drop (i + 1)) (by simp)
  · rintro hall pre e post rfl
    simpa using hall ⟨pre.length, by simp⟩

instance [∀ pre e, Decidable (P pre e)] (h : List ε) : Decidable (Always P h) :=
  decidable_of_iff _ always_iff_forall_fin.symm

/-- A property of prefixes that every event satisfying `P` carries on holds of the
whole history. -/
theorem Always.induction {I : List ε → Prop} {h : List ε} (ha : Always P h) (hnil : I [])
    (hstep : ∀ pre e, I pre → P pre e → I (pre ++ [e])) : I h := by
  induction h using List.reverseRecOn with
  | nil => exact hnil
  | append_singleton pre e ih =>
      obtain ⟨hp, he⟩ := always_concat.mp ha
      exact hstep pre e (ih hp) he

/-! ## The first event of a kind -/

/-- Either no event satisfies `P`, or one is the first to do so. -/
theorem forall_not_or_exists_first (P : ε → Prop) (h : List ε) :
    (∀ e ∈ h, ¬ P e) ∨ ∃ pre e post, h = pre ++ e :: post ∧ P e ∧ ∀ c ∈ pre, ¬ P c := by
  induction h with
  | nil => exact .inl (by simp)
  | cons e h ih =>
      by_cases he : P e
      · exact .inr ⟨[], e, h, rfl, he, by simp⟩
      · rcases ih with hnone | ⟨pre, c, post, rfl, hc, hpre⟩
        · exact .inl (by simpa [he] using hnone)
        · exact .inr ⟨e :: pre, c, post, rfl, hc, by simpa [he] using hpre⟩

/-! ## The newest value -/

variable (f : ε → Option β)

/-- The value of the newest event that has one. -/
def latest (h : List ε) : Option β := h.foldl (fun v e => (f e).or v) none

@[simp] theorem latest_nil : latest f [] = none := rfl

theorem latest_concat (h : List ε) (e : ε) : latest f (h ++ [e]) = (f e).or (latest f h) := by
  simp [latest]

variable {f}

@[simp] theorem latest_concat_of_none {h : List ε} {e : ε} (he : f e = none) :
    latest f (h ++ [e]) = latest f h := by
  simp [latest_concat, he]

@[simp] theorem latest_concat_of_some {h : List ε} {e : ε} {b : β} (he : f e = some b) :
    latest f (h ++ [e]) = some b := by
  simp [latest_concat, he]

/-- The newest value of a history is that of its second part, if it has one. -/
theorem latest_append (h rest : List ε) :
    latest f (h ++ rest) = (latest f rest).or (latest f h) := by
  induction rest using List.reverseRecOn with
  | nil => simp
  | append_singleton rest e ih =>
      rw [← List.append_assoc, latest_concat, latest_concat, ih, Option.or_assoc]

theorem latest_eq_none {h : List ε} : latest f h = none ↔ ∀ e ∈ h, f e = none := by
  induction h using List.reverseRecOn with
  | nil => simp
  | append_singleton h e ih =>
      rw [latest_concat, Option.or_eq_none_iff, ih]
      simp only [List.mem_append, List.mem_singleton]
      constructor
      · rintro ⟨he, hh⟩ c (hc | rfl)
        · exact hh c hc
        · exact he
      · intro hall
        exact ⟨hall e (.inr rfl), fun c hc => hall c (.inl hc)⟩

theorem latest_append_of_none {h rest : List ε} (hrest : ∀ e ∈ rest, f e = none) :
    latest f (h ++ rest) = latest f h := by
  rw [latest_append, latest_eq_none.mpr hrest, Option.none_or]

/-- The newest value was given by an event after which none has one. -/
theorem exists_of_latest {h : List ε} {b : β} (hb : latest f h = some b) :
    ∃ pre e post, h = pre ++ e :: post ∧ f e = some b ∧ ∀ c ∈ post, f c = none := by
  induction h using List.reverseRecOn with
  | nil => simp at hb
  | append_singleton h e ih =>
      cases he : f e with
      | some c =>
          have hc : c = b := by simpa [latest_concat, he] using hb
          exact ⟨h, e, [], rfl, by rw [he, hc], by simp⟩
      | none =>
          obtain ⟨pre, d, post, rfl, hd, hpost⟩ := ih (by simpa [latest_concat, he] using hb)
          refine ⟨pre, d, post ++ [e], by simp, hd, ?_⟩
          intro c hc
          rcases List.mem_append.mp hc with hc | hc
          · exact hpost c hc
          · obtain rfl := List.mem_singleton.mp hc
            exact he

/-- The newest value is kept by events that give the same value or none. -/
theorem latest_append_of_forall {pre mid : List ε} {b : β} (hb : latest f pre = some b)
    (hmid : ∀ e ∈ mid, ∀ c, f e = some c → c = b) : latest f (pre ++ mid) = some b := by
  induction mid using List.reverseRecOn with
  | nil => simpa using hb
  | append_singleton mid e ih =>
      have hprev := ih fun c hc => hmid c (by simp [hc])
      rw [← List.append_assoc, latest_concat, hprev]
      cases he : f e with
      | none => rfl
      | some c => simp [hmid e (by simp) c he]

/-- The newest value is `b` exactly when some event gave it and no later one gave another. -/
theorem latest_eq_some_iff {h : List ε} {b : β} :
    latest f h = some b ↔
      ∃ pre e post, h = pre ++ e :: post ∧ f e = some b ∧ ∀ c ∈ post, ∀ d, f c = some d → d = b := by
  constructor
  · intro hb
    obtain ⟨pre, e, post, rfl, he, hpost⟩ := exists_of_latest hb
    refine ⟨pre, e, post, rfl, he, ?_⟩
    intro c hc d hd
    simp [hpost c hc] at hd
  · rintro ⟨pre, e, post, rfl, he, hpost⟩
    have hnew : latest f (pre ++ [e]) = some b := latest_concat_of_some he
    simpa using latest_append_of_forall hnew hpost

end Scarab.History

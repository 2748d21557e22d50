import Mathlib.Data.List.Basic
import Mathlib.Data.List.Induction
import Mathlib.Data.List.Infix
import Mathlib.Data.List.Nodup

/-! # Recency

A bounded move-to-front map: touching a key puts it in front, and a map that
outgrows its capacity loses its last entry. Its keys are the most recently touched
distinct keys, most recent first. -/

namespace Scarab.Recency

variable {κ β : Type*} [DecidableEq κ]

/-! ## The distinct keys of a history -/

/-- The distinct keys of a history of touches, most recent first. -/
def recent (h : List κ) : List κ := h.foldl (fun r k => k :: r.filter (· ≠ k)) []

@[simp] theorem recent_nil : recent ([] : List κ) = [] := rfl

@[simp] theorem recent_concat (h : List κ) (k : κ) :
    recent (h ++ [k]) = k :: (recent h).filter (· ≠ k) := by
  simp [recent]

theorem nodup_recent (h : List κ) : (recent h).Nodup := by
  induction h using List.reverseRecOn with
  | nil => simp
  | append_singleton h k ih =>
      rw [recent_concat, List.nodup_cons]
      refine ⟨?_, ih.filter _⟩
      intro hk
      simp at hk

/-! ## The map -/

/-- Put a key in front with a new value; drop the last entry if there is no room. -/
def touch (n : ℕ) (k : κ) (v : β) (m : List (κ × β)) : List (κ × β) :=
  ((k, v) :: m.filter (·.1 ≠ k)).take n

/-- Removing one key of a list without duplicates costs a prefix at most one entry. -/
theorem take_filter_take {l : List κ} (hl : l.Nodup) (k : κ) (n : ℕ) :
    ((l.take (n + 1)).filter (· ≠ k)).take n = (l.filter (· ≠ k)).take n := by
  induction l generalizing n with
  | nil => simp
  | cons x l ih =>
      obtain ⟨hx, hl⟩ := List.nodup_cons.mp hl
      by_cases hk : x = k
      · subst hk
        have hrest : ∀ m : List κ, (∀ y ∈ m, y ∈ l) → m.filter (· ≠ x) = m := by
          intro m hm
          rw [List.filter_eq_self]
          intro y hy
          have hne : y ≠ x := fun h => hx (h ▸ hm y hy)
          simpa using hne
        rw [List.take_succ_cons, List.filter_cons_of_neg (by simp), List.filter_cons_of_neg (by simp),
          hrest _ fun y hy => List.mem_of_mem_take hy, hrest _ fun y hy => hy, List.take_take]
        simp
      · rw [List.take_succ_cons, List.filter_cons_of_pos (by simpa using hk),
          List.filter_cons_of_pos (by simpa using hk)]
        cases n with
        | zero => rfl
        | succ n => rw [List.take_succ_cons, List.take_succ_cons, ih hl]

/-- The keys of a map kept by touches are the most recent ones. -/
theorem keys_touch {n : ℕ} {m : List (κ × β)} {h : List κ} (hm : m.map (·.1) = (recent h).take n)
    (k : κ) (v : β) : (touch n k v m).map (·.1) = (recent (h ++ [k])).take n := by
  cases n with
  | zero => simp [touch]
  | succ n =>
      have hfilter : (m.filter (·.1 ≠ k)).map (·.1) = (m.map (·.1)).filter (· ≠ k) := by
        rw [List.filter_map]
        rfl
      rw [touch, recent_concat, List.take_succ_cons, List.take_succ_cons, List.map_cons,
        List.map_take, hfilter, hm, take_filter_take (nodup_recent h)]

variable {n : ℕ} {k : κ} {v w : β} {front back m : List (κ × β)}

/-- Touching a key that is present moves its entry to the front. -/
theorem touch_of_mem (hn : (front ++ (k, w) :: back).length ≤ n)
    (hnodup : ((front ++ (k, w) :: back).map (·.1)).Nodup) :
    touch n k v (front ++ (k, w) :: back) = (k, v) :: (front ++ back) := by
  have hrest : ∀ e ∈ front ++ back, e.1 ≠ k := by
    rw [List.map_append, List.map_cons, List.nodup_middle, List.nodup_cons, ← List.map_append]
      at hnodup
    rintro e he rfl
    exact hnodup.1 (List.mem_map.mpr ⟨e, he, rfl⟩)
  have hfilter : (front ++ (k, w) :: back).filter (·.1 ≠ k) = front ++ back := by
    rw [List.filter_append, List.filter_cons_of_neg (by simp), ← List.filter_append,
      List.filter_eq_self]
    intro e he
    simpa using hrest e he
  rw [touch, hfilter, List.take_of_length_le]
  simp only [List.length_append, List.length_cons] at hn ⊢
  omega

/-- Touching a key that is absent puts a new entry in front and keeps `n` of them. -/
theorem touch_of_not_mem (hk : k ∉ m.map (·.1)) : touch n k v m = ((k, v) :: m).take n := by
  have hfilter : m.filter (·.1 ≠ k) = m := by
    rw [List.filter_eq_self]
    intro e he
    have hne : e.1 ≠ k := fun h => hk (h ▸ List.mem_map_of_mem he)
    simpa using hne
  rw [touch, hfilter]

/-- What the map holds after a touch. -/
theorem mem_touch {e : κ × β} (he : e ∈ touch n k v m) : e = (k, v) ∨ e ∈ m ∧ e.1 ≠ k := by
  rcases List.mem_cons.mp (List.mem_of_mem_take he) with hnew | hold
  · exact .inl hnew
  · obtain ⟨hmem, hkey⟩ := List.mem_filter.mp hold
    exact .inr ⟨hmem, by simpa using hkey⟩

/-! ## Stacks of keys -/

/-- A key is touched, or dropped. -/
inductive Use (κ : Type*) where
  | touch (k : κ)
  | drop (k : κ)

def Use.key : Use κ → κ
  | .touch k => k
  | .drop k => k

def Use.map {ι : Type*} (f : κ → ι) : Use κ → Use ι
  | .touch k => .touch (f k)
  | .drop k => .drop (f k)

/-- Put a key in front; drop the last one if there is no room. -/
def move (n : ℕ) (k : κ) (l : List κ) : List κ := (k :: l.filter (· ≠ k)).take n

/-- The keys after one use. -/
def Use.apply (n : ℕ) (l : List κ) : Use κ → List κ
  | .touch k => move n k l
  | .drop k => l.filter (· ≠ k)

/-- The keys after a history of uses, most recent first. -/
def stack (n : ℕ) (h : List (Use κ)) : List κ := h.foldl (Use.apply n) []

@[simp] theorem stack_nil (n : ℕ) : stack n ([] : List (Use κ)) = [] := rfl

@[simp] theorem stack_concat (n : ℕ) (h : List (Use κ)) (u : Use κ) : stack n (h ++ [u]) = u.apply n (stack n h) := by
  simp [stack]

/-- Without drops the stack holds the most recent keys. -/
theorem stack_touches (n : ℕ) (h : List κ) : stack n (h.map Use.touch) = (recent h).take n := by
  induction h using List.reverseRecOn with
  | nil => simp
  | append_singleton h k ih =>
      rw [List.map_append, List.map_singleton, stack_concat, ih, recent_concat, Use.apply, move]
      cases n with
      | zero => rfl
      | succ n => rw [List.take_succ_cons, List.take_succ_cons, take_filter_take (nodup_recent h)]

/-- A smaller stack is the upper part of a larger one. -/
theorem stack_initial {n m : ℕ} (hle : n ≤ m) (h : List (Use κ)) : stack n h <+: stack m h := by
  induction h using List.reverseRecOn with
  | nil => exact List.prefix_rfl
  | append_singleton h u ih =>
      rw [stack_concat, stack_concat]
      cases u with
      | touch k =>
          have hfilter : k :: (stack n h).filter (· ≠ k) <+: k :: (stack m h).filter (· ≠ k) :=
            List.cons_prefix_cons.mpr ⟨rfl, ih.filter _⟩
          exact (hfilter.take n).trans (List.take_prefix_take_left hle)
      | drop k => exact ih.filter _

end Scarab.Recency

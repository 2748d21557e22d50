import Mathlib.Data.List.Range
import Scarab.Lib.Execution

/-! # A line with two checkpoints

What the stages in front of the node table are for: ops enter a line in the order of their
numbers, pass the decode stage and the map stage in this order, and leave the line when they
retire. A recovery drops an end of the line. -/

namespace Scarab.FrontEnd

/-- The numbers of the ops on the line, and the records of what happened to them. -/
structure Line where
  /-- Mapped ops. -/
  window : List ℕ
  /-- Decoded ops that are not mapped. -/
  middle : List ℕ
  /-- Ops that are not decoded. -/
  entry : List ℕ
  decoded : List ℕ
  mapped : List ℕ
  retired : List ℕ
  flushed : List ℕ
  /-- The number of the next op. -/
  next : ℕ

def Line.empty : Line := ⟨[], [], [], [], [], [], [], 1⟩

/-- All ops on the line, oldest first. -/
def Line.ops (l : Line) : List ℕ := l.window ++ (l.middle ++ l.entry)

inductive Line.Step : Line → Line → Prop
  | retire (l : Line) {n : ℕ} {rest : List ℕ} (h : l.window = n :: rest) :
      Step l { l with window := rest, retired := l.retired ++ [n] }
  | map (l : Line) {ops rest : List ℕ} (h : l.middle = ops ++ rest) :
      Step l { l with window := l.window ++ ops, middle := rest, mapped := l.mapped ++ ops }
  | decode (l : Line) {ops rest : List ℕ} (h : l.entry = ops ++ rest) :
      Step l { l with middle := l.middle ++ ops, entry := rest, decoded := l.decoded ++ ops }
  | fetch (l : Line) : Step l { l with entry := l.entry ++ [l.next], next := l.next + 1 }
  | drop (l : Line) {kept dropped window middle entry : List ℕ} (h : l.ops = kept ++ dropped)
      (hkept : window ++ (middle ++ entry) = kept) (hwindow : window <+: l.window)
      (hmiddle : middle <+: l.middle) (hentry : entry <+: l.entry) {order : List ℕ} (horder : order.Perm dropped) :
      Step l { l with window, middle, entry, flushed := l.flushed ++ order }

/-- What the records say of the ops on the line. -/
structure Line.Ordered (l : Line) : Prop where
  retired : (l.retired ++ l.ops).Pairwise (· < ·)
  mapped : (l.mapped ++ (l.middle ++ l.entry)).Pairwise (· < ·)
  decoded : (l.decoded ++ l.entry).Pairwise (· < ·)
  below : ∀ n ∈ l.decoded ++ l.ops, n < l.next
  fetched : (l.retired ++ l.ops ++ l.flushed).Perm (List.range' 1 (l.next - 1))
  window : ∀ n ∈ l.window, n ∈ l.mapped
  middle : ∀ n ∈ l.middle, n ∈ l.decoded
  mapped_decoded : ∀ n ∈ l.mapped, n ∈ l.decoded
  retired_mapped : ∀ n ∈ l.retired, n ∈ l.mapped
  next : 0 < l.next

theorem Line.empty_ordered : Line.empty.Ordered where
  retired := List.Pairwise.nil
  mapped := List.Pairwise.nil
  decoded := List.Pairwise.nil
  below := by simp [Line.empty, Line.ops]
  fetched := .refl _
  window := by simp [Line.empty]
  middle := by simp [Line.empty]
  mapped_decoded := by simp [Line.empty]
  retired_mapped := by simp [Line.empty]
  next := Nat.one_pos

variable {l t : Line} {ops rest : List ℕ} {n : ℕ}

theorem Line.Ordered.retire (h : l.Ordered) (hw : l.window = n :: rest) :
    { l with window := rest, retired := l.retired ++ [n] : Line }.Ordered := by
  have hops : l.ops = n :: (rest ++ (l.middle ++ l.entry)) := by rw [Line.ops, hw, List.cons_append]
  have hmoved : l.retired ++ [n] ++ (rest ++ (l.middle ++ l.entry)) = l.retired ++ l.ops := by
    rw [hops, List.append_assoc, List.singleton_append]
  refine ⟨?_, h.mapped, h.decoded, ?_, ?_, ?_, h.middle, h.mapped_decoded, ?_, h.next⟩
  · show (l.retired ++ [n] ++ (rest ++ (l.middle ++ l.entry))).Pairwise _
    rw [hmoved]
    exact h.retired
  · intro m hm
    refine h.below m ?_
    rw [hops]
    exact (List.mem_append.mp hm).elim (List.mem_append_left _)
      fun hm => List.mem_append_right _ (List.mem_cons_of_mem n hm)
  · show (l.retired ++ [n] ++ (rest ++ (l.middle ++ l.entry)) ++ l.flushed).Perm _
    rw [hmoved]
    exact h.fetched
  · exact fun m hm => h.window m (hw ▸ List.mem_cons_of_mem n hm)
  · intro m hm
    cases List.mem_append.mp hm with
    | inl hm => exact h.retired_mapped m hm
    | inr hm => exact List.mem_singleton.mp hm ▸ h.window n (hw ▸ List.mem_cons_self ..)

theorem Line.Ordered.map (h : l.Ordered) (hmid : l.middle = ops ++ rest) :
    { l with window := l.window ++ ops, middle := rest, mapped := l.mapped ++ ops : Line }.Ordered := by
  have hops : l.window ++ ops ++ (rest ++ l.entry) = l.ops := by simp [Line.ops, hmid]
  refine ⟨?_, ?_, h.decoded, ?_, ?_, ?_, ?_, ?_, ?_, h.next⟩
  · show (l.retired ++ (l.window ++ ops ++ (rest ++ l.entry))).Pairwise _
    rw [hops]
    exact h.retired
  · have hmapped := h.mapped
    rw [hmid] at hmapped
    simpa using hmapped
  · show ∀ n ∈ l.decoded ++ (l.window ++ ops ++ (rest ++ l.entry)), n < l.next
    rw [hops]
    exact h.below
  · show (l.retired ++ (l.window ++ ops ++ (rest ++ l.entry)) ++ l.flushed).Perm _
    rw [hops]
    exact h.fetched
  · intro n hn
    exact (List.mem_append.mp hn).elim (fun hn => List.mem_append_left _ (h.window n hn))
      (List.mem_append_right _)
  · exact fun n hn => h.middle n (hmid ▸ List.mem_append_right ops hn)
  · intro n hn
    exact (List.mem_append.mp hn).elim (h.mapped_decoded n)
      fun hn => h.middle n (hmid ▸ List.mem_append_left rest hn)
  · exact fun n hn => List.mem_append_left _ (h.retired_mapped n hn)

theorem Line.Ordered.decode (h : l.Ordered) (hent : l.entry = ops ++ rest) :
    { l with middle := l.middle ++ ops, entry := rest, decoded := l.decoded ++ ops : Line }.Ordered := by
  have hlater : l.middle ++ ops ++ rest = l.middle ++ l.entry := by rw [hent, List.append_assoc]
  have hops : l.window ++ (l.middle ++ ops ++ rest) = l.ops := congrArg (l.window ++ ·) hlater
  refine ⟨?_, ?_, ?_, ?_, ?_, h.window, ?_, ?_, h.retired_mapped, h.next⟩
  · show (l.retired ++ (l.window ++ (l.middle ++ ops ++ rest))).Pairwise _
    rw [hops]
    exact h.retired
  · show (l.mapped ++ (l.middle ++ ops ++ rest)).Pairwise _
    rw [hlater]
    exact h.mapped
  · have hdecoded := h.decoded
    rw [hent] at hdecoded
    simpa using hdecoded
  · show ∀ n ∈ l.decoded ++ ops ++ (l.window ++ (l.middle ++ ops ++ rest)), n < l.next
    rw [hops]
    intro n hn
    have hentry : n ∈ ops → n ∈ l.ops := fun hn => hops ▸ by simp [hn]
    refine h.below n ?_
    simp only [List.mem_append] at hn ⊢
    tauto
  · show (l.retired ++ (l.window ++ (l.middle ++ ops ++ rest)) ++ l.flushed).Perm _
    rw [hops]
    exact h.fetched
  · intro n hn
    exact (List.mem_append.mp hn).elim (fun hn => List.mem_append_left _ (h.middle n hn))
      (List.mem_append_right _)
  · exact fun n hn => List.mem_append_left _ (h.mapped_decoded n hn)

/-- A number above all others comes last. -/
theorem pairwise_concat {before : List ℕ} {m : ℕ} (hlt : ∀ n ∈ before, n < m)
    (hbefore : before.Pairwise (· < ·)) : (before ++ [m]).Pairwise (· < ·) := by
  refine List.pairwise_append.mpr ⟨hbefore, List.pairwise_singleton .., fun n hn k hk => ?_⟩
  exact List.mem_singleton.mp hk ▸ hlt n hn

theorem Line.Ordered.fetch (h : l.Ordered) :
    { l with entry := l.entry ++ [l.next], next := l.next + 1 : Line }.Ordered := by
  have hlater : l.middle ++ (l.entry ++ [l.next]) = l.middle ++ l.entry ++ [l.next] :=
    (List.append_assoc ..).symm
  have hops : l.window ++ (l.middle ++ (l.entry ++ [l.next])) = l.ops ++ [l.next] := by simp [Line.ops]
  have hdecoded : ∀ n ∈ l.decoded, n < l.next := fun n hn => h.below n (List.mem_append_left _ hn)
  have hline : ∀ n ∈ l.ops, n < l.next := fun n hn => h.below n (List.mem_append_right _ hn)
  refine ⟨?_, ?_, ?_, ?_, ?_, h.window, h.middle, h.mapped_decoded, h.retired_mapped, Nat.succ_pos _⟩
  · show (l.retired ++ (l.window ++ (l.middle ++ (l.entry ++ [l.next])))).Pairwise _
    rw [hops, ← List.append_assoc]
    refine pairwise_concat (fun n hn => ?_) h.retired
    exact (List.mem_append.mp hn).elim
      (fun hn => hdecoded n (h.mapped_decoded n (h.retired_mapped n hn))) (hline n)
  · show (l.mapped ++ (l.middle ++ (l.entry ++ [l.next]))).Pairwise _
    rw [hlater, ← List.append_assoc]
    refine pairwise_concat (fun n hn => ?_) h.mapped
    exact (List.mem_append.mp hn).elim (fun hn => hdecoded n (h.mapped_decoded n hn))
      fun hn => hline n (List.mem_append_right _ hn)
  · show (l.decoded ++ (l.entry ++ [l.next])).Pairwise _
    rw [← List.append_assoc]
    refine pairwise_concat (fun n hn => ?_) h.decoded
    exact (List.mem_append.mp hn).elim (hdecoded n)
      fun hn => hline n (List.mem_append_right _ (List.mem_append_right _ hn))
  · show ∀ n ∈ l.decoded ++ (l.window ++ (l.middle ++ (l.entry ++ [l.next]))), n < l.next + 1
    rw [hops, ← List.append_assoc]
    intro n hn
    cases List.mem_append.mp hn with
    | inl hn => exact Nat.lt_succ_of_lt (h.below n hn)
    | inr hn => exact List.mem_singleton.mp hn ▸ Nat.lt_succ_self _
  · show (l.retired ++ (l.window ++ (l.middle ++ (l.entry ++ [l.next]))) ++ l.flushed).Perm
      (List.range' 1 l.next)
    have hrange : List.range' 1 l.next = List.range' 1 (l.next - 1) ++ [l.next] := by
      obtain ⟨k, hk⟩ := Nat.exists_eq_add_one.mpr h.next
      rw [hk, Nat.add_sub_cancel, List.range'_concat, Nat.one_mul, Nat.add_comm 1 k]
    rw [hops, hrange, ← List.append_assoc, List.append_assoc _ [l.next]]
    refine List.Perm.trans (List.perm_append_comm.append_left _) ?_
    rw [← List.append_assoc]
    exact h.fetched.append_right [l.next]

/-- Dropping an end of the line. -/
theorem Line.Ordered.drop {kept dropped window middle entry order : List ℕ} (h : l.Ordered)
    (hcut : l.ops = kept ++ dropped) (hkept : window ++ (middle ++ entry) = kept)
    (hwindow : window <+: l.window) (hmiddle : middle <+: l.middle) (hentry : entry <+: l.entry)
    (horder : order.Perm dropped) :
    { l with window, middle, entry, flushed := l.flushed ++ order : Line }.Ordered := by
  have hsub : kept.Sublist l.ops := hcut ▸ List.sublist_append_left ..
  refine ⟨?_, ?_, ?_, ?_, ?_, ?_, ?_, h.mapped_decoded, h.retired_mapped, h.next⟩
  · show (l.retired ++ (window ++ (middle ++ entry))).Pairwise _
    rw [hkept]
    exact h.retired.sublist (hsub.append_left _)
  · exact h.mapped.sublist ((hmiddle.sublist.append hentry.sublist).append_left _)
  · exact h.decoded.sublist (hentry.sublist.append_left _)
  · show ∀ n ∈ l.decoded ++ (window ++ (middle ++ entry)), n < l.next
    rw [hkept]
    exact fun n hn => h.below n ((hsub.append_left l.decoded).subset hn)
  · show (l.retired ++ (window ++ (middle ++ entry)) ++ (l.flushed ++ order)).Perm _
    rw [hkept]
    refine List.Perm.trans ?_ h.fetched
    rw [hcut, List.append_assoc, List.append_assoc, List.append_assoc]
    refine (List.Perm.append_left kept ?_).append_left l.retired
    exact List.perm_append_comm.trans (horder.append_right _)
  · exact fun n hn => h.window n (hwindow.subset hn)
  · exact fun n hn => h.middle n (hmiddle.subset hn)

/-- Every step keeps the order. -/
theorem Line.Ordered.step (h : l.Ordered) (hstep : Line.Step l t) : t.Ordered := by
  cases hstep with
  | retire hw => exact h.retire hw
  | map hmid => exact h.map hmid
  | decode hent => exact h.decode hent
  | fetch => exact h.fetch
  | drop hcut hkept hwindow hmiddle hentry horder => exact h.drop hcut hkept hwindow hmiddle hentry horder

/-- The order holds of every line that steps lead to. -/
theorem Line.ordered_of_visited (h : Execution.Visited (· = Line.empty) Line.Step l) : l.Ordered :=
  h.invariant (fun _ heq => heq ▸ Line.empty_ordered) fun _ _ hl hstep => hl.step hstep

end Scarab.FrontEnd

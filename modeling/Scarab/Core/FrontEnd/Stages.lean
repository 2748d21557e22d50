import Scarab.Core.FrontEnd.State
import Scarab.Lib.Bubble

/-! # The rows of stages

What the updates of the decode and the map stage do to the stages as a row. -/

namespace Scarab.FrontEnd

open OpPool (OpPtr Op Pool)
open Bubble (close)

variable {w : ℕ} {sd src cur : StageData} {sds l : List StageData} {slots : List (Option OpPtr)} {p : OpPtr}

/-- The ops in a stage, oldest first. -/
def StageData.content (sd : StageData) : List OpPtr := sd.ops.reduceOption

/-- `cur->op_count == 0`. -/
def StageData.isEmpty (sd : StageData) : Bool := sd.opCount = 0

/-- The count is the number of ops. -/
structure StageData.Counted (w : ℕ) (sd : StageData) : Prop where
  length : sd.ops.length = w
  count : sd.opCount = sd.content.length

/-- Moreover the ops are in the first slots. -/
structure StageData.Packed (w : ℕ) (sd : StageData) : Prop extends sd.Counted w where
  ops : sd.ops = sd.content.map some ++ List.replicate (w - sd.content.length) none

/-- In a row, `node_issue` takes ops from the last stage only. -/
structure Row (w : ℕ) (l : List StageData) : Prop where
  counted : ∀ sd ∈ l, sd.Counted w
  packed : ∀ sd ∈ l.tail, sd.Packed w

/-! ## One stage -/

theorem reduceOption_packed (ops : List OpPtr) (n : ℕ) :
    (ops.map some ++ List.replicate n none).reduceOption = ops := by
  induction ops with
  | nil => simp
  | cons p ops ih => simpa using ih

theorem StageData.Packed.of_ops (ops : List OpPtr) (hw : ops.length ≤ w) :
    (StageData.mk ops.length (ops.map some ++ List.replicate (w - ops.length) none)).Packed w := by
  have hcontent := reduceOption_packed ops (w - ops.length)
  refine ⟨⟨?_, congrArg List.length hcontent.symm⟩, ?_⟩
  · simp only [List.length_append, List.length_map, List.length_replicate]
    omega
  · simp only [content, hcontent]

theorem StageData.Counted.length_le (h : sd.Counted w) : sd.content.length ≤ w :=
  h.length ▸ List.reduceOption_length_le sd.ops

theorem StageData.Counted.isEmpty_iff (h : sd.Counted w) : sd.isEmpty = true ↔ sd.content = [] := by
  rw [StageData.isEmpty, decide_eq_true_iff, h.count, List.length_eq_zero_iff]

/-- All slots of an empty stage are empty. -/
theorem StageData.Counted.packed (h : sd.Counted w) (hempty : sd.isEmpty = true) : sd.Packed w := by
  have hcontent := h.isEmpty_iff.mp hempty
  have hnone : sd.ops = List.replicate w none := by
    refine List.eq_replicate_iff.mpr ⟨h.length, fun slot hslot => ?_⟩
    cases slot with
    | none => rfl
    | some p =>
        have hp : p ∈ sd.content := List.reduceOption_mem_iff.mpr hslot
        rw [hcontent] at hp
        cases hp
  exact ⟨h, by rw [hcontent]; exact hnone⟩

theorem StageData.packed_reset (cfg : Config) : (StageData.reset cfg).Packed cfg.issueWidth :=
  StageData.Packed.of_ops [] (Nat.zero_le _)

theorem StageData.content_reset (cfg : Config) : (StageData.reset cfg).content = [] :=
  reduceOption_packed [] cfg.issueWidth

/-- `ASSERT(proc_id, op != NULL)` holds in a packed stage. -/
theorem StageData.Packed.present_eq (h : sd.Packed w) : sd.present = .ok sd.content := by
  have htake : sd.ops.take sd.opCount = sd.content.map some := by
    rw [h.ops, h.count]
    exact List.take_left' (List.length_map ..)
  rw [StageData.present, htake]
  generalize sd.content = ops
  induction ops with
  | nil => rfl
  | cons p ops ih =>
      rw [List.map_cons, List.mapM_cons, ih]
      rfl

/-- The slot behind the last op takes another one. -/
theorem StageData.Packed.push (h : sd.Packed w) (hroom : sd.content.length < w) (p : OpPtr) :
    (StageData.mk (sd.opCount + 1) (sd.ops.set sd.opCount (some p))).Packed w ∧
      (StageData.mk (sd.opCount + 1) (sd.ops.set sd.opCount (some p))).content = sd.content ++ [p] := by
  have hset : sd.ops.set sd.opCount (some p) = (sd.content ++ [p]).map some ++
      List.replicate (w - (sd.content ++ [p]).length) none := by
    obtain ⟨n, hn⟩ : ∃ n, w - sd.content.length = n + 1 := ⟨w - sd.content.length - 1, by omega⟩
    have hrest : w - (sd.content ++ [p]).length = n := by
      rw [List.length_append, List.length_singleton]
      omega
    rw [h.ops, h.count, List.set_append_right _ _ (by simp), hn, hrest]
    simp [List.replicate_succ]
  have hcount : sd.opCount + 1 = (sd.content ++ [p]).length := by
    rw [h.count, List.length_append, List.length_singleton]
  have hwidth : (sd.content ++ [p]).length ≤ w := by
    rw [← hcount, h.count]
    exact hroom
  rw [hset, hcount]
  exact ⟨.of_ops _ hwidth, reduceOption_packed ..⟩

/-! ## The loops over the stages -/

theorem updateFrom_eq (cur : StageData) (sds : List StageData) :
    updateFrom cur sds = Bubble.closeFrom StageData.isEmpty cur sds := by
  induction sds generalizing cur with
  | nil => rfl
  | cons prev sds ih =>
      by_cases hcur : cur.opCount = 0
      · have hswap : cur.swap prev = (prev, cur) := by
          cases cur with
          | mk opCount ops =>
              subst hcur
              rfl
        have hempty : cur.isEmpty = true := decide_eq_true hcur
        rw [updateFrom, if_pos hcur, hswap, Bubble.closeFrom, if_pos hempty, ih]
      · have hfull : ¬ cur.isEmpty = true := fun hempty => hcur (of_decide_eq_true hempty)
        rw [updateFrom, if_neg hcur, Bubble.closeFrom, if_neg hfull, ih]

theorem updateStages_eq (sds : List StageData) : updateStages sds = close StageData.isEmpty sds := by
  cases sds with
  | nil => rfl
  | cons cur sds => exact updateFrom_eq cur sds

/-- The loop and the first stage close the first bubble of the stages and the one before them. -/
theorem updateFirst_eq (hsds : sds ≠ []) (src : StageData) :
    (updateFirst (updateStages sds) src).1 ++ [(updateFirst (updateStages sds) src).2] =
      close StageData.isEmpty (sds ++ [src]) := by
  rw [updateStages_eq]
  cases Bubble.full_or_first StageData.isEmpty sds with
  | inl hfull =>
      rw [Bubble.close_full hfull, Bubble.close_append_full hfull, updateFirst]
      cases hlast : sds.getLast? with
      | none => exact absurd (List.getLast?_eq_none_iff.mp hlast) hsds
      | some cur =>
          have hcur : ¬ cur.opCount = 0 := by
            simpa [StageData.isEmpty] using hfull cur (List.mem_of_getLast? hlast)
          simp only [if_neg hcur]
          rfl
  | inr hfirst =>
      obtain ⟨before, cur, rest, rfl, hcur, hbefore⟩ := hfirst
      have hcount : cur.opCount = 0 := of_decide_eq_true hcur
      have hsrc : before ++ cur :: rest ++ [src] = before ++ cur :: (rest ++ [src]) := by simp
      have hback : StageData.mk 0 cur.ops = cur := by
        cases cur with
        | mk opCount ops =>
            subst hcount
            rfl
      rw [hsrc, Bubble.close_first hbefore hcur, Bubble.close_first hbefore hcur, updateFirst]
      simp [hcount, StageData.swap, hback]

theorem length_updateFirst (hsds : sds ≠ []) (src : StageData) :
    (updateFirst (updateStages sds) src).1.length = sds.length := by
  have hlength := congrArg List.length (updateFirst_eq hsds src)
  rw [Bubble.length_close] at hlength
  simpa using hlength

/-! ## Rows -/

theorem Row.empty_content (h : Row w l) : ∀ sd ∈ l, sd.isEmpty = true → sd.content = [] :=
  fun sd hsd hempty => (h.counted sd hsd).isEmpty_iff.mp hempty

theorem Row.of_packed (h : ∀ sd ∈ l, sd.Packed w) : Row w l :=
  ⟨fun sd hsd => (h sd hsd).toCounted, fun sd hsd => h sd (List.mem_of_mem_tail hsd)⟩

theorem Row.prefix_ {rest : List StageData} (h : Row w (l ++ rest)) : Row w l := by
  refine ⟨fun sd hsd => h.counted sd (List.mem_append_left rest hsd), fun sd hsd => ?_⟩
  cases l with
  | nil => cases hsd
  | cons a l => exact h.packed sd (List.mem_append_left rest hsd)

/-- The update keeps a row. -/
theorem Row.close (h : Row w l) : Row w (close StageData.isEmpty l) := by
  cases l with
  | nil => exact h
  | cons a l =>
      cases ha : a.isEmpty with
      | true =>
          rw [Bubble.close_cons_free ha]
          refine Row.of_packed fun sd hsd => ?_
          cases List.mem_append.mp hsd with
          | inl hl => exact h.packed sd hl
          | inr hlast =>
              rw [List.mem_singleton.mp hlast]
              exact (h.counted a (List.mem_cons_self ..)).packed ha
      | false =>
          rw [Bubble.close_cons_full ha]
          refine ⟨fun sd hsd => h.counted sd ?_, fun sd hsd => h.packed sd (Bubble.mem_close.mp hsd)⟩
          exact (List.mem_cons.mp hsd).elim (fun heq => heq ▸ List.mem_cons_self ..)
            fun hl => List.mem_cons_of_mem a (Bubble.mem_close.mp hl)

/-- What the update does to the last stage of a row: if it is empty, the next ops enter it. -/
theorem Row.toProcess {a : StageData} (h : Row w (a :: l)) (hl : l ≠ []) :
    ∃ b rest ops, Bubble.close StageData.isEmpty (a :: l) = b :: rest ∧
      (if 0 < a.opCount then .ok [] else b.present) = Except.ok (ε := String) ops ∧
      b.content = a.content ++ ops ∧
      ops ++ rest.flatMap StageData.content = l.flatMap StageData.content := by
  cases ha : a.isEmpty with
  | true =>
      cases l with
      | nil => exact absurd rfl hl
      | cons b l =>
          have hcount : a.opCount = 0 := of_decide_eq_true ha
          have hempty : a.content = [] := h.empty_content a (List.mem_cons_self ..) ha
          refine ⟨b, l ++ [a], b.content, Bubble.close_cons_free ha _, ?_, ?_, ?_⟩
          · rw [if_neg (by omega)]
            exact (h.packed b (List.mem_cons_self ..)).present_eq
          · rw [hempty, List.nil_append]
          · simp [hempty]
  | false =>
      have hcount : 0 < a.opCount := Nat.pos_of_ne_zero (of_decide_eq_false ha)
      refine ⟨a, Bubble.close _ l, [], Bubble.close_cons_full ha _, if_pos hcount, by simp, ?_⟩
      exact Bubble.flatMap_close fun sd hsd => h.empty_content sd (List.mem_cons_of_mem a hsd)

end Scarab.FrontEnd

import Scarab.Prefetcher.Spp.Operate

/-! # Runs of the prefetcher

A reachable world is one between two callbacks. A visited world may also lie inside
`spp_operate`, between two of the atomic steps a callback is made of. Invariants are
proved for the atomic steps once and hold in both. -/

namespace Scarab.Spp

open Relation

variable {σ : Type} (p : Params) (addto : AddTo σ)

/-- `pref_ul1evict`: it counts the eviction. The rows of `pref_table.def` have no hook
it could pass the line on to. -/
def prefUl1evict (w : World σ) (_procId : Uns8) (addr : Addr) : World σ :=
  World.log { w with numUl1Evicted := w.numUl1Evicted + 1 } (.evicted addr)

/-- The world right after `pref_spp_init`. -/
inductive Initial : World σ → Prop where
  | intro {hwpId spp} (queue : σ) (h : prefSppInit p hwpId = .ok spp) : Initial ⟨spp, queue, 0, []⟩

/-- What can happen between two moments the prefetcher is idle: one of its callbacks,
a fill or an eviction in the UL1, or anything that others do to the request queue. -/
inductive Callback (σ : Type) where
  | ul1Miss (procId : Uns8) (lineAddr : Addr)
  | ul1Hit (procId : Uns8) (lineAddr : Addr)
  | ul1PrefHit (lineAddr : Addr)
  | fill (addr : Addr)
  | evict (procId : Uns8) (addr : Addr)
  | others (queue : σ)

def callback (w : World σ) : Callback σ → Except String (World σ)
  | .ul1Miss procId lineAddr => prefSppUl1Miss p addto procId w lineAddr
  | .ul1Hit procId lineAddr => prefSppUl1Hit p addto procId w lineAddr
  | .ul1PrefHit lineAddr => .ok (prefSppUl1PrefHit p w lineAddr)
  | .fill addr => .ok (w.log (.filled addr))
  | .evict procId addr => .ok (prefUl1evict w procId addr)
  | .others queue => .ok { w with queue }

/-- Some sequence of callbacks leads here. -/
def Reachable (w : World σ) : Prop :=
  ∃ start callbacks, Initial p start ∧ Execution.run (callback p addto) start callbacks = .ok w

/-- The atomic steps. -/
inductive Step : World σ → World σ → Prop where
  | train {w w' lineAddr hop} (h : sppTrain p w lineAddr = .ok (w', hop)) : Step w w'
  | candidate {w w' procId addr hop c} (h : sppCandidate p addto procId addr hop w c = .ok w') :
      Step w w'
  | ul1PrefHit (w : World σ) (lineAddr : Addr) : Step w (prefSppUl1PrefHit p w lineAddr)
  | fill (w : World σ) (addr : Addr) : Step w (w.log (.filled addr))
  | evict (w : World σ) (procId : Uns8) (addr : Addr) : Step w (prefUl1evict w procId addr)
  | others (w : World σ) (queue : σ) : Step w { w with queue }

/-- What the atomic steps reach. It includes every world the code passes through. -/
def Visited (w : World σ) : Prop := Execution.Visited (Initial p) (Step p addto) w

variable {p addto}

/-! ## From callbacks to atomic steps -/

theorem sppHop_steps {procId : Uns8} {addr : Addr} {w w' : World σ} {hop : Hop} {next : Option Hop}
    (h : sppHop p addto procId addr w hop = .ok (w', next)) :
    ReflTransGen (Step p addto) w w' := by
  obtain ⟨m, hm, hret⟩ := Execution.bind_eq_ok.mp h
  have hw : m = w' := congrArg Prod.fst (Except.ok.inj hret)
  rw [← hw]
  refine Execution.run_reflTransGen ?_ hm
  intro s c t hc
  exact .candidate hc

theorem sppLookahead_steps {procId : Uns8} {addr : Addr} {fuel : ℕ} {w w' : World σ} {hop : Hop}
    (h : sppLookahead p addto procId addr fuel w hop = .ok w') :
    ReflTransGen (Step p addto) w w' := by
  induction fuel generalizing w hop with
  | zero =>
      cases h
      exact .refl
  | succ fuel ih =>
      obtain ⟨⟨m, next⟩, hm, hrest⟩ := Execution.bind_eq_ok.mp h
      refine (sppHop_steps hm).trans ?_
      cases next with
      | none =>
          cases hrest
          exact .refl
      | some hop' =>
          simp only at hrest
          split at hrest
          · exact ih hrest
          · cases hrest
            exact .refl

theorem sppOperate_steps {procId : Uns8} {w w' : World σ} {lineAddr : Addr}
    (h : sppOperate p addto procId w lineAddr = .ok w') : ReflTransGen (Step p addto) w w' := by
  obtain ⟨⟨m, hop⟩, hm, hrest⟩ := Execution.bind_eq_ok.mp h
  refine .head (Step.train hm) ?_
  simp only at hrest
  split at hrest
  · cases hrest
    exact .refl
  · exact sppLookahead_steps hrest

theorem callback_steps {w w' : World σ} {c : Callback σ} (h : callback p addto w c = .ok w') :
    ReflTransGen (Step p addto) w w' := by
  cases c with
  | ul1Miss procId lineAddr => exact sppOperate_steps h
  | ul1Hit procId lineAddr =>
      simp only [callback, prefSppUl1Hit] at h
      split at h
      · exact sppOperate_steps h
      · cases h
        exact .refl
  | ul1PrefHit lineAddr =>
      cases h
      exact .single (.ul1PrefHit w lineAddr)
  | fill addr =>
      cases h
      exact .single (.fill w addr)
  | evict procId addr =>
      cases h
      exact .single (.evict w procId addr)
  | others queue =>
      cases h
      exact .single (.others w queue)

/-- A world between two callbacks is one of the worlds the code passes through. -/
theorem Reachable.visited {w : World σ} (h : Reachable p addto w) : Visited p addto w := by
  obtain ⟨start, callbacks, hi, hr⟩ := h
  exact Execution.visited_of_run (fun _ _ _ => callback_steps) hi hr

theorem Visited.step {w w' : World σ} (h : Visited p addto w) (hs : Step p addto w w') :
    Visited p addto w' :=
  Execution.Visited.step h hs

/-- The run rule: what holds initially and is kept by every atomic step holds in every
visited world. -/
theorem Visited.invariant {I : World σ → Prop} (hinit : ∀ w, Initial p w → I w)
    (hstep : ∀ w w', I w → Step p addto w w' → I w') {w : World σ} (h : Visited p addto w) : I w :=
  Execution.Visited.invariant hinit hstep h

/-! ## Concrete runs -/

/-- Two ways a row, few filter slots, and every candidate of L2 grade. -/
def Params.small (quotientBit : ℕ) (h : quotientBit < 32) : Params :=
  { Params.default with
    fillThreshold := 25
    stWay := 2
    quotientBit
    stWay_pos := by decide
    quotientBit_lt := h }

/-- The world after a sequence of callbacks, from `pref_spp_init` on. -/
def afterCallbacks (p : Params) (addto : AddTo σ) (hwpId : Uns8) (queue : σ)
    (callbacks : List (Callback σ)) : Except String (World σ) := do
  let spp ← prefSppInit p hwpId
  Execution.run (callback p addto) ⟨spp, queue, 0, []⟩ callbacks

/-- A queue that takes every request, and one that is always full. -/
def acceptAll : AddTo Unit := fun _ _ _ queue => (true, queue)

def refuseAll : AddTo Unit := fun _ _ _ queue => (false, queue)

/-- A queue with room for `n` more requests. -/
def acceptFirst : AddTo ℕ := fun _ _ _ n => (decide (0 < n), n - 1)

/-- UL1 misses on some lines of 64 bytes from `base` on. -/
def ul1Misses (base : Addr) (lines : List ℕ) : List (Callback σ) :=
  lines.map fun i => .ul1Miss 0 (base + BitVec.ofNat 64 (64 * i))

/-- What is observed of a concrete run holds of a reachable world. -/
theorem exists_reachable {β : Type} {hwpId : Uns8} {queue : σ} {callbacks : List (Callback σ)}
    {observe : World σ → β} {b : β}
    (h : (afterCallbacks p addto hwpId queue callbacks).toOption.map observe = some b) :
    ∃ w, Reachable p addto w ∧ observe w = b := by
  cases hr : afterCallbacks p addto hwpId queue callbacks with
  | error e => simp [hr, Except.toOption] at h
  | ok w =>
      obtain ⟨spp, hi, hrun⟩ := Execution.bind_eq_ok.mp hr
      exact ⟨w, ⟨_, callbacks, .intro queue hi, hrun⟩, by simpa [hr, Except.toOption] using h⟩

end Scarab.Spp

import Mathlib.Tactic.IntervalCases
import Scarab.Prefetcher.Common.Assertions
import Scarab.Prefetcher.Ghb
import Scarab.Prefetcher.Phase
import Scarab.Prefetcher.Spp.OwnCore
import Scarab.Prefetcher.Stride
import Scarab.Prefetcher.TwoDc

/-! # The cores of the UL1 requests

Five prefetchers share the request queues of the cores. `pref_update_core` asserts that a
request belongs to the core that its line carries. GHB and SPP name the core of the
demand; the stride, 2dc and phase prefetchers name core 0, whoever the demand came from. -/

namespace Scarab.Cores

open Common (PrefState QueueEvent OfCore)

/-- The knobs of the queues and of the prefetchers. There is one line size. -/
structure Knobs where
  queues : Common.PrefParams
  /-- `PREF_SHARED_QUEUES`. -/
  sharedQueues : Bool
  stride : Stride.Params
  twoDc : TwoDc.Params
  phase : Phase.Params
  ghb : Ghb.Params
  spp : Spp.Params
  stride_line : stride.log2Line = queues.log2Line
  twoDc_line : twoDc.log2Line = queues.log2Line
  phase_line : phase.log2Line = queues.log2Line
  ghb_line : ghb.log2Line = queues.log2Line
  spp_line : spp.log2Line = queues.log2Line

/-- The default of every parameter. -/
def Knobs.default : Knobs :=
  ⟨.default, false, .default, .default, .default, .default, .default, rfl, rfl, rfl, rfl, rfl⟩

/-- The prefetchers and the queues; `spp.queue` holds the queues of every core. -/
structure Machine (γ τ : Type) where
  stride : Stride.PrefStride
  twoDc : TwoDc.Pref2dc γ
  phase : Phase.PrefPhase
  ghb : Uns8 → Ghb.PrefGhb
  spp : Spp.World (Uns8 → PrefState τ)

variable {γ τ : Type} (k : Knobs) (cache : TwoDc.DeltaCache γ) (env : Common.Env τ)

/-- `pref.cores`. -/
def Machine.cores (m : Machine γ τ) : Uns8 → PrefState τ := m.spp.queue

def Machine.setCores (m : Machine γ τ) (cores : Uns8 → PrefState τ) : Machine γ τ :=
  { m with spp := { m.spp with queue := cores } }

/-- The core whose queues a core uses. -/
def Knobs.queueOf (procId : Uns8) : Uns8 := if k.sharedQueues then 0 else procId

/-- The request as the queue keeps it. -/
def Knobs.memReq (req : Ul1Request) : Common.PrefMemReq :=
  { procId := req.procId, lineAddr := req.lineIndex <<< k.queues.log2Line
    lineIndex := req.lineIndex, loadPC := req.loadPC, globalHist := req.globalHist
    prefetcherId := req.prefetcherId, distance := req.distance, valid := true
    bwLimited := req.bw }

/-- `pref_addto_ul1req_queue_set`, on the queues of all cores. -/
def Knobs.addto : Ul1Queue (Uns8 → PrefState τ) := fun req cores =>
  let (ok, s) := Common.prefAddtoUl1reqQueueSet k.queues (cores (k.queueOf req.procId)) req.procId
    req.lineIndex req.prefetcherId req.distance req.loadPC req.globalHist req.bw
  (ok, Function.update cores (k.queueOf req.procId) s)

/-- The `ul1_*` entries of `pref_table.def`, with what each prefetcher reads besides the
demand. -/
inductive Hook where
  | stride (ul1Hit : Bool) (cycleCount : Uns)
  | twoDc (prefHit : Bool) (loadPC : Addr)
  | phase (prefHit : Bool) (instCount cycleCount : Uns64) (stray : ℕ → Phase.PhaseRegion)
  | ghb (prefHit : Bool) (loadPC : Addr) (cycleCount : Uns) (throttled : Option ℕ)
      (stray : ℤ → CInt) (turns : ℕ)
  | sppMiss
  | sppHit
  | sppPrefHit

/-- One prefetcher handles a demand of a core. -/
def Machine.train (m : Machine γ τ) (procId : Uns8) (lineAddr : Addr) :
    Hook → Except String (Machine γ τ)
  | .stride ul1Hit cycleCount =>
      let (s, cores) :=
        if ul1Hit then
          Stride.prefStrideUl1Hit k.stride k.addto procId m.stride lineAddr cycleCount m.cores
        else Stride.prefStrideUl1Miss k.stride k.addto procId m.stride lineAddr cycleCount m.cores
      .ok ({ m with stride := s }.setCores cores)
  | .twoDc prefHit loadPC =>
      let (s, cores) :=
        if prefHit then
          TwoDc.pref2dcUl1Prefhit k.twoDc cache k.addto procId m.twoDc lineAddr loadPC m.cores
        else TwoDc.pref2dcUl1Miss k.twoDc cache k.addto procId m.twoDc lineAddr loadPC m.cores
      .ok ({ m with twoDc := s }.setCores cores)
  | .phase prefHit instCount cycleCount stray =>
      let (s, cores) :=
        if prefHit then
          Phase.prefPhaseUl1Prefhit k.phase k.addto procId m.phase lineAddr instCount cycleCount stray
            m.cores
        else
          Phase.prefPhaseUl1Miss k.phase k.addto procId m.phase lineAddr instCount cycleCount stray
            m.cores
      .ok ({ m with phase := s }.setCores cores)
  | .ghb prefHit loadPC cycleCount throttled stray turns => do
      let (s, cores) ← Ghb.prefGhbUl1Train k.ghb k.addto procId (m.ghb procId) lineAddr loadPC prefHit
        cycleCount throttled stray turns m.cores
      return { m with ghb := Function.update m.ghb procId s }.setCores cores
  | .sppMiss => do
      let spp ← Spp.prefSppUl1Miss k.spp (Spp.plainRequests k.addto) procId m.spp lineAddr
      return { m with spp }
  | .sppHit => do
      let spp ← Spp.prefSppUl1Hit k.spp (Spp.plainRequests k.addto) procId m.spp lineAddr
      return { m with spp }
  | .sppPrefHit => .ok { m with spp := Spp.prefSppUl1PrefHit k.spp m.spp lineAddr }

/-- What can happen: a demand meets a prefetcher, a core sends or filters, or the rest of
the machine moves. -/
inductive Event (τ : Type) where
  | demand (procId : Uns8) (lineAddr : Addr) (hook : Hook)
  | update (procId : Uns8)
  | filter (procId : Uns8) (lineAddr : Addr)
  | others (e : Uns8 → τ)

/-- Change the queues of one core. -/
def Machine.setCore (m : Machine γ τ) (procId : Uns8) (s : PrefState τ) : Machine γ τ :=
  m.setCores (Function.update m.cores procId s)

def Machine.step (m : Machine γ τ) : Event τ → Except String (Machine γ τ)
  | .demand procId lineAddr hook => m.train k cache procId lineAddr hook
  | .update procId => do
      let s ← Common.prefUpdateCore k.queues env procId (m.cores (k.queueOf procId))
      return m.setCore (k.queueOf procId) s
  | .filter procId lineAddr =>
      .ok (m.setCore (k.queueOf procId)
        (Common.prefUl1reqQueueFilter k.queues (m.cores (k.queueOf procId)) lineAddr).2)
  | .others e => .ok (m.setCores fun c => { m.cores c with env := e c })

/-- The machine after the `pref_*_init` functions. -/
structure Initial (m : Machine γ τ) : Prop where
  stride : ∃ hwpId, m.stride = Stride.prefStrideInit hwpId
  twoDc : ∃ hwpId c, m.twoDc = TwoDc.pref2dcInit hwpId c
  phase : ∃ hwpId regid offset, m.phase = Phase.prefPhaseInit hwpId regid offset
  ghb : ∀ c, ∃ hwpId czoneTag ghbPtr missIndex,
    m.ghb c = Ghb.prefGhbInit k.ghb hwpId czoneTag ghbPtr missIndex
  spp : Spp.Initial k.spp m.spp
  cores : ∀ c, Common.Initial (m.cores c)

/-- The demands carry their core. -/
def Event.InRange : Event τ → Prop
  | .demand procId lineAddr _ => OfCore procId lineAddr
  | _ => True

/-- The three prefetchers that name core 0 have nothing to ask for, or are right to. -/
def Event.StaysInCore (m : Machine γ τ) : Event τ → Prop
  | .demand procId lineAddr (.stride _ _) => m.stride.StaysInCore k.stride procId lineAddr
  | .demand procId lineAddr (.twoDc prefHit loadPC) =>
      m.twoDc.StaysInCore k.twoDc cache procId lineAddr loadPC prefHit
  | .demand procId lineAddr (.phase _ instCount cycleCount stray) =>
      m.phase.StaysInCore k.phase procId lineAddr instCount cycleCount stray
  | _ => True

/-- The steps on demands that carry their core, and whose prefetches stay in it. -/
def Step (m m' : Machine γ τ) : Prop :=
  ∃ e : Event τ, e.InRange ∧ e.StaysInCore k cache m ∧ m.step k cache env e = .ok m'

/-! ## What a demand does to the queues -/

/-- The requests put into the UL1 queues since are for a core, and for its lines. -/
def OnlyFor (procId : Uns8) (cores cores' : Uns8 → PrefState τ) : Prop :=
  ∀ c, ∃ mid, (cores' c).history = (cores c).history ++ mid ∧
    ∀ e ∈ mid, ∃ slot req, e = .inserted .ul1req slot req ∧ req.procId = procId ∧
      OfCore procId req.lineAddr

variable {k cache env}

theorem onlyFor_refl (procId : Uns8) (cores : Uns8 → PrefState τ) : OnlyFor procId cores cores :=
  fun _ => ⟨[], by simp, by simp⟩

theorem OnlyFor.trans {procId : Uns8} {c₁ c₂ c₃ : Uns8 → PrefState τ} (h₁ : OnlyFor procId c₁ c₂)
    (h₂ : OnlyFor procId c₂ c₃) : OnlyFor procId c₁ c₃ := by
  intro c
  obtain ⟨mid₁, hist₁, hmid₁⟩ := h₁ c
  obtain ⟨mid₂, hist₂, hmid₂⟩ := h₂ c
  refine ⟨mid₁ ++ mid₂, by rw [hist₂, hist₁, List.append_assoc], ?_⟩
  intro e he
  cases List.mem_append.mp he with
  | inl he => exact hmid₁ e he
  | inr he => exact hmid₂ e he

theorem addto_eq (req : Ul1Request) (cores : Uns8 → PrefState τ) :
    (k.addto req cores).2 = Function.update cores (k.queueOf req.procId)
      (Common.addToQueue k.queues (cores (k.queueOf req.procId)) .ul1req (k.memReq req)).2 := rfl

theorem addto_onlyFor {procId : Uns8} {req : Ul1Request} {cores : Uns8 → PrefState τ}
    (h : req.OnBehalfOf k.queues.log2Line procId) : OnlyFor procId cores (k.addto req cores).2 := by
  intro c
  rw [addto_eq]
  by_cases hc : c = k.queueOf req.procId
  · subst hc
    rw [Function.update_self]
    cases Common.addToQueue_spec (p := k.queues) (cores (k.queueOf req.procId)) .ul1req
      (k.memReq req) with
    | inl hsame => exact ⟨[], by simp [hsame], by simp⟩
    | inr hins =>
        refine ⟨_, by rw [hins]; rfl, ?_⟩
        intro e he
        exact ⟨_, k.memReq req, List.mem_singleton.mp he, h⟩
  · rw [Function.update_of_ne hc]
    exact ⟨[], by simp, by simp⟩

theorem onlyFor_of_asks {procId : Uns8} {cores cores' : Uns8 → PrefState τ}
    (h : AsksOnly k.addto (·.OnBehalfOf k.queues.log2Line procId) cores cores') :
    OnlyFor procId cores cores' :=
  AsksOnly.invariant (I := OnlyFor procId cores) h
    (fun _ _ hgood hI => hI.trans (addto_onlyFor hgood)) (onlyFor_refl procId cores)

theorem addto_passes {procId : Uns8} {req : Ul1Request} {cores : Uns8 → PrefState τ}
    (h : req.OnBehalfOf k.queues.log2Line procId) (hcores : ∀ c, Common.Passes (cores c)) (c : Uns8) :
    Common.Passes ((k.addto req cores).2 c) := by
  obtain ⟨rfl, hline⟩ := h
  rw [addto_eq]
  by_cases hc : c = k.queueOf req.procId
  · subst hc
    rw [Function.update_self]
    exact (hcores _).add hline
  · rw [Function.update_of_ne hc]
    exact hcores c

theorem passes_of_asks {procId : Uns8} {cores cores' : Uns8 → PrefState τ}
    (h : AsksOnly k.addto (·.OnBehalfOf k.queues.log2Line procId) cores cores')
    (hcores : ∀ c, Common.Passes (cores c)) (c : Uns8) : Common.Passes (cores' c) := by
  apply AsksOnly.invariant (I := fun cores => ∀ c, Common.Passes (cores c)) h _ hcores
  intro req cores hgood hI c
  exact addto_passes hgood hI c

/-! ## Every run -/

/-- The queues pass the assertions, and the phase prefetcher tracks lines of core 0. -/
structure Sound (k : Knobs) (m : Machine γ τ) : Prop where
  cores : ∀ c, Common.Passes (m.cores c)
  phase : m.phase.Tracked k.phase

theorem Initial.sound {m : Machine γ τ} (h : Initial k m) : Sound k m := by
  refine ⟨fun c => (h.cores c).passes, ?_⟩
  obtain ⟨hwpId, regid, offset, hphase⟩ := h.phase
  rw [hphase]
  exact Phase.prefPhaseInit_tracked hwpId regid offset

/-- A core that a line carries has six bits. -/
theorem procId_lt {procId : Uns8} {lineAddr : Addr} (h : OfCore procId lineAddr) :
    procId.toNat < 64 := by
  have hnat := congrArg BitVec.toNat h
  rw [BitVec.toNat_setWidth, BitVec.toNat_ushiftRight, Nat.shiftRight_eq_div_pow,
    Nat.mod_eq_of_lt (by omega)] at hnat
  omega

/-- Each prefetcher asks only for the core of the demand. -/
theorem train_asks {m m' : Machine γ τ} (hs : Sound k m) {procId : Uns8} {lineAddr : Addr}
    {hook : Hook} (hrange : OfCore procId lineAddr)
    (hcore : (Event.demand procId lineAddr hook : Event τ).StaysInCore k cache m)
    (h : m.train k cache procId lineAddr hook = .ok m') :
    AsksOnly k.addto (·.OnBehalfOf k.queues.log2Line procId) m.cores m'.cores := by
  cases hook with
  | stride ul1Hit cycleCount =>
      rw [← k.stride_line]
      cases ul1Hit <;> cases h <;> exact Stride.train_asks hcore
  | twoDc prefHit loadPC =>
      rw [← k.twoDc_line]
      cases prefHit <;> cases h <;> exact TwoDc.train_asks hcore
  | phase prefHit instCount cycleCount stray =>
      rw [← k.phase_line]
      cases prefHit <;> cases h <;> exact Phase.train_asks hs.phase hcore
  | ghb prefHit loadPC cycleCount throttled stray turns =>
      rw [← k.ghb_line]
      obtain ⟨out, hout, hret⟩ := Execution.bind_eq_ok.mp h
      cases hret
      exact Ghb.train_asks (procId_lt hrange) hout
  | sppMiss =>
      rw [← k.spp_line]
      obtain ⟨spp, hspp, hret⟩ := Execution.bind_eq_ok.mp h
      cases hret
      exact Spp.sppOperate_asks hrange hspp
  | sppHit =>
      rw [← k.spp_line]
      obtain ⟨spp, hspp, hret⟩ := Execution.bind_eq_ok.mp h
      cases hret
      unfold Spp.prefSppUl1Hit at hspp
      split at hspp
      · exact Spp.sppOperate_asks hrange hspp
      · cases hspp
        exact .refl _
  | sppPrefHit =>
      cases h
      exact .refl _

theorem train_phase {m m' : Machine γ τ} (hs : Sound k m) {procId : Uns8} {lineAddr : Addr}
    {hook : Hook} (hcore : (Event.demand procId lineAddr hook : Event τ).StaysInCore k cache m)
    (h : m.train k cache procId lineAddr hook = .ok m') : m'.phase.Tracked k.phase := by
  cases hook with
  | phase prefHit instCount cycleCount stray =>
      cases prefHit <;> cases h <;> exact Phase.train_tracked hs.phase hcore.index
  | stride ul1Hit cycleCount =>
      cases h
      exact hs.phase
  | twoDc prefHit loadPC =>
      cases h
      exact hs.phase
  | sppPrefHit =>
      cases h
      exact hs.phase
  | ghb prefHit loadPC cycleCount throttled stray turns =>
      obtain ⟨out, _, hret⟩ := Execution.bind_eq_ok.mp h
      cases hret
      exact hs.phase
  | sppMiss =>
      obtain ⟨spp, _, hret⟩ := Execution.bind_eq_ok.mp h
      cases hret
      exact hs.phase
  | sppHit =>
      obtain ⟨spp, _, hret⟩ := Execution.bind_eq_ok.mp h
      cases hret
      exact hs.phase

theorem Sound.setCore {m : Machine γ τ} (h : Sound k m) {procId : Uns8} {s : PrefState τ}
    (hs : Common.Passes s) : Sound k (m.setCore procId s) := by
  refine ⟨fun c => ?_, h.phase⟩
  show Common.Passes (Function.update m.cores procId s c)
  by_cases hc : c = procId
  · subst hc
    simpa using hs
  · simpa [Function.update_of_ne hc] using h.cores c

theorem Sound.step {m m' : Machine γ τ} (h : Sound k m) (hstep : Step k cache env m m') :
    Sound k m' := by
  obtain ⟨e, hrange, hcore, he⟩ := hstep
  cases e with
  | demand procId lineAddr hook =>
      exact ⟨fun c => passes_of_asks (train_asks h hrange hcore he) h.cores c, train_phase h hcore he⟩
  | update procId =>
      obtain ⟨s, hs, hpasses⟩ := (h.cores (k.queueOf procId)).update k.queues env procId
      obtain ⟨s', hs', hret⟩ := Execution.bind_eq_ok.mp he
      cases hret
      obtain rfl : s = s' := Except.ok.inj (hs.symm.trans hs')
      exact h.setCore hpasses
  | filter procId lineAddr =>
      cases he
      exact h.setCore ((h.cores _).filter .ul1req lineAddr)
  | others e =>
      cases he
      exact ⟨fun c => (h.cores c).of_slots fun _ _ => .inl rfl, h.phase⟩

theorem sound_of_visited {m : Machine γ τ}
    (h : Execution.Visited (Initial k) (Step k cache env) m) : Sound k m :=
  h.invariant (fun _ hi => Initial.sound hi) (fun _ _ hI hstep => Sound.step hI hstep)

/-- A delta cache that stays empty. -/
def noDeltas : TwoDc.DeltaCache Unit where
  access _ c := (none, c)
  insert _ c := c
  write _ _ c := c

/-- The machine right after the `pref_*_init` functions, for an instance of SPP. -/
def start (k : Knobs) (spp : Spp.PrefSpp) : Machine Unit Unit where
  stride := Stride.prefStrideInit 2
  twoDc := TwoDc.pref2dcInit 4 ()
  phase := Phase.prefPhaseInit 3 0 0
  ghb _ := Ghb.prefGhbInit k.ghb 1 (fun _ => 0) (fun _ => 0) (fun _ => 0)
  spp := ⟨spp, fun _ => ⟨fun _ => .init, (), []⟩, 0, []⟩

theorem start_initial {k : Knobs} {spp : Spp.PrefSpp} (h : Spp.prefSppInit k.spp 6 = .ok spp) :
    Initial k (start k spp) where
  stride := ⟨_, rfl⟩
  twoDc := ⟨_, _, rfl⟩
  phase := ⟨_, _, _, rfl⟩
  ghb _ := ⟨_, _, _, _, rfl⟩
  spp := .intro _ h
  cores _ := ⟨rfl, rfl⟩

/-- Misses on successive lines of a core, seen by the stride prefetcher. -/
def strideMisses (procId : Uns8) (n : ℕ) : List (Event Unit) :=
  (List.range n).map fun i =>
    .demand procId (procId.setWidth 64 <<< 58 + BitVec.ofNat 64 (64 * (i + 1))) (.stride false 0)

/-- What is seen at the end: the requests of core 0's queue, and whether core 0 can send. -/
def observe (m : Machine Unit Unit) : List (Uns8 × Addr) × Bool :=
  ((m.cores 0).history.filterMap fun
      | .inserted .ul1req _ req => some (req.procId, req.lineAddr >>> 58)
      | _ => none,
    (Common.prefUpdateCore Knobs.default.queues (Common.idle false) 0 (m.cores 0)).toOption.isSome)

/-- The run of some events after the `pref_*_init` functions. -/
def afterEvents (k : Knobs) (events : List (Event Unit)) : Except String (Machine Unit Unit) := do
  let spp ← Spp.prefSppInit k.spp 6
  Execution.run (Machine.step k noDeltas (Common.idle false)) (start k spp) events

/-- What is observed of a concrete run holds of a machine that a run reaches. -/
theorem exists_run {β : Type} {k : Knobs} {events : List (Event Unit)}
    {observe : Machine Unit Unit → β} {b : β}
    (h : (afterEvents k events).toOption.map observe = some b) :
    ∃ m₀ m, Initial k m₀ ∧
      Execution.run (Machine.step k noDeltas (Common.idle false)) m₀ events = .ok m ∧
      observe m = b := by
  obtain ⟨m, hm, hb⟩ := Option.map_eq_some_iff.mp h
  rw [Execution.toOption_eq_some] at hm
  obtain ⟨spp, hspp, hrun⟩ := Execution.bind_eq_ok.mp hm
  exact ⟨start k spp, m, start_initial hspp, hrun, hb⟩

end Scarab.Cores

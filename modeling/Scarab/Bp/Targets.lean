import Scarab.Core.Fetch.State
import Scarab.Libs.Cache.Residency

/-! # The branch target buffer and the tagged target cache

What `bp_predict_op`, `bp_target_known_op` and `bp_recover_op` do to the two caches of targets, with
`IBTB_MECH` the tagged target cache. -/

namespace Scarab.Bp.Targets

open Fetch (CfType)
open Memory (Cache Geometry)

/-! ## The code -/

structure Params where
  btbAssoc : ℕ
  /-- `LOG2(BTB_ENTRIES / BTB_ASSOC)`. -/
  btbSetBits : ℕ
  tcAssoc : ℕ
  /-- `LOG2(TC_ENTRIES / TC_ASSOC)`. -/
  tcSetBits : ℕ
  /-- `init_cache` divides by the associativities. -/
  btbAssoc_pos : 0 < btbAssoc
  tcAssoc_pos : 0 < tcAssoc
  btbOffPathWrites : Bool
  ibtbOffPathWrites : Bool
  enableIbp : Bool
  usePatHist : Bool
  ibtbHashTos : Bool
  perfectBtb : Bool
  perfectIbp : Bool
  perfectCbrBtb : Bool
  perfectNtBtb : Bool
  /-- `IBTB_HIST_LENGTH / TARGETS_IN_HIST`. -/
  targetBitLength : ℕ

/-- `bp_btb_gen_init`. -/
def Params.btbGeo (p : Params) : Geometry := ⟨p.btbAssoc, p.btbSetBits, 0, .trueLru⟩

/-- `bp_ibtb_tc_tagged_init`. -/
def Params.tcGeo (p : Params) : Geometry := ⟨p.tcAssoc, p.tcSetBits, 0, .trueLru⟩

/-- `Bp_Data`. -/
structure BpData where
  procId : ℕ
  btb : Cache Addr
  tcTagged : Cache Addr
  globalHist : Uns
  targHist : Uns

/-- The part of `Recovery_Info` for the histories. -/
structure RecoveryInfo where
  predGlobalHist : Uns
  newDir : Bool
  targHist : Uns
  deriving DecidableEq, Repr

/-- An op; the direction `pred` is what the direction predictor says, and `tosAddr` what is read off
the call-return stack. -/
structure Op where
  predAddr : Addr
  cfType : CfType
  offPath : Bool
  pred : Bool
  dir : Bool
  target : Addr
  tosAddr : Addr
  btbMiss : Bool
  predTargHist : Uns
  info : RecoveryInfo
  deriving DecidableEq, Repr

variable (p : Params)

/-- `bp_btb_gen_pred`. -/
def bpBtbGenPred (d : BpData) (simTime : ℕ) (op : Op) : Option Addr × BpData :=
  if p.perfectBtb then (some op.target, d)
  else
    let (way, btb) := d.btb.access p.btbGeo simTime op.predAddr true
    (way.map fun way => (btb.entries (p.btbGeo.set op.predAddr) way).data, { d with btb })

/-- `bp_btb_gen_update`. -/
def bpBtbGenUpdate (d : BpData) (simTime : ℕ) (op : Op) : BpData :=
  if p.btbOffPathWrites || !op.offPath then
    let (way, btb) := d.btb.insert p.btbGeo simTime d.procId op.predAddr
    { d with btb := btb.setData (p.btbGeo.set op.predAddr) way op.target }
  else d

/-- The bits of a target that go into the history. -/
def targetBits (target : Addr) : Uns :=
  (target >>> 2 &&& ((1 : Addr) <<< p.targetBitLength - 1) <<< (32 - p.targetBitLength)).setWidth 32

/-- The index of an op in the tagged target cache. -/
def tcIndex (hist : Uns) (op : Op) : Addr :=
  let tcIndex := hist ^^^ op.predAddr.setWidth 32
  (if p.ibtbHashTos then tcIndex ^^^ op.tosAddr.setWidth 32 else tcIndex).setWidth 64

/-- `bp_ibtb_tc_tagged_pred`: the target, or 0. -/
def bpIbtbTcTaggedPred (d : BpData) (simTime : ℕ) (op : Op) : Addr × Op × BpData :=
  if p.perfectIbp then (op.target, op, d)
  else
    let hist := if p.usePatHist then d.globalHist else d.targHist
    let targHist := if p.usePatHist then d.globalHist else d.targHist >>> p.targetBitLength ||| targetBits p op.target
    let index := tcIndex p hist op
    let (way, tcTagged) := d.tcTagged.access p.tcGeo simTime index true
    ((way.map fun way => (tcTagged.entries (p.tcGeo.set index) way).data).getD 0,
      { op with predTargHist := hist, info := { op.info with targHist } }, { d with targHist, tcTagged })

/-- `bp_ibtb_tc_tagged_update`. -/
def bpIbtbTcTaggedUpdate (d : BpData) (simTime : ℕ) (op : Op) : BpData :=
  let index := tcIndex p op.predTargHist op
  let (way, tcTagged) := d.tcTagged.insert p.tcGeo simTime d.procId index
  { d with tcTagged := tcTagged.setData (p.tcGeo.set index) way op.target }

/-- A direction goes into the global history. -/
def shiftDir (hist : Uns) (dir : Bool) : Uns := hist >>> 1 ||| (if dir then 1 else 0) <<< 31

/-- `bp_predict_op`. -/
def bpPredictOp (d : BpData) (simTime : ℕ) (op : Op) : Op × BpData :=
  let op := { op with info := ⟨d.globalHist, op.dir, d.targHist⟩ }
  if op.cfType = .sys then ({ op with btbMiss := false }, d)
  else
    let (btbTarget, d) := bpBtbGenPred p d simTime op
    let op := { op with btbMiss := btbTarget.isNone }
    match op.cfType with
    | .cbr =>
        (if p.perfectCbrBtb || (p.perfectNtBtb && !op.pred) then { op with btbMiss := false } else op,
          { d with globalHist := shiftDir d.globalHist op.pred })
    | .ibr | .icall => if p.enableIbp then (bpIbtbTcTaggedPred p d simTime op).2 else (op, d)
    | _ => (op, d)

/-- The target buffer is written. -/
def Op.writesBtb (op : Op) : Bool := op.btbMiss && (p.btbOffPathWrites || !op.offPath)

/-- The target cache is written. -/
def Op.writesTc (op : Op) : Bool :=
  (op.cfType == .icall || op.cfType == .ibr) && p.enableIbp && (p.ibtbOffPathWrites || !op.offPath)

/-- `bp_target_known_op`. -/
def bpTargetKnownOp (d : BpData) (simTime : ℕ) (op : Op) : BpData :=
  let d := if op.btbMiss then bpBtbGenUpdate p d simTime op else d
  if op.writesTc p then bpIbtbTcTaggedUpdate p d simTime op else d

/-- `bp_recover_op`. -/
def bpRecoverOp (d : BpData) (op : Op) : BpData :=
  { d with
    globalHist :=
      if op.cfType = .cbr then shiftDir op.info.predGlobalHist op.info.newDir else op.info.predGlobalHist
    targHist := op.info.targHist }

/-! ## Runs -/

/-- The predictor, and the ops that were predicted. -/
structure Machine where
  data : BpData
  ops : List Op

/-- What happens, in any order; `fetchBarrier` is the icache stage that forgets a miss. -/
inductive Event where
  | predict (simTime : ℕ) (op : Op)
  | fetchBarrier (i : ℕ)
  | targetKnown (simTime i : ℕ)
  | recover (i : ℕ)

/-- The empty caches, with what is in the memory of their entries. -/
def Machine.init (procId : ℕ) (btb tcTagged : Addr → ℕ → Addr) : Machine where
  data :=
    { procId
      btb := ⟨fun set way => ⟨0, false, 0, 0, 0, false, btb set way⟩, fun _ => 0, fun _ => 0⟩
      tcTagged := ⟨fun set way => ⟨0, false, 0, 0, 0, false, tcTagged set way⟩, fun _ => 0, fun _ => 0⟩
      globalHist := 0
      targHist := 0 }
  ops := []

def Machine.step (m : Machine) : Event → Machine
  | .predict simTime op =>
      let (op, data) := bpPredictOp p m.data simTime op
      ⟨data, m.ops ++ [op]⟩
  | .fetchBarrier i => { m with ops := m.ops.modify i fun op => { op with btbMiss := false } }
  | .targetKnown simTime i =>
      match m.ops[i]? with
      | some op => { m with data := bpTargetKnownOp p m.data simTime op }
      | none => m
  | .recover i =>
      match m.ops[i]? with
      | some op => { m with data := bpRecoverOp m.data op }
      | none => m

/-- The target that a lookup finds. -/
def found (geo : Geometry) (c : Cache Addr) (addr : Addr) : Option Addr :=
  (c.lookup geo addr).map fun way => (c.entries (geo.set addr) way).data

/-- No set holds a tag twice, and what an update wrote is what a lookup finds. -/
structure Machine.Sound (m : Machine) (event : Event) (m' : Machine) : Prop where
  btb : m'.data.btb.Unique p.btbGeo
  tcTagged : m'.data.tcTagged.Unique p.tcGeo
  btbTarget : ∀ simTime i op, event = .targetKnown simTime i → m.ops[i]? = some op → op.writesBtb p →
    found p.btbGeo m'.data.btb op.predAddr = some op.target
  tcTarget : ∀ simTime i op, event = .targetKnown simTime i → m.ops[i]? = some op → op.writesTc p →
    found p.tcGeo m'.data.tcTagged (tcIndex p op.predTargHist op) = some op.target

/-- Every step of a run is sound. -/
def Machine.AlwaysSound : Machine → List Event → Prop
  | _, [] => True
  | m, event :: events => m.Sound p event (m.step p event) ∧ (m.step p event).AlwaysSound events

/-- A line is in no way but the one that an insertion replaces. -/
def MayInsert (geo : Geometry) (c : Cache Addr) (addr : Addr) : Prop :=
  ∀ way < geo.assoc, c.Holds geo addr way → way = c.findReplEntry geo (geo.set addr)

/-- What an update writes may go in. -/
def Machine.MayUpdate (m : Machine) : Event → Prop
  | .targetKnown _ i => ∀ op, m.ops[i]? = some op →
      (op.writesBtb p → MayInsert p.btbGeo m.data.btb op.predAddr) ∧
      (op.writesTc p → MayInsert p.tcGeo m.data.tcTagged (tcIndex p op.predTargHist op))
  | _ => True

/-- Every update of a run writes what may go in. -/
def Machine.AlwaysMayUpdate : Machine → List Event → Prop
  | _, [] => True
  | m, event :: events => m.MayUpdate p event ∧ (m.step p event).AlwaysMayUpdate events

/-! ## One insertion -/

variable {p} {geo : Geometry} {c : Cache Addr} {simTime procId : ℕ} {addr target : Addr}

/-- The insertion of a line with its target. -/
def insertTarget (geo : Geometry) (c : Cache Addr) (simTime procId : ℕ) (addr target : Addr) : Cache Addr :=
  (c.insert geo simTime procId addr).2.setData (geo.set addr) (c.insert geo simTime procId addr).1 target

theorem findReplEntry_lt (hassoc : 0 < geo.assoc) (hrepl : geo.replPolicy = .trueLru) (set : Addr) :
    c.findReplEntry geo set < geo.assoc := by
  unfold Cache.findReplEntry
  rw [hrepl]
  exact Memory.find_getD_lt (fun _ => Memory.Geometry.mem_ways.mp) (Cache.oldest_lt hassoc _)

/-- The line is there once, with its target, exactly when it may go in. -/
theorem insertTarget_unique_iff (hassoc : 0 < geo.assoc) (hrepl : geo.replPolicy = .trueLru) (hunique : c.Unique geo)
    (simTime procId : ℕ) (addr target : Addr) :
    (insertTarget geo c simTime procId addr target).Unique geo ↔ MayInsert geo c addr := by
  have hinserts : c.Inserts geo addr (c.findReplEntry geo (geo.set addr)) (insertTarget geo c simTime procId addr target) :=
    Cache.insertReplpos_inserts.setData
  exact hinserts.unique_iff (findReplEntry_lt hassoc hrepl _) hunique

theorem insertTarget_found (hassoc : 0 < geo.assoc) (hrepl : geo.replPolicy = .trueLru)
    (hunique : (insertTarget geo c simTime procId addr target).Unique geo) :
    found geo (insertTarget geo c simTime procId addr target) addr = some target := by
  have hholds : (insertTarget geo c simTime procId addr target).Holds geo addr (c.findReplEntry geo (geo.set addr)) :=
    Cache.insertReplpos_inserts.setData.holds
  unfold found
  rw [hunique.lookup (findReplEntry_lt hassoc hrepl _) hholds, Option.map_some]
  unfold insertTarget Cache.setData
  rw [show (c.insert geo simTime procId addr).1 = c.findReplEntry geo (geo.set addr) from rfl, Cache.setEntry_self]

/-! ## One step -/

/-- The caches hold the same lines. -/
def BpData.SameLines (d d' : BpData) : Prop := d.btb.SameLines d'.btb ∧ d.tcTagged.SameLines d'.tcTagged

section

variable (p) (d : BpData) (simTime : ℕ) (op : Op)

theorem bpBtbGenPred_sameLines : (bpBtbGenPred p d simTime op).2.SameLines d := by
  unfold bpBtbGenPred
  split
  · exact ⟨.refl _, .refl _⟩
  · exact ⟨Cache.access_sameLines, .refl _⟩

theorem bpIbtbTcTaggedPred_sameLines : (bpIbtbTcTaggedPred p d simTime op).2.2.SameLines d := by
  unfold bpIbtbTcTaggedPred
  split
  · exact ⟨.refl _, .refl _⟩
  · exact ⟨.refl _, Cache.access_sameLines⟩

/-- A prediction leaves the lines where they are. -/
theorem bpPredictOp_sameLines : (bpPredictOp p d simTime op).2.SameLines d := by
  unfold bpPredictOp
  dsimp only
  split
  · exact ⟨.refl _, .refl _⟩
  · have hbtb := bpBtbGenPred_sameLines p d simTime { op with info := ⟨d.globalHist, op.dir, d.targHist⟩ }
    split
    · exact hbtb
    · split
      · have htc := bpIbtbTcTaggedPred_sameLines p
        exact ⟨(htc _ _ _).1.trans hbtb.1, (htc _ _ _).2.trans hbtb.2⟩
      · exact hbtb
    · split
      · have htc := bpIbtbTcTaggedPred_sameLines p
        exact ⟨(htc _ _ _).1.trans hbtb.1, (htc _ _ _).2.trans hbtb.2⟩
      · exact hbtb
    · exact hbtb

/-- What an update writes. -/
theorem bpTargetKnownOp_btb : (bpTargetKnownOp p d simTime op).btb =
    if op.writesBtb p then insertTarget p.btbGeo d.btb simTime d.procId op.predAddr op.target else d.btb := by
  unfold bpTargetKnownOp bpBtbGenUpdate bpIbtbTcTaggedUpdate Op.writesBtb
  cases op.btbMiss <;> cases p.btbOffPathWrites || !op.offPath <;> cases op.writesTc p <;> rfl

theorem bpTargetKnownOp_tcTagged : (bpTargetKnownOp p d simTime op).tcTagged =
    if op.writesTc p then insertTarget p.tcGeo d.tcTagged simTime d.procId (tcIndex p op.predTargHist op) op.target
    else d.tcTagged := by
  unfold bpTargetKnownOp bpBtbGenUpdate bpIbtbTcTaggedUpdate
  cases op.btbMiss <;> cases p.btbOffPathWrites || !op.offPath <;> cases op.writesTc p <;> rfl

end

variable {m : Machine}

/-- An update of unique lines is sound exactly when what it writes may go in. -/
theorem Machine.sound_targetKnown_iff {i : ℕ} (hbtb : m.data.btb.Unique p.btbGeo) (htc : m.data.tcTagged.Unique p.tcGeo) :
    m.Sound p (.targetKnown simTime i) (m.step p (.targetKnown simTime i)) ↔ m.MayUpdate p (.targetKnown simTime i) := by
  unfold Machine.MayUpdate
  cases hop : m.ops[i]? with
  | none =>
      have hstep : m.step p (.targetKnown simTime i) = m := by
        unfold Machine.step
        simp only [hop]
      rw [hstep]
      refine iff_of_true ⟨hbtb, htc, ?_, ?_⟩ fun op h => by simp [hop] at h
      · intro _ i' op heq h
        obtain ⟨rfl, rfl⟩ := Event.targetKnown.inj heq
        rw [hop] at h
        cases h
      · intro _ i' op heq h
        obtain ⟨rfl, rfl⟩ := Event.targetKnown.inj heq
        rw [hop] at h
        cases h
  | some op =>
      have hbtb' := bpTargetKnownOp_btb p m.data simTime op
      have htc' := bpTargetKnownOp_tcTagged p m.data simTime op
      have hbtbIff := insertTarget_unique_iff p.btbAssoc_pos rfl hbtb simTime m.data.procId op.predAddr
        op.target
      have htcIff := insertTarget_unique_iff p.tcAssoc_pos rfl htc simTime m.data.procId
        (tcIndex p op.predTargHist op) op.target
      have hstep : m.step p (.targetKnown simTime i) = { m with data := bpTargetKnownOp p m.data simTime op } := by
        unfold Machine.step
        simp only [hop]
      rw [hstep]
      constructor
      · intro hsound op' heq
        obtain rfl : op = op' := Option.some.inj (hop.symm.trans heq)
        constructor
        · intro hwrites
          have hunique : (bpTargetKnownOp p m.data simTime op).btb.Unique p.btbGeo := hsound.btb
          rw [hbtb', if_pos hwrites] at hunique
          exact hbtbIff.mp hunique
        · intro hwrites
          have hunique : (bpTargetKnownOp p m.data simTime op).tcTagged.Unique p.tcGeo := hsound.tcTagged
          rw [htc', if_pos hwrites] at hunique
          exact htcIff.mp hunique
      · intro hmay
        obtain ⟨hmayBtb, hmayTc⟩ := hmay op hop
        refine ⟨?_, ?_, ?_, ?_⟩
        · change (bpTargetKnownOp p m.data simTime op).btb.Unique p.btbGeo
          rw [hbtb']
          split
          · rename_i hwrites
            exact hbtbIff.mpr (hmayBtb hwrites)
          · exact hbtb
        · change (bpTargetKnownOp p m.data simTime op).tcTagged.Unique p.tcGeo
          rw [htc']
          split
          · rename_i hwrites
            exact htcIff.mpr (hmayTc hwrites)
          · exact htc
        · intro _ i' op' heq h hwrites
          obtain ⟨rfl, rfl⟩ := Event.targetKnown.inj heq
          rw [hop] at h
          cases h
          change found _ (bpTargetKnownOp p m.data simTime op).btb _ = _
          rw [hbtb', if_pos hwrites]
          exact insertTarget_found p.btbAssoc_pos rfl (hbtbIff.mpr (hmayBtb hwrites))
        · intro _ i' op' heq h hwrites
          obtain ⟨rfl, rfl⟩ := Event.targetKnown.inj heq
          rw [hop] at h
          cases h
          change found _ (bpTargetKnownOp p m.data simTime op).tcTagged _ = _
          rw [htc', if_pos hwrites]
          exact insertTarget_found p.tcAssoc_pos rfl (htcIff.mpr (hmayTc hwrites))

/-- The other events leave the lines where they are. -/
theorem Machine.step_sameLines (p : Params) (m : Machine) (event : Event)
    (hevent : ∀ simTime i, event ≠ .targetKnown simTime i) :
    (m.step p event).data.SameLines m.data := by
  unfold Machine.step
  cases event with
  | predict simTime op => exact bpPredictOp_sameLines p m.data simTime op
  | fetchBarrier i => exact ⟨.refl _, .refl _⟩
  | targetKnown simTime i => exact (hevent simTime i rfl).elim
  | recover i =>
      dsimp only
      split
      · exact ⟨.refl _, .refl _⟩
      · exact ⟨.refl _, .refl _⟩

theorem Machine.sound_iff (hbtb : m.data.btb.Unique p.btbGeo) (htc : m.data.tcTagged.Unique p.tcGeo) (event : Event) :
    m.Sound p event (m.step p event) ↔ m.MayUpdate p event := by
  cases event with
  | targetKnown simTime i => exact m.sound_targetKnown_iff hbtb htc
  | predict simTime op =>
      obtain ⟨hb, ht⟩ := Machine.step_sameLines p m (.predict simTime op) fun _ _ => Event.noConfusion
      exact ⟨fun _ => trivial, fun _ => ⟨hb.unique hbtb, ht.unique htc, fun _ _ _ h => Event.noConfusion h,
        fun _ _ _ h => Event.noConfusion h⟩⟩
  | fetchBarrier i =>
      exact ⟨fun _ => trivial, fun _ => ⟨hbtb, htc, fun _ _ _ h => Event.noConfusion h, fun _ _ _ h => Event.noConfusion h⟩⟩
  | recover i =>
      obtain ⟨hb, ht⟩ := Machine.step_sameLines p m (.recover i) fun _ _ => Event.noConfusion
      exact ⟨fun _ => trivial, fun _ => ⟨hb.unique hbtb, ht.unique htc, fun _ _ _ h => Event.noConfusion h,
        fun _ _ _ h => Event.noConfusion h⟩⟩

/-! ## Every run -/

theorem Machine.alwaysSound_iff (events : List Event) (hbtb : m.data.btb.Unique p.btbGeo)
    (htc : m.data.tcTagged.Unique p.tcGeo) : m.AlwaysSound p events ↔ m.AlwaysMayUpdate p events := by
  induction events generalizing m with
  | nil => exact Iff.rfl
  | cons event events ih =>
      have hfirst := Machine.sound_iff hbtb htc event
      unfold Machine.AlwaysSound Machine.AlwaysMayUpdate
      constructor
      · rintro ⟨hsound, hrest⟩
        exact ⟨hfirst.mp hsound, (ih hsound.btb hsound.tcTagged).mp hrest⟩
      · rintro ⟨hmay, hrest⟩
        have hsound := hfirst.mpr hmay
        exact ⟨hsound, (ih hsound.btb hsound.tcTagged).mpr hrest⟩

variable (p)

/-- In a run no set ever holds a tag twice, and every lookup after an update finds what was written, exactly
when no update writes a line that is in a way other than the one it replaces. -/
theorem targets_sound_iff (procId : ℕ) (btb tcTagged : Addr → ℕ → Addr) (events : List Event) :
    (Machine.init procId btb tcTagged).AlwaysSound p events ↔
      (Machine.init procId btb tcTagged).AlwaysMayUpdate p events :=
  Machine.alwaysSound_iff events (fun _ _ _ _ _ hvalid => Bool.noConfusion hvalid)
    (fun _ _ _ _ _ hvalid => Bool.noConfusion hvalid)

/-- The default parameters. -/
def Params.default : Params where
  btbAssoc := 4
  btbSetBits := 10
  tcAssoc := 4
  tcSetBits := 10
  btbAssoc_pos := Nat.succ_pos 3
  tcAssoc_pos := Nat.succ_pos 3
  btbOffPathWrites := true
  ibtbOffPathWrites := true
  enableIbp := true
  usePatHist := true
  ibtbHashTos := false
  perfectBtb := false
  perfectIbp := false
  perfectCbrBtb := false
  perfectNtBtb := false
  targetBitLength := 4

/-- An indirect branch. -/
def indirect (target : Addr) : Op := ⟨0x1000, .ibr, false, true, true, target, 0, false, 0, ⟨0, false, 0⟩⟩

/-- Two instances of a branch that both missed write two lines, and the older target is found. -/
theorem targets_twice :
    ¬ (Machine.init 0 (fun _ _ => 0) fun _ _ => 0).AlwaysSound .default
      [.predict 1 (indirect 0x2000), .predict 2 (indirect 0x3000), .targetKnown 3 0, .targetKnown 4 1] := by
  rintro ⟨-, -, -, hsound, -⟩
  have hop : (Machine.step .default (Machine.step .default (Machine.step .default
      (Machine.init 0 (fun _ _ => 0) fun _ _ => 0) (.predict 1 (indirect 0x2000))) (.predict 2 (indirect 0x3000)))
        (.targetKnown 3 0)).ops[1]? = some { indirect 0x3000 with btbMiss := true, info := ⟨0, true, 0⟩ } := by
    decide +kernel
  have hfound := hsound.btbTarget 4 1 _ rfl hop rfl
  exact absurd hfound (by decide +kernel)

end Scarab.Bp.Targets

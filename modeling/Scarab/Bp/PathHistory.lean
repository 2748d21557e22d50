import Scarab.Bp.Targets
import Scarab.Lib.Bits

/-! # The path history of the target caches

The tagged and the tagless target cache keep one path history, and the hybrid one asks either of
them. Each prediction shifts the history and puts bits of the target into its top. -/

namespace Scarab.Bp.Targets

/-! ## The code -/

/-- `COOK_HIST_BITS(hist, 0)`. -/
def cookHistBits (ibtbHistLength : ℕ) (hist : Uns) : Uns := hist >>> (32 - ibtbHistLength)

/-- `COOK_ADDR_BITS`. -/
def cookAddrBits (ibtbHistLength : ℕ) (addr : Addr) (addrShift : ℕ) : Uns :=
  (addr >>> addrShift &&& ((1 : Addr) <<< ibtbHistLength - 1)).setWidth 32

/-- `bp_ibtb_tc_tagless_pred`: the target that is in the table. -/
def bpIbtbTcTaglessPred (p : Params) (ibtbHistLength : ℕ) (tcTagless : Uns → Addr) (d : BpData) (op : Op) :
    Addr × Op × BpData :=
  if p.perfectIbp then (op.target, op, d)
  else
    let hist := if p.usePatHist then d.globalHist else d.targHist
    let targHist := if p.usePatHist then d.globalHist else d.targHist >>> p.targetBitLength ||| targetBits p op.target
    let cookedHist := cookHistBits ibtbHistLength hist
    let cookedAddr := cookAddrBits ibtbHistLength op.predAddr 2
    let tcIndex := cookedHist ^^^ cookedAddr
    let tcIndex := if p.ibtbHashTos then tcIndex ^^^ cookAddrBits ibtbHistLength op.tosAddr 2 else tcIndex
    (tcTagless tcIndex, { op with predTargHist := hist, info := { op.info with targHist } }, { d with targHist })

/-- A prediction of the target of an op, with the cache that is asked. -/
structure Prediction where
  tagless : Bool
  tcTagless : Uns → Addr
  simTime : ℕ
  op : Op

/-- The op and the predictor after a prediction. -/
def Prediction.make (p : Params) (ibtbHistLength : ℕ) (d : BpData) (prediction : Prediction) : Op × BpData :=
  if prediction.tagless then (bpIbtbTcTaglessPred p ibtbHistLength prediction.tcTagless d prediction.op).2
  else (bpIbtbTcTaggedPred p d prediction.simTime prediction.op).2

/-- The predictor after a sequence of predictions. -/
def BpData.predict (p : Params) (ibtbHistLength : ℕ) (d : BpData) (predictions : List Prediction) : BpData :=
  predictions.foldl (fun d prediction => (prediction.make p ibtbHistLength d).2) d

/-! ## Concatenations of bits -/

/-- The low bits of `target >> 2`, the highest first. -/
def lowBits (length : ℕ) (target : Addr) : List Bool :=
  (List.range length).map fun r => (target >>> 2).getLsbD (length - 1 - r)

/-- From its top the register holds the low bits of the targets, as many as fit, and is 0 below. -/
def IsConcatenation (length : ℕ) (targets : List Addr) (hist : Uns) : Prop :=
  ∀ i < 32, hist.getMsbD i = ((targets.flatMap (lowBits length))[i]?).getD false

instance (length : ℕ) (targets : List Addr) (hist : Uns) : Decidable (IsConcatenation length targets hist) :=
  inferInstanceAs (Decidable (∀ i < 32, _))

/-- For every target that the register has room for, the bits that stand under the mask are the low
ones. -/
def SameBits (length : ℕ) (targets : List Addr) : Prop :=
  ∀ (q r : ℕ) (target : Addr), targets[q]? = some target → r < length → length * q + r < 32 →
    (target >>> 2).getLsbD (31 - r) = (target >>> 2).getLsbD (length - 1 - r)

variable {p : Params} {ibtbHistLength length : ℕ} {targets : List Addr} {target : Addr} {d : BpData} {hist : Uns}

theorem getElem?_flatMap_lowBits (hpos : 0 < length) (i : ℕ) :
    ((targets.flatMap (lowBits length))[i]?).getD false =
      match targets[i / length]? with
      | some target => (target >>> 2).getLsbD (length - 1 - i % length)
      | none => false := by
  induction targets generalizing i with
  | nil => rfl
  | cons target targets ih =>
      have hlength : (lowBits length target).length = length := by
        unfold lowBits
        rw [List.length_map, List.length_range]
      rw [List.flatMap_cons]
      by_cases hfirst : i < length
      · rw [List.getElem?_append_left (by omega), Nat.div_eq_of_lt hfirst, Nat.mod_eq_of_lt hfirst]
        unfold lowBits
        rw [List.getElem?_map, List.getElem?_range hfirst]
        rfl
      · rw [List.getElem?_append_right (by omega), hlength, ih (i - length)]
        have hdiv : i / length = (i - length) / length + 1 := Nat.div_eq_sub_div hpos (by omega)
        have hmod : i % length = (i - length) % length := Nat.mod_eq_sub_mod (by omega)
        rw [hdiv, hmod, List.getElem?_cons_succ]

/-! ## The register -/

/-- The bits of the target that the mask leaves are those at the same places. -/
theorem getMsbD_targetBits (hlength : p.targetBitLength < 32) {i : ℕ} (hi : i < 32) :
    (targetBits p target).getMsbD i = (decide (i < p.targetBitLength) && (target >>> 2).getLsbD (31 - i)) := by
  unfold targetBits
  rw [BitVec.getMsbD_eq_getLsbD, decide_eq_true hi, Bool.true_and, BitVec.getLsbD_setWidth, Bits.one_shiftLeft_sub_one,
    BitVec.getLsbD_and, BitVec.getLsbD_shiftLeft, BitVec.getLsbD_ofNat, Nat.testBit_two_pow_sub_one]
  have hword : 32 - 1 - i < 32 := by omega
  by_cases htop : i < p.targetBitLength
  · have hplace : ¬ 32 - 1 - i < 32 - p.targetBitLength := by omega
    have hmask : 32 - 1 - i - (32 - p.targetBitLength) < p.targetBitLength := by omega
    have hsmall : 32 - 1 - i - (32 - p.targetBitLength) < 64 := by omega
    have haddr : 32 - 1 - i < 64 := by omega
    simp [htop, hword, hplace, hmask, hsmall, haddr]
  · have hplace : 32 - 1 - i < 32 - p.targetBitLength := by omega
    simp [htop, hplace]

/-- Either cache shifts the history and puts the bits of the target in, and saves what results. -/
theorem Prediction.make_spec (hperfect : p.perfectIbp = false) (hpath : p.usePatHist = false) (prediction : Prediction) :
    (prediction.make p ibtbHistLength d).2.targHist =
        d.targHist >>> p.targetBitLength ||| targetBits p prediction.op.target ∧
      (prediction.make p ibtbHistLength d).1.info.targHist = (prediction.make p ibtbHistLength d).2.targHist := by
  unfold Prediction.make bpIbtbTcTaglessPred bpIbtbTcTaggedPred
  cases prediction.tagless with
  | true => simp [hperfect, hpath]
  | false => simp [hperfect, hpath]

/-- The bits of the history from the top. -/
theorem getMsbD_predict (hperfect : p.perfectIbp = false) (hpath : p.usePatHist = false) (hpos : 0 < p.targetBitLength)
    (hlength : p.targetBitLength < 32) (hd : d.targHist = 0) (predictions : List Prediction) {i : ℕ} (hi : i < 32) :
    (d.predict p ibtbHistLength predictions).targHist.getMsbD i =
      match (predictions.map fun prediction => prediction.op.target).reverse[i / p.targetBitLength]? with
      | some target => (target >>> 2).getLsbD (31 - i % p.targetBitLength)
      | none => false := by
  induction predictions using List.reverseRecOn generalizing i with
  | nil =>
      change d.targHist.getMsbD i = false
      rw [hd]
      exact BitVec.getMsbD_zero
  | append_singleton predictions prediction ih =>
      have hlast : d.predict p ibtbHistLength (predictions ++ [prediction]) =
          (prediction.make p ibtbHistLength (d.predict p ibtbHistLength predictions)).2 := by
        unfold BpData.predict
        rw [List.foldl_append]
        rfl
      rw [hlast, (prediction.make_spec hperfect hpath).1, BitVec.getMsbD_or, BitVec.getMsbD_ushiftRight,
        getMsbD_targetBits hlength hi, List.map_append, List.reverse_append]
      by_cases hfirst : i < p.targetBitLength
      · rw [Nat.div_eq_of_lt hfirst, Nat.mod_eq_of_lt hfirst]
        simp [hfirst]
      · have hdiv : i / p.targetBitLength = (i - p.targetBitLength) / p.targetBitLength + 1 :=
          Nat.div_eq_sub_div hpos (by omega)
        have hmod : i % p.targetBitLength = (i - p.targetBitLength) % p.targetBitLength := Nat.mod_eq_sub_mod (by omega)
        rw [hdiv, hmod, ih (by omega)]
        simp [hfirst, hi]

/-- The register after a sequence of predictions is the concatenation exactly if the bits agree. -/
theorem predict_isConcatenation_iff (hperfect : p.perfectIbp = false) (hpath : p.usePatHist = false)
    (hpos : 0 < p.targetBitLength) (hlength : p.targetBitLength < 32) (hd : d.targHist = 0) (predictions : List Prediction) :
    IsConcatenation p.targetBitLength (predictions.map fun prediction => prediction.op.target).reverse
        (d.predict p ibtbHistLength predictions).targHist ↔
      SameBits p.targetBitLength (predictions.map fun prediction => prediction.op.target).reverse := by
  have hbits := fun i hi => @getMsbD_predict p ibtbHistLength d hperfect hpath hpos hlength hd predictions i hi
  generalize (predictions.map fun prediction => prediction.op.target).reverse = targets at hbits ⊢
  constructor
  · intro hconcat q r target htarget hr hfits
    have hbit := hconcat _ hfits
    rw [hbits _ hfits, getElem?_flatMap_lowBits hpos, Nat.mul_add_div hpos, Nat.div_eq_of_lt hr, Nat.add_zero,
      Nat.mul_add_mod, Nat.mod_eq_of_lt hr, htarget] at hbit
    exact hbit
  · intro hsame i hi
    rw [hbits i hi, getElem?_flatMap_lowBits hpos]
    cases htarget : targets[i / p.targetBitLength]? with
    | none => rfl
    | some target =>
        refine hsame _ _ target htarget (Nat.mod_lt i hpos) ?_
        rw [Nat.div_add_mod]
        exact hi

/-- After any sequence of predictions, with the tagged, the tagless or the hybrid target cache, the
history and what is saved for a recovery are the concatenation exactly if the bits agree. -/
theorem pathHistory_isConcatenation_iff (hperfect : p.perfectIbp = false) (hpath : p.usePatHist = false)
    (hpos : 1 ≤ p.targetBitLength) (hlength : p.targetBitLength ≤ 31) (hd : d.targHist = 0) (before : List Prediction)
    (last : Prediction) :
    (let targets := ((before ++ [last]).map fun prediction => prediction.op.target).reverse
      let (op, d) := last.make p ibtbHistLength (d.predict p ibtbHistLength before)
      IsConcatenation p.targetBitLength targets d.targHist ∧ IsConcatenation p.targetBitLength targets op.info.targHist) ↔
      SameBits p.targetBitLength ((before ++ [last]).map fun prediction => prediction.op.target).reverse := by
  have hlast : (last.make p ibtbHistLength (d.predict p ibtbHistLength before)).2 =
      d.predict p ibtbHistLength (before ++ [last]) := by
    unfold BpData.predict
    rw [List.foldl_append]
    rfl
  dsimp only
  rw [(last.make_spec hperfect hpath).2, and_self, hlast]
  exact predict_isConcatenation_iff hperfect hpath hpos (by omega) hd (before ++ [last])

/-- Targets whose bits all agree: with a length of 4 the bits 28 to 31 and 0 to 3 of `target >> 2`. -/
theorem pathHistory_isConcatenation_iff_same :
    let p : Params := { Params.default with usePatHist := false }
    let d := (Machine.init 0 (fun _ _ => 0) fun _ _ => 0).data
    let prediction : Prediction := ⟨false, fun _ => 0, 1, indirect (0x40000004)⟩
    IsConcatenation 4 [0x40000004, 0x40000004]
      (prediction.make p 16 (d.predict p 16 [{ prediction with tagless := true }])).2.targHist := by
  have hbits : ∀ r < 4, ((0x40000004 : Addr) >>> 2).getLsbD (31 - r) = ((0x40000004 : Addr) >>> 2).getLsbD (4 - 1 - r) := by
    decide
  have hsame : SameBits 4 [0x40000004, 0x40000004] := by
    intro q r target htarget hr _
    obtain rfl : target = 0x40000004 := by
      have hmem := List.mem_of_getElem? htarget
      simpa using hmem
    exact hbits r hr
  exact ((pathHistory_isConcatenation_iff rfl rfl (by decide) (by decide) rfl
    [⟨true, fun _ => 0, 1, indirect (0x40000004)⟩] ⟨false, fun _ => 0, 1, indirect (0x40000004)⟩).mpr hsame).1

/-- With the default length a target of 0x1004 leaves no trace in the history. -/
theorem pathHistory_loses_bits :
    let p : Params := { Params.default with usePatHist := false }
    let d := (Machine.init 0 (fun _ _ => 0) fun _ _ => 0).data
    (∀ tagless, ((Prediction.mk tagless (fun _ => 0) 1 (indirect 0x1004)).make p 16 d).2.targHist = 0) ∧
      ¬ IsConcatenation 4 [0x1004] 0 := by
  refine ⟨fun tagless => ?_, by decide⟩
  rw [(Prediction.make_spec rfl rfl _).1]
  revert tagless
  decide +kernel

end Scarab.Bp.Targets

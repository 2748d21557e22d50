import Scarab.Lib.ShiftRegister
import Scarab.Lib.Bits
import Scarab.Prefetcher.Spp.GlobalHistory
import Scarab.Prefetcher.Spp.PatternTable
import Scarab.Prefetcher.Spp.Hops

/-! # The memory of a signature

A signature is a shift register over the deltas of its page, or over those that the lookahead loop follows. It
remembers as many of them as fit into `SIG_BIT` bits, and not where it started. -/

namespace Scarab.Spp

open ShiftRegister

variable {σ : Type} {p : Params} {addto : AddTo σ} {spp : PrefSpp} {hop next : Hop} {w : World σ}

/-! ## Folding deltas -/

/-- The signature after a delta. -/
def foldDelta (p : Params) (sig : Uns) (delta : ℤ) : Uns := mix p.sigShift p.sigMask sig (sppEncodeSigDelta p delta)

theorem foldl_foldDelta (sig : Uns) (deltas : List ℤ) :
    deltas.foldl (foldDelta p) sig = (deltas.map (sppEncodeSigDelta p)).foldl (mix p.sigShift p.sigMask) sig := by
  rw [List.foldl_map]
  rfl

theorem sigMask_getLsbD {i : ℕ} (hi : p.sigBit ≤ i) : p.sigMask.getLsbD i = false := by
  have hmask : p.sigMask = BitVec.ofNat 32 (2 ^ p.sigBit - 1) := Bits.one_shiftLeft_sub_one p.sigBit
  rw [hmask, BitVec.getLsbD_ofNat, Nat.testBit_two_pow_sub_one]
  simp [Nat.not_lt_of_le hi]

/-- `SIG_BIT / SIG_SHIFT`, rounded up. -/
def Params.sigMemory (p : Params) : ℕ := (p.sigBit + p.sigShift - 1) / p.sigShift

theorem sigBit_le_memory (hshift : 1 ≤ p.sigShift) : p.sigBit ≤ p.sigMemory * p.sigShift := by
  have hdiv := Nat.div_add_mod (p.sigBit + p.sigShift - 1) p.sigShift
  have hmod := Nat.mod_lt (p.sigBit + p.sigShift - 1) hshift
  unfold Params.sigMemory
  rw [Nat.mul_comm]
  omega

/-- A signature that comes of folding the deltas, from some start. -/
def Recalls (p : Params) (deltas : List ℤ) (sig : Uns) : Prop :=
  ∃ start, Masked p.sigMask start ∧ deltas.foldl (foldDelta p) start = sig

theorem Recalls.start {sig : Uns} (h : Masked p.sigMask sig) : Recalls p [] sig := ⟨sig, h, rfl⟩

theorem Recalls.fold {deltas : List ℤ} {sig : Uns} (h : Recalls p deltas sig) (delta : ℤ) :
    Recalls p (deltas ++ [delta]) (foldDelta p sig delta) := by
  obtain ⟨start, hmasked, rfl⟩ := h
  exact ⟨start, hmasked, List.foldl_append⟩

/-- Only the last `sigMemory` deltas count. -/
theorem Recalls.unique (hshift : 1 ≤ p.sigShift) {first first' last : List ℤ} {sig sig' : Uns}
    (hlen : last.length = p.sigMemory) (h : Recalls p (first ++ last) sig) (h' : Recalls p (first' ++ last) sig') :
    sig = sig' := by
  obtain ⟨start, hmasked, rfl⟩ := h
  obtain ⟨start', hmasked', rfl⟩ := h'
  rw [List.foldl_append, List.foldl_append, foldl_foldDelta _ last, foldl_foldDelta _ last, foldl_foldDelta, foldl_foldDelta]
  refine foldl_forget (n := p.sigBit) (fun i hi => sigMask_getLsbD hi) (foldl_masked hmasked _ _) (foldl_masked hmasked' _ _) ?_
  rw [List.length_map, hlen]
  exact sigBit_le_memory hshift

theorem masked_zero (mask : Uns) : Masked mask 0 := BitVec.zero_and

/-- A new entry starts from a signature that the GHR gives it, or from none. -/
theorem ghrBoot_masked (ghr : List SppGhrEntry) (pageOffset : ℕ) : Masked p.sigMask (ghrBoot p ghr pageOffset) := by
  unfold ghrBoot
  split
  · split
    · exact mix_masked _ _ _ _
    · exact masked_zero _
  · exact masked_zero _

/-! ## The entries of the Signature Table -/

/-- The set and the tag of the page of a demand. -/
def demandKey (p : Params) (lineAddr : Addr) : ℕ × Uns :=
  (stSetOf p (p.lineBase lineAddr >>> p.log2Page), partialPage p (p.lineBase lineAddr >>> p.log2Page))

/-- The deltas folded into the entry of each page since it was installed. -/
abbrev Folds := ℕ × Uns → List ℤ

/-- The deltas of the entry that a demand finds or installs, after it. -/
def foldsAfter (p : Params) (w : World σ) (lineAddr : Addr) (out : SppStOut) (folds : Folds) : List ℤ :=
  match stMatch (w.spp.st (demandKey p lineAddr).1) (demandKey p lineAddr).2 with
  | none => []
  | some _ => if out.delta = 0 then folds (demandKey p lineAddr) else folds (demandKey p lineAddr) ++ [out.delta]

/-- A step of the prefetcher, with the deltas of the entries. -/
inductive FoldStep (p : Params) (addto : AddTo σ) : World σ × Folds → World σ × Folds → Prop where
  | train {w w' : World σ} {lineAddr : Addr} {hop : Hop} {row : List SppStEntry} {out : SppStOut} {folds : Folds}
      (h : sppTrain p w lineAddr = .ok (w', hop)) (hs : TrainSpec p lineAddr w w' hop row out) :
      FoldStep p addto (w, folds)
        (w', Function.update folds (demandKey p lineAddr) (foldsAfter p w lineAddr out folds))
  | idle {w w' : World σ} {folds : Folds} (h : Step p addto w w') (hst : w'.spp.st = w.spp.st) :
      FoldStep p addto (w, folds) (w', folds)

/-- A world that the prefetcher reaches, with the deltas that it folded into its entries. -/
def FoldVisited (p : Params) (addto : AddTo σ) (w : World σ) (folds : Folds) : Prop :=
  Execution.Visited (fun s => Initial p s.1 ∧ s.2 = fun _ => []) (FoldStep p addto) (w, folds)

theorem FoldStep.step {s s' : World σ × Folds} (h : FoldStep p addto s s') : Step p addto s.1 s'.1 := by
  cases h with
  | train h => exact .train h
  | idle h => exact h

theorem FoldVisited.visited {folds : Folds} (h : FoldVisited p addto w folds) : Visited p addto w :=
  Execution.Visited.map (f := Prod.fst) (fun _ hinit => hinit.1) (fun _ _ hstep => .single hstep.step) h

/-- Every world that the prefetcher reaches has such deltas. -/
theorem Visited.folds (h : Visited p addto w) : ∃ folds, FoldVisited p addto w folds := by
  refine h.invariant (I := fun w => ∃ folds, FoldVisited p addto w folds) ?_ ?_
  · intro w hinit
    exact ⟨fun _ => [], (w, fun _ => []), ⟨hinit, rfl⟩, .refl⟩
  · rintro w w' ⟨folds, hfolds⟩ hstep
    cases hstep with
    | train h =>
        obtain ⟨row, out, hs⟩ := sppTrain_spec h
        exact ⟨_, hfolds.step (.train h hs)⟩
    | candidate h => exact ⟨folds, hfolds.step (.idle (.candidate h) (sppCandidate_tables h).1)⟩
    | ul1PrefHit lineAddr =>
        refine ⟨folds, hfolds.step (.idle (.ul1PrefHit w lineAddr) ?_)⟩
        simp [prefSppUl1PrefHit, sppFilterCheck_demand]
    | fill addr => exact ⟨folds, hfolds.step (.idle (.fill w addr) rfl)⟩
    | evict procId addr => exact ⟨folds, hfolds.step (.idle (.evict w procId addr) rfl)⟩
    | others queue => exact ⟨folds, hfolds.step (.idle (.others w queue) rfl)⟩

/-! ## The signatures of the entries -/

/-- What an access does to the deltas of its page, in terms of the map that the row stands for. -/
theorem lruAccess_recalls {m : StMap} {tag : Uns} {boot : Uns} (pageOffset : ℕ) {deltas : List ℤ}
    (hboot : Masked p.sigMask boot) (hm : ∀ sig lastOffset, m.lookup tag = some (sig, lastOffset) → Recalls p deltas sig) :
    let deltas' := if m.lookup tag = none then [] else if (lruAccess p boot m tag pageOffset).2.delta = 0 then deltas
      else deltas ++ [(lruAccess p boot m tag pageOffset).2.delta]
    (∃ v, (lruAccess p boot m tag pageOffset).1 = Recency.touch p.stWay tag v m ∧ Recalls p deltas' v.1) ∧
      Recalls p (if (lruAccess p boot m tag pageOffset).2.delta = 0 then [] else deltas')
        (lruAccess p boot m tag pageOffset).2.currSig := by
  unfold lruAccess
  cases hlookup : m.lookup tag with
  | none => exact ⟨⟨_, rfl, .start hboot⟩, .start hboot⟩
  | some v =>
      obtain ⟨sig, lastOffset⟩ := v
      have hsig := hm sig lastOffset hlookup
      by_cases hdelta : (pageOffset : ℤ) - lastOffset = 0
      · simp only [hdelta, if_true, reduceCtorEq, if_false]
        exact ⟨⟨_, rfl, hsig⟩, .start (masked_zero _)⟩
      · simp only [hdelta, if_false, reduceCtorEq]
        exact ⟨⟨_, rfl, hsig.fold _⟩, hsig.fold _⟩

/-- The entries hold what was folded into them. -/
def FoldsOk (p : Params) (s : World σ × Folds) : Prop :=
  ∀ set, ∀ e ∈ s.1.spp.st set, e.valid = true → Recalls p (s.2 (set, e.tag)) e.sig

theorem lookup_eq_none_iff {m : StMap} {tag : Uns} : m.lookup tag = none ↔ tag ∉ m.map (·.1) := by
  rw [List.lookup_eq_none_iff, List.mem_map]
  constructor
  · rintro hall ⟨e, he, rfl⟩
    simpa using hall e he
  · intro hno e he
    have hne : tag ≠ e.1 := fun h => hno ⟨e, he, h.symm⟩
    simpa using hne

theorem mem_of_lookup {m : StMap} {tag : Uns} {v : Uns × ℕ} (h : m.lookup tag = some v) : (tag, v) ∈ m := by
  obtain ⟨before, after, rfl, -⟩ := List.lookup_eq_some_iff.mp h
  simp

/-- What a demand does to the deltas of its page, and the deltas of the signature that its lookahead starts from. -/
theorem TrainSpec.recalls {w' : World σ} {lineAddr : Addr} {row : List SppStEntry} {out : SppStOut} {folds : Folds}
    (hw : Visited p addto w) (hs : TrainSpec p lineAddr w w' hop row out) (hok : FoldsOk p (w, folds)) :
    (∀ e ∈ row, e.valid = true → Recalls p
      (Function.update folds (demandKey p lineAddr) (foldsAfter p w lineAddr out folds) ((demandKey p lineAddr).1, e.tag))
        e.sig) ∧
      Recalls p (if out.delta = 0 then [] else foldsAfter p w lineAddr out folds) out.currSig := by
  obtain ⟨m, hm⟩ := hw.represents (demandKey p lineAddr).1
  obtain ⟨row', hrow', hm'⟩ := stRow_represents hm (demandKey p lineAddr).2 w.spp.ghr (p.pageOffset (p.lineBase lineAddr))
  obtain ⟨rfl, rfl⟩ := Prod.mk.inj (Except.ok.inj (hs.row_eq.symm.trans hrow'))
  obtain ⟨used, free, hr⟩ := hm
  obtain ⟨used', free', hr'⟩ := hm'
  -- the entries of the map are the valid ways of the row
  have hentry : ∀ x ∈ m, Recalls p (folds ((demandKey p lineAddr).1, x.1)) x.2.1 := by
    intro x hx
    rw [← hr.entries] at hx
    obtain ⟨e, he, rfl⟩ := List.mem_map.mp hx
    obtain ⟨hrow, hvalid⟩ := hr.mem_used.mp he
    exact hok _ e hrow hvalid
  have hlookup : ∀ sig lastOffset, m.lookup (demandKey p lineAddr).2 = some (sig, lastOffset) →
      Recalls p (folds (demandKey p lineAddr)) sig := fun sig lastOffset h => hentry _ (mem_of_lookup h)
  have hafter : ∀ out, foldsAfter p w lineAddr out folds =
      if m.lookup (demandKey p lineAddr).2 = none then []
        else if out.delta = 0 then folds (demandKey p lineAddr) else folds (demandKey p lineAddr) ++ [out.delta] := by
    intro out
    unfold foldsAfter
    cases hmatch : stMatch (w.spp.st (demandKey p lineAddr).1) (demandKey p lineAddr).2 with
    | none => rw [if_pos (lookup_eq_none_iff.mpr (hr.stMatch_eq_none.mp hmatch))]
    | some way =>
        have hsome : m.lookup (demandKey p lineAddr).2 ≠ none := by
          intro hnone
          rw [hr.stMatch_eq_none.mpr (lookup_eq_none_iff.mp hnone)] at hmatch
          cases hmatch
        rw [if_neg hsome]
  obtain ⟨⟨v, htouch, hv⟩, hcurr⟩ := lruAccess_recalls (p := p) (p.pageOffset (p.lineBase lineAddr))
    (ghrBoot_masked w.spp.ghr (p.pageOffset (p.lineBase lineAddr))) hlookup
  rw [hafter]
  refine ⟨fun e he hvalid => ?_, hcurr⟩
  have hmem : e.view ∈ (lruAccess p (ghrBoot p w.spp.ghr (p.pageOffset (p.lineBase lineAddr))) m
      (demandKey p lineAddr).2 (p.pageOffset (p.lineBase lineAddr))).1 := by
    rw [← hr'.entries]
    exact List.mem_map_of_mem (hr'.mem_used.mpr ⟨he, hvalid⟩)
  rw [htouch] at hmem
  rcases Recency.mem_touch hmem with hnew | ⟨hold, htag⟩
  · obtain ⟨htag, hsig⟩ := Prod.mk.inj hnew
    have hkey : ((demandKey p lineAddr).1, e.tag) = demandKey p lineAddr := Prod.ext rfl htag
    have hesig : e.sig = v.1 := congrArg Prod.fst hsig
    rw [hkey, Function.update_self, hesig]
    exact hv
  · have hkey : ((demandKey p lineAddr).1, e.tag) ≠ demandKey p lineAddr := fun h => htag (congrArg Prod.snd h)
    rw [Function.update_of_ne hkey]
    exact hentry _ hold

theorem visited_foldsOk {s : World σ × Folds}
    (h : Execution.Visited (fun s => Initial p s.1 ∧ s.2 = fun _ => []) (FoldStep p addto) s) : FoldsOk p s := by
  obtain ⟨⟨w₀, folds₀⟩, hinit, hsteps⟩ := h
  have hvisited (s : World σ × Folds) (hs : Relation.ReflTransGen (FoldStep p addto) (w₀, folds₀) s) : Visited p addto s.1 :=
    (show FoldVisited p addto s.1 s.2 from ⟨(w₀, folds₀), hinit, hs⟩).visited
  induction hsteps with
  | refl =>
      obtain ⟨hw, -⟩ := hinit
      intro set e he hvalid
      obtain ⟨queue, hi⟩ := hw
      obtain ⟨used, free, hr⟩ := prefSppInit_represents hi set
      have hused := hr.mem_used.mpr ⟨he, hvalid⟩
      rw [List.map_eq_nil_iff.mp hr.entries] at hused
      cases hused
  | @tail s s' hs hstep ih =>
      cases hstep with
      | @train w w' lineAddr hop row out folds h htrain =>
          have hrecalls := (htrain.recalls (hvisited _ hs) ih).1
          intro set e he hvalid
          rw [htrain.st] at he
          by_cases hset : set = (demandKey p lineAddr).1
          · subst hset
            rw [demandKey, Function.update_self] at he
            exact hrecalls e he hvalid
          · have hother : set ≠ stSetOf p (p.lineBase lineAddr >>> p.log2Page) := hset
            have hkey : (set, e.tag) ≠ demandKey p lineAddr := fun h => hset (congrArg Prod.fst h)
            rw [Function.update_of_ne hother] at he
            dsimp only
            rw [Function.update_of_ne hkey]
            exact ih set e he hvalid
      | idle h hst =>
          intro set e he hvalid
          rw [hst] at he
          exact ih set e he hvalid

/-! ## The lookahead chain -/

/-- The delta of the way that a hop selects. -/
def Hop.chosenDelta (p : Params) (spp : PrefSpp) (hop : Hop) : ℤ :=
  ((spp.pt (ptSetOf p hop.currSig)).ways[(hop.read p spp).lookaheadWay]?.map (·.delta)).getD 0

/-- "Drive the next hop", some number of times, with the deltas that were chosen. -/
inductive Drives (p : Params) (spp : PrefSpp) (hop : Hop) : List ℤ → Hop → Prop where
  | start : Drives p spp hop [] hop
  | next {deltas : List ℤ} {last next : Hop} (h : Drives p spp hop deltas last)
      (hnext : nextHop p spp last (last.read p spp) = some next) :
      Drives p spp hop (deltas ++ [last.chosenDelta p spp]) next

/-- The hops of the loop are driven. -/
theorem hops_drives {fuel : ℕ} {hop' : Hop} (h : hop' ∈ hops p spp fuel hop) : ∃ deltas, Drives p spp hop deltas hop' := by
  suffices ∀ fuel last deltas, Drives p spp hop deltas last → hop' ∈ hops p spp fuel last → ∃ deltas, Drives p spp hop deltas hop' from
    this fuel hop [] .start h
  intro fuel
  induction fuel with
  | zero => exact nofun
  | succ fuel ih =>
      intro last deltas hdrives hmem
      rw [hops] at hmem
      rcases List.mem_cons.mp hmem with rfl | hmem
      · exact ⟨deltas, hdrives⟩
      · cases hnext : last.next? p spp with
        | none =>
            rw [hnext] at hmem
            cases hmem
        | some next =>
            rw [hnext] at hmem
            exact ih next _ (hdrives.next (Hop.next?_spec hnext).2.1) hmem

theorem nextHop_currSig (h : nextHop p spp hop (hop.read p spp) = some next) :
    next.currSig = foldDelta p hop.currSig (hop.chosenDelta p spp) := by
  obtain ⟨-, rfl⟩ := nextHop_spec h
  rfl

theorem Drives.recalls {deltas deltas' : List ℤ} {hop' : Hop} (h : Drives p spp hop deltas' hop')
    (hrecalls : Recalls p deltas hop.currSig) : Recalls p (deltas ++ deltas') hop'.currSig := by
  induction h with
  | start =>
      rw [List.append_nil]
      exact hrecalls
  | next _ hnext ih =>
      rw [nextHop_currSig hnext, ← List.append_assoc]
      exact ih.fold _

/-- A way that is selected has been counted. -/
theorem ptScan_way (conf : SppPtWay → ℕ) (ways : List SppPtWay) (w way maxConf : ℕ) :
    (ptScan p conf ways w way maxConf).lookaheadWay = way ∨
      ∃ i x, ways[i]? = some x ∧ (ptScan p conf ways w way maxConf).lookaheadWay = w + i ∧ 0 < conf x := by
  induction ways generalizing w way maxConf with
  | nil => exact .inl rfl
  | cons x ways ih =>
      have hlater (way maxConf : ℕ) (h : (ptScan p conf ways (w + 1) way maxConf).lookaheadWay = way ∨
          ∃ i y, ways[i]? = some y ∧ (ptScan p conf ways (w + 1) way maxConf).lookaheadWay = w + 1 + i ∧ 0 < conf y) :
          (ptScan p conf ways (w + 1) way maxConf).lookaheadWay = way ∨ ∃ i y, (x :: ways)[i]? = some y ∧
            (ptScan p conf ways (w + 1) way maxConf).lookaheadWay = w + i ∧ 0 < conf y := by
        rcases h with h | ⟨i, y, hy, hway, hpos⟩
        · exact .inl h
        · exact .inr ⟨i + 1, y, hy, by rw [hway, Nat.add_assoc, Nat.add_comm 1], hpos⟩
      rw [ptScan]
      by_cases hpf : p.pfThreshold ≤ conf x
      · simp only [hpf, if_true]
        by_cases hmax : maxConf < conf x
        · simp only [hmax, if_true]
          rcases hlater w (conf x) (ih (w + 1) w (conf x)) with h | h
          · exact .inr ⟨0, x, rfl, h, Nat.zero_lt_of_lt hmax⟩
          · exact .inr h
        · simp only [hmax, if_false]
          exact hlater way maxConf (ih (w + 1) way maxConf)
      · simp only [hpf, if_false]
        exact hlater way maxConf (ih (w + 1) way maxConf)

theorem pathConf_zero {row : SppPtSet} {acc conf depth : ℕ} {x : SppPtWay} (hx : x.cDelta = 0) :
    pathConf row acc conf depth x = 0 := by
  unfold pathConf localConf
  simp [hx]

/-- The loop follows no delta but those that were trained. -/
theorem chosenDelta_ne_zero (hok : TablesOk p spp) (h : nextHop p spp hop (hop.read p spp) = some next) :
    hop.chosenDelta p spp ≠ 0 := by
  obtain ⟨hway, -⟩ := nextHop_spec h
  obtain ⟨i, x, hx, hi, hpos⟩ : ∃ i x, (spp.pt (ptSetOf p hop.currSig)).ways[i]? = some x ∧
      (hop.read p spp).lookaheadWay = i ∧ x.cDelta ≠ 0 := by
    unfold Hop.read sppPtReadPattern at hway ⊢
    dsimp only at hway ⊢
    split at hway
    · exact absurd hway (Nat.lt_irrefl _)
    · next hc =>
        rw [if_neg hc]
        rcases ptScan_way (p := p) (pathConf (spp.pt (ptSetOf p hop.currSig)) spp.globalAccuracyPct hop.lookaheadConf hop.depth)
          (spp.pt (ptSetOf p hop.currSig)).ways 0 p.ptWay 0 with hnone | ⟨i, x, hx, hi, hpos⟩
        · rw [hnone] at hway
          exact absurd hway (Nat.lt_irrefl _)
        · refine ⟨i, x, hx, hi.trans (Nat.zero_add i), fun hzero => ?_⟩
          rw [pathConf_zero hzero] at hpos
          exact Nat.lt_irrefl 0 hpos
  have hdelta : hop.chosenDelta p spp = x.delta := by
    unfold Hop.chosenDelta
    rw [hi, hx]
    rfl
  rw [hdelta]
  rcases (hok.pt (ptSetOf p hop.currSig)).stride x (List.mem_of_getElem? hx) with ⟨-, hzero⟩ | hstride
  · exact absurd hzero hpos
  · exact hstride.1

theorem Drives.nonzero {deltas : List ℤ} {hop' : Hop} (hok : TablesOk p spp) (h : Drives p spp hop deltas hop') :
    ∀ delta ∈ deltas, delta ≠ 0 := by
  induction h with
  | start => exact nofun
  | next _ hnext ih =>
      intro delta hmem
      rcases List.mem_append.mp hmem with hmem | hmem
      · exact ih delta hmem
      · rw [List.mem_singleton.mp hmem]
        exact chosenDelta_ne_zero hok hnext

theorem foldsAfter_nonzero {lineAddr : Addr} {out : SppStOut} {folds : Folds}
    (h : ∀ delta ∈ folds (demandKey p lineAddr), delta ≠ 0) : ∀ delta ∈ foldsAfter p w lineAddr out folds, delta ≠ 0 := by
  intro delta hmem
  unfold foldsAfter at hmem
  split at hmem
  · cases hmem
  · split at hmem
    · exact h delta hmem
    · next hdelta =>
        rcases List.mem_append.mp hmem with hmem | hmem
        · exact h delta hmem
        · rw [List.mem_singleton.mp hmem]
          exact hdelta

theorem FoldVisited.nonzero {folds : Folds} (h : FoldVisited p addto w folds) : ∀ key, ∀ delta ∈ folds key, delta ≠ 0 := by
  refine Execution.Visited.invariant (I := fun s : World σ × Folds => ∀ key, ∀ delta ∈ s.2 key, delta ≠ 0) ?_ ?_ h
  · rintro s ⟨-, hfolds⟩ key
    rw [hfolds]
    exact nofun
  · rintro s s' ih hstep key
    cases hstep with
    | @train _ _ lineAddr =>
        dsimp only
        by_cases hkey : key = demandKey p lineAddr
        · subst hkey
          rw [Function.update_self]
          exact foldsAfter_nonzero (ih _)
        · rw [Function.update_of_ne hkey]
          exact ih key
    | idle => exact ih key

/-! ## What the prefetcher remembers -/

/-- The signatures of the prefetcher, each with the deltas folded into it: those of the valid entries of the
Signature Table, and those that the lookahead of a demand goes through. -/
inductive Holds (p : Params) (addto : AddTo σ) : List ℤ → Uns → Prop where
  | entry {w : World σ} {folds : Folds} {set : ℕ} {e : SppStEntry} (h : FoldVisited p addto w folds)
      (he : e ∈ w.spp.st set) (hvalid : e.valid = true) : Holds p addto (folds (set, e.tag)) e.sig
  | lookahead {w w' : World σ} {folds : Folds} {lineAddr : Addr} {hop hop' : Hop} {row : List SppStEntry}
      {out : SppStOut} {deltas : List ℤ} (h : FoldVisited p addto w folds)
      (htrain : sppTrain p w lineAddr = .ok (w', hop)) (hs : TrainSpec p lineAddr w w' hop row out)
      (hdrives : Drives p w'.spp hop deltas hop') :
      -- a repeated offset hands the lookahead a signature of zero, and a new page that of the GHR
      Holds p addto ((if out.delta = 0 then [] else foldsAfter p w lineAddr out folds) ++ deltas) hop'.currSig

theorem Holds.recalls {deltas : List ℤ} {sig : Uns} (h : Holds p addto deltas sig) : Recalls p deltas sig := by
  cases h with
  | entry h he hvalid => exact visited_foldsOk h _ _ he hvalid
  | lookahead h htrain hs hdrives =>
      refine hdrives.recalls ?_
      rw [hs.hop_eq]
      exact (hs.recalls h.visited (visited_foldsOk h)).2

theorem Holds.nonzero {deltas : List ℤ} {sig : Uns} (h : Holds p addto deltas sig) : ∀ delta ∈ deltas, delta ≠ 0 := by
  cases h with
  | entry h => exact h.nonzero _
  | lookahead h htrain hs hdrives =>
      intro delta hmem
      rcases List.mem_append.mp hmem with hmem | hmem
      · split at hmem
        · cases hmem
        · exact foldsAfter_nonzero (h.nonzero _) delta hmem
      · exact hdrives.nonzero (h.visited.step (.train htrain)).tablesOk delta hmem

/-- Signatures that folded the same last nonzero deltas, `SIG_BIT / SIG_SHIFT` of them, are the same. -/
theorem signature_memory {σ' : Type} {addto' : AddTo σ'} (hshift : 1 ≤ p.sigShift) {deltas deltas' last : List ℤ}
    {sig sig' : Uns} (h : Holds p addto deltas sig) (h' : Holds p addto' deltas' sig')
    (hlen : last.length = p.sigMemory) (hlast : last <:+ deltas.filter (· ≠ 0)) (hlast' : last <:+ deltas'.filter (· ≠ 0)) :
    sig = sig' := by
  have hall {ds : List ℤ} (hds : ∀ delta ∈ ds, delta ≠ 0) : ds.filter (· ≠ 0) = ds :=
    List.filter_eq_self.mpr fun delta hmem => decide_eq_true (hds delta hmem)
  rw [hall h.nonzero] at hlast
  rw [hall h'.nonzero] at hlast'
  obtain ⟨first, rfl⟩ := hlast
  obtain ⟨first', rfl⟩ := hlast'
  exact h.recalls.unique hshift hlen h'.recalls

/-- A demand, with the deltas of the entries. -/
def foldTrain (p : Params) (s : World σ × Folds) (lineAddr : Addr) : Except String (World σ × Folds) := do
  let (w', _) ← sppTrain p s.1 lineAddr
  let (_, out) ← stRow p s.1.spp.ghr (s.1.spp.st (demandKey p lineAddr).1) (demandKey p lineAddr).2
    (p.pageOffset (p.lineBase lineAddr))
  return (w', Function.update s.2 (demandKey p lineAddr) (foldsAfter p s.1 lineAddr out s.2))

theorem foldTrain_step {s s' : World σ × Folds} {lineAddr : Addr} (h : foldTrain p s lineAddr = .ok s') :
    FoldStep p addto s s' := by
  obtain ⟨w, folds⟩ := s
  obtain ⟨⟨w', hop⟩, htrain, h⟩ := Execution.bind_eq_ok.mp h
  obtain ⟨⟨row, out⟩, hrow, h⟩ := Execution.bind_eq_ok.mp h
  obtain ⟨row', out', hs⟩ := sppTrain_spec htrain
  obtain ⟨rfl, rfl⟩ := Prod.mk.inj (Except.ok.inj (hs.row_eq.symm.trans hrow))
  rw [← Except.ok.inj h]
  exact .train htrain hs

/-- Two pages, of which one was entered by a stride of three lines: the four strides of one line after it leave the
same signature. -/
theorem signature_memory_strides : ∃ (w : World Unit) (folds : Folds) (e e' : SppStEntry),
    FoldVisited (.small 4 (by decide)) acceptAll w folds ∧ e ∈ w.spp.st 0 ∧ e' ∈ w.spp.st 0 ∧
      folds (0, e.tag) = [1, 1, 1, 1] ∧ folds (0, e'.tag) = [3, 1, 1, 1, 1] ∧ e.sig = e'.sig := by
  obtain ⟨s, hrun, hs⟩ := Execution.map_eq_ok.mp (show
    (fun s : World Unit × Folds => (s.1.spp.st 0).map fun e => (e.valid, s.2 (0, e.tag))) <$>
      (prefSppInit (.small 4 (by decide)) 0 >>= fun spp => Execution.run (foldTrain (.small 4 (by decide)))
        ((⟨spp, (), 0, []⟩ : World Unit), fun _ => []) [0x1000, 0x1040, 0x1080, 0x10C0, 0x1100,
          0x2000, 0x20C0, 0x2100, 0x2140, 0x2180, 0x21C0]) =
        .ok [(true, [1, 1, 1, 1]), (true, [3, 1, 1, 1, 1])] by decide +kernel)
  obtain ⟨spp, hinit, hrun⟩ := Execution.bind_eq_ok.mp hrun
  obtain ⟨e, rest, hst, he, hrest⟩ := List.map_eq_cons_iff.mp hs
  obtain ⟨e', rest, rfl, he', -⟩ := List.map_eq_cons_iff.mp hrest
  obtain ⟨hvalid, hfolds⟩ := Prod.mk.inj he
  obtain ⟨hvalid', hfolds'⟩ := Prod.mk.inj he'
  have hsteps : Relation.ReflTransGen (FoldStep (.small 4 (by decide)) acceptAll) (⟨spp, (), 0, []⟩, fun _ => []) s :=
    Execution.run_reflTransGen (R := FoldStep (.small 4 (by decide)) acceptAll) (fun _ _ _ h => foldTrain_step h) hrun
  have hvisited : FoldVisited (.small 4 (by decide)) acceptAll s.1 s.2 := ⟨_, ⟨.intro () hinit, rfl⟩, hsteps⟩
  have hmem : e ∈ s.1.spp.st 0 := by simp [hst]
  have hmem' : e' ∈ s.1.spp.st 0 := by simp [hst]
  refine ⟨s.1, s.2, e, e', hvisited, hmem, hmem', hfolds, hfolds', ?_⟩
  have hlen : ([1, 1, 1, 1] : List ℤ).length = (Params.small 4 (by decide)).sigMemory := by decide
  exact signature_memory (by decide) (.entry hvisited hmem hvalid) (.entry hvisited hmem' hvalid') hlen (by rw [hfolds]; decide) (by rw [hfolds']; decide)

end Scarab.Spp

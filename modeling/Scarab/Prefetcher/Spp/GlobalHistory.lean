import Scarab.Prefetcher.Spp.SignatureTable

/-! # Continuation across a page boundary

The lookahead loop records a candidate of another page in the GHR, and the Signature
Table starts a new page from it. Both fold the same delta into the same signature, and
since the GHR keeps one entry per offset no other entry can outbid it. -/

namespace Scarab.Spp

open Relation Recency

variable {σ : Type} {p : Params} {addto : AddTo σ}

/-! ## One entry per offset -/

structure GhrOk (p : Params) (ghr : List SppGhrEntry) : Prop where
  length_eq : ghr.length = p.ghrEntries
  unique : ghr.Pairwise fun a b => a.valid = true → b.valid = true → a.offset ≠ b.offset

/-- The position `spp_ghr_update` writes. -/
def ghrTarget (p : Params) (ghr : List SppGhrEntry) (pfOffset : ℕ) : ℕ :=
  match ghr.findIdx? fun g => g.valid && g.offset == pfOffset with
  | some i => i
  | none => Argmin.scan (·.confidence) ghr 0 p.ghrEntries (2 ^ 32 - 1)

/-- An update writes one position, and no other entry has the offset. -/
theorem sppGhrUpdate_spec (hon : p.ghrOn = true) {ghr ghr' : List SppGhrEntry} (hok : GhrOk p ghr)
    {sig : Uns} {conf offset : ℕ} {delta : ℤ}
    (h : sppGhrUpdate p ghr sig conf offset delta = .ok ghr') :
    ∃ before x after, ghr = before ++ x :: after ∧ before.length = ghrTarget p ghr offset ∧
      ghr' = before ++ ⟨true, sig, conf, offset, delta⟩ :: after ∧
      ∀ y ∈ before ++ after, y.valid = true → y.offset ≠ offset := by
  unfold sppGhrUpdate at h
  unfold ghrTarget
  rw [hon] at h
  simp only [Bool.not_true, Bool.false_eq_true, ite_false] at h
  cases hfind : ghr.findIdx? fun g => g.valid && g.offset == offset with
  | some i =>
      rw [hfind] at h
      cases h
      obtain ⟨before, x, after, rfl, rfl, hx, hbefore⟩ := Row.split_of_findIdx? hfind
      obtain ⟨hv, ho⟩ : x.valid = true ∧ x.offset = offset := by simpa using hx
      refine ⟨before, x, after, rfl, rfl, ?_, ?_⟩
      · rw [Row.modify_middle, hv, ho]
      · have hunique := hok.unique
        simp only [List.pairwise_append, List.pairwise_cons, List.mem_cons] at hunique
        intro y hy hyv
        rcases List.mem_append.mp hy with hy | hy
        · rw [← ho]
          exact hunique.2.2 y hy x (.inl rfl) hyv hv
        · rw [← ho]
          exact (hunique.2.1.1 y hy hv hyv).symm
  | none =>
      rw [hfind] at h
      obtain ⟨hlt, hset⟩ := Execution.ite_error_eq_ok.mp h
      cases hset
      rcases Argmin.scan_spec (·.confidence) ghr 0 p.ghrEntries (2 ^ 32 - 1) with
        ⟨hnone, _⟩ | ⟨before, x, after, hsplit, hlen, _⟩
      · exact absurd hlt (by rw [hnone]; exact Nat.lt_irrefl _)
      rw [Nat.zero_add] at hlen
      refine ⟨before, x, after, hsplit, hlen.symm, ?_, ?_⟩
      · rw [hlen, hsplit]
        simp
      · intro y hy hyv ho
        have hmem : y ∈ ghr := by
          rw [hsplit]
          rcases List.mem_append.mp hy with hy | hy <;> simp [hy]
        have hmiss := List.findIdx?_eq_none_iff.mp hfind y hmem
        simp [hyv, ho] at hmiss

theorem GhrOk.update (hon : p.ghrOn = true) {ghr ghr' : List SppGhrEntry} (hok : GhrOk p ghr)
    {sig : Uns} {conf offset : ℕ} {delta : ℤ}
    (h : sppGhrUpdate p ghr sig conf offset delta = .ok ghr') : GhrOk p ghr' := by
  obtain ⟨before, x, after, rfl, _, rfl, hothers⟩ := sppGhrUpdate_spec hon hok h
  obtain ⟨hlen, hunique⟩ := hok
  refine ⟨by simpa using hlen, ?_⟩
  simp only [List.pairwise_append, List.pairwise_cons, List.mem_cons] at hunique ⊢
  refine ⟨hunique.1, ⟨?_, hunique.2.1.2⟩, ?_⟩
  · intro y hy _ hyv
    exact (hothers y (by simp [hy]) hyv).symm
  · rintro a ha b (rfl | hb) hav hbv
    · exact hothers a (by simp [ha]) hav
    · exact hunique.2.2 a ha b (.inr hb) hav hbv

/-- The entry of an offset is the best one for it. -/
theorem ghrBest_eq {ghr : List SppGhrEntry} (hok : GhrOk p ghr) {g : SppGhrEntry} (hg : g ∈ ghr)
    (hv : g.valid = true) (hpos : 0 < g.confidence) : ghrBest ghr g.offset = some g := by
  have hskip : ∀ (entries : List SppGhrEntry) (best : Option SppGhrEntry),
      (∀ y ∈ entries, y.valid = true → y.offset ≠ g.offset) →
      entries.foldl (fun best y =>
        if y.valid ∧ y.offset = g.offset ∧ (best.elim 0 (·.confidence)) < y.confidence then some y
        else best) best = best := by
    intro entries best hno
    induction entries with
    | nil => rfl
    | cons y entries ih =>
        have hy : ¬ (y.valid = true ∧ y.offset = g.offset ∧
            best.elim 0 (·.confidence) < y.confidence) := by
          rintro ⟨hyv, ho, _⟩
          exact hno y (by simp) hyv ho
        rw [List.foldl_cons, if_neg hy]
        exact ih fun z hz => hno z (by simp [hz])
  obtain ⟨before, after, rfl⟩ := List.append_of_mem hg
  have hunique := hok.unique
  simp only [List.pairwise_append, List.pairwise_cons, List.mem_cons] at hunique
  have hbefore : ∀ y ∈ before, y.valid = true → y.offset ≠ g.offset := fun y hy hyv =>
    hunique.2.2 y hy g (.inl rfl) hyv hv
  have hafter : ∀ y ∈ after, y.valid = true → y.offset ≠ g.offset := fun y hy hyv =>
    (hunique.2.1.1 y hy hv hyv).symm
  unfold ghrBest
  rw [List.foldl_append, hskip before none hbefore, List.foldl_cons, if_pos ⟨hv, rfl, by simpa using hpos⟩,
    hskip after (some g) hafter]

/-! ## The GHR along a run -/

/-- A step changes the GHR only by recording a candidate that crosses a page. -/
theorem Step.ghr {w w' : World σ} (h : Step p addto w w') :
    w'.spp.ghr = w.spp.ghr ∨
      p.ghrOn = true ∧ ∃ sig conf offset delta,
        sppGhrUpdate p w.spp.ghr sig conf offset delta = .ok w'.spp.ghr ∧ p.issueCutoff ≤ conf ∧
          w'.history = w.history ++ [.crossed sig conf offset delta] := by
  cases h with
  | train h =>
      obtain ⟨row, out, hs⟩ := sppTrain_spec h
      exact .inl hs.ghr
  | @candidate _ procId addr hop c h =>
      cases sppCandidate_spec h with
      | muted => exact .inl rfl
      | dropped => exact .inl rfl
      | crossed hcut _ hon hghr => exact .inr ⟨hon, _, _, _, _, hghr, hcut, rfl⟩
      | issued =>
          obtain ⟨o, hs⟩ := sppIssue_spec addto procId w (candidateAddr p hop c.2) c.1
          rw [hs.world_eq]
          exact .inl rfl
  | ul1PrefHit lineAddr => exact .inl (by simp [prefSppUl1PrefHit, sppFilterCheck_demand])
  | fill addr => exact .inl rfl
  | evict procId addr => exact .inl rfl
  | others queue => exact .inl rfl

theorem Visited.ghrOk {w : World σ} (h : Visited p addto w) : GhrOk p w.spp.ghr := by
  refine h.invariant (I := fun w => GhrOk p w.spp.ghr) ?_ ?_
  · intro w hw
    obtain ⟨queue, hi⟩ := hw
    unfold prefSppInit at hi
    split at hi
    · cases hi
      exact ⟨by simp, by simp [List.pairwise_replicate]⟩
    · cases hi
  · intro w w' hok hs
    rcases hs.ghr with hsame | ⟨hon, _, _, _, _, hupd, _, _⟩
    · rw [hsame]
      exact hok
    · exact hok.update hon hupd

/-- The step does not write position `i` of the GHR. -/
def Spares (p : Params) (i : ℕ) (w w' : World σ) : Prop :=
  ∀ sig conf offset delta, w'.history = w.history ++ [.crossed sig conf offset delta] →
    ghrTarget p w.spp.ghr offset ≠ i

theorem Step.ghr_getElem? {w w' : World σ} (h : Step p addto w w') (hok : GhrOk p w.spp.ghr) {i : ℕ}
    (hi : Spares p i w w') : w'.spp.ghr[i]? = w.spp.ghr[i]? := by
  rcases h.ghr with hsame | ⟨hon, sig, conf, offset, delta, hupd, _, hh⟩
  · rw [hsame]
  · obtain ⟨before, x, after, hsplit, hlen, hnew, _⟩ := sppGhrUpdate_spec hon hok hupd
    have hne : i ≠ before.length := by
      rw [hlen]
      exact (hi sig conf offset delta hh).symm
    rw [hnew, hsplit]
    rcases Nat.lt_or_gt_of_ne hne with hlt | hgt
    · rw [List.getElem?_append_left hlt, List.getElem?_append_left hlt]
    · obtain ⟨j, hj⟩ : ∃ j, i - before.length = j + 1 := ⟨i - before.length - 1, by omega⟩
      rw [List.getElem?_append_right (by omega), List.getElem?_append_right (by omega), hj,
        List.getElem?_cons_succ, List.getElem?_cons_succ]

/-- An entry that is spared stays. -/
theorem ghr_kept {w w' : World σ} {i : ℕ} (hv : Visited p addto w)
    (h : ReflTransGen (fun w w' => Step p addto w w' ∧ Spares p i w w') w w') :
    Visited p addto w' ∧ w'.spp.ghr[i]? = w.spp.ghr[i]? := by
  induction h with
  | refl => exact ⟨hv, rfl⟩
  | tail _ hs ih =>
      obtain ⟨hmid, hget⟩ := ih
      exact ⟨hmid.step hs.1, (hs.1.ghr_getElem? hmid.ghrOk hs.2).trans hget⟩

/-! ## The entry that is overwritten -/

/-- An entry that is overwritten by another offset has the least confidence. -/
theorem ghrTarget_least {ghr : List SppGhrEntry} (hok : GhrOk p ghr) {offset : ℕ} {g : SppGhrEntry}
    (hg : ghr[ghrTarget p ghr offset]? = some g) (hvalid : g.valid = true) (hother : g.offset ≠ offset) :
    ∀ x ∈ ghr, g.confidence ≤ x.confidence := by
  unfold ghrTarget at hg
  cases hfind : ghr.findIdx? fun g => g.valid && g.offset == offset with
  | some i =>
      rw [hfind] at hg
      obtain ⟨before, x, after, rfl, rfl, hx, -⟩ := Row.split_of_findIdx? hfind
      obtain rfl : x = g := by simpa using hg
      simp [hother] at hx
  | none =>
      rw [hfind] at hg
      dsimp only at hg
      rcases Argmin.scan_spec (·.confidence) ghr 0 p.ghrEntries (2 ^ 32 - 1) with
        ⟨hnone, -⟩ | ⟨before, x, after, rfl, hlen, -, hleft⟩
      · rw [hnone, ← hok.length_eq, List.getElem?_length] at hg
        cases hg
      · rw [hlen, Nat.zero_add] at hg
        obtain rfl : x = g := by simpa using hg
        intro y hy
        rcases List.mem_append.mp hy with hy | hy
        · exact Nat.le_of_lt (hleft.before_gt y hy)
        · rcases List.mem_cons.mp hy with rfl | hy
          · exact Nat.le_refl _
          · exact hleft.after_ge y hy

/-- The valid entries are those with a confidence. -/
def GhrConfident (ghr : List SppGhrEntry) : Prop := ∀ g ∈ ghr, g.valid = true ↔ 0 < g.confidence

theorem Visited.ghrConfident (hcut : 1 ≤ p.issueCutoff) {w : World σ} (h : Visited p addto w) : GhrConfident w.spp.ghr := by
  have hboth : GhrOk p w.spp.ghr ∧ GhrConfident w.spp.ghr := by
    refine h.invariant (I := fun w => GhrOk p w.spp.ghr ∧ GhrConfident w.spp.ghr) ?_ ?_
    · intro w hw
      refine ⟨(show Visited p addto w from ⟨w, hw, .refl⟩).ghrOk, ?_⟩
      obtain ⟨queue, hi⟩ := hw
      unfold prefSppInit at hi
      split at hi
      · cases hi
        intro g hg
        obtain rfl := List.eq_of_mem_replicate hg
        decide
      · cases hi
    · rintro w w' ⟨hok, hconf⟩ hs
      rcases hs.ghr with hsame | ⟨hon, sig, conf, offset, delta, hupd, hle, -⟩
      · rw [hsame]
        exact ⟨hok, hconf⟩
      · refine ⟨hok.update hon hupd, ?_⟩
        obtain ⟨before, x, after, hsplit, -, hnew, -⟩ := sppGhrUpdate_spec hon hok hupd
        rw [hsplit] at hconf
        rw [hnew]
        intro g hg
        rcases List.mem_append.mp hg with hg | hg
        · exact hconf g (List.mem_append.mpr (.inl hg))
        · rcases List.mem_cons.mp hg with rfl | hg
          · exact iff_of_true rfl (Nat.lt_of_lt_of_le hcut hle)
          · exact hconf g (List.mem_append.mpr (.inr (List.mem_cons_of_mem x hg)))
  exact hboth.2

/-- With an issue cutoff of at least 1 the GHR never holds two valid entries of one offset, and a valid entry is overwritten
by another offset only when all entries are valid and none has less confidence. -/
theorem Visited.ghr_overwrite (hcut : 1 ≤ p.issueCutoff) {w w' : World σ} (h : Visited p addto w) (hs : Step p addto w w') :
    (w.spp.ghr.Pairwise fun a b => a.valid = true → b.valid = true → a.offset ≠ b.offset) ∧
      ∀ (i : ℕ) (g g' : SppGhrEntry), w.spp.ghr[i]? = some g → w'.spp.ghr[i]? = some g' → g.valid = true → g'.offset ≠ g.offset →
        (∀ x ∈ w.spp.ghr, x.valid = true) ∧ ∀ x ∈ w.spp.ghr, g.confidence ≤ x.confidence := by
  refine ⟨h.ghrOk.unique, fun i g g' hg hg' hvalid hother => ?_⟩
  have hspared : ¬ Spares p i w w' := by
    intro hspares
    rw [hs.ghr_getElem? h.ghrOk hspares, hg] at hg'
    exact hother (congrArg SppGhrEntry.offset (Option.some.inj hg').symm)
  rcases hs.ghr with hsame | ⟨hon, sig, conf, offset, delta, hupd, -, hhistory⟩
  · rw [hsame, hg] at hg'
    exact absurd (congrArg SppGhrEntry.offset (Option.some.inj hg').symm) hother
  · obtain ⟨before, x, after, hsplit, hlen, hnew, -⟩ := sppGhrUpdate_spec hon h.ghrOk hupd
    -- the step writes this position, and no other one
    have htarget : ghrTarget p w.spp.ghr offset = i := by
      by_contra hne
      refine hspared fun sig' conf' offset' delta' hhistory' => ?_
      rw [hhistory, List.append_cancel_left_eq, List.cons.injEq] at hhistory'
      cases hhistory'.1
      exact hne
    have hoffset : g'.offset = offset := by
      rw [hnew, ← htarget, ← hlen, List.getElem?_append_right (Nat.le_refl _), Nat.sub_self] at hg'
      exact congrArg SppGhrEntry.offset (Option.some.inj hg').symm
    have hleast := ghrTarget_least h.ghrOk (htarget.symm ▸ hg) hvalid (by rw [← hoffset]; exact hother.symm)
    have hconf := h.ghrConfident hcut
    refine ⟨fun y hy => (hconf y hy).mpr ?_, hleast⟩
    exact Nat.lt_of_lt_of_le ((hconf g (List.mem_of_getElem? hg)).mp hvalid) (hleast y hy)

/-- One entry, and two candidates of the same confidence on two offsets of the next page. -/
theorem Visited.ghr_overwrite_single :
    ∃ (w w' : World Unit) (g g' : SppGhrEntry), Visited { Params.default with ghrEntries := 1 } acceptAll w ∧
      w.spp.ghr[0]? = some g ∧ w'.spp.ghr[0]? = some g' ∧ g.valid = true ∧ g'.offset ≠ g.offset ∧
      (w.spp.ghr.Pairwise fun a b => a.valid = true → b.valid = true → a.offset ≠ b.offset) ∧
      (∀ x ∈ w.spp.ghr, x.valid = true) ∧ ∀ x ∈ w.spp.ghr, g.confidence ≤ x.confidence := by
  have hrun : ((afterCallbacks { Params.default with ghrEntries := 1 } acceptAll 0 ()
      (ul1Misses 0x100000 [57, 58, 59, 60, 61, 62])).toOption.map
      fun w => (sppTrain { Params.default with ghrEntries := 1 } w 0x100fc0).toOption.bind fun (w₀, hop) =>
        (sppCandidate { Params.default with ghrEntries := 1 } acceptAll 0 0x100fc0 hop w₀ (50, 1)).toOption.bind fun w₁ =>
          (sppCandidate { Params.default with ghrEntries := 1 } acceptAll 0 0x100fc0 hop w₁ (50, 2)).toOption.map fun w₂ =>
            (w₁.spp.ghr.map fun g => (g.valid, g.offset), w₂.spp.ghr.map SppGhrEntry.offset)) =
      some (some ([(true, 0)], [1])) := by decide +kernel
  obtain ⟨w, hw, hobs⟩ := exists_reachable hrun
  obtain ⟨⟨w₀, hop⟩, htrain, hobs⟩ := Option.bind_eq_some_iff.mp hobs
  obtain ⟨w₁, hfirst, hobs⟩ := Option.bind_eq_some_iff.mp hobs
  obtain ⟨w₂, hsecond, hobs⟩ := Option.map_eq_some_iff.mp hobs
  obtain ⟨hold, hnew⟩ := Prod.mk.inj hobs
  rw [Execution.toOption_eq_some] at htrain hfirst hsecond
  obtain ⟨g, hg, hgo⟩ := List.map_eq_singleton_iff.mp hold
  obtain ⟨g', hg', hgo'⟩ := List.map_eq_singleton_iff.mp hnew
  obtain ⟨hvalid, hoffset⟩ := Prod.mk.inj hgo
  have h₁ : Visited { Params.default with ghrEntries := 1 } acceptAll w₁ :=
    (hw.visited.step (.train htrain)).step (.candidate hfirst)
  have hother : g'.offset ≠ g.offset := by
    rw [hoffset, hgo']
    decide
  have hi : w₁.spp.ghr[0]? = some g := by rw [hg]; rfl
  have hi' : w₂.spp.ghr[0]? = some g' := by rw [hg']; rfl
  obtain ⟨hunique, hoverwrite⟩ := Visited.ghr_overwrite (by decide) h₁ (.candidate hsecond)
  exact ⟨w₁, w₂, g, g', h₁, hi, hi', hvalid, hother, hunique, hoverwrite 0 g g' hi hi' hvalid hother⟩

/-! ## The signature of a new page -/

/-- A missing page is installed with the signature the GHR gives it. -/
theorem sppTrain_miss {w w' : World σ} (h : Visited p addto w) {lineAddr : Addr} {hop : Hop}
    (htrain : sppTrain p w lineAddr = .ok (w', hop))
    (hmiss : stMatch (w.spp.st (stSetOf p (p.lineBase lineAddr >>> p.log2Page)))
      (partialPage p (p.lineBase lineAddr >>> p.log2Page)) = none) :
    hop.currSig = ghrBoot p w.spp.ghr (p.pageOffset (p.lineBase lineAddr)) ∧
      ∃ e ∈ w'.spp.st (stSetOf p (p.lineBase lineAddr >>> p.log2Page)), e.valid = true ∧
        e.view = (partialPage p (p.lineBase lineAddr >>> p.log2Page),
          ghrBoot p w.spp.ghr (p.pageOffset (p.lineBase lineAddr)),
          p.pageOffset (p.lineBase lineAddr)) := by
  obtain ⟨row, out, ht⟩ := sppTrain_spec htrain
  obtain ⟨m, hm⟩ := h.represents (stSetOf p (p.lineBase lineAddr >>> p.log2Page))
  obtain ⟨row', hrow', hm'⟩ := stRow_represents hm
    (partialPage p (p.lineBase lineAddr >>> p.log2Page)) w.spp.ghr (p.pageOffset (p.lineBase lineAddr))
  rw [ht.row_eq] at hrow'
  obtain ⟨rfl, rfl⟩ := Prod.mk.inj (Except.ok.inj hrow')
  obtain ⟨used, free, hr⟩ := hm
  obtain ⟨used', free', hr'⟩ := hm'
  have habsent := hr.stMatch_eq_none.mp hmiss
  have hentries := hr'.entries
  rw [lruAccess_of_miss _ _ habsent] at hentries
  obtain ⟨n, hn⟩ : ∃ n, p.stWay = n + 1 := ⟨p.stWay - 1, by have := p.stWay_pos; omega⟩
  rw [hn, List.take_succ_cons] at hentries
  obtain ⟨e, rest, rfl, hview, _⟩ := List.map_eq_cons_iff.mp hentries
  obtain ⟨he, hvalid⟩ := hr'.mem_used.mp (show e ∈ e :: rest by simp)
  refine ⟨?_, e, ?_, hvalid, hview⟩
  · rw [ht.hop_eq, lruAccess_of_miss _ _ habsent]
  · rw [ht.st]
    simpa using he

/-- A hop with signature `s` yields a candidate with delta `d` in another page. If the
GHR entry it leaves is not written again before a missing page is first touched at the
candidate's offset, that page starts with the signature that follows `d` from `s`. -/
theorem pageCrossing_continues (hon : p.ghrOn = true) {procId : Uns8} {addr lineAddr : Addr}
    {hop hop' : Hop} {conf : ℕ} {delta : ℤ} {w₀ w₁ w₂ w₃ : World σ} (h₀ : Visited p addto w₀)
    (hcand : sppCandidate p addto procId addr hop w₀ (conf, delta) = .ok w₁)
    (hcut : p.issueCutoff ≤ conf) (hpos : 0 < conf)
    (hcross : p.pageBase addr ≠ p.pageBase (candidateAddr p hop delta))
    (hkept : ReflTransGen
      (fun w w' => Step p addto w w' ∧
        Spares p (ghrTarget p w₀.spp.ghr (p.pageOffset (candidateAddr p hop delta))) w w') w₁ w₂)
    (hoff : p.pageOffset (p.lineBase lineAddr) = p.pageOffset (candidateAddr p hop delta))
    (hmiss : stMatch (w₂.spp.st (stSetOf p (p.lineBase lineAddr >>> p.log2Page)))
      (partialPage p (p.lineBase lineAddr >>> p.log2Page)) = none)
    (htrain : sppTrain p w₂ lineAddr = .ok (w₃, hop')) :
    hop'.currSig = ((hop.currSig <<< p.sigShift) ^^^ sppEncodeSigDelta p delta) &&& p.sigMask ∧
      (∃ e ∈ w₃.spp.st (stSetOf p (p.lineBase lineAddr >>> p.log2Page)), e.valid = true ∧
        e.tag = partialPage p (p.lineBase lineAddr >>> p.log2Page) ∧
        e.sig = ((hop.currSig <<< p.sigShift) ^^^ sppEncodeSigDelta p delta) &&& p.sigMask) ∧
      ∀ spp read next, nextHop p spp hop read = some next →
        ((spp.pt (ptSetOf p hop.currSig)).ways[read.lookaheadWay]?.map (·.delta)).getD 0 = delta →
        next.currSig =
          ((hop.currSig <<< p.sigShift) ^^^ sppEncodeSigDelta p delta) &&& p.sigMask := by
  have h₁ : Visited p addto w₁ := h₀.step (.candidate hcand)
  obtain ⟨h₂, hget⟩ := ghr_kept h₁ hkept
  -- the candidate left its entry at the position it wrote
  have hentry : w₁.spp.ghr[ghrTarget p w₀.spp.ghr (p.pageOffset (candidateAddr p hop delta))]? =
      some ⟨true, hop.currSig, conf, p.pageOffset (candidateAddr p hop delta), delta⟩ := by
    cases sppCandidate_spec hcand with
    | muted hlt => omega
    | issued _ hpage => exact absurd hpage hcross
    | dropped _ _ hoff => simp [hon] at hoff
    | crossed _ _ _ hghr =>
        obtain ⟨before, x, after, _, hlen, hnew, _⟩ := sppGhrUpdate_spec hon h₀.ghrOk hghr
        rw [log_spp, hnew, ← hlen]
        simp
  rw [hentry] at hget
  have hbest := ghrBest_eq h₂.ghrOk (List.mem_of_getElem? hget) rfl hpos
  have hboot : ghrBoot p w₂.spp.ghr (p.pageOffset (p.lineBase lineAddr)) =
      ((hop.currSig <<< p.sigShift) ^^^ sppEncodeSigDelta p delta) &&& p.sigMask := by
    unfold ghrBoot
    rw [hoff, hbest, if_pos hon]
  obtain ⟨hsig, e, he, hvalid, hview⟩ := sppTrain_miss h₂ htrain hmiss
  rw [hboot] at hsig hview
  obtain ⟨htag, hrest⟩ := Prod.mk.inj hview
  obtain ⟨heSig, _⟩ := Prod.mk.inj hrest
  refine ⟨hsig, ⟨e, he, hvalid, htag, heSig⟩, ?_⟩
  intro spp read next hnext hdelta
  unfold nextHop at hnext
  split at hnext
  · obtain rfl := Option.some.inj hnext
    simp only [hdelta]
  · cases hnext

/-- Misses up to the last line of page 0x100 predict the first line of the next page,
and the miss on that line starts with the signature of four strides of one line. -/
theorem pageCrossing_continues_applies :
    ∃ (w₀ w₁ w₃ : World Unit) (hop hop' : Hop), Visited Params.default acceptAll w₀ ∧
      sppCandidate Params.default acceptAll 0 0x100fc0 hop w₀ (50, 1) = .ok w₁ ∧
      sppTrain Params.default w₁ 0x101000 = .ok (w₃, hop') ∧ hop'.currSig = 0x249 := by
  have hrun : ((afterCallbacks Params.default acceptAll 0 ()
      (ul1Misses 0x100000 [57, 58, 59, 60, 61, 62])).toOption.map
      fun w => (sppTrain Params.default w 0x100fc0).toOption.bind fun (w₀, hop) =>
        (sppCandidate Params.default acceptAll 0 0x100fc0 hop w₀ (50, 1)).toOption.map fun w₁ =>
          (hop, decide (stMatch (w₁.spp.st (stSetOf Params.default
            (Params.default.lineBase 0x101000 >>> Params.default.log2Page)))
            (partialPage Params.default
              (Params.default.lineBase 0x101000 >>> Params.default.log2Page)) = none))) =
      some (some (⟨0x249, 0x100fc0, 100, 0⟩, true)) := by decide +kernel
  obtain ⟨w, hw, hobs⟩ := exists_reachable hrun
  obtain ⟨⟨w₀, hop⟩, htrain, hobs⟩ := Option.bind_eq_some_iff.mp hobs
  obtain ⟨w₁, hcand, hobs⟩ := Option.map_eq_some_iff.mp hobs
  obtain ⟨rfl, hmiss⟩ := Prod.mk.inj hobs
  rw [Execution.toOption_eq_some] at htrain hcand
  have h₀ : Visited Params.default acceptAll w₀ := hw.visited.step (.train htrain)
  have h₁ : Visited Params.default acceptAll w₁ := h₀.step (.candidate hcand)
  obtain ⟨w₃, hop', hnext⟩ := h₁.sppTrain_ok 0x101000
  obtain ⟨hsig, _⟩ := pageCrossing_continues rfl h₀ hcand (by decide) (by decide) (by decide) .refl
    (by decide) (of_decide_eq_true hmiss) hnext
  refine ⟨w₀, w₁, w₃, _, hop', h₀, hcand, hnext, ?_⟩
  rw [hsig]
  decide

end Scarab.Spp

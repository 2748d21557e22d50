import Scarab.Prefetcher.Spp.FilterCorrectness
import Scarab.Prefetcher.Spp.Hops
import Scarab.Prefetcher.Spp.SignatureTable

/-! # A demand line that is delivered twice

The second delivery finds the page in the way that the first one left, at the offset it left, and
trains nothing. The filter counts it once more only if the first delivery issued the line again. -/

namespace Scarab.Spp

variable {σ : Type} {p : Params} {addto : AddTo σ}

/-! ## The Signature Table -/

theorem aged_valid (n : ℕ) (e : SppStEntry) : (e.aged n).valid = e.valid ∧ (e.aged n).tag = e.tag := by
  unfold SppStEntry.aged
  split
  · exact ⟨rfl, rfl⟩
  · exact ⟨rfl, rfl⟩

theorem aged_zero (row : List SppStEntry) : row.map (SppStEntry.aged 0) = row := by
  refine (List.map_congr_left fun e _ => ?_).trans (List.map_id row)
  exact if_neg (Nat.not_lt_zero _)

/-- What a promotion leaves, whatever the ranks are. -/
theorem stPromote_eq {before after row' : List SppStEntry} {e : SppStEntry}
    (h : stPromote p (before ++ e :: after) before.length = .ok row') :
    row' = before.map (SppStEntry.aged e.lru) ++ e.newest :: after.map (SppStEntry.aged e.lru) := by
  have hmatched : (((before ++ e :: after)[before.length]?).map (·.lru)).getD 0 = e.lru := by simp
  have hself : e.aged e.lru = e := if_neg (Nat.lt_irrefl _)
  have haged : (fun x : SppStEntry => if x.lru < e.lru then { x with lru := x.lru + 1 } else x) =
      SppStEntry.aged e.lru := rfl
  have hat : before.length = (before.map (SppStEntry.aged e.lru)).length := by simp
  unfold stPromote at h
  rw [hmatched] at h
  obtain ⟨_, h⟩ := Execution.ite_error_eq_ok.mp h
  rw [← Except.ok.inj h, haged, List.map_append, List.map_cons, hself, hat, Row.modify_middle]
  rfl

/-- Promoting the newest way again changes nothing. -/
theorem stPromote_newest (before after : List SppStEntry) (e : SppStEntry) :
    stPromote p (before ++ e.newest :: after) before.length = .ok (before ++ e.newest :: after) := by
  have hmatched : (((before ++ e.newest :: after)[before.length]?).map (·.lru)).getD 0 = 0 := by
    simp [SppStEntry.newest]
  have haged : (fun x : SppStEntry => if x.lru < 0 then { x with lru := x.lru + 1 } else x) = SppStEntry.aged 0 := rfl
  unfold stPromote
  rw [hmatched, if_pos fun x _ hx => absurd hx (Nat.not_lt_zero _), haged, aged_zero, Row.modify_middle]
  rfl

/-- A page that is present at the offset it was last seen at. -/
theorem stRow_newest {before after : List SppStEntry} {e : SppStEntry} {tag : Uns} {pageOffset : ℕ} (ghr : List SppGhrEntry)
    (hbefore : ∀ y ∈ before, (y.valid && y.tag == tag) = false) (hvalid : e.valid = true) (htag : e.tag = tag)
    (hoffset : e.lastOffset = pageOffset) :
    stRow p ghr (before ++ e.newest :: after) tag pageOffset = .ok (before ++ e.newest :: after, ⟨0, 0, 0⟩) := by
  have hnewest : (e.newest.valid && e.newest.tag == tag) = true := by
    show (e.valid && e.tag == tag) = true
    rw [hvalid, htag]
    simp
  have hmatch : stMatch (before ++ e.newest :: after) tag = some before.length :=
    Row.findIdx?_middle before after e.newest hbefore hnewest
  have hhit : stHit p e.newest pageOffset = (e.newest, ⟨0, 0, 0⟩) := by
    have hdelta : (pageOffset : ℤ) - (e.newest.lastOffset : ℤ) = 0 := by
      show (pageOffset : ℤ) - (e.lastOffset : ℤ) = 0
      rw [hoffset, Int.sub_self]
    unfold stHit
    rw [hdelta]
    rfl
  have hset : (before ++ e.newest :: after).set before.length e.newest = before ++ e.newest :: after := by simp
  unfold stRow
  rw [hmatch]
  simp only [List.getElem?_append_right (Nat.le_refl _), Nat.sub_self, List.getElem?_cons_zero, Option.getD_some, hhit, hset]
  rw [stPromote_newest]
  rfl

theorem stVictim_split {row : List SppStEntry} {w : ℕ} (h : stVictim p row = .ok w) :
    ∃ before e after, row = before ++ e :: after ∧ before.length = w := by
  unfold stVictim at h
  cases hfree : row.findIdx? fun e => !e.valid with
  | some w' =>
      rw [hfree] at h
      cases h
      obtain ⟨before, e, after, hrow, hlen, _⟩ := Row.split_of_findIdx? hfree
      exact ⟨before, e, after, hrow, hlen⟩
  | none =>
      rw [hfree] at h
      cases hlru : row.findIdx? fun e => e.lru == p.stWay - 1 with
      | none =>
          simp only [hlru] at h
          cases h
      | some w' =>
          simp only [hlru] at h
          cases h
          obtain ⟨before, e, after, hrow, hlen, _⟩ := Row.split_of_findIdx? hlru
          exact ⟨before, e, after, hrow, hlen⟩

/-- A row in which an entry of the page at its offset was promoted. -/
theorem stRow_promoted {before after row' : List SppStEntry} {e : SppStEntry} {tag : Uns} {pageOffset : ℕ}
    (hbefore : ∀ y ∈ before, (y.valid && y.tag == tag) = false) (hvalid : e.valid = true) (htag : e.tag = tag)
    (hoffset : e.lastOffset = pageOffset) (hpromote : stPromote p (before ++ e :: after) before.length = .ok row')
    (ghr : List SppGhrEntry) : stRow p ghr row' tag pageOffset = .ok (row', ⟨0, 0, 0⟩) := by
  rw [stPromote_eq hpromote]
  refine stRow_newest ghr (fun y hy => ?_) hvalid htag hoffset
  obtain ⟨x, hx, rfl⟩ := List.mem_map.mp hy
  obtain ⟨hxvalid, hxtag⟩ := aged_valid e.lru x
  rw [hxvalid, hxtag]
  exact hbefore x hx

/-- In each of the three cases, and in every row: the page is found again at its offset, and the
row stays as it is. -/
theorem stRow_repeated {ghr : List SppGhrEntry} {row row' : List SppStEntry} {tag : Uns} {pageOffset : ℕ} {out : SppStOut}
    (h : stRow p ghr row tag pageOffset = .ok (row', out)) (ghr' : List SppGhrEntry) :
    stRow p ghr' row' tag pageOffset = .ok (row', ⟨0, 0, 0⟩) := by
  cases hmatch : stMatch row tag with
  | some w =>
      obtain ⟨before, e, after, rfl, rfl, he, hbefore⟩ := Row.split_of_findIdx? hmatch
      obtain ⟨hvalid, htag⟩ : e.valid = true ∧ e.tag = tag := by simpa using he
      have hset : ∀ e' : SppStEntry, (before ++ e :: after).set before.length e' = before ++ e' :: after := fun e' => by simp
      have hform : stRow p ghr (before ++ e :: after) tag pageOffset =
          stPromote p (before ++ (stHit p e pageOffset).1 :: after) before.length >>= fun row =>
            pure (row, (stHit p e pageOffset).2) := by
        unfold stRow
        rw [hmatch]
        simp only [List.getElem?_append_right (Nat.le_refl _), Nat.sub_self, List.getElem?_cons_zero, Option.getD_some, hset]
      rw [hform] at h
      obtain ⟨row'', hpromote, hret⟩ := Execution.bind_eq_ok.mp h
      cases hret
      obtain ⟨hvalid', htag', _⟩ := stHit_frame (p := p) e pageOffset
      refine stRow_promoted hbefore (hvalid'.trans hvalid) (htag'.trans htag) ?_ hpromote ghr'
      unfold stHit
      by_cases hdelta : (pageOffset : ℤ) - (e.lastOffset : ℤ) = 0
      · simp only [hdelta]
        show e.lastOffset = pageOffset
        omega
      · simp only [ne_eq, hdelta, not_false_eq_true, if_true]
  | none =>
      unfold stRow at h
      rw [hmatch] at h
      obtain ⟨w, hvictim, h⟩ := Execution.bind_eq_ok.mp h
      obtain ⟨row'', hpromote, hret⟩ := Execution.bind_eq_ok.mp h
      cases hret
      obtain ⟨before, e, after, rfl, rfl⟩ := stVictim_split hvictim
      rw [Row.modify_middle] at hpromote
      have hmiss := List.findIdx?_eq_none_iff.mp hmatch
      exact stRow_promoted (fun y hy => by simpa using hmiss y (List.mem_append_left _ hy)) rfl rfl rfl hpromote ghr'

/-! ## The filter -/

namespace FilterState

/-- A demand for the line counts a useful prefetch. -/
def counts (p : Params) (F : FilterState) (X : Addr) : Bool := F.hitBy p X && (F.slot (quotient p X)).valid

variable (F : FilterState) (X : Addr)

/-- What the slot of the line must hold. -/
theorem counts_iff : F.counts p X = true ↔ p.filterOn = true ∧ (F.slot (quotient p X)).remainderTag = remainder p X ∧
    (F.slot (quotient p X)).useful = false ∧ (F.slot (quotient p X)).valid = true := by
  simp [counts, hitBy, and_assoc]

variable {F X}

/-- After a demand for the line, another one is not counted. -/
theorem not_counts_use : (F.use p X).counts p X = false := by
  rw [Bool.eq_false_iff, ne_eq, counts_iff]
  rintro ⟨hon, htag, huseful, _⟩
  rw [use_slot _ hon] at htag huseful
  by_cases hfound : quotient p X = quotient p X ∧ (F.slot (quotient p X)).remainderTag = remainder p X
  · rw [if_pos hfound] at huseful
    cases huseful
  · rw [if_neg hfound] at htag
    exact hfound ⟨rfl, htag⟩

/-- A demand for any line makes no other one count. -/
theorem not_counts_demand (h : F.counts p X = false) (Y : Addr) : (F.use p Y).counts p X = false := by
  rw [Bool.eq_false_iff, ne_eq, counts_iff] at h ⊢
  rintro ⟨hon, htag, huseful, hvalid⟩
  rw [use_slot _ hon] at htag huseful hvalid
  by_cases hfound : quotient p Y = quotient p X ∧ (F.slot (quotient p X)).remainderTag = remainder p Y
  · rw [if_pos hfound] at huseful
    cases huseful
  · rw [if_neg hfound] at htag huseful hvalid
    exact h ⟨hon, htag, huseful, hvalid⟩

/-- Taking a slot for another tag, or another slot. -/
theorem not_counts_record (h : F.counts p X = false) {Z : Addr}
    (hother : quotient p Z = quotient p X → remainder p Z ≠ remainder p X) : (F.record p Z).counts p X = false := by
  rw [Bool.eq_false_iff, ne_eq, counts_iff] at h ⊢
  rintro ⟨hon, htag, huseful, hvalid⟩
  rw [record_slot _ hon] at htag huseful hvalid
  by_cases hq : quotient p Z = quotient p X
  · rw [if_pos hq] at htag
    exact hother hq htag
  · rw [if_neg hq] at htag huseful hvalid
    exact h ⟨hon, htag, huseful, hvalid⟩

theorem not_counts_apply (h : F.counts p X = false) {e : SppEvent} (he : ¬ Renewed p X [e]) :
    (F.apply p e).counts p X = false := by
  have hother : ∀ Z o, e = .candidate .l2Prefetch Z o → o ≠ .filtered → quotient p Z = quotient p X →
      remainder p Z ≠ remainder p X := fun Z o heq ho hq hr =>
    he ⟨Z, o, by rw [heq]; exact List.mem_singleton_self _, ho, hq, hr⟩
  cases e with
  | demand Y => exact not_counts_demand h Y
  | candidate req Z o =>
      cases req with
      | l2Prefetch =>
          cases o with
          | filtered => exact h
          | refused => exact not_counts_record h (hother Z _ rfl (by decide))
          | queued =>
              have hrecord := not_counts_record h (hother Z _ rfl (by decide))
              simp only [apply, counts, hitBy, countIssued_slot] at hrecord ⊢
              exact hrecord
      | llcPrefetch => exact h
      | demand => exact h
      | evict => exact h
  | crossed sig conf offset delta => exact h
  | filled addr => exact h
  | evicted addr => exact h

/-- As long as the line is not recorded anew, it does not count. -/
theorem not_counts_events (h : F.counts p X = false) {events : List SppEvent} (hevents : ¬ Renewed p X events) :
    (events.foldl (apply p) F).counts p X = false := by
  induction events generalizing F with
  | nil => exact h
  | cons e events ih =>
      refine ih (not_counts_apply h ?_) ?_
      · rintro ⟨Z, o, hZ, hrest⟩
        exact hevents ⟨Z, o, List.mem_cons.mpr (.inl (List.mem_singleton.mp hZ)), hrest⟩
      · rintro ⟨Z, o, hZ, hrest⟩
        exact hevents ⟨Z, o, List.mem_cons_of_mem _ hZ, hrest⟩

end FilterState

/-! ## One delivery -/

/-- The lookahead of a demand touches neither table, and its events are what happens to the filter. -/
theorem hopCandidates_events {procId : Uns8} {addr : Addr} {w w' : World σ} {cs : List (Hop × ℕ × ℤ)}
    (h : Execution.run (sppHopCandidate p addto procId addr) w cs = .ok w') :
    w'.spp.st = w.spp.st ∧ w'.spp.pt = w.spp.pt ∧ ∃ events, w'.history = w.history ++ events ∧
      w'.spp.filterState = events.foldl (FilterState.apply p) w.spp.filterState := by
  refine Execution.run_invariant (I := fun m : World σ => m.spp.st = w.spp.st ∧ m.spp.pt = w.spp.pt ∧
    ∃ events, m.history = w.history ++ events ∧
      m.spp.filterState = events.foldl (FilterState.apply p) w.spp.filterState)
    ?_ ⟨rfl, rfl, [], (List.append_nil _).symm, rfl⟩ h
  rintro m c t ⟨hst, hpt, events, hhistory, hfilter⟩ hc
  obtain ⟨hst', hpt', _⟩ := sppCandidate_tables hc
  refine ⟨hst'.trans hst, hpt'.trans hpt, ?_⟩
  rcases (show Step p addto m t from .candidate hc).event with ⟨hsame, hkept⟩ | ⟨e, hmore, happly, _⟩
  · exact ⟨events, hsame.trans hhistory, hkept.trans hfilter⟩
  · refine ⟨events ++ [e], ?_, ?_⟩
    · rw [hmore, hhistory, List.append_assoc]
    · rw [happly, hfilter, List.foldl_append]
      rfl

/-- A delivery in terms of its training. -/
theorem sppOperate_spec {procId : Uns8} {w w' : World σ} {lineAddr : Addr}
    (h : sppOperate p addto procId w lineAddr = .ok w') :
    ∃ m hop row out events, TrainSpec p lineAddr w m hop row out ∧ w'.spp.st = m.spp.st ∧ w'.spp.pt = m.spp.pt ∧
      w'.history = m.history ++ events ∧
      w'.spp.filterState = events.foldl (FilterState.apply p) m.spp.filterState := by
  rw [sppOperate_eq] at h
  obtain ⟨⟨m, hop⟩, htrain, hrun⟩ := Execution.bind_eq_ok.mp h
  obtain ⟨row, out, hspec⟩ := sppTrain_spec htrain
  obtain ⟨hst, hpt, events, hhistory, hfilter⟩ := hopCandidates_events hrun
  exact ⟨m, hop, row, out, events, hspec, hst, hpt, hhistory, hfilter⟩

/-- The tables after a delivery depend on the tables and the GHR before it. -/
theorem sppOperate_tables_congr {procId : Uns8} {v v' w w' : World σ} {lineAddr : Addr} (hst : v.spp.st = w.spp.st)
    (hpt : v.spp.pt = w.spp.pt) (hghr : v.spp.ghr = w.spp.ghr) (hv : sppOperate p addto procId v lineAddr = .ok v')
    (hw : sppOperate p addto procId w lineAddr = .ok w') : v'.spp.st = w'.spp.st ∧ v'.spp.pt = w'.spp.pt := by
  obtain ⟨m, hop, row, out, events, hm, hmst, hmpt, _⟩ := sppOperate_spec hv
  obtain ⟨m', hop', row', out', events', hm', hmst', hmpt', _⟩ := sppOperate_spec hw
  have hrow := hm.row_eq
  rw [hst, hghr, hm'.row_eq] at hrow
  obtain ⟨rfl, rfl⟩ := Prod.mk.inj (Except.ok.inj hrow)
  refine ⟨?_, ?_⟩
  · rw [hmst, hmst', hm.st, hm'.st, hst]
  · rw [hmpt, hmpt', hm.pt, hm'.pt, hpt]

/-- The second of two deliveries leaves the tables as they are, and counts the line only if the
lookahead of the first one recorded it anew. -/
theorem sppOperate_again {procId procId' : Uns8} {w w₁ w₂ : World σ} {lineAddr : Addr}
    (h₁ : sppOperate p addto procId w lineAddr = .ok w₁) (h₂ : sppOperate p addto procId' w₁ lineAddr = .ok w₂) :
    w₂.spp.st = w₁.spp.st ∧ w₂.spp.pt = w₁.spp.pt ∧
      ∃ events, w₁.history = w.history ++ .demand (p.lineBase lineAddr) :: events ∧
        (w₁.spp.filterState.counts p (p.lineBase lineAddr) = true → Renewed p (p.lineBase lineAddr) events) := by
  obtain ⟨m, hop, row, out, events, hm, hmst, hmpt, hhistory, hfilter⟩ := sppOperate_spec h₁
  obtain ⟨m', hop', row', out', _, hm', hmst', hmpt', _⟩ := sppOperate_spec h₂
  have hset : w₁.spp.st (stSetOf p (p.lineBase lineAddr >>> p.log2Page)) = row := by
    rw [hmst, hm.st, Function.update_self]
  have hrow := hm'.row_eq
  rw [hset, stRow_repeated hm.row_eq w₁.spp.ghr] at hrow
  obtain ⟨rfl, rfl⟩ := Prod.mk.inj (Except.ok.inj hrow)
  refine ⟨?_, ?_, events, ?_, fun hcounts => ?_⟩
  · rw [hmst', hm'.st, ← hset, Function.update_eq_self]
  · rw [hmpt', hm'.pt]
    exact if_neg fun hne => hne rfl
  · rw [hhistory, hm.history, List.append_assoc]
    rfl
  · by_contra hnot
    rw [hfilter, hm.filter, FilterState.not_counts_events FilterState.not_counts_use hnot] at hcounts
    cases hcounts

/-! ## The late path -/

/-- `pref_ul1_pref_hit_late`, where SPP is the prefetcher: the use of the prefetch, and then a miss or a hit or both. -/
def prefUl1PrefHitLate (p : Params) (addto : AddTo σ) (procId : Uns8) (w : World σ) (lineAddr : Addr) :
    Except String (World σ) :=
  (if p.prefReportPrefMatchAsMiss then prefSppUl1Miss p addto procId (prefSppUl1PrefHit p w lineAddr) lineAddr
    else .ok (prefSppUl1PrefHit p w lineAddr)) >>= fun w =>
  if p.prefReportPrefMatchAsHit then prefSppUl1Hit p addto procId w lineAddr else .ok w

/-- The use alone touches the filter only. -/
theorem prefSppUl1PrefHit_spec (w : World σ) (lineAddr : Addr) :
    (prefSppUl1PrefHit p w lineAddr).spp.st = w.spp.st ∧ (prefSppUl1PrefHit p w lineAddr).spp.pt = w.spp.pt ∧
      (prefSppUl1PrefHit p w lineAddr).spp.ghr = w.spp.ghr ∧
      (prefSppUl1PrefHit p w lineAddr).spp.filterState = w.spp.filterState.use p (p.lineBase lineAddr) := by
  simp [prefSppUl1PrefHit, sppFilterCheck_demand]

/-- The late path leaves the tables as one delivery does. -/
theorem prefUl1PrefHitLate_tables {procId : Uns8} {w w₁ w' : World σ} {lineAddr : Addr}
    (hreport : p.prefReportPrefMatchAsMiss = true ∨ p.prefReportPrefMatchAsHit = true)
    (h : sppOperate p addto procId w lineAddr = .ok w₁) (hlate : prefUl1PrefHitLate p addto procId w lineAddr = .ok w') :
    w'.spp.st = w₁.spp.st ∧ w'.spp.pt = w₁.spp.pt := by
  obtain ⟨hst, hpt, hghr, _⟩ := prefSppUl1PrefHit_spec (p := p) w lineAddr
  obtain ⟨m, hmiss, hhit⟩ := Execution.bind_eq_ok.mp hlate
  have hdelivered : ∀ {v}, sppOperate p addto procId (prefSppUl1PrefHit p w lineAddr) lineAddr = .ok v →
      v.spp.st = w₁.spp.st ∧ v.spp.pt = w₁.spp.pt := fun hv => sppOperate_tables_congr hst hpt hghr hv h
  cases hasMiss : p.prefReportPrefMatchAsMiss with
  | true =>
      rw [if_pos hasMiss] at hmiss
      obtain ⟨hmst, hmpt⟩ := hdelivered hmiss
      cases hasHit : p.prefReportPrefMatchAsHit with
      | true =>
          rw [if_pos hasHit, prefSppUl1Hit, if_pos hasHit] at hhit
          obtain ⟨hst', hpt', _⟩ := sppOperate_again hmiss hhit
          exact ⟨hst'.trans hmst, hpt'.trans hmpt⟩
      | false =>
          rw [hasHit] at hhit
          cases hhit
          exact ⟨hmst, hmpt⟩
  | false =>
      have hasHit : p.prefReportPrefMatchAsHit = true := hreport.resolve_left (by rw [hasMiss]; decide)
      rw [hasMiss] at hmiss
      cases hmiss
      rw [if_pos hasHit, prefSppUl1Hit, if_pos hasHit] at hhit
      exact hdelivered hhit

/-- Delivering a line again, in whatever state: the tables stay as the first delivery left them, and
the line counts once, unless the lookahead of the first delivery recorded it anew. On the late path
the use of the prefetch counts, and the delivery after it does not. -/
theorem sppOperate_repeated {procId : Uns8} {w w₁ : World σ} {lineAddr : Addr}
    (h : sppOperate p addto procId w lineAddr = .ok w₁) :
    (∀ procId' w₂, sppOperate p addto procId' w₁ lineAddr = .ok w₂ →
      w₂.spp.st = w₁.spp.st ∧ w₂.spp.pt = w₁.spp.pt ∧
        ∃ events, w₁.history = w.history ++ .demand (p.lineBase lineAddr) :: events ∧
          (¬ Renewed p (p.lineBase lineAddr) events →
            ¬ (w.spp.filterState.counts p (p.lineBase lineAddr) = true ∧
              w₁.spp.filterState.counts p (p.lineBase lineAddr) = true))) ∧
      (∀ w', (p.prefReportPrefMatchAsMiss = true ∨ p.prefReportPrefMatchAsHit = true) →
        prefUl1PrefHitLate p addto procId w lineAddr = .ok w' → w'.spp.st = w₁.spp.st ∧ w'.spp.pt = w₁.spp.pt) ∧
      (prefSppUl1PrefHit p w lineAddr).spp.filterState.counts p (p.lineBase lineAddr) = false := by
  refine ⟨fun procId' w₂ h₂ => ?_, fun w' hreport hlate => prefUl1PrefHitLate_tables hreport h hlate, ?_⟩
  · obtain ⟨hst, hpt, events, hhistory, hrenewed⟩ := sppOperate_again h h₂
    exact ⟨hst, hpt, events, hhistory, fun hnot hboth => hnot (hrenewed hboth.2)⟩
  · rw [(prefSppUl1PrefHit_spec w lineAddr).2.2.2]
    exact FilterState.not_counts_use

/-- Two lines that share a slot, demanded in turn. -/
def alternating (n : ℕ) : List (Callback Unit) :=
  ul1Misses 0x100000 ((List.range n).map fun i => if i % 2 = 0 then 3 else 51)

theorem sppOperate_repeated_alternating :
    ∃ w w₁ w₂ : World Unit, Reachable (.small 10 (by decide)) acceptAll w ∧
      sppOperate (.small 10 (by decide)) acceptAll 0 w 0x1000c0 = .ok w₁ ∧
      sppOperate (.small 10 (by decide)) acceptAll 0 w₁ 0x1000c0 = .ok w₂ ∧
      w₂.spp.st = w₁.spp.st ∧ w₂.spp.pt = w₁.spp.pt := by
  have hrun : ((afterCallbacks (.small 10 (by decide)) acceptAll 0 () (alternating 6)).toOption.map fun w =>
      (sppOperate (.small 10 (by decide)) acceptAll 0 w 0x1000c0).toOption.bind fun w₁ =>
        (sppOperate (.small 10 (by decide)) acceptAll 0 w₁ 0x1000c0).toOption.map fun _ => ()) = some (some ()) := by
    decide +kernel
  obtain ⟨w, hw, hobs⟩ := exists_reachable hrun
  obtain ⟨w₁, h₁, hobs⟩ := Option.bind_eq_some_iff.mp hobs
  obtain ⟨w₂, h₂, _⟩ := Option.map_eq_some_iff.mp hobs
  rw [Execution.toOption_eq_some] at h₁ h₂
  obtain ⟨hst, hpt, _⟩ := (sppOperate_repeated h₁).1 0 w₂ h₂
  exact ⟨w, w₁, w₂, hw, h₁, h₂, hst, hpt⟩

/-- The lookahead of the demand for one of the lines prefetches the other one, which takes its slot,
and then the line itself. -/
theorem sppOperate_repeated_counts_twice :
    ¬ ∀ (p : Params) (w w₁ w₂ : World Unit) (lineAddr : Addr), Reachable p acceptAll w →
      sppOperate p acceptAll 0 w lineAddr = .ok w₁ → sppOperate p acceptAll 0 w₁ lineAddr = .ok w₂ →
        w₂.spp.st = w₁.spp.st ∧ w₂.spp.pt = w₁.spp.pt ∧
          ¬ (w.spp.filterState.counts p (p.lineBase lineAddr) = true ∧
            w₁.spp.filterState.counts p (p.lineBase lineAddr) = true) := by
  intro hall
  have hrun : ((afterCallbacks (.small 10 (by decide)) acceptAll 0 () (alternating 10)).toOption.map fun w =>
      (sppOperate (.small 10 (by decide)) acceptAll 0 w 0x1000c0).toOption.bind fun w₁ =>
        (sppOperate (.small 10 (by decide)) acceptAll 0 w₁ 0x1000c0).toOption.map fun _ =>
          (w.spp.filterState.counts (.small 10 (by decide)) ((Params.small 10 (by decide)).lineBase 0x1000c0),
            w₁.spp.filterState.counts (.small 10 (by decide)) ((Params.small 10 (by decide)).lineBase 0x1000c0))) =
      some (some (true, true)) := by decide +kernel
  obtain ⟨w, hw, hobs⟩ := exists_reachable hrun
  obtain ⟨w₁, h₁, hobs⟩ := Option.bind_eq_some_iff.mp hobs
  obtain ⟨w₂, h₂, hobs⟩ := Option.map_eq_some_iff.mp hobs
  rw [Execution.toOption_eq_some] at h₁ h₂
  obtain ⟨hfirst, hsecond⟩ := Prod.mk.inj hobs
  exact (hall _ w w₁ w₂ _ hw h₁ h₂).2.2 ⟨hfirst, hsecond⟩

end Scarab.Spp

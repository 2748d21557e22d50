import Mathlib.Algebra.GroupWithZero.Nat
import Mathlib.Data.List.Induction
import Scarab.Bp.Tagescl.Histories

/-! # The branches in flight

The predictor at the calls of a front end: branches are fetched in order, committed in any order,
retired from the oldest one, and flushed down to any that is in flight. Its histories are those of
the branches that survive. -/

namespace Scarab.Bp.Tagescl

variable {cfg : Config}

/-- A branch, with the direction of its last speculative update. -/
structure Update where
  br : Branch
  dir : Bool
  deriving DecidableEq, Repr

/-- The history bits of a branch. -/
def Update.numBits (u : Update) : ℕ := u.br.type.numBitInserts

/-- The history bits of a path. -/
def numBits (path : List Update) : ℕ := (path.map Update.numBits).sum

/-! ## What a path leaves in the histories -/

/-- The histories, with no bound on the bits. -/
structure Ideal (cfg : Config) where
  bits : List Bool
  pathHistory : BitVec 64
  sc : ScHistories cfg

def Ideal.init (cfg : Config) : Ideal cfg := ⟨[], 0, .init cfg⟩

def Ideal.push (h : Ideal cfg) (u : Update) : Ideal cfg where
  bits := (insertedBits u.numBits (u.br.pcDirHash u.dir)).reverse ++ h.bits
  pathHistory := maskPath cfg.pathHistoryWidth (pushPath u.numBits (u.br.pathHash u.dir) h.pathHistory)
  sc := h.sc.updateSpeculativeState u.br u.dir

/-- The histories after a path, whose oldest branch comes first. -/
def ideal (cfg : Config) (path : List Update) : Ideal cfg := path.foldl Ideal.push (Ideal.init cfg)

/-- What is remembered of a branch after the path before it. -/
def remembered (before : Ideal cfg) (u : Update) : PredictionInfo cfg :=
  ⟨⟨u.numBits, -(before.bits.length : ℤ), before.pathHistory⟩, before.sc.snapshot u.br.pc, u.br.pc⟩

section Ideal

variable {path rest : List Update} {u : Update}

theorem ideal_concat (path : List Update) (u : Update) : ideal cfg (path ++ [u]) = (ideal cfg path).push u :=
  List.foldl_concat ..

theorem numBits_append : numBits (path ++ rest) = numBits path + numBits rest := by
  rw [numBits, List.map_append, List.sum_append]
  rfl

theorem numBits_singleton (u : Update) : numBits [u] = u.numBits := by
  simp [numBits]

theorem length_insertedBits (n : ℕ) (hash : BitVec 32) : (insertedBits n hash).length = n := by
  induction n generalizing hash with
  | zero => rfl
  | succ n ih => rw [insertedBits, List.length_cons, ih]

/-- The bits of a path come in front of those before it. -/
theorem ideal_bits_append (cfg : Config) (path rest : List Update) :
    ∃ extra, (ideal cfg (path ++ rest)).bits = extra ++ (ideal cfg path).bits ∧ extra.length = numBits rest := by
  induction rest using List.reverseRecOn with
  | nil => exact ⟨[], by simp, rfl⟩
  | append_singleton rest u ih =>
      obtain ⟨extra, hbits, hlen⟩ := ih
      refine ⟨(insertedBits u.numBits (u.br.pcDirHash u.dir)).reverse ++ extra, ?_, ?_⟩
      · rw [← List.append_assoc, ideal_concat, List.append_assoc, ← hbits]
        rfl
      · rw [List.length_append, List.length_reverse, length_insertedBits, hlen, numBits_append, numBits_singleton,
          Nat.add_comm]

end Ideal

/-! ## Undoing a branch -/

/-- The histories that are kept by branch, and IMLI. -/
structure ScHistories.SameLocal (sc sc' : ScHistories cfg) : Prop where
  first : sc.firstLocalHistoryTable = sc'.firstLocalHistoryTable
  second : sc.secondLocalHistoryTable = sc'.secondLocalHistoryTable
  third : sc.thirdLocalHistoryTable = sc'.thirdLocalHistoryTable
  imliCounter : sc.imliCounter = sc'.imliCounter
  imliTable : sc.imliTable = sc'.imliTable

section Undo

variable {sc before : ScHistories cfg} {br : Branch} {dir : Bool}

theorem update_undo {β : Type} {γ : Type} [DecidableEq β] {f g : β → γ} {b : β}
    (h : f = g ∨ ∃ c, f = Function.update g b c) : Function.update f b (g b) = g := by
  cases h with
  | inl heq => rw [heq, Function.update_eq_self]
  | inr hupdate =>
      obtain ⟨c, heq⟩ := hupdate
      rw [heq, Function.update_idem, Function.update_eq_self]

/-- What the youngest branch did to its local histories and to IMLI is undone. -/
theorem ScHistories.SameLocal.undo (h : sc.SameLocal (before.updateSpeculativeState br dir)) :
    (sc.localRecoverSpeculativeState br.pc (before.snapshot br.pc)).SameLocal before := by
  obtain ⟨hfirst, hsecond, hthird, hcounter, htable⟩ := h
  cases hcond : br.type.isConditional with
  | true =>
      simp only [updateSpeculativeState, hcond, if_true] at hfirst hsecond hthird hcounter htable
      exact ⟨update_undo (.inr ⟨_, hfirst⟩), update_undo (.inr ⟨_, hsecond⟩), update_undo (.inr ⟨_, hthird⟩), rfl,
        update_undo (.inr ⟨_, htable⟩)⟩
  | false =>
      simp only [updateSpeculativeState, hcond] at hfirst hsecond hthird hcounter htable
      exact ⟨update_undo (.inl hfirst), update_undo (.inl hsecond), update_undo (.inl hthird), rfl,
        update_undo (.inl htable)⟩

/-- The global histories come from the snapshot. -/
theorem ScHistories.SameLocal.recover (h : sc.SameLocal before) (pc : BitVec 64) :
    sc.globalRecoverSpeculativeState (before.snapshot pc) = before := by
  obtain ⟨hfirst, hsecond, hthird, hcounter, htable⟩ := h
  cases before
  simp only [globalRecoverSpeculativeState, snapshot] at *
  rw [hfirst, hsecond, hthird, hcounter, htable]

end Undo

/-! ## The predictor and the branches that survive -/

/-- The predictor after the path, whose first `retired` branches are retired. -/
structure TageScL.After (s : TageScL cfg) (path : List Update) (retired : ℕ) : Prop where
  tage : s.tage.Holds cfg (ideal cfg path).bits
  pathHistory : s.tage.pathHistory = (ideal cfg path).pathHistory
  sc : s.statisticalCorrector = (ideal cfg path).sc
  speculative : s.tage.speculative = numBits (path.drop retired)
  back : s.predictionInfoBuffer.back = path.length - 1
  front : s.predictionInfoBuffer.front = retired
  size : s.predictionInfoBuffer.size = path.length - retired
  front_le : retired ≤ path.length
  size_le : path.length ≤ retired + s.predictionInfoBuffer.bufferSize
  infos : ∀ k u, retired ≤ k → path[k]? = some u →
    s.predictionInfoBuffer.buffer (s.predictionInfoBuffer.slot k) = remembered (ideal cfg (path.take k)) u
  fits : ∀ u ∈ path, u.numBits ≤ s.tage.capacity

variable {s s' : TageScL cfg} {path : List Update} {front : ℕ} {u : Update} {M : ℕ}

theorem TageScL.after_init (M : ℕ) (uninitialized : ℕ → PredictionInfo cfg) :
    (TageScL.init M uninitialized).After [] 0 where
  tage := TageHistories.holds_init cfg M
  pathHistory := rfl
  sc := rfl
  speculative := rfl
  back := rfl
  front := rfl
  size := rfl
  front_le := Nat.le_refl 0
  size_le := Nat.zero_le _
  infos := fun k u _ hk => by simp at hk
  fits := by simp

/-- What is remembered of the branches in flight is in different places. -/
theorem CircularBuffer.slot_ne {α : Type} {b : CircularBuffer α} {j k : ℕ} (hlt : j < k) (hk : k < j + b.bufferSize) :
    b.slot k ≠ b.slot j := by
  have hne := Tagescl.slot_ne b.bufferSize j (i := k - j) (by omega) (by omega)
  rw [show ((j : ℤ) + ((k - j : ℕ) : ℤ)) = k by omega] at hne
  exact hne

/-! ### What the calls do -/

/-- A branch gets its id and is speculatively updated. Its prediction changes no history. -/
def TageScL.fetch (s : TageScL cfg) (u : Update) : Except String (TageScL cfg) := do
  let (branchId, s) ← s.getNewBranchId
  s.updateSpeculativeState branchId u.br u.dir

/-- The speculative update, from any histories. -/
theorem TageScL.update_spec (u : Update) (id : ℤ) {before : Ideal cfg} (htage : s.tage.Holds cfg before.bits)
    (hpath : s.tage.pathHistory = before.pathHistory) (hsc : s.statisticalCorrector = before.sc)
    (hroom : s.tage.speculative + u.numBits ≤ s.tage.capacity)
    (hid : s.predictionInfoBuffer.front ≤ id ∧ id ≤ s.predictionInfoBuffer.back) :
    ∃ tage', s.update id u.br.pc u.br u.dir = .ok ⟨tage', (before.push u).sc,
        { s.predictionInfoBuffer with
          buffer := Function.update s.predictionInfoBuffer.buffer (s.predictionInfoBuffer.slot id)
            (remembered before u) }⟩ ∧
      tage'.Holds cfg (before.push u).bits ∧ tage'.pathHistory = (before.push u).pathHistory ∧
      tage'.speculative = s.tage.speculative + u.numBits ∧ tage'.capacity = s.tage.capacity := by
  obtain ⟨t, hpush, ht, hspec, hcap⟩ := htage.pushBits (insertedBits u.numBits (u.br.pcDirHash u.dir))
    (by rw [length_insertedBits]; exact hroom)
  rw [length_insertedBits] at hspec
  refine ⟨{ t with pathHistory := (before.push u).pathHistory }, ?_, ⟨ht.register, ht.indices, ht.tags0, ht.tags1⟩,
    rfl, hspec, hcap⟩
  refine Execution.bind_eq_ok.mpr ⟨_, Execution.bind_eq_ok.mpr ⟨t, hpush, rfl⟩, ?_⟩
  refine Execution.bind_eq_ok.mpr ⟨_, if_pos hid, ?_⟩
  simp only [htage.register.head, hpath, hsc]
  rfl

theorem TageScL.After.fetch (h : s.After path front) (hsize : path.length < front + s.predictionInfoBuffer.bufferSize)
    (hroom : numBits (path.drop front) + u.numBits ≤ s.tage.capacity) :
    ∃ s', s.fetch u = .ok s' ∧ s'.After (path ++ [u]) front ∧ s'.tage.capacity = s.tage.capacity ∧
      s'.predictionInfoBuffer.bufferSize = s.predictionInfoBuffer.bufferSize := by
  have hfront := h.front_le
  have hlt : s.predictionInfoBuffer.size < s.predictionInfoBuffer.bufferSize := by
    rw [h.size]
    omega
  let buffer : CircularBuffer (PredictionInfo cfg) := { s.predictionInfoBuffer with
    back := s.predictionInfoBuffer.back + 1
    size := s.predictionInfoBuffer.size + 1 }
  have hid : s.predictionInfoBuffer.back + 1 = path.length := by
    rw [h.back]
    omega
  obtain ⟨t, hupdate, ht, hpath, hspec, hcap⟩ := TageScL.update_spec (s := ⟨s.tage, s.statisticalCorrector, buffer⟩)
    u (s.predictionInfoBuffer.back + 1) h.tage h.pathHistory h.sc (by rw [h.speculative]; exact hroom)
    ⟨by rw [hid]; show s.predictionInfoBuffer.front ≤ _; rw [h.front]; omega, Int.le_refl _⟩
  refine ⟨_, Execution.bind_eq_ok.mpr ⟨_, Execution.bind_eq_ok.mpr ⟨_, if_pos hlt, rfl⟩, hupdate⟩, ?_, hcap, rfl⟩
  rw [← ideal_concat] at ht hpath
  refine ⟨ht, hpath, ?_, ?_, ?_, h.front, ?_, ?_, ?_, fun k v hk hv => ?_, fun v hv => ?_⟩
  · rw [← ideal_concat]
  · rw [List.drop_append_of_le_length hfront, numBits_append, numBits_singleton, ← h.speculative]
    exact hspec
  · show s.predictionInfoBuffer.back + 1 = _
    rw [hid, List.length_append, List.length_singleton]
    push_cast
    omega
  · show s.predictionInfoBuffer.size + 1 = _
    rw [h.size, List.length_append, List.length_singleton]
    push_cast
    omega
  · rw [List.length_append]
    omega
  · rw [List.length_append, List.length_singleton]
    exact hsize
  · have hlen := (List.getElem?_eq_some_iff.mp hv).1
    rw [List.length_append, List.length_singleton] at hlen
    show Function.update s.predictionInfoBuffer.buffer (s.predictionInfoBuffer.slot _) _ (s.predictionInfoBuffer.slot k) = _
    rw [hid]
    by_cases hlast : k = path.length
    · subst hlast
      rw [List.getElem?_concat_length] at hv
      cases hv
      rw [Function.update_self, List.take_left]
    · rw [List.getElem?_append_left (by omega)] at hv
      rw [Function.update_of_ne (CircularBuffer.slot_ne (by omega) (by omega)).symm, h.infos k v hk hv,
        List.take_append_of_le_length (by omega)]
  · rw [hcap]
    cases List.mem_append.mp hv with
    | inl hmem => exact h.fits v hmem
    | inr hmem =>
        rw [List.mem_singleton.mp hmem]
        show u.numBits ≤ s.tage.capacity
        omega

theorem numBitInserts_pos (type : BranchType) : 0 < type.numBitInserts := by
  rw [BranchType.numBitInserts]
  cases (type.isIndirect && !type.isConditional) <;> decide

theorem numBits_drop {k : ℕ} (hu : path[k]? = some u) : numBits (path.drop k) = u.numBits + numBits (path.drop (k + 1)) := by
  obtain ⟨hk, rfl⟩ := List.getElem?_eq_some_iff.mp hu
  rw [List.drop_eq_getElem_cons hk]
  rfl

/-- A branch in flight is in the buffer. -/
theorem TageScL.After.get (h : s.After path front) {k : ℕ} (hk : front ≤ k) (hu : path[k]? = some u) :
    s.predictionInfoBuffer.get k = .ok (remembered (ideal cfg (path.take k)) u) := by
  have hlen := (List.getElem?_eq_some_iff.mp hu).1
  rw [CircularBuffer.get, if_pos ⟨by rw [h.front]; omega, by rw [h.back]; omega⟩, h.infos k u hk hu]

theorem TageScL.After.commit (h : s.After path front) {k : ℕ} (hk : front ≤ k) (hu : path[k]? = some u) (br : Branch) :
    s.commitState k br = .ok s := by
  rw [TageScL.commitState]
  cases br.type.isConditional with
  | true => exact Execution.bind_eq_ok.mpr ⟨_, h.get hk hu, rfl⟩
  | false => rfl

theorem TageScL.After.retire (h : s.After path front) (hu : path[front]? = some u) :
    ∃ s', s.commitStateAtRetire front = .ok s' ∧ s'.After path (front + 1) ∧ s'.tage.capacity = s.tage.capacity ∧
      s'.predictionInfoBuffer.bufferSize = s.predictionInfoBuffer.bufferSize := by
  have hlen := (List.getElem?_eq_some_iff.mp hu).1
  have hbits := numBits_drop hu
  have hspec : s.tage.historyRegister.numSpeculativeBits = numBits (path.drop front) := h.speculative
  obtain ⟨r, hretire, hr, hspec', hcap⟩ := h.tage.register.retire (numBitInserts_pos u.br.type)
    (show u.numBits ≤ _ by omega)
  have hpop : (front : ℤ) = s.predictionInfoBuffer.front ∧ 0 < s.predictionInfoBuffer.size := by
    rw [h.front, h.size]
    omega
  refine ⟨_, Execution.bind_eq_ok.mpr ⟨_, h.get (Nat.le_refl _) hu, Execution.bind_eq_ok.mpr ⟨r, hretire,
    Execution.bind_eq_ok.mpr ⟨_, if_pos hpop, rfl⟩⟩⟩, ?_, hcap, rfl⟩
  refine ⟨⟨hr, h.tage.indices, h.tage.tags0, h.tage.tags1⟩, h.pathHistory, h.sc, ?_, h.back, ?_, ?_, hlen, ?_,
    fun k v hk hv => h.infos k v (by omega) hv, fun v hv => ?_⟩
  · show r.numSpeculativeBits = _
    have hsum : r.numSpeculativeBits + u.numBits = s.tage.historyRegister.numSpeculativeBits := hspec'
    omega
  · show s.predictionInfoBuffer.front + 1 = _
    rw [h.front]
    push_cast
    rfl
  · show s.predictionInfoBuffer.size - 1 = _
    rw [h.size]
    push_cast
    omega
  · have hle := h.size_le
    show path.length ≤ front + 1 + s.predictionInfoBuffer.bufferSize
    omega
  · exact (h.fits v hv).trans (Nat.le_of_eq hcap.symm)

/-- The loop of a flush, from the `j`th branch down, undoes `n` branches. -/
theorem TageScL.After.localRecover (h : s.After path front) {n j : ℕ} {sc : ScHistories cfg} (hj : j ≤ path.length)
    (hn : front + n ≤ j) (hsc : sc.SameLocal (ideal cfg (path.take j)).sc) :
    ∃ sc', Tagescl.localRecover s.predictionInfoBuffer n ((j : ℤ) - 1) sc = .ok sc' ∧
      sc'.SameLocal (ideal cfg (path.take (j - n))).sc := by
  induction n generalizing j sc with
  | zero => exact ⟨sc, rfl, hsc⟩
  | succ n ih =>
      obtain ⟨i, rfl⟩ : ∃ i, j = i + 1 := ⟨j - 1, by omega⟩
      have hu : path[i]? = some path[i] := List.getElem?_eq_getElem (by omega)
      rw [List.take_add_one, hu, Option.toList_some, ideal_concat] at hsc
      have hback : ((i + 1 : ℕ) : ℤ) - 1 = i := by omega
      rw [hback]
      obtain ⟨sc', hrec, hsc'⟩ := ih (j := i) (by omega) (by omega) hsc.undo
      refine ⟨sc', Execution.bind_eq_ok.mpr ⟨_, h.get (by omega) hu, hrec⟩, ?_⟩
      rw [show i + 1 - (n + 1) = i - n by omega]
      exact hsc'

theorem TageScL.After.flush (h : s.After path front) {id : ℕ} (hid : front ≤ id) (hu : path[id]? = some u) (dir : Bool) :
    ∃ s', s.flushBranchAndRepairState id u.br dir = .ok s' ∧ s'.After (path.take id ++ [⟨u.br, dir⟩]) front ∧
      s'.tage.capacity = s.tage.capacity ∧
      s'.predictionInfoBuffer.bufferSize = s.predictionInfoBuffer.bufferSize := by
  have hlen := (List.getElem?_eq_some_iff.mp hu).1
  have hsize := h.size_le
  have htake : (path.take id).length = id := List.length_take_of_le (Nat.le_of_lt hlen)
  -- the local histories, from the youngest branch on
  have hall : s.statisticalCorrector.SameLocal (ideal cfg (path.take path.length)).sc := by
    rw [List.take_length, h.sc]
    exact ⟨rfl, rfl, rfl, rfl, rfl⟩
  obtain ⟨sc, hlocal, hsc⟩ := h.localRecover (n := path.length - id) (Nat.le_refl _) (by omega) hall
  rw [show path.length - (path.length - id) = id by omega] at hsc
  -- the branches after it leave the buffer
  let buffer : CircularBuffer (PredictionInfo cfg) := { s.predictionInfoBuffer with
    size := s.predictionInfoBuffer.size - (s.predictionInfoBuffer.back - id)
    back := id }
  have hin : s.predictionInfoBuffer.front ≤ (id : ℤ) ∧ (id : ℤ) ≤ s.predictionInfoBuffer.back := by
    rw [h.front, h.back]
    omega
  have hget : buffer.get id = .ok (remembered (ideal cfg (path.take id)) u) := by
    have hinfo := h.infos id u hid hu
    rw [CircularBuffer.get, if_pos ⟨hin.1, Int.le_refl _⟩]
    exact congrArg Except.ok hinfo
  -- the bits that were pushed from it on are rewound
  obtain ⟨extra, hbits, hextra⟩ := ideal_bits_append cfg (path.take id) (path.drop id)
  rw [List.take_append_drop] at hbits
  have htage := h.tage
  rw [hbits] at htage
  have hspec : s.tage.speculative = numBits ((path.take id).drop front) + numBits (path.drop id) := by
    rw [h.speculative, ← numBits_append, ← List.drop_append_of_le_length (by omega), List.take_append_drop]
  obtain ⟨t, hrewind, ht, hspec', hcap⟩ := htage.rewindBits (by omega)
  have hflushed : (-((ideal cfg (path.take id)).bits.length : ℤ) - s.tage.historyRegister.head).toNat = extra.length := by
    rw [htage.register.head, List.length_append]
    push_cast
    omega
  have hrecover : s.tage.globalRecoverSpeculativeState (remembered (ideal cfg (path.take id)) u).tage =
      .ok { t with pathHistory := (ideal cfg (path.take id)).pathHistory } := by
    refine Execution.bind_eq_ok.mpr ⟨t, ?_, rfl⟩
    rw [show (remembered (ideal cfg (path.take id)) u).tage.globalHistoryHeadCheckpoint =
      -((ideal cfg (path.take id)).bits.length : ℤ) from rfl, hflushed]
    exact hrewind
  -- and it is updated again
  have hagain := numBits_drop hu
  have hroom := h.tage.register.room
  obtain ⟨t', hupdate, ht', hpath', hspec'', hcap'⟩ := TageScL.update_spec
    (s := ⟨{ t with pathHistory := (ideal cfg (path.take id)).pathHistory }, (ideal cfg (path.take id)).sc, buffer⟩)
    ⟨u.br, dir⟩ id (show TageHistories.Holds cfg _ (ideal cfg (path.take id)).bits from
      ⟨ht.register, ht.indices, ht.tags0, ht.tags1⟩) rfl rfl
    (by
      show t.speculative + u.numBits ≤ t.capacity
      have hle : s.tage.speculative ≤ s.tage.capacity := hroom
      omega)
    ⟨hin.1, Int.le_refl _⟩
  rw [← hsc.recover u.br.pc] at hupdate
  refine ⟨_, Execution.bind_eq_ok.mpr ⟨sc, ?_, Execution.bind_eq_ok.mpr ⟨buffer, if_pos hin,
    Execution.bind_eq_ok.mpr ⟨_, hget, Execution.bind_eq_ok.mpr ⟨_, hrecover, hupdate⟩⟩⟩⟩, ?_, hcap'.trans hcap, rfl⟩
  · rw [show (s.predictionInfoBuffer.back - id + 1).toNat = path.length - id by rw [h.back]; omega, h.back]
    exact hlocal
  · rw [← ideal_concat] at ht' hpath'
    refine ⟨ht', hpath', ?_, ?_, ?_, h.front, ?_, ?_, ?_, fun k v hk hv => ?_, fun v hv => ?_⟩
    · rw [← ideal_concat]
    · rw [List.drop_append_of_le_length (by omega), numBits_append, numBits_singleton]
      have hspec₃ : t'.speculative = t.speculative + u.numBits := hspec''
      show t'.speculative = _ + u.numBits
      omega
    · show (id : ℤ) = _
      rw [List.length_append, htake, List.length_singleton]
      push_cast
      omega
    · show s.predictionInfoBuffer.size - (s.predictionInfoBuffer.back - id) = _
      rw [h.size, h.back, List.length_append, htake, List.length_singleton]
      push_cast
      omega
    · rw [List.length_append, htake]
      omega
    · rw [List.length_append, htake, List.length_singleton]
      show id + 1 ≤ front + s.predictionInfoBuffer.bufferSize
      omega
    · have hk' := (List.getElem?_eq_some_iff.mp hv).1
      rw [List.length_append, htake, List.length_singleton] at hk'
      show Function.update s.predictionInfoBuffer.buffer (s.predictionInfoBuffer.slot id) _
        (s.predictionInfoBuffer.slot k) = _
      by_cases hlast : k = id
      · subst hlast
        rw [List.getElem?_append_right (by omega), htake, Nat.sub_self] at hv
        cases hv
        rw [Function.update_self, List.take_append_of_le_length (by omega), List.take_take, Nat.min_self]
      · rw [List.getElem?_append_left (by omega), List.getElem?_take_of_lt (by omega)] at hv
        rw [Function.update_of_ne (CircularBuffer.slot_ne (by omega) (by omega)).symm, h.infos k v hk hv,
          List.take_append_of_le_length (by omega), List.take_take, Nat.min_eq_left (by omega)]
    · show v.numBits ≤ t'.capacity
      rw [hcap'.trans hcap]
      cases List.mem_append.mp hv with
      | inl hmem => exact h.fits v (List.mem_of_mem_take hmem)
      | inr hmem =>
          rw [List.mem_singleton.mp hmem]
          exact h.fits u (List.mem_of_getElem? hu)

end Scarab.Bp.Tagescl

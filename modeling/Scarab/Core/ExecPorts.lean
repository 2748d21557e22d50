import Mathlib.Data.List.Nodup
import Mathlib.Data.List.Perm.Subperm
import Mathlib.Data.List.Range
import Scarab.Lib.Loop
import Scarab.Prefetcher.Types

/-! # The connections of the reservation stations

`exec_ports.c`. The connections of a station are a vector of 64 bits, one for each functional unit.
`__builtin_popcount`, `__builtin_ffs` and the constant that is shifted are 32 bits wide. -/

namespace Scarab.ExecPorts

/-! ## The code -/

/-- `__builtin_popcount`. -/
def builtinPopcount (x : Uns) : ℕ := (List.range 32).countP fun i => x.getLsbD i

/-- `__builtin_ffs`: one more than the index of the lowest bit set, or 0. -/
def builtinFfs (x : CInt) : ℕ :=
  match (List.range 32).find? fun i => x.getLsbD i with
  | some idx => idx + 1
  | none => 0

/-- `next & ~(0x01 << idx)`. -/
def clearBit (next : Uns64) (idx : ℕ) : Uns64 := next &&& (~~~((1 : CInt) <<< idx)).signExtend 64

/-- What a `Reservation_Station` says of the functional units; a unit is its `fu_id`. -/
structure ReservationStation where
  connectedFus : List ℕ
  numFus : ℕ
  deriving DecidableEq, Repr

/-- A vector with no bit is fully connected. -/
def fullyConnected (numFus : ℕ) (next : Uns64) : Uns64 :=
  if next = 0 then (if numFus = 64 then BitVec.allOnes 64 else (1 <<< numFus) - 1) else next

/-- A turn of the loop that decodes the vector. -/
def connectTurn (numFus : ℕ) :
    Uns64 × ReservationStation → Except String ((Uns64 × ReservationStation) ⊕ ReservationStation)
  | (next, rs) =>
      match builtinFfs (next.setWidth 32) with
      | 0 => .ok (.inr rs)
      | idx + 1 =>
          if idx < numFus then .ok (.inl (clearBit next idx, ⟨rs.connectedFus ++ [idx], rs.numFus + 1⟩))
          else .error "Attempted connections with an FU that does not exist\n"

/-- The connections of one station. -/
def connect (numFus : ℕ) (next : Uns64) (fuel : ℕ) : Except String (Option ReservationStation) := do
  let next := fullyConnected numFus next
  if 64 < numFus then .error "NUM_FUS cannot exceed 64 (using a 64 bit int for bitmask)\n"
  else
    let numFusPre := builtinPopcount (next.setWidth 32)
    match ← Loop.loop (connectTurn numFus) fuel (next, ⟨[], 0⟩) with
    | none => return none
    | some rs =>
        if numFus < rs.numFus then
          .error "RS must be connected to less than or equal the total number of FUs\n"
        else if ¬ (rs.numFus = numFusPre ∨ numFusPre = 0 ∧ rs.numFus = numFus) then
          .error "Decoded a different number of connections that was counted before the loop\n"
        else return some rs

/-- The loop of `init_exec_ports_rs_list` over the elements of `RS_CONNECTIONS`. -/
def initExecPortsRsList (numFus : ℕ) : ℕ → List Uns64 → ℕ → Except String (Option (List ReservationStation))
  | 0, [], _ => .ok (some [])
  | 0, _ :: _, _ => .error "Found more RS_CONNECTIONS than expected\n"
  | _ + 1, [], _ => .error "Found less RS_CONNECTIONS than expected\n"
  | numRs + 1, next :: elts, fuel => do
      match ← connect numFus next fuel with
      | none => return none
      | some rs =>
          match ← initExecPortsRsList numFus numRs elts fuel with
          | none => return none
          | some list => return some (rs :: list)

/-! ## The bits that are decoded -/

/-- The indices of the bits set below a bound. -/
def bitsBelow (bound : ℕ) (next : Uns64) : List ℕ := (List.range bound).filter fun i => next.getLsbD i

/-- The units that a vector names. -/
def namedFus (numFus : ℕ) (next : Uns64) : ReservationStation :=
  let fus := bitsBelow numFus (fullyConnected numFus next)
  ⟨fus, fus.length⟩

variable {numFus bound idx fuel : ℕ} {next : Uns64} {rs : ReservationStation}

theorem mem_bitsBelow {i : ℕ} : i ∈ bitsBelow bound next ↔ i < bound ∧ next.getLsbD i = true := by
  unfold bitsBelow
  rw [List.mem_filter, List.mem_range]

theorem nodup_bitsBelow : (bitsBelow bound next).Nodup := List.nodup_range.filter _

theorem getLsbD_low (next : Uns64) {i : ℕ} (hi : i < 32) : (next.setWidth 32).getLsbD i = next.getLsbD i := by
  rw [BitVec.getLsbD_setWidth, decide_eq_true hi, Bool.true_and]

theorem builtinPopcount_low (next : Uns64) : builtinPopcount (next.setWidth 32) = (bitsBelow 32 next).length := by
  unfold builtinPopcount bitsBelow
  rw [← List.countP_eq_length_filter]
  exact List.countP_congr fun i hi => by rw [getLsbD_low next (List.mem_range.mp hi)]

theorem find?_low (next : Uns64) :
    ((List.range 32).find? fun i => (next.setWidth 32).getLsbD i) = (bitsBelow 32 next).head? := by
  rw [← List.head?_filter]
  exact congrArg List.head? (List.filter_congr fun i hi => getLsbD_low next (List.mem_range.mp hi))

theorem builtinFfs_nil (h : bitsBelow 32 next = []) : builtinFfs (next.setWidth 32) = 0 := by
  unfold builtinFfs
  rw [find?_low, h]
  rfl

theorem builtinFfs_cons {rest : List ℕ} (h : bitsBelow 32 next = idx :: rest) :
    builtinFfs (next.setWidth 32) = idx + 1 := by
  unfold builtinFfs
  rw [find?_low, h]
  rfl

/-- Of the low bits only the one that was connected is cleared, also if it is the sign of the `int`. -/
theorem getLsbD_clearBit {i : ℕ} (hi : i < 32) :
    (clearBit next idx).getLsbD i = (next.getLsbD i && decide (i ≠ idx)) := by
  unfold clearBit
  rw [BitVec.getLsbD_and, BitVec.getLsbD_signExtend, BitVec.getLsbD_not, BitVec.getLsbD_shiftLeft]
  have hone : (1 : CInt).getLsbD (i - idx) = decide (i - idx = 0) := by
    rw [show (1 : CInt) = 1#32 from rfl, BitVec.getLsbD_one]
    simp
  rw [hone]
  by_cases hlt : i < idx
  · simp [hi, hlt, show i < 64 by omega, Nat.ne_of_lt hlt]
  · by_cases heq : i = idx
    · subst heq
      have hsmall : i < 64 := by omega
      simp [hi, hsmall]
    · simp [hi, hlt, heq, show i < 64 by omega, show i - idx ≠ 0 by omega]

theorem bitsBelow_clearBit {rest : List ℕ} (h : bitsBelow 32 next = idx :: rest) :
    bitsBelow 32 (clearBit next idx) = rest := by
  have hfresh : idx ∉ rest := (List.nodup_cons.mp (h ▸ nodup_bitsBelow)).1
  calc bitsBelow 32 (clearBit next idx)
      = (bitsBelow 32 next).filter fun i => decide (i ≠ idx) := by
        unfold bitsBelow
        rw [List.filter_filter]
        refine List.filter_congr fun i hi => ?_
        rw [getLsbD_clearBit (List.mem_range.mp hi), Bool.and_comm]
    _ = rest := by
        rw [h, List.filter_cons_of_neg (by simp), List.filter_eq_self]
        intro i hi
        rw [decide_eq_true_eq]
        rintro rfl
        exact hfresh hi

/-! ## The stations -/

/-- Every turn connects the lowest unit that is left. -/
theorem loop_connectTurn (hfuel : (bitsBelow 32 next).length < fuel) (hexist : ∀ i ∈ bitsBelow 32 next, i < numFus) :
    Loop.loop (connectTurn numFus) fuel (next, rs) =
      .ok (some ⟨rs.connectedFus ++ bitsBelow 32 next, rs.numFus + (bitsBelow 32 next).length⟩) := by
  induction fuel generalizing next rs with
  | zero => exact absurd hfuel (Nat.not_lt_zero _)
  | succ fuel ih =>
      unfold Loop.loop connectTurn
      cases hbits : bitsBelow 32 next with
      | nil =>
          simp only [builtinFfs_nil hbits, List.append_nil, List.length_nil, Nat.add_zero]
          rfl
      | cons idx rest =>
          have hclear := bitsBelow_clearBit hbits
          rw [hbits] at hfuel hexist
          obtain ⟨hidx, hrest⟩ := List.forall_mem_cons.mp hexist
          have hlater := @ih (clearBit next idx) ⟨rs.connectedFus ++ [idx], rs.numFus + 1⟩
            (by rw [hclear]; exact Nat.lt_of_succ_lt_succ hfuel) (by rw [hclear]; exact hrest)
          simp only [builtinFfs_cons hbits, if_pos hidx]
          rw [hclear] at hlater
          refine hlater.trans ?_
          rw [List.append_assoc, List.singleton_append, List.length_cons, Nat.add_right_comm, Nat.add_assoc]

theorem loop_connectTurn_error (hfuel : (bitsBelow 32 next).length < fuel) {i : ℕ} (hi : i ∈ bitsBelow 32 next)
    (hmissing : numFus ≤ i) :
    Loop.loop (connectTurn numFus) fuel (next, rs) = .error "Attempted connections with an FU that does not exist\n" := by
  induction fuel generalizing next rs with
  | zero => exact absurd hfuel (Nat.not_lt_zero _)
  | succ fuel ih =>
      unfold Loop.loop connectTurn
      cases hbits : bitsBelow 32 next with
      | nil => exact absurd (hbits ▸ hi) List.not_mem_nil
      | cons idx rest =>
          have hclear := bitsBelow_clearBit hbits
          rw [hbits] at hfuel hi
          by_cases hidx : idx < numFus
          · have hlater : i ∈ rest := (List.mem_cons.mp hi).resolve_left (by omega)
            simp only [builtinFfs_cons hbits, if_pos hidx]
            exact ih (by rw [hclear]; exact Nat.lt_of_succ_lt_succ hfuel) (by rw [hclear]; exact hlater)
          · simp only [builtinFfs_cons hbits, if_neg hidx]
            rfl

theorem length_bitsBelow_le : (bitsBelow bound next).length ≤ bound := by
  unfold bitsBelow
  exact (List.length_filter_le _ _).trans_eq List.length_range

/-- There are no more low bits than units, if the units exist. -/
theorem length_le_of_exist (hexist : ∀ i ∈ bitsBelow bound next, i < numFus) : (bitsBelow bound next).length ≤ numFus := by
  have hsub : bitsBelow bound next ⊆ List.range numFus := fun i hi => List.mem_range.mpr (hexist i hi)
  have hle := (List.Nodup.subperm nodup_bitsBelow hsub).length_le
  rwa [List.length_range] at hle

/-- What a station is connected to: the units of the 32 low bits, if they all exist. -/
theorem connect_eq_ok_iff (hfuel : 32 < fuel) :
    connect numFus next fuel = .ok (some rs) ↔ numFus ≤ 64 ∧
      (∀ i ∈ bitsBelow 32 (fullyConnected numFus next), i < numFus) ∧
      rs = ⟨bitsBelow 32 (fullyConnected numFus next), (bitsBelow 32 (fullyConnected numFus next)).length⟩ := by
  unfold connect
  generalize fullyConnected numFus next = next
  have henough : (bitsBelow 32 next).length < fuel := Nat.lt_of_le_of_lt length_bitsBelow_le hfuel
  by_cases hmany : 64 < numFus
  · rw [if_pos hmany]
    constructor
    · intro h
      cases h
    · rintro ⟨hle, -⟩
      omega
  · rw [if_neg hmany]
    by_cases hexist : ∀ i ∈ bitsBelow 32 next, i < numFus
    · have hle := length_le_of_exist hexist
      simp only [loop_connectTurn henough hexist, builtinPopcount_low, List.nil_append, Nat.zero_add]
      change (if numFus < (bitsBelow 32 next).length then _ else _) = _ ↔ _
      rw [if_neg (by omega), if_neg (fun hneither => hneither (.inl rfl))]
      constructor
      · intro h
        cases h
        exact ⟨by omega, hexist, rfl⟩
      · rintro ⟨-, -, rfl⟩
        rfl
    · obtain ⟨i, hi, hmissing⟩ : ∃ i ∈ bitsBelow 32 next, numFus ≤ i := by simpa using hexist
      simp only [loop_connectTurn_error henough hi hmissing]
      constructor
      · intro h
        cases h
      · rintro ⟨-, hall, -⟩
        exact (hexist hall).elim

/-- The list of stations is accepted if each is, and if there are as many as expected. -/
theorem initExecPortsRsList_eq_ok_iff {numRs : ℕ} {elts : List Uns64} {result : List ReservationStation} :
    initExecPortsRsList numFus numRs elts fuel = .ok (some result) ↔
      elts.length = numRs ∧ List.Forall₂ (fun next rs => connect numFus next fuel = .ok (some rs)) elts result := by
  induction numRs generalizing elts result with
  | zero =>
      cases elts with
      | nil =>
          rw [List.forall₂_nil_left_iff]
          constructor
          · intro h
            cases h
            exact ⟨rfl, rfl⟩
          · rintro ⟨-, rfl⟩
            rfl
      | cons next elts =>
          constructor
          · intro h
            cases h
          · rintro ⟨hlength, -⟩
            cases hlength
  | succ numRs ih =>
      cases elts with
      | nil =>
          constructor
          · intro h
            cases h
          · rintro ⟨hlength, -⟩
            cases hlength
      | cons next elts =>
          constructor
          · intro h
            obtain ⟨first, hfirst, h⟩ := Execution.bind_eq_ok.mp h
            cases first with
            | none => cases h
            | some rs =>
                obtain ⟨later, hlater, h⟩ := Execution.bind_eq_ok.mp h
                cases later with
                | none => cases h
                | some later =>
                    cases h
                    obtain ⟨hlength, hconnect⟩ := ih.mp hlater
                    exact ⟨congrArg Nat.succ hlength, .cons hfirst hconnect⟩
          · rintro ⟨hlength, hconnect⟩
            obtain ⟨rs, later, hfirst, hrest, rfl⟩ := List.forall₂_cons_left_iff.mp hconnect
            have hlater := ih.mpr ⟨Nat.succ.inj hlength, hrest⟩
            unfold initExecPortsRsList
            rw [hfirst]
            refine Execution.bind_eq_ok.mpr ⟨_, rfl, ?_⟩
            exact Execution.bind_eq_ok.mpr ⟨_, hlater, rfl⟩

/-- Below two bounds there are the same bits, if none is between them. -/
theorem bitsBelow_congr {bound' : ℕ} (hle : bound ≤ bound')
    (hnone : ∀ i, bound ≤ i → i < bound' → next.getLsbD i = false) :
    bitsBelow bound' next = bitsBelow bound next := by
  unfold bitsBelow
  obtain ⟨more, rfl⟩ := Nat.exists_eq_add_of_le hle
  rw [List.range_add, List.filter_append, List.append_right_eq_self, List.filter_eq_nil_iff]
  intro i hi
  obtain ⟨offset, hoffset, rfl⟩ := List.mem_map.mp hi
  have hlt := List.mem_range.mp hoffset
  rw [hnone (bound + offset) (by omega) (by omega)]
  exact Bool.false_ne_true

/-- The low bits name all units exactly if there is no unit beyond them that is named. -/
theorem bitsBelow_low_iff (hexist : ∀ i ∈ bitsBelow 32 next, i < numFus) :
    bitsBelow 32 next = bitsBelow numFus next ↔ ∀ i, 32 ≤ i → i < numFus → next.getLsbD i = false := by
  constructor
  · intro heq i hlow hi
    by_contra hset
    have hmem : i ∈ bitsBelow 32 next := heq ▸ mem_bitsBelow.mpr ⟨hi, by simpa using hset⟩
    have hlt := (mem_bitsBelow.mp hmem).1
    omega
  · intro hnone
    rcases Nat.le_total 32 numFus with hle | hle
    · exact (bitsBelow_congr hle hnone).symm
    · refine bitsBelow_congr hle fun i hi hlow => ?_
      by_contra hset
      have hlt := hexist i (mem_bitsBelow.mpr ⟨hlow, by simpa using hset⟩)
      omega

/-- Accepted stations are connected to the units that their vectors name exactly if no vector names
a unit from 32 on. -/
theorem connected_named_iff {numRs : ℕ} {elts : List Uns64} {result : List ReservationStation}
    (h : Loop.Returns (initExecPortsRsList numFus numRs elts) result) :
    result = elts.map (namedFus numFus) ↔
      ∀ next ∈ elts, ∀ i, 32 ≤ i → i < numFus → (fullyConnected numFus next).getLsbD i = false := by
  obtain ⟨enough, hall⟩ := h
  obtain ⟨-, hconnect⟩ := initExecPortsRsList_eq_ok_iff.mp (hall (max enough 33) (Nat.le_max_left _ _))
  clear hall
  induction hconnect with
  | nil => simp
  | cons hfirst hrest ih =>
      obtain ⟨-, hexist, rfl⟩ := (connect_eq_ok_iff (by omega)).mp hfirst
      rw [List.map_cons, List.cons.injEq, List.forall_mem_cons, ← bitsBelow_low_iff hexist]
      refine and_congr ?_ ih
      unfold namedFus
      constructor
      · intro heq
        exact (ReservationStation.mk.inj heq).1
      · intro heq
        dsimp only
        rw [heq]

/-- Eight units, one station with two of them and one fully connected. -/
theorem connected_named_iff_eight :
    Loop.Returns (initExecPortsRsList 8 2 [0b10010, 0]) ([0b10010, 0].map (namedFus 8)) ∧
      [0b10010, 0].map (namedFus 8) = [⟨[1, 4], 2⟩, ⟨[0, 1, 2, 3, 4, 5, 6, 7], 8⟩] := by
  have hfew : ∀ next ∈ ([0b10010, 0] : List Uns64), ∀ i, 32 ≤ i → i < 8 →
      (fullyConnected 8 next).getLsbD i = false := by
    intro next _ i hlow hi
    omega
  have hreturns : Loop.Returns (initExecPortsRsList 8 2 [0b10010, 0]) [⟨[1, 4], 2⟩, ⟨[0, 1, 2, 3, 4, 5, 6, 7], 8⟩] := by
    refine ⟨33, fun fuel hfuel => initExecPortsRsList_eq_ok_iff.mpr ⟨rfl, .cons ?_ (.cons ?_ .nil)⟩⟩
    · exact (connect_eq_ok_iff hfuel).mpr ⟨by decide, by decide, by decide⟩
    · exact (connect_eq_ok_iff hfuel).mpr ⟨by decide, by decide, by decide⟩
  have heq := (connected_named_iff hreturns).mpr hfew
  exact ⟨heq ▸ hreturns, heq.symm⟩

/-- Of 33 units a fully connected station gets the first 32. -/
theorem connected_33 :
    ∃ result, Loop.Returns (initExecPortsRsList 33 1 [0]) result ∧ result ≠ [0].map (namedFus 33) := by
  refine ⟨[⟨List.range 32, 32⟩],
    ⟨33, fun fuel hfuel => initExecPortsRsList_eq_ok_iff.mpr ⟨rfl, .cons ?_ .nil⟩⟩, by decide⟩
  exact (connect_eq_ok_iff hfuel).mpr ⟨by decide, by decide, by decide⟩

end Scarab.ExecPorts

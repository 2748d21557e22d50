import Scarab.Bp.Crs.State
import Scarab.Lib.Cyclic
import Scarab.Lib.Execution

/-! # The linked stack

With `CRS_REALISTIC` set to 1 every entry points to the one below it, and a recovery sets three
registers. An entry is lost when the pushes have come round to its slot. -/

namespace Scarab.Bp.Linked

open Fetch (convertToCmpAddr)
open Map (addrPlusOffset)

/-! ## Runs -/

/-- A push or a pop, with what it saved. -/
structure PathOp where
  op : Op
  isPush : Bool
  info : RecoveryInfo
  /-- The pushes so far, on any path. -/
  pushes : ℕ
  deriving DecidableEq, Repr

/-- The stack, and the pushes and pops that survive, the last one first. -/
structure Machine where
  crs : Crs
  path : List PathOp
  pushes : ℕ

/-- An op that neither pushes nor pops saves what the one before it saved, so that a recovery
to it is a recovery to that one. -/
inductive Event where
  | push (op : Op)
  | pop (op : Op)
  | recover (younger : ℕ)
  deriving DecidableEq, Repr

/-- What the last push or pop of a path saved. -/
def saved : List PathOp → RecoveryInfo
  | [] => ⟨0, 0, 0⟩
  | o :: _ => o.info

variable (p : Params) (procId : Uns8)

def Machine.init (memory : ℕ → CrsEntry) : Machine := ⟨bpInit p memory, [], 0⟩

def Machine.step (m : Machine) : Event → Except String Machine
  | .push op => do
      let crs ← bpCrsRealisticPush p procId m.crs op
      return ⟨crs, ⟨op, true, crs.recoveryInfo, m.pushes + 1⟩ :: m.path, m.pushes + 1⟩
  | .pop op => do
      let (_, crs) ← bpCrsRealisticPop p procId m.crs op
      return ⟨crs, ⟨op, false, crs.recoveryInfo, m.pushes⟩ :: m.path, m.pushes⟩
  | .recover younger =>
      let path := m.path.drop younger
      .ok ⟨bpCrsRealisticRecover m.crs (saved path), path, m.pushes⟩

abbrev Machine.run : Machine → List Event → Except String Machine := Execution.run (Machine.step p procId)

/-! ## The calls that are open -/

/-- Each push that no pop has matched, with the path below it. -/
def openCalls : List PathOp → List (List PathOp)
  | [] => []
  | o :: path => if o.isPush then (o :: path) :: openCalls path else (openCalls path).tail

/-- The push that a pop at the end of a path matches. -/
def matchingPush (path : List PathOp) : Option PathOp := (openCalls path).head?.bind List.head?

/-- The pushes of a path. -/
def numPushes (path : List PathOp) : ℕ := path.countP PathOp.isPush

variable {p procId} {path rest : List PathOp} {o : PathOp}

theorem openCalls_suffix (path : List PathOp) : ∀ call ∈ openCalls path, ∃ o rest, call = o :: rest ∧ o.isPush ∧
    call <:+ path := by
  induction path with
  | nil => simp [openCalls]
  | cons o path ih =>
      intro call hcall
      unfold openCalls at hcall
      split at hcall
      · rename_i hpush
        cases hcall with
        | head => exact ⟨o, path, rfl, hpush, List.suffix_refl _⟩
        | tail _ hrest =>
            obtain ⟨o', rest, heq, hpush', hsuffix⟩ := ih call hrest
            exact ⟨o', rest, heq, hpush', hsuffix.trans (List.suffix_cons o path)⟩
      · obtain ⟨o', rest, heq, hpush', hsuffix⟩ := ih call (List.mem_of_mem_tail hcall)
        exact ⟨o', rest, heq, hpush', hsuffix.trans (List.suffix_cons o path)⟩

/-- Below an open call are those of the path below it. -/
def Nested : List (List PathOp) → Prop
  | [] => True
  | call :: calls => calls = openCalls call.tail ∧ Nested calls

theorem nested_openCalls (path : List PathOp) : Nested (openCalls path) := by
  induction path with
  | nil => trivial
  | cons o path ih =>
      unfold openCalls
      split
      · exact ⟨rfl, ih⟩
      · cases hcalls : openCalls path with
        | nil => trivial
        | cons call calls =>
            rw [hcalls] at ih
            exact ih.2

theorem openCalls_tail {call : List PathOp} {calls : List (List PathOp)} (h : openCalls path = call :: calls) :
    calls = openCalls call.tail := by
  have hnested := nested_openCalls path
  rw [h] at hnested
  exact hnested.1

/-! ## What is kept -/

/-- Fewer pushes than there are entries happened since. -/
def Fresh (n total : ℕ) (o : PathOp) : Prop := total - o.pushes < n

theorem Fresh.before {n total : ℕ} (h : Fresh n (total + 1) o) : Fresh n total o := by
  unfold Fresh at *
  omega

/-- The depth is not more than that below the top open call, and one. -/
def DepthBound (path : List PathOp) : Prop :=
  match openCalls path with
  | [] => (saved path).crsDepth = 0
  | call :: _ => (saved path).crsDepth ≤ (saved call.tail).crsDepth + 1

/-- The top of the stack is the entry of the top open call, as long as it is there. -/
def TosAtTop (n total : ℕ) (path : List PathOp) : Prop :=
  ∀ o rest calls, openCalls path = (o :: rest) :: calls → Fresh n total o → 0 < (saved path).crsDepth →
    (saved path).crsTos = o.info.crsTos

/-- What holds of a push or a pop, and the path below it. -/
structure Kept (n : ℕ) (entries : ℕ → CrsEntry) (total : ℕ) (o : PathOp) (rest : List PathOp) : Prop where
  next : o.info.crsNext = numPushes (o :: rest) % n
  depth : o.info.crsDepth ≤ n
  pushes : o.pushes ≤ total
  older : ∀ o' ∈ rest, o'.pushes ≤ o.pushes
  bound : DepthBound (o :: rest)
  tos : TosAtTop n total (o :: rest)
  slot : o.isPush → o.info.crsTos = numPushes rest % n
  entry : o.isPush → Fresh n total o →
    entries o.info.crsTos = ⟨addrPlusOffset o.op.addr o.op.instSize, (saved rest).crsTos⟩

structure Machine.Sound (n : ℕ) (m : Machine) : Prop where
  registers : m.crs.recoveryInfo = saved m.path
  kept : ∀ o rest, o :: rest <:+ m.path → Kept n m.crs.entries m.pushes o rest
  /-- The path has not grown by more than the pushes. -/
  count : ∀ o rest, o :: rest <:+ m.path → numPushes m.path + o.pushes ≤ m.pushes + numPushes (o :: rest)

/-! ## One step -/

variable {m : Machine} {n : ℕ} {op : Op} {k : ℕ}

theorem Machine.Sound.init (n : ℕ) (p : Params) (memory : ℕ → CrsEntry) : (Machine.init p memory).Sound n where
  registers := rfl
  kept := fun o rest hsuffix => by simp [Machine.init] at hsuffix
  count := fun o rest hsuffix => by simp [Machine.init] at hsuffix

theorem Machine.Sound.savedNext (h : m.Sound n) {path : List PathOp} (hsuffix : path <:+ m.path) :
    (saved path).crsNext = numPushes path % n := by
  cases path with
  | nil => exact (Nat.zero_mod n).symm
  | cons o rest => exact (h.kept o rest hsuffix).next

theorem Machine.Sound.savedDepth (h : m.Sound n) {path : List PathOp} (hsuffix : path <:+ m.path) :
    (saved path).crsDepth ≤ n := by
  cases path with
  | nil => exact Nat.zero_le n
  | cons o rest => exact (h.kept o rest hsuffix).depth

theorem Machine.Sound.depthBound (h : m.Sound n) {path : List PathOp} (hsuffix : path <:+ m.path) : DepthBound path := by
  cases path with
  | nil => rfl
  | cons o rest => exact (h.kept o rest hsuffix).bound

theorem Machine.Sound.tosAtTop (h : m.Sound n) {path : List PathOp} (hsuffix : path <:+ m.path) :
    TosAtTop n m.pushes path := by
  cases path with
  | nil =>
      intro o rest calls hcalls
      cases hcalls
  | cons o rest => exact (h.kept o rest hsuffix).tos

theorem Machine.Sound.pushes_le (h : m.Sound n) (ho : o ∈ m.path) : o.pushes ≤ m.pushes := by
  obtain ⟨newer, older, hpath⟩ := List.append_of_mem ho
  exact (h.kept o older ⟨newer, hpath.symm⟩).pushes

/-- A push does not overwrite an entry that is still fresh after it. -/
theorem Machine.Sound.slot_ne (h : m.Sound n) (hsuffix : o :: rest <:+ m.path) (hpush : o.isPush)
    (hfresh : Fresh n (m.pushes + 1) o) : o.info.crsTos ≠ numPushes m.path % n := by
  have hkept := h.kept o rest hsuffix
  have hcount := h.count o rest hsuffix
  have hle := hkept.pushes
  have hsub : numPushes (o :: rest) ≤ numPushes m.path := List.Sublist.countP_le hsuffix.sublist
  have hone : numPushes (o :: rest) = numPushes rest + 1 := List.countP_cons_of_pos hpush
  unfold Fresh at hfresh
  rw [hkept.slot hpush]
  exact Cyclic.mod_ne_of_lt (by omega) (by omega)

theorem Machine.Sound.next_eq (h : m.Sound n) : m.crs.next = numPushes m.path % n := by
  rw [← h.savedNext (List.suffix_refl _), ← h.registers]
  rfl

theorem Machine.Sound.depth_le (h : m.Sound n) : m.crs.depth ≤ n := by
  have hle := h.savedDepth (List.suffix_refl _)
  rw [← h.registers] at hle
  exact hle

/-- The stack after a push. -/
def pushed (crs : Crs) (n : ℕ) (op : Op) : Crs :=
  { crs with
    entries := Function.update crs.entries crs.next ⟨addrPlusOffset op.addr op.instSize, crs.tos⟩
    offPath := Function.update crs.offPath crs.next op.offPath
    tos := crs.next
    next := circInc2 crs.next n
    depth := if crs.depth = n then crs.depth else crs.depth + 1 }

theorem bpCrsRealisticPush_eq (hproc : op.procId = procId) {crs : Crs} (hdepth : crs.depth ≤ p.crsEntries) :
    bpCrsRealisticPush p procId crs op = .ok (pushed crs p.crsEntries op) := by
  unfold bpCrsRealisticPush
  rw [if_neg (by simpa using hproc.symm)]
  by_cases hfull : crs.depth = p.crsEntries
  · simp only [pushed, hfull, if_true, Nat.lt_irrefl, if_false]
  · have hfit : ¬ p.crsEntries < crs.depth + 1 := by omega
    simp only [pushed, hfull, if_false, hfit]

theorem Machine.Sound.push (h : m.Sound p.crsEntries) (hp : p.crsEntries = 2 ^ k) (hk : k < 32)
    (hproc : op.procId = procId) :
    ∃ m', m.step p procId (.push op) = .ok m' ∧ m'.Sound p.crsEntries := by
  have hregs := h.registers
  have hnext := h.next_eq
  have hdepth := h.depth_le
  let crs := pushed m.crs p.crsEntries op
  let o : PathOp := ⟨op, true, crs.recoveryInfo, m.pushes + 1⟩
  have hone : numPushes (o :: m.path) = numPushes m.path + 1 := List.countP_cons_of_pos rfl
  refine ⟨⟨crs, o :: m.path, m.pushes + 1⟩, ?_, ⟨rfl, ?_, ?_⟩⟩
  · change (bpCrsRealisticPush p procId m.crs op >>= _) = _
    rw [bpCrsRealisticPush_eq hproc hdepth]
    rfl
  · intro o' rest hsuffix
    cases List.suffix_cons_iff.mp hsuffix with
    | inl hnew =>
        obtain ⟨rfl, rfl⟩ := List.cons.inj hnew
        exact
          { next := by
              change circInc2 m.crs.next p.crsEntries = _
              rw [hone, hnext, hp, circInc2_pow2 hk, Nat.mod_add_mod]
            depth := by
              change (if m.crs.depth = p.crsEntries then m.crs.depth else m.crs.depth + 1) ≤ p.crsEntries
              split <;> omega
            pushes := Nat.le_refl _
            older := fun o' ho => (h.pushes_le ho).trans (Nat.le_succ _)
            bound := by
              change (if m.crs.depth = p.crsEntries then m.crs.depth else m.crs.depth + 1) ≤ (saved m.path).crsDepth + 1
              rw [← hregs]
              change _ ≤ m.crs.depth + 1
              split <;> omega
            tos := by
              intro o' rest calls hcalls _ _
              obtain ⟨rfl, _⟩ := List.cons.inj (List.cons.inj hcalls).1
              rfl
            slot := fun _ => hnext
            entry := by
              intro _ _
              change Function.update m.crs.entries m.crs.next _ m.crs.next = _
              rw [Function.update_self, ← hregs]
              rfl }
    | inr hold =>
        have hkept := h.kept o' rest hold
        exact
          { next := hkept.next
            depth := hkept.depth
            pushes := hkept.pushes.trans (Nat.le_succ _)
            older := hkept.older
            bound := hkept.bound
            tos := fun o rest calls hcalls hfresh => hkept.tos o rest calls hcalls hfresh.before
            slot := hkept.slot
            entry := by
              intro hpush hfresh
              change Function.update m.crs.entries m.crs.next _ _ = _
              rw [Function.update_of_ne (hnext ▸ h.slot_ne hold hpush hfresh)]
              exact hkept.entry hpush hfresh.before }
  · intro o' rest hsuffix
    change numPushes (o :: m.path) + o'.pushes ≤ m.pushes + 1 + _
    cases List.suffix_cons_iff.mp hsuffix with
    | inl hnew =>
        obtain ⟨rfl, rfl⟩ := List.cons.inj hnew
        change _ + (m.pushes + 1) ≤ _
        omega
    | inr hold =>
        have hcount := h.count o' rest hold
        omega

/-- What is popped, and that the top of the stack moves on to what lies below it. -/
theorem bpCrsRealisticPop_eq (hreal : p.crsRealistic = 1) (hproc : op.procId = procId) (crs : Crs) :
    bpCrsRealisticPop p procId crs op =
      if crs.depth = 0 then .ok (if p.perfectCrs then op.oracleTarget else convertToCmpAddr procId 0, crs)
      else .ok (if p.perfectCrs then op.oracleTarget else (crs.entries crs.tos).addr,
        { crs with depth := crs.depth - 1, tos := (crs.entries crs.tos).nos }) := by
  unfold bpCrsRealisticPop
  rw [if_neg (by simpa using hproc.symm), if_neg (by omega), hreal]
  simp

/-- Below the top open call the stack is as it was before that call. -/
theorem Machine.Sound.below (h : m.Sound n) {calls : List (List PathOp)} (hcalls : openCalls m.path = (o :: rest) :: calls)
    (hfresh : Fresh n m.pushes o) (hdepth : 0 < m.crs.depth) :
    m.crs.entries m.crs.tos = ⟨addrPlusOffset o.op.addr o.op.instSize, (saved rest).crsTos⟩ := by
  have hregs := h.registers
  obtain ⟨o', rest', heq, hpush, hsuffix⟩ := openCalls_suffix m.path (o :: rest) (hcalls ▸ List.mem_cons_self)
  obtain ⟨rfl, rfl⟩ := List.cons.inj heq
  have htos : m.crs.tos = o.info.crsTos := by
    have hsaved := h.tosAtTop (List.suffix_refl _) o rest calls hcalls hfresh (by rw [← hregs]; exact hdepth)
    rw [← hregs] at hsaved
    exact hsaved
  rw [htos]
  exact (h.kept o rest hsuffix).entry hpush hfresh

/-- The top open call of a path whose stack is not empty. -/
theorem Machine.Sound.openCalls_eq (h : m.Sound n) (hdepth : 0 < m.crs.depth) :
    ∃ o rest, openCalls m.path = (o :: rest) :: openCalls rest ∧ o :: rest <:+ m.path := by
  have hbound := h.depthBound (List.suffix_refl _)
  unfold DepthBound at hbound
  rw [← h.registers] at hbound
  change match openCalls m.path with | [] => m.crs.depth = 0 | call :: _ => _ at hbound
  cases hcalls : openCalls m.path with
  | nil =>
      rw [hcalls] at hbound
      change m.crs.depth = 0 at hbound
      omega
  | cons call calls =>
      obtain ⟨o, rest, rfl, _, hsuffix⟩ := openCalls_suffix m.path call (hcalls ▸ List.mem_cons_self)
      have htail := openCalls_tail hcalls
      exact ⟨o, rest, by rw [htail, List.tail_cons], hsuffix⟩

/-- The stack after a pop. -/
def popped (crs : Crs) : Crs :=
  if crs.depth = 0 then crs else { crs with depth := crs.depth - 1, tos := (crs.entries crs.tos).nos }

@[simp] theorem popped_next (crs : Crs) : (popped crs).next = crs.next := by
  rw [popped]
  split <;> rfl

@[simp] theorem popped_entries (crs : Crs) : (popped crs).entries = crs.entries := by
  rw [popped]
  split <;> rfl

@[simp] theorem popped_depth (crs : Crs) : (popped crs).depth = crs.depth - 1 := by
  rw [popped]
  split
  · omega
  · rfl

theorem popped_tos {crs : Crs} (hdepth : crs.depth ≠ 0) : (popped crs).tos = (crs.entries crs.tos).nos := by
  rw [popped, if_neg hdepth]

theorem bpCrsRealisticPop_popped (hreal : p.crsRealistic = 1) (hproc : op.procId = procId) (crs : Crs) :
    ∃ target, bpCrsRealisticPop p procId crs op = .ok (target, popped crs) := by
  rw [bpCrsRealisticPop_eq hreal hproc, popped]
  by_cases hempty : crs.depth = 0
  · exact ⟨_, by simp only [hempty, if_true]; rfl⟩
  · exact ⟨_, by simp only [hempty, if_false]; rfl⟩

/-- The op of a pop, with what it saves. -/
def Machine.popOp (m : Machine) (op : Op) : PathOp := ⟨op, false, (popped m.crs).recoveryInfo, m.pushes⟩

theorem numPushes_popOp (m : Machine) (op : Op) : numPushes (m.popOp op :: m.path) = numPushes m.path :=
  List.countP_cons_of_neg (by simp [Machine.popOp])

/-- A pop closes the top open call. -/
theorem openCalls_popOp (m : Machine) (op : Op) : openCalls (m.popOp op :: m.path) = (openCalls m.path).tail := by
  conv_lhs => unfold openCalls
  exact if_neg (by simp [Machine.popOp])

/-- The top open call pushed one entry. -/
theorem Machine.Sound.depth_below (h : m.Sound n) {calls : List (List PathOp)}
    (hopen : openCalls m.path = (o :: rest) :: calls) : m.crs.depth ≤ (saved rest).crsDepth + 1 := by
  have hwhole := h.depthBound (List.suffix_refl _)
  unfold DepthBound at hwhole
  rw [hopen, ← h.registers] at hwhole
  exact hwhole

theorem Machine.Sound.depthBound_pop (h : m.Sound n) (op : Op) : DepthBound (m.popOp op :: m.path) := by
  have hdecr : (saved (m.popOp op :: m.path)).crsDepth = m.crs.depth - 1 := popped_depth m.crs
  unfold DepthBound
  rw [openCalls_popOp]
  by_cases hempty : m.crs.depth = 0
  · have hzero : (saved (m.popOp op :: m.path)).crsDepth = 0 := by omega
    split <;> omega
  · obtain ⟨o', rest, hopen, hsuffix⟩ := h.openCalls_eq (Nat.pos_of_ne_zero hempty)
    have hwhole := h.depth_below hopen
    have hbelow := h.depthBound ((List.suffix_cons o' rest).trans hsuffix)
    unfold DepthBound at hbelow
    rw [hopen, List.tail_cons]
    split
    · rename_i hnil
      rw [hnil] at hbelow
      change (saved rest).crsDepth = 0 at hbelow
      omega
    · rename_i call calls hcons
      rw [hcons] at hbelow
      change (saved rest).crsDepth ≤ _ at hbelow
      omega

/-- The top of the stack is what the call below found there. -/
theorem Machine.Sound.tos_pop (h : m.Sound n) {calls : List (List PathOp)}
    (hopen : (openCalls m.path).tail = (o :: rest) :: calls) (hfresh : Fresh n m.pushes o)
    (hpos : 0 < (popped m.crs).depth) : (popped m.crs).tos = o.info.crsTos := by
  rw [popped_depth] at hpos
  obtain ⟨o', rest', htop, hsuffix⟩ := h.openCalls_eq (by omega)
  have hwhole := h.depth_below htop
  rw [htop, List.tail_cons] at hopen
  -- the call below is older
  obtain ⟨o₃, rest₃, heq, _, hsuffix₃⟩ := openCalls_suffix rest' (o :: rest) (hopen ▸ List.mem_cons_self)
  obtain ⟨rfl, rfl⟩ := List.cons.inj heq
  have holder := (h.kept o' rest' hsuffix).older o (hsuffix₃.subset List.mem_cons_self)
  have hfresh' : Fresh n m.pushes o' := by
    unfold Fresh at *
    omega
  rw [popped_tos (by omega), h.below htop hfresh' (by omega)]
  exact h.tosAtTop ((List.suffix_cons o' rest').trans hsuffix) o rest calls hopen hfresh (by omega)

theorem Machine.Sound.kept_pop (h : m.Sound n) (op : Op) : Kept n m.crs.entries m.pushes (m.popOp op) m.path where
  next := by
    rw [numPushes_popOp, ← h.next_eq, ← popped_next]
    rfl
  depth := by
    change (popped m.crs).depth ≤ _
    rw [popped_depth]
    exact (Nat.sub_le ..).trans h.depth_le
  pushes := Nat.le_refl _
  older _ ho := h.pushes_le ho
  bound := h.depthBound_pop op
  tos _ _ _ hopen hfresh hpos := by
    rw [openCalls_popOp] at hopen
    exact h.tos_pop hopen hfresh hpos
  slot hpush := Bool.noConfusion hpush
  entry hpush := Bool.noConfusion hpush

theorem Machine.Sound.pop (h : m.Sound p.crsEntries) (hreal : p.crsRealistic = 1) (hproc : op.procId = procId) :
    ∃ m', m.step p procId (.pop op) = .ok m' ∧ m'.Sound p.crsEntries := by
  obtain ⟨target, hcrs⟩ := bpCrsRealisticPop_popped hreal hproc m.crs
  have hone := numPushes_popOp m op
  refine ⟨⟨popped m.crs, m.popOp op :: m.path, m.pushes⟩, ?_, ⟨rfl, ?_, ?_⟩⟩
  · change (bpCrsRealisticPop p procId m.crs op >>= _) = _
    rw [hcrs]
    rfl
  · intro o' rest hsuffix
    cases List.suffix_cons_iff.mp hsuffix with
    | inl hnew =>
        obtain ⟨rfl, rfl⟩ := List.cons.inj hnew
        change Kept _ (popped m.crs).entries _ _ _
        rw [popped_entries]
        exact h.kept_pop op
    | inr hold =>
        change Kept _ (popped m.crs).entries _ _ _
        rw [popped_entries]
        exact h.kept o' rest hold
  · intro o' rest hsuffix
    change numPushes (m.popOp op :: m.path) + o'.pushes ≤ m.pushes + _
    cases List.suffix_cons_iff.mp hsuffix with
    | inl hnew =>
        obtain ⟨rfl, rfl⟩ := List.cons.inj hnew
        change _ + m.pushes ≤ _
        omega
    | inr hold =>
        have hcount := h.count o' rest hold
        omega

theorem Machine.Sound.recover (h : m.Sound n) (younger : ℕ) :
    ∃ m', m.step p procId (.recover younger) = .ok m' ∧ m'.Sound n := by
  have hdrop : m.path.drop younger <:+ m.path := List.drop_suffix younger m.path
  refine ⟨_, rfl, ⟨rfl, ?_, ?_⟩⟩
  · exact fun o rest hsuffix => h.kept o rest (hsuffix.trans hdrop)
  · intro o rest hsuffix
    have hcount := h.count o rest (hsuffix.trans hdrop)
    have hle : numPushes (m.path.drop younger) ≤ numPushes m.path := List.Sublist.countP_le hdrop.sublist
    change numPushes (m.path.drop younger) + _ ≤ m.pushes + _
    omega

/-! ## Every run -/

/-- The op of an event. -/
def Event.op? : Event → Option Op
  | .push op | .pop op => some op
  | .recover _ => none

theorem Machine.Sound.run (h : m.Sound p.crsEntries) (hp : p.crsEntries = 2 ^ k) (hk : k < 32)
    (hreal : p.crsRealistic = 1) (events : List Event)
    (hproc : ∀ event ∈ events, ∀ op, event.op? = some op → op.procId = procId) :
    ∃ m', m.run p procId events = .ok m' ∧ m'.Sound p.crsEntries := by
  induction events generalizing m with
  | nil => exact ⟨m, rfl, h⟩
  | cons event events ih =>
      have hstep : ∃ m', m.step p procId event = .ok m' ∧ m'.Sound p.crsEntries := by
        cases event with
        | push op => exact h.push hp hk (hproc _ List.mem_cons_self op rfl)
        | pop op => exact h.pop hreal (hproc _ List.mem_cons_self op rfl)
        | recover younger => exact h.recover younger
      obtain ⟨m₁, hfirst, hsound₁⟩ := hstep
      obtain ⟨m₂, hrest, hsound₂⟩ := ih hsound₁ fun event hmem => hproc event (List.mem_cons_of_mem _ hmem)
      exact ⟨m₂, Execution.run_cons_eq_ok.mpr ⟨m₁, hfirst, hrest⟩, hsound₂⟩

variable (p procId)

/-- No assertion fails, and a pop from a stack that is not empty gives the address of the push that
it matches, unless as many pushes as there are entries happened since. -/
theorem crs_pop_matches (memory : ℕ → CrsEntry) (hp : p.crsEntries = 2 ^ k) (hk : k < 32) (hreal : p.crsRealistic = 1)
    (events : List Event) (hproc : ∀ event ∈ events, ∀ op, event.op? = some op → op.procId = procId) :
    ∃ m, (Machine.init p memory).run p procId events = .ok m ∧
      ∀ op : Op, op.procId = procId → 0 < m.crs.depth →
        ∃ o target crs, matchingPush m.path = some o ∧ bpCrsRealisticPop p procId m.crs op = .ok (target, crs) ∧
          (m.pushes - o.pushes < p.crsEntries →
            target = if p.perfectCrs then op.oracleTarget else addrPlusOffset o.op.addr o.op.instSize) := by
  obtain ⟨m, hm, hsound⟩ := (Machine.Sound.init p.crsEntries p memory).run hp hk hreal events hproc
  refine ⟨m, hm, fun op hop hdepth => ?_⟩
  obtain ⟨o, rest, hopen, hsuffix⟩ := hsound.openCalls_eq hdepth
  have hmatch : matchingPush m.path = some o := by
    unfold matchingPush
    rw [hopen]
    rfl
  have hempty : ¬ m.crs.depth = 0 := by omega
  refine ⟨o, _, _, hmatch, by rw [bpCrsRealisticPop_eq hreal hop, if_neg hempty], fun hfresh => ?_⟩
  rw [hsound.below hopen hfresh hdepth]

/-- Two calls and a return, then a recovery to the first call. -/
theorem crs_pop_matches_recovery :
    ∃ m, (Machine.init ⟨4, 1, false⟩ fun _ => ⟨0, 0⟩).run ⟨4, 1, false⟩ 0
        [.push ⟨0, 0x100, 4, .call, false, 0⟩, .push ⟨0, 0x200, 4, .call, true, 0⟩,
          .pop ⟨0, 0x300, 1, .ret, true, 0⟩, .push ⟨0, 0x400, 4, .call, true, 0⟩, .recover 3] = .ok m ∧
      ∃ o target crs, matchingPush m.path = some o ∧
        bpCrsRealisticPop ⟨4, 1, false⟩ 0 m.crs ⟨0, 0x300, 1, .ret, false, 0⟩ = .ok (target, crs) ∧
        (m.pushes - o.pushes < 4 → target = addrPlusOffset o.op.addr o.op.instSize) :=
  have ⟨m, hrun, hpop⟩ := crs_pop_matches (k := 2) ⟨4, 1, false⟩ 0 (fun _ => ⟨0, 0⟩) rfl (by decide) rfl
    [.push ⟨0, 0x100, 4, .call, false, 0⟩, .push ⟨0, 0x200, 4, .call, true, 0⟩,
      .pop ⟨0, 0x300, 1, .ret, true, 0⟩, .push ⟨0, 0x400, 4, .call, true, 0⟩, .recover 3] (by decide)
  ⟨m, hrun, hpop ⟨0, 0x300, 1, .ret, false, 0⟩ rfl (by
    obtain ⟨m', hm', hdepth⟩ := Execution.map_eq_ok.mp (show (fun m : Machine => m.crs.depth) <$>
      (Machine.init ⟨4, 1, false⟩ fun _ => ⟨0, 0⟩).run ⟨4, 1, false⟩ 0
        [.push ⟨0, 0x100, 4, .call, false, 0⟩, .push ⟨0, 0x200, 4, .call, true, 0⟩,
          .pop ⟨0, 0x300, 1, .ret, true, 0⟩, .push ⟨0, 0x400, 4, .call, true, 0⟩, .recover 3] = .ok 1 by decide +kernel)
    rw [hrun] at hm'
    cases hm'
    omega)⟩

/-- With three entries the mask of the index is 2, and every push goes to the entry 0. -/
theorem crs_three_entries_clobber :
    ((Machine.init ⟨3, 1, false⟩ fun _ => ⟨0, 0⟩).run ⟨3, 1, false⟩ 0
        [.push ⟨0, 0x100, 4, .call, false, 0⟩, .push ⟨0, 0x200, 4, .call, false, 0⟩,
          .pop ⟨0, 0x300, 1, .ret, false, 0⟩]).toOption.map (fun m => (m.crs.depth, m.pushes,
        (matchingPush m.path).map fun o => (o.pushes, addrPlusOffset o.op.addr o.op.instSize),
        (bpCrsRealisticPop ⟨3, 1, false⟩ 0 m.crs ⟨0, 0x300, 1, .ret, false, 0⟩).toOption.map Prod.fst)) =
      some (1, 2, some (1, 0x104), some 0x204) := by
  decide +kernel

end Scarab.Bp.Linked

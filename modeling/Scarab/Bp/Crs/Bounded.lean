import Scarab.Bp.Crs.State
import Scarab.Lib.Execution
import Scarab.Lib.Window

/-! # The stack with copies

With `CRS_REALISTIC` off every slot has a copy for each path. What is popped is what a bounded
stack of the surviving path gives. -/

namespace Scarab.Bp

open Fetch (CfType convertToCmpAddr)
open Map (addrPlusOffset)

/-! ## Runs -/

inductive Event where
  | predict (op : Op)
  | recover
  deriving DecidableEq, Repr

/-- The stack, and the targets that were popped from it. -/
structure Machine where
  crs : Crs
  answers : List Addr

variable (p : Params) (procId : Uns8)

def Machine.step (m : Machine) : Event → Except String Machine
  | .predict op => do
      let (answer, crs) ← bpPredictOp p procId m.crs op
      return ⟨crs, m.answers ++ answer.toList⟩
  | .recover => do
      let crs ← bpRecoverOp p m.crs m.crs.recoveryInfo
      return ⟨crs, m.answers⟩

abbrev Machine.run : Machine → List Event → Except String Machine := Execution.run (Machine.step p procId)

def Machine.init (memory : ℕ → CrsEntry) : Machine := ⟨bpInit p memory, []⟩

/-- Whether the path is a wrong one after an event; a wrong path ends in a recovery. -/
def wrongPath (wrong : Bool) : Event → Option Bool
  | .predict op => if wrong && !op.offPath then none else some op.offPath
  | .recover => some false

/-! ## The bounded stack -/

/-- The newest pushes of a path, the last one first. -/
def stackStep (n : ℕ) (stack : List Addr) (op : Op) : List Addr :=
  match op.cfType with
  | .call | .icall => (addrPlusOffset op.addr op.instSize :: stack).take n
  | .ico => (addrPlusOffset op.addr op.instSize :: stack.tail).take n
  | .ret => stack.tail
  | _ => stack

def stackOf (n : ℕ) (path : List Op) : List Addr := path.foldl (stackStep n) []

/-- What an op pops from a stack. -/
def popped (stack : List Addr) (op : Op) : Option Addr :=
  if op.cfType = .ico ∨ op.cfType = .ret then
    some (if p.perfectCrs then op.oracleTarget else stack.head?.getD (convertToCmpAddr procId 0))
  else none

/-- The ops that survive an event. -/
def surviving (path : List Op) : Event → List Op
  | .predict op => path ++ [op]
  | .recover => path.filter fun op => !op.offPath

/-- The targets that a bounded stack of the surviving path gives. -/
def expected : List Op → List Event → List Addr
  | _, [] => []
  | path, .predict op :: events =>
      (popped p procId (stackOf p.crsEntries path) op).toList ++ expected (path ++ [op]) events
  | path, .recover :: events => expected (path.filter fun op => !op.offPath) events

/-! ## The ring -/

variable {p procId} {k : ℕ}

/-- The return address in a slot, from the copy that its flag names. -/
def Crs.read (crs : Crs) (slot : ℕ) : Addr := (crs.entries (copyIndex slot (crs.offPath slot))).addr

/-- The return address in the copy for the right path. -/
def Crs.readOnPath (crs : Crs) (slot : ℕ) : Addr := (crs.entries (copyIndex slot false)).addr

/-- The ring holds a stack, and beside it the stack of the right path. -/
structure Crs.Holds (crs : Crs) (n : ℕ) (wrong : Bool) (pos save : ℕ) (stack onPath : List Addr) : Prop where
  tail : crs.tail = pos % n
  depth : crs.depth = stack.length
  window : Window crs.read n pos stack
  bound : stack.length ≤ n
  tailSave : crs.tailSave = save % n
  depthSave : crs.depthSave = onPath.length
  windowSave : Window crs.readOnPath n save onPath
  boundSave : onPath.length ≤ n
  /-- On the right path the two are the same, and no slot holds a copy of a wrong path. -/
  same : wrong = false → save = pos ∧ onPath = stack ∧ ∀ slot < n, crs.offPath slot = false

variable {crs : Crs} {wrong : Bool} {pos save : ℕ} {stack onPath : List Addr} {op : Op}

theorem Crs.Holds.init (p : Params) (memory : ℕ → CrsEntry) :
    (bpInit p memory).Holds p.crsEntries false 0 0 [] [] where
  tail := (Nat.zero_mod _).symm
  depth := rfl
  window := trivial
  bound := Nat.zero_le _
  tailSave := (Nat.zero_mod _).symm
  depthSave := rfl
  windowSave := trivial
  boundSave := Nat.zero_le _
  same := fun _ => ⟨rfl, rfl, fun _ _ => rfl⟩

/-- The stack after the entry of a push is written. -/
def Crs.write (crs : Crs) (op : Op) (addr : Addr) : Crs :=
  { crs with
    entries := Function.update crs.entries (copyIndex crs.tail op.offPath)
      { crs.entries (copyIndex crs.tail op.offPath) with addr := addr }
    offPath := Function.update crs.offPath crs.tail op.offPath }

theorem Crs.write_read (crs : Crs) (op : Op) (addr : Addr) :
    (crs.write op addr).read = Function.update crs.read crs.tail addr := by
  funext slot
  unfold Crs.read Crs.write
  by_cases hslot : slot = crs.tail
  · subst hslot
    simp
  · have hcopy : copyIndex slot (crs.offPath slot) ≠ copyIndex crs.tail op.offPath := by
      rw [Ne, copyIndex_inj]
      exact fun h => hslot h.1
    simp only [Function.update_of_ne hslot, Function.update_of_ne hcopy]

theorem Crs.write_readOnPath (crs : Crs) (addr : Addr) (hoff : op.offPath = true) :
    (crs.write op addr).readOnPath = crs.readOnPath := by
  funext slot
  unfold Crs.readOnPath Crs.write
  have hcopy : copyIndex slot false ≠ copyIndex crs.tail op.offPath := by
    rw [Ne, copyIndex_inj, hoff]
    exact fun h => Bool.noConfusion h.2
  simp only [Function.update_of_ne hcopy]

/-- On the right path the two copies read alike. -/
theorem Crs.read_eq_readOnPath (crs : Crs) {slot : ℕ} (h : crs.offPath slot = false) : crs.read slot = crs.readOnPath slot := by
  unfold Crs.read Crs.readOnPath
  rw [h]

/-- An op of the right path is predicted on it. -/
theorem right_of_wrongPath (hpath : wrongPath wrong (.predict op) = some op.offPath) (hoff : op.offPath = false) :
    wrong = false := by
  unfold wrongPath at hpath
  cases wrong with
  | true => simp [hoff] at hpath
  | false => rfl

theorem Crs.Holds.push (h : crs.Holds p.crsEntries wrong pos save stack onPath) (hp : p.crsEntries = 2 ^ k) (hk : k < 32)
    (hproc : op.procId = procId) (hpath : wrongPath wrong (.predict op) = some op.offPath) :
    ∃ crs' save', bpCrsPush p procId crs op = .ok crs' ∧
      crs'.Holds p.crsEntries op.offPath (pos + 1) save'
        ((addrPlusOffset op.addr op.instSize :: stack).take p.crsEntries)
        (if op.offPath then onPath else (addrPlusOffset op.addr op.instSize :: stack).take p.crsEntries) := by
  have hpos : 0 < p.crsEntries := hp ▸ Nat.two_pow_pos k
  have hdepth := h.depth
  have hbound := h.bound
  let addr := addrPlusOffset op.addr op.instSize
  let written := crs.write op addr
  let depth := if crs.depth = p.crsEntries then crs.depth else crs.depth + 1
  let head := if crs.depth = p.crsEntries then circInc2 crs.head p.crsEntries else crs.head
  let pushed : Crs := { written with tail := circInc2 crs.tail p.crsEntries, depth, head }
  have hlength : depth = ((addr :: stack).take p.crsEntries).length := by
    simp only [depth, List.length_take, List.length_cons, hdepth]
    split <;> omega
  have htail : circInc2 crs.tail p.crsEntries = (pos + 1) % p.crsEntries := by
    rw [hp, circInc2_pow2 hk, h.tail, hp, Nat.mod_add_mod]
  have hwindow : Window written.read p.crsEntries (pos + 1) ((addr :: stack).take p.crsEntries) := by
    rw [Crs.write_read, h.tail]
    exact h.window.push hpos addr
  have hle : ((addr :: stack).take p.crsEntries).length ≤ p.crsEntries := List.length_take_le _ _
  have hpush : bpCrsPush p procId crs op =
      .ok (if op.offPath then pushed else { pushed with tailSave := pushed.tail, depthSave := pushed.depth }) := by
    unfold bpCrsPush
    rw [if_neg (by simpa using hproc.symm)]
    by_cases hfull : crs.depth = p.crsEntries
    · have hfit : ¬ p.crsEntries < crs.depth := by omega
      simp only [hfull, if_true, pushed, written, Crs.write, depth, head, addr, Nat.lt_irrefl, if_false]
      split <;> rfl
    · have hfit : ¬ p.crsEntries < crs.depth + 1 := by omega
      simp only [hfull, if_false, hfit, pushed, written, Crs.write, depth, head, addr]
      split <;> rfl
  rw [hpush]
  cases hoff : op.offPath with
  | true =>
      refine ⟨_, save, rfl, ?_⟩
      exact
        { tail := htail
          depth := hlength
          window := hwindow
          bound := hle
          tailSave := h.tailSave
          depthSave := h.depthSave
          windowSave := by
            change Window written.readOnPath _ _ _
            rw [Crs.write_readOnPath crs addr hoff]
            exact h.windowSave
          boundSave := h.boundSave
          same := fun hright => Bool.noConfusion hright }
  | false =>
      have hright := right_of_wrongPath hpath hoff
      have hflags : ∀ slot < p.crsEntries, written.offPath slot = false := by
        intro slot hslot
        by_cases hsame : slot = crs.tail
        · subst hsame
          simp [written, Crs.write, hoff]
        · simp only [written, Crs.write, Function.update_of_ne hsame]
          exact (h.same hright).2.2 slot hslot
      refine ⟨_, pos + 1, rfl, ?_⟩
      exact
        { tail := htail
          depth := hlength
          window := hwindow
          bound := hle
          tailSave := htail
          depthSave := hlength
          windowSave := hwindow.congr hpos fun slot hslot => Crs.read_eq_readOnPath _ (hflags slot hslot)
          boundSave := hle
          same := fun _ => ⟨rfl, rfl, hflags⟩ }

/-- An op that leaves the stack as it is. -/
theorem Crs.Holds.quiet (h : crs.Holds p.crsEntries wrong pos save stack onPath)
    (hpath : wrongPath wrong (.predict op) = some op.offPath) :
    crs.Holds p.crsEntries op.offPath pos save stack (if op.offPath then onPath else stack) := by
  cases hoff : op.offPath with
  | true => exact { h with same := fun hright => Bool.noConfusion hright }
  | false =>
      have hright := right_of_wrongPath hpath hoff
      have hsame := (h.same hright).2.1
      rw [hright, hsame] at h
      exact h

theorem Crs.Holds.pop (h : crs.Holds p.crsEntries wrong pos save stack onPath) (hp : p.crsEntries = 2 ^ k) (hk : k < 32)
    (hproc : op.procId = procId) (hpath : wrongPath wrong (.predict op) = some op.offPath) :
    ∃ crs' pos' save', bpCrsPop p procId crs op =
        .ok (if p.perfectCrs then op.oracleTarget else stack.head?.getD (convertToCmpAddr procId 0), crs') ∧
      crs'.Holds p.crsEntries op.offPath pos' save' stack.tail (if op.offPath then onPath else stack.tail) := by
  have hbound := h.bound
  unfold bpCrsPop
  rw [if_neg (by simpa using hproc.symm)]
  by_cases hnil : stack = []
  · -- nothing is popped
    subst hnil
    have hempty : crs.depth = 0 := h.depth
    rw [if_pos hempty]
    exact ⟨crs, pos, save, rfl, h.quiet hpath⟩
  · have hlength := List.length_pos_iff.mpr hnil
    have hpos : 0 < pos := by
      have hle := h.window.length_le
      omega
    have htail : circDec2 crs.tail p.crsEntries = (pos - 1) % p.crsEntries := by
      rw [hp, h.tail, hp, circDec2_pow2 hk hpos]
    have hdepth : crs.depth - 1 = stack.tail.length := by rw [List.length_tail, h.depth]
    have hle : stack.tail.length ≤ p.crsEntries := by
      rw [List.length_tail]
      omega
    have hread : (crs.entries (copyIndex (circDec2 crs.tail p.crsEntries)
        (crs.offPath (circDec2 crs.tail p.crsEntries)))).addr = crs.read ((pos - 1) % p.crsEntries) := by
      rw [htail]
      rfl
    rw [if_neg (by rw [h.depth]; omega), hread, h.window.head hnil, Option.getD_some]
    cases hoff : op.offPath with
    | true =>
        refine ⟨_, pos - 1, save, rfl, ?_⟩
        exact
          { tail := htail
            depth := hdepth
            window := h.window.tail hnil
            bound := hle
            tailSave := h.tailSave
            depthSave := h.depthSave
            windowSave := h.windowSave
            boundSave := h.boundSave
            same := fun hright => Bool.noConfusion hright }
    | false =>
        have hright := right_of_wrongPath hpath hoff
        have hflags := (h.same hright).2.2
        have hn : 0 < p.crsEntries := hp ▸ Nat.two_pow_pos k
        refine ⟨_, pos - 1, pos - 1, rfl, ?_⟩
        exact
          { tail := htail
            depth := hdepth
            window := h.window.tail hnil
            bound := hle
            tailSave := htail
            depthSave := hdepth
            windowSave := (h.window.tail hnil).congr hn fun slot hslot => Crs.read_eq_readOnPath _ (hflags slot hslot)
            boundSave := hle
            same := fun _ => ⟨rfl, rfl, hflags⟩ }

theorem Crs.Holds.recover (h : crs.Holds p.crsEntries wrong pos save stack onPath) (hp : p.crsEntries = 2 ^ k)
    (hk : k < 8) :
    ∃ crs', bpCrsRecover p crs = .ok crs' ∧ crs'.Holds p.crsEntries false save save onPath onPath := by
  have hlt : 2 ^ k < 2 ^ 8 := Nat.pow_lt_pow_right (by omega) hk
  have hn : 0 < p.crsEntries := hp ▸ Nat.two_pow_pos k
  let recovered : Crs := { crs with
    offPath := fun ii => if ii < p.crsEntries then false else crs.offPath ii
    tail := crs.tailSave
    depth := crs.depthSave }
  have hflags : ∀ slot < p.crsEntries, recovered.offPath slot = false := fun slot hslot => if_pos hslot
  unfold bpCrsRecover
  rw [if_neg (by omega)]
  refine ⟨recovered, rfl, ?_⟩
  exact
    { tail := h.tailSave
      depth := h.depthSave
      window := h.windowSave.congr hn fun slot hslot =>
        (Crs.read_eq_readOnPath recovered (hflags slot hslot)).symm
      bound := h.boundSave
      tailSave := h.tailSave
      depthSave := h.depthSave
      windowSave := h.windowSave
      boundSave := h.boundSave
      same := fun _ => ⟨rfl, rfl, hflags⟩ }

theorem Crs.Holds.predict (h : crs.Holds p.crsEntries wrong pos save stack onPath) (hp : p.crsEntries = 2 ^ k)
    (hk : k < 32) (hreal : p.crsRealistic = 0) (hproc : op.procId = procId)
    (hpath : wrongPath wrong (.predict op) = some op.offPath) :
    ∃ crs' pos' save', bpPredictOp p procId crs op = .ok (popped p procId stack op, crs') ∧
      crs'.Holds p.crsEntries op.offPath pos' save' (stackStep p.crsEntries stack op)
        (if op.offPath then onPath else stackStep p.crsEntries stack op) := by
  have hagain : wrongPath op.offPath (.predict op) = some op.offPath := by
    unfold wrongPath
    simp
  unfold bpPredictOp popped stackStep Bp.push Bp.pop
  rw [hreal]
  cases hcf : op.cfType
  case call | icall =>
    obtain ⟨crs', save', hpush, hholds⟩ := h.push hp hk hproc hpath
    refine ⟨crs', pos + 1, save', ?_, hholds⟩
    simp [hpush, bind, Except.bind, pure, Except.pure]
  case ret =>
    obtain ⟨crs', pos', save', hpop, hholds⟩ := h.pop hp hk hproc hpath
    refine ⟨crs', pos', save', ?_, hholds⟩
    simp [hpop, bind, Except.bind, pure, Except.pure]
  case ico =>
    obtain ⟨mid, pos', save', hpop, hmid⟩ := h.pop hp hk hproc hpath
    obtain ⟨crs', save'', hpush, hholds⟩ := hmid.push hp hk hproc hagain
    refine ⟨crs', pos' + 1, save'', ?_, ?_⟩
    · simp [hpop, hpush, bind, Except.bind, pure, Except.pure]
    · cases hoff : op.offPath <;> simpa [hoff] using hholds
  all_goals
    refine ⟨crs, pos, save, ?_, h.quiet hpath⟩
    simp

/-! ## Every run -/

variable {m : Machine} {path : List Op} {event : Event} {wrong' : Bool}

theorem stackOf_append (n : ℕ) (path : List Op) (op : Op) :
    stackOf n (path ++ [op]) = stackStep n (stackOf n path) op := by
  unfold stackOf
  rw [List.foldl_append, List.foldl_cons, List.foldl_nil]

/-- The ring holds the stack of a path. -/
def Machine.Follows (p : Params) (m : Machine) (wrong : Bool) (path : List Op) : Prop :=
  ∃ pos save, m.crs.Holds p.crsEntries wrong pos save (stackOf p.crsEntries path)
    (stackOf p.crsEntries (path.filter fun op => !op.offPath))

theorem Machine.Follows.step (h : m.Follows p wrong path) (hp : p.crsEntries = 2 ^ k) (hk : k < 8)
    (hreal : p.crsRealistic = 0) (hproc : ∀ op, event = .predict op → op.procId = procId)
    (hpath : wrongPath wrong event = some wrong') :
    ∃ m', m.step p procId event = .ok m' ∧ m'.Follows p wrong' (surviving path event) ∧
      m'.answers = m.answers ++ expected p procId path [event] := by
  obtain ⟨pos, save, hholds⟩ := h
  cases event with
  | predict op =>
      have hwrong : wrong' = op.offPath := by
        unfold wrongPath at hpath
        cases hboth : wrong && !op.offPath with
        | true => simp [hboth] at hpath
        | false => simpa [hboth, eq_comm] using hpath
      subst hwrong
      obtain ⟨crs', pos', save', hpredict, hnext⟩ := hholds.predict hp (by omega) hreal (hproc op rfl) hpath
      refine ⟨⟨crs', m.answers ++ (popped p procId (stackOf p.crsEntries path) op).toList⟩, ?_, ⟨pos', save', ?_⟩, ?_⟩
      · change (bpPredictOp p procId m.crs op >>= fun r => pure (Machine.mk r.2 (m.answers ++ r.1.toList))) = _
        rw [hpredict]
        rfl
      · unfold surviving
        rw [stackOf_append, List.filter_append]
        cases hoff : op.offPath with
        | true => simpa [hoff] using hnext
        | false =>
            have hsame := (hholds.same (right_of_wrongPath hpath hoff)).2.1
            simpa [hoff, stackOf_append, hsame] using hnext
      · unfold expected expected
        rw [List.append_nil]
  | recover =>
      obtain rfl : false = wrong' := Option.some.inj hpath
      obtain ⟨crs', hrecover, hnext⟩ := hholds.recover hp hk
      refine ⟨⟨crs', m.answers⟩, ?_, ⟨save, save, ?_⟩, ?_⟩
      · change (bpRecoverOp p m.crs m.crs.recoveryInfo >>= fun crs => pure (Machine.mk crs m.answers)) = _
        unfold bpRecoverOp
        rw [if_neg (by omega), hrecover]
        rfl
      · unfold surviving
        rw [List.filter_filter]
        simpa using hnext
      · exact (List.append_nil _).symm

theorem expected_append (path : List Op) (first rest : List Event) :
    expected p procId path (first ++ rest) =
      expected p procId path first ++ expected p procId (first.foldl surviving path) rest := by
  induction first generalizing path with
  | nil => rfl
  | cons event first ih =>
      cases event with
      | predict op =>
          simp only [List.cons_append, expected, ih, List.append_assoc, List.foldl_cons, surviving]
      | recover => exact ih _

theorem Machine.Follows.run {events : List Event} (h : m.Follows p wrong path) (hp : p.crsEntries = 2 ^ k) (hk : k < 8)
    (hreal : p.crsRealistic = 0) (hproc : ∀ op, .predict op ∈ events → op.procId = procId)
    (hpath : events.foldlM wrongPath wrong = some wrong') :
    ∃ m', m.run p procId events = .ok m' ∧ m'.Follows p wrong' (events.foldl surviving path) ∧
      m'.answers = m.answers ++ expected p procId path events := by
  induction events generalizing m wrong path with
  | nil =>
      obtain rfl : wrong = wrong' := Option.some.inj hpath
      exact ⟨m, rfl, h, (List.append_nil _).symm⟩
  | cons event events ih =>
      rw [List.foldlM_cons] at hpath
      obtain ⟨mid, hfirst, hrest⟩ := Option.bind_eq_some_iff.mp hpath
      obtain ⟨m₁, hstep, hfollows, hanswers⟩ :=
        h.step hp hk hreal (fun op hop => hproc op (hop ▸ List.mem_cons_self)) hfirst
      obtain ⟨m₂, hrun, hend, hall⟩ := ih hfollows (fun op hop => hproc op (List.mem_cons_of_mem _ hop)) hrest
      refine ⟨m₂, Execution.run_cons_eq_ok.mpr ⟨m₁, hstep, hrun⟩, hend, ?_⟩
      have hsplit : expected p procId path ([event] ++ events) = _ := expected_append path [event] events
      rw [hall, hanswers, List.append_assoc]
      exact congrArg _ hsplit.symm

/-- On the right path no op is from a wrong one. -/
theorem onPath_of_wrongPath {events : List Event} (hpath : events.foldlM wrongPath wrong = some false)
    (hright : wrong = false → ∀ op ∈ path, op.offPath = false) :
    ∀ op ∈ events.foldl surviving path, op.offPath = false := by
  induction events generalizing wrong path with
  | nil => exact hright (Option.some.inj hpath)
  | cons event events ih =>
      rw [List.foldlM_cons] at hpath
      obtain ⟨mid, hfirst, hrest⟩ := Option.bind_eq_some_iff.mp hpath
      refine ih hrest fun hmid => ?_
      subst hmid
      cases event with
      | recover =>
          intro op hop
          unfold surviving at hop
          rw [List.mem_filter] at hop
          simpa using hop.2
      | predict op =>
          intro op' hop
          have hoff : op.offPath = false := by
            unfold wrongPath at hfirst
            cases hboth : wrong && !op.offPath with
            | true => simp [hboth] at hfirst
            | false => simpa [hboth] using hfirst
          unfold surviving at hop
          rw [List.mem_append, List.mem_singleton] at hop
          cases hop with
          | inr hlast => exact hlast ▸ hoff
          | inl hold =>
              exact hright (right_of_wrongPath (by rw [hfirst, hoff]) hoff) op' hold

/-- A wrong path goes on until the recovery. -/
theorem wrongPath_total {wrongEvents : List Event} (hwrong : ∀ op, .predict op ∈ wrongEvents → op.offPath = true)
    (wrong : Bool) : ∃ wrong', wrongEvents.foldlM wrongPath wrong = some wrong' := by
  induction wrongEvents generalizing wrong with
  | nil => exact ⟨wrong, rfl⟩
  | cons event wrongEvents ih =>
      have hrest := ih fun op hop => hwrong op (List.mem_cons_of_mem _ hop)
      rw [List.foldlM_cons]
      cases event with
      | recover => exact hrest false
      | predict op =>
          have hfirst : wrongPath wrong (.predict op) = some true := by
            unfold wrongPath
            simp [hwrong op List.mem_cons_self]
          rw [hfirst]
          exact hrest true

/-- The ops of a wrong path leave no trace in the path. -/
theorem surviving_wrong {wrongEvents : List Event} (hwrong : ∀ op, .predict op ∈ wrongEvents → op.offPath = true) :
    (wrongEvents.foldl surviving path).filter (fun op => !op.offPath) = path.filter fun op => !op.offPath := by
  induction wrongEvents generalizing path with
  | nil => rfl
  | cons event wrongEvents ih =>
      rw [List.foldl_cons, ih fun op hop => hwrong op (List.mem_cons_of_mem _ hop)]
      cases event with
      | predict op =>
          unfold surviving
          rw [List.filter_append]
          simp [hwrong op List.mem_cons_self]
      | recover =>
          unfold surviving
          rw [List.filter_filter]
          simp

variable (p procId)

/-- Each target that is popped is the one that a bounded stack of the surviving path gives, so
that a wrong path that was recovered from changes nothing later. -/
theorem crs_pops_bounded (memory : ℕ → CrsEntry) (hp : p.crsEntries = 2 ^ k) (hk : k < 8)
    (hreal : p.crsRealistic = 0) (before wrongEvents later : List Event)
    (hproc : ∀ op, .predict op ∈ before ++ wrongEvents ++ later → op.procId = procId)
    (hbefore : before.foldlM wrongPath false = some false)
    (hwrong : ∀ op, .predict op ∈ wrongEvents → op.offPath = true)
    (hlater : (later.foldlM wrongPath false).isSome) :
    (∃ m, (Machine.init p memory).run p procId (before ++ later) = .ok m ∧
      m.answers = expected p procId [] before ++ expected p procId (before.foldl surviving []) later) ∧
    (∃ m, (Machine.init p memory).run p procId (before ++ wrongEvents ++ .recover :: later) = .ok m ∧
      m.answers = expected p procId [] before ++ expected p procId (before.foldl surviving []) wrongEvents ++
        expected p procId (before.foldl surviving []) later) := by
  obtain ⟨last, hlast⟩ := Option.isSome_iff_exists.mp hlater
  have hstart : (Machine.init p memory).Follows p false [] := ⟨0, 0, Crs.Holds.init p memory⟩
  have hright : ∀ op ∈ before.foldl surviving [], op.offPath = false :=
    onPath_of_wrongPath hbefore fun _ => by simp
  obtain ⟨wrong, hwrongPath⟩ := wrongPath_total hwrong false
  constructor
  · have hpath : (before ++ later).foldlM wrongPath false = some last := by
      rw [List.foldlM_append, hbefore]
      exact hlast
    obtain ⟨m, hrun, _, hanswers⟩ := hstart.run hp hk hreal (fun op hop => hproc op (by
      simp only [List.mem_append] at hop ⊢
      tauto)) hpath
    refine ⟨m, hrun, ?_⟩
    rw [hanswers, expected_append]
    rfl
  · have hpath : (before ++ wrongEvents ++ .recover :: later).foldlM wrongPath false = some last := by
      rw [List.foldlM_append, List.foldlM_append, hbefore]
      change (wrongEvents.foldlM wrongPath false >>= fun wrong => _) = _
      rw [hwrongPath]
      exact hlast
    obtain ⟨m, hrun, _, hanswers⟩ := hstart.run hp hk hreal (fun op hop => hproc op (by
      simp only [List.mem_append, List.mem_cons, reduceCtorEq, false_or] at hop ⊢
      exact hop)) hpath
    have hback : (wrongEvents.foldl surviving (before.foldl surviving [])).filter (fun op => !op.offPath) =
        before.foldl surviving [] := by
      rw [surviving_wrong hwrong]
      exact List.filter_eq_self.mpr fun op hop => by simpa using hright op hop
    refine ⟨m, hrun, ?_⟩
    rw [hanswers, expected_append, expected_append, List.foldl_append]
    change [] ++ (_ ++ _ ++ expected p procId (List.filter _ _) later) = _
    rw [hback, List.nil_append]

/-- A call on the right path, a call and two returns on a wrong one, then the return of the first. -/
theorem crs_pops_bounded_wrong_path :
    ∃ m, (Machine.init ⟨2, 0, false⟩ fun _ => ⟨0, 0⟩).run ⟨2, 0, false⟩ 0
        [.predict ⟨0, 0x100, 4, .call, false, 0⟩, .predict ⟨0, 0x200, 4, .call, true, 0⟩,
          .predict ⟨0, 0x300, 1, .ret, true, 0⟩, .predict ⟨0, 0x300, 1, .ret, true, 0⟩, .recover,
          .predict ⟨0, 0x400, 1, .ret, false, 0⟩] = .ok m ∧
      m.answers = [0x204, 0x104, 0x104] :=
  have ⟨m, hrun, hanswers⟩ := (crs_pops_bounded (k := 1) ⟨2, 0, false⟩ 0 (fun _ => ⟨0, 0⟩) rfl (by decide) rfl
    [.predict ⟨0, 0x100, 4, .call, false, 0⟩]
    [.predict ⟨0, 0x200, 4, .call, true, 0⟩, .predict ⟨0, 0x300, 1, .ret, true, 0⟩,
      .predict ⟨0, 0x300, 1, .ret, true, 0⟩]
    [.predict ⟨0, 0x400, 1, .ret, false, 0⟩] (by simp) rfl (by simp) rfl).2
  ⟨m, hrun, hanswers.trans (by decide +kernel)⟩

/-- With `PERFECT_CRS` the target is not popped from the stack. -/
theorem perfectCrs_not_bounded :
    ((Machine.init ⟨2, 0, true⟩ fun _ => ⟨0, 0⟩).run ⟨2, 0, true⟩ 0
        [.predict ⟨0, 0x100, 4, .call, false, 0⟩, .predict ⟨0, 0x300, 1, .ret, false, 0x500⟩]).toOption.map
        Machine.answers ≠ some [addrPlusOffset 0x100 4] := by
  decide +kernel

end Scarab.Bp

import Scarab.Lib.History

/-! # Ports of a cache

The ports of a cache are granted cycle by cycle. The two counts of ports in use are reset apart
from each other, each by the first request of its kind in a cycle, and each is also looked at by
requests of the other kind. -/

namespace Scarab.PortLib

structure Ports where
  readLastCycle : ℕ
  writeLastCycle : ℕ
  numReadPorts : ℕ
  readPortsInUse : ℕ
  numWritePorts : ℕ
  writePortsInUse : ℕ
  writesPreventReads : Bool
  deriving DecidableEq, Repr

/-- `init_ports`. -/
def initPorts (read write : ℕ) (writesPreventReads : Bool) : Ports where
  readLastCycle := 0
  writeLastCycle := 0
  numReadPorts := read
  readPortsInUse := 0
  numWritePorts := write
  writePortsInUse := 0
  writesPreventReads

/-- `get_read_port`: success or failure, or an assertion. -/
def Ports.getReadPort (cycleCount : ℕ) (ports : Ports) : Except String (Bool × Ports) :=
  if ports.readLastCycle ≠ cycleCount then
    if 0 < ports.numReadPorts then
      .ok (true, { ports with readLastCycle := cycleCount, readPortsInUse := 1 })
    else .error "ports->num_read_ports > 0"
  else if ports.readPortsInUse = ports.numReadPorts then .ok (false, ports)
  else if ports.writePortsInUse ≠ 0 ∧ ports.writesPreventReads = true then .ok (false, ports)
  else .ok (true, { ports with readPortsInUse := ports.readPortsInUse + 1 })

/-- `get_write_port`. -/
def Ports.getWritePort (cycleCount : ℕ) (ports : Ports) : Except String (Bool × Ports) :=
  if ports.writeLastCycle ≠ cycleCount then
    if 0 < ports.numWritePorts then
      .ok (true, { ports with writeLastCycle := cycleCount, writePortsInUse := 1 })
    else .error "ports->num_write_ports > 0"
  else if ports.writePortsInUse = ports.numWritePorts then .ok (false, ports)
  else if ports.writesPreventReads = true ∧ ports.readPortsInUse ≠ 0 then
    .error "Must request write ports before reads."
  else .ok (true, { ports with writePortsInUse := ports.writePortsInUse + 1 })

inductive Kind where
  | read
  | write
  deriving DecidableEq, Repr

/-- A request in the cycle `cycle_count`. -/
structure Request where
  cycle : ℕ
  kind : Kind
  deriving DecidableEq, Repr

def Ports.get (ports : Ports) (request : Request) : Except String (Bool × Ports) :=
  match request.kind with
  | .read => ports.getReadPort request.cycle
  | .write => ports.getWritePort request.cycle

/-- What a request comes to; at a failed assertion the program stops. -/
inductive Answer where
  | success
  | failure
  | stopped
  deriving DecidableEq, Repr

structure Entry where
  request : Request
  answer : Answer
  deriving DecidableEq, Repr

/-- The ports, with the requests so far and what they came to. -/
structure Run where
  ports : Ports
  log : List Entry
  stopped : Bool
  deriving DecidableEq, Repr

def Run.step (s : Run) (request : Request) : Run :=
  if s.stopped then s
  else
    match s.ports.get request with
    | .ok (true, ports) => { s with ports, log := s.log ++ [⟨request, .success⟩] }
    | .ok (false, ports) => { s with ports, log := s.log ++ [⟨request, .failure⟩] }
    | .error _ => { s with log := s.log ++ [⟨request, .stopped⟩], stopped := true }

def Ports.run (ports : Ports) (requests : List Request) : Run := requests.foldl Run.step ⟨ports, [], false⟩

/-! ## What the ports are for -/

/-- How many ports of a kind have been granted in a cycle. -/
def granted (log : List Entry) (cycle : ℕ) (kind : Kind) : ℕ := log.count ⟨⟨cycle, kind⟩, .success⟩

/-- In the cycle no write is requested after a read. -/
def WritesFirst (log : List Entry) (cycle : ℕ) : Prop :=
  log.Pairwise fun e e' => e.request = ⟨cycle, .read⟩ → e'.request ≠ ⟨cycle, .write⟩

/-- Every cycle has its ports, and requests are answered from what has been granted in the same
cycle. -/
structure Arbitrated (read write : ℕ) (writesPreventReads : Bool) (log : List Entry) : Prop where
  reads_le : ∀ cycle, granted log cycle .read ≤ read
  writes_le : ∀ cycle, granted log cycle .write ≤ write
  refused_read : History.Always
    (fun before e => e.request.kind = .read → e.answer = .failure →
      granted before e.request.cycle .read = read ∨
        writesPreventReads = true ∧ 0 < granted before e.request.cycle .write) log
  refused_write : History.Always
    (fun before e => e.request.kind = .write → e.answer = .failure →
      granted before e.request.cycle .write = write) log
  prevented : writesPreventReads = true → History.Always
    (fun before e => e.request.kind = .read → e.answer = .success →
      granted before e.request.cycle .write = 0) log
  asserted : History.Always
    (fun before e => e.answer = .stopped → ¬ WritesFirst (before ++ [e]) e.request.cycle) log

/-- Where writes prevent reads, the count of the other kind that a request meets is of the same
cycle. -/
def Ports.InStep (ports : Ports) (request : Request) : Prop :=
  ports.writesPreventReads = true →
    match request.kind with
    | .read =>
        if ports.readLastCycle = request.cycle then
          ports.readPortsInUse = ports.numReadPorts ∨ ports.writePortsInUse = 0 ∨
            ports.writeLastCycle = request.cycle
        else ports.writeLastCycle = request.cycle → ports.writePortsInUse = 0
    | .write =>
        ports.writeLastCycle = request.cycle →
          ports.writePortsInUse = ports.numWritePorts ∨ ports.readPortsInUse = 0 ∨
            ports.readLastCycle = request.cycle

/-! ## What the counts say -/

theorem granted_concat (log : List Entry) (e : Entry) (cycle : ℕ) (kind : Kind) :
    granted (log ++ [e]) cycle kind = granted log cycle kind + if e = ⟨⟨cycle, kind⟩, .success⟩ then 1 else 0 := by
  by_cases he : e = ⟨⟨cycle, kind⟩, .success⟩ <;> simp [granted, he]

theorem granted_eq_zero {log : List Entry} {cycle : ℕ} {kind : Kind}
    (h : ∀ e ∈ log, e.request ≠ ⟨cycle, kind⟩) : granted log cycle kind = 0 := by
  refine List.count_eq_zero.mpr ?_
  intro hmem
  exact h _ hmem rfl

/-- Before a write, the order of a cycle is already broken exactly when there has been a read. -/
theorem writesFirst_concat_write {log : List Entry} {e : Entry} {cycle : ℕ} (he : e.request = ⟨cycle, .write⟩) :
    WritesFirst (log ++ [e]) cycle ↔ ∀ e' ∈ log, e'.request ≠ ⟨cycle, .read⟩ := by
  rw [WritesFirst, List.pairwise_append]
  constructor
  · intro h e' he' hread
    exact h.2.2 e' he' e (List.mem_singleton_self e) hread he
  · intro h
    refine ⟨List.Pairwise.imp_of_mem ?_ (List.pairwise_of_forall fun _ _ => trivial), by simp, ?_⟩
    · intro a b ha _ _ hread
      exact absurd hread (h a ha)
    · intro a ha b _ hread
      exact absurd hread (h a ha)

/-- The requests so far and the two counts, where later requests come in cycle `now` or later. -/
structure Run.Counts (read write : ℕ) (writesPreventReads : Bool) (s : Run) (now : ℕ) : Prop where
  numReadPorts : s.ports.numReadPorts = read
  numWritePorts : s.ports.numWritePorts = write
  writesPreventReads : s.ports.writesPreventReads = writesPreventReads
  readPortsInUse : granted s.log s.ports.readLastCycle .read = s.ports.readPortsInUse
  writePortsInUse : granted s.log s.ports.writeLastCycle .write = s.ports.writePortsInUse
  reads : ∀ e ∈ s.log, e.request.kind = .read → e.request.cycle ≤ s.ports.readLastCycle
  writes : ∀ e ∈ s.log, e.request.kind = .write → e.request.cycle ≤ s.ports.writeLastCycle
  readLastCycle : s.ports.readLastCycle ≤ now
  writeLastCycle : s.ports.writeLastCycle ≤ now
  reads_le : ∀ cycle, granted s.log cycle .read ≤ read
  writes_le : ∀ cycle, granted s.log cycle .write ≤ write

section

variable {read write now : ℕ} {writesPreventReads : Bool} {s : Run} {request : Request}

theorem Run.Counts.mono (h : s.Counts read write writesPreventReads now) {later : ℕ} (hle : now ≤ later) :
    s.Counts read write writesPreventReads later :=
  { h with
    readLastCycle := Nat.le_trans h.readLastCycle hle
    writeLastCycle := Nat.le_trans h.writeLastCycle hle }

theorem Run.Counts.no_read (h : s.Counts read write writesPreventReads now) (hne : s.ports.readLastCycle ≠ now) :
    ∀ e ∈ s.log, e.request ≠ ⟨now, .read⟩ := by
  intro e he heq
  have hle := h.reads e he (congrArg Request.kind heq)
  rw [heq] at hle
  exact hne (Nat.le_antisymm h.readLastCycle hle)

theorem Run.Counts.no_write (h : s.Counts read write writesPreventReads now) (hne : s.ports.writeLastCycle ≠ now) :
    ∀ e ∈ s.log, e.request ≠ ⟨now, .write⟩ := by
  intro e he heq
  have hle := h.writes e he (congrArg Request.kind heq)
  rw [heq] at hle
  exact hne (Nat.le_antisymm h.writeLastCycle hle)

/-- A count is of the present cycle only if a request of its kind has come in it. -/
theorem Run.Counts.granted_read (h : s.Counts read write writesPreventReads now) :
    granted s.log now .read = if s.ports.readLastCycle = now then s.ports.readPortsInUse else 0 := by
  by_cases hcycle : s.ports.readLastCycle = now
  · rw [if_pos hcycle, ← h.readPortsInUse, hcycle]
  · rw [if_neg hcycle]
    exact granted_eq_zero (h.no_read hcycle)

theorem Run.Counts.granted_write (h : s.Counts read write writesPreventReads now) :
    granted s.log now .write = if s.ports.writeLastCycle = now then s.ports.writePortsInUse else 0 := by
  by_cases hcycle : s.ports.writeLastCycle = now
  · rw [if_pos hcycle, ← h.writePortsInUse, hcycle]
  · rw [if_neg hcycle]
    exact granted_eq_zero (h.no_write hcycle)

/-! ## One request -/

/-- A refused request leaves the counts; the ports are already counted for its cycle. -/
theorem Run.Counts.refuse (h : s.Counts read write writesPreventReads now) {e : Entry} (stopped : Bool)
    (he : e.answer ≠ .success) (hread : e.request.kind = .read → e.request.cycle ≤ s.ports.readLastCycle)
    (hwrite : e.request.kind = .write → e.request.cycle ≤ s.ports.writeLastCycle) :
    Run.Counts read write writesPreventReads ⟨s.ports, s.log ++ [e], stopped⟩ now := by
  have hsame : ∀ cycle kind, granted (s.log ++ [e]) cycle kind = granted s.log cycle kind := by
    intro cycle kind
    rw [granted_concat, if_neg (fun heq => he (congrArg Entry.answer heq)), Nat.add_zero]
  refine { h with
    readPortsInUse := (hsame _ _).trans h.readPortsInUse
    writePortsInUse := (hsame _ _).trans h.writePortsInUse
    reads := ?_
    writes := ?_
    reads_le := fun cycle => (hsame cycle .read).symm ▸ h.reads_le cycle
    writes_le := fun cycle => (hsame cycle .write).symm ▸ h.writes_le cycle }
  · intro e' he'
    cases List.mem_append.mp he' with
    | inl hold => exact h.reads e' hold
    | inr hnew =>
        rw [List.mem_singleton.mp hnew]
        exact hread
  · intro e' he'
    cases List.mem_append.mp he' with
    | inl hold => exact h.writes e' hold
    | inr hnew =>
        rw [List.mem_singleton.mp hnew]
        exact hwrite

theorem Run.Counts.grantRead (h : s.Counts read write writesPreventReads now)
    (hlt : granted s.log now .read < read) :
    Run.Counts read write writesPreventReads
      ⟨{ s.ports with readLastCycle := now, readPortsInUse := granted s.log now .read + 1 },
        s.log ++ [⟨⟨now, .read⟩, .success⟩], false⟩ now := by
  refine { h with
    readPortsInUse := by simp [granted_concat]
    writePortsInUse := by simp [granted_concat, h.writePortsInUse]
    reads := ?_
    writes := ?_
    readLastCycle := Nat.le_refl now
    reads_le := ?_
    writes_le := fun cycle => by simpa [granted_concat] using h.writes_le cycle }
  · intro e he hkind
    cases List.mem_append.mp he with
    | inl hold => exact Nat.le_trans (h.reads e hold hkind) h.readLastCycle
    | inr hnew => exact Nat.le_of_eq (congrArg (·.request.cycle) (List.mem_singleton.mp hnew))
  · intro e he hkind
    cases List.mem_append.mp he with
    | inl hold => exact h.writes e hold hkind
    | inr hnew =>
        rw [List.mem_singleton.mp hnew] at hkind
        cases hkind
  · intro cycle
    rw [granted_concat]
    by_cases hcycle : now = cycle
    · subst hcycle
      simpa using Nat.succ_le_of_lt hlt
    · simpa [hcycle] using h.reads_le cycle

theorem Run.Counts.grantWrite (h : s.Counts read write writesPreventReads now)
    (hlt : granted s.log now .write < write) :
    Run.Counts read write writesPreventReads
      ⟨{ s.ports with writeLastCycle := now, writePortsInUse := granted s.log now .write + 1 },
        s.log ++ [⟨⟨now, .write⟩, .success⟩], false⟩ now := by
  refine { h with
    readPortsInUse := by simp [granted_concat, h.readPortsInUse]
    writePortsInUse := by simp [granted_concat]
    reads := ?_
    writes := ?_
    writeLastCycle := Nat.le_refl now
    reads_le := fun cycle => by simpa [granted_concat] using h.reads_le cycle
    writes_le := ?_ }
  · intro e he hkind
    cases List.mem_append.mp he with
    | inl hold => exact h.reads e hold hkind
    | inr hnew =>
        rw [List.mem_singleton.mp hnew] at hkind
        cases hkind
  · intro e he hkind
    cases List.mem_append.mp he with
    | inl hold => exact Nat.le_trans (h.writes e hold hkind) h.writeLastCycle
    | inr hnew => exact Nat.le_of_eq (congrArg (·.request.cycle) (List.mem_singleton.mp hnew))
  · intro cycle
    rw [granted_concat]
    by_cases hcycle : now = cycle
    · subst hcycle
      simpa using Nat.succ_le_of_lt hlt
    · simpa [hcycle] using h.writes_le cycle

/-- The answer to a request is right, after the requests before it. -/
structure Entry.Right (read write : ℕ) (writesPreventReads : Bool) (before : List Entry) (e : Entry) : Prop where
  refused_read : e.request.kind = .read → e.answer = .failure →
    granted before e.request.cycle .read = read ∨
      writesPreventReads = true ∧ 0 < granted before e.request.cycle .write
  refused_write : e.request.kind = .write → e.answer = .failure → granted before e.request.cycle .write = write
  prevented : writesPreventReads = true → e.request.kind = .read → e.answer = .success →
    granted before e.request.cycle .write = 0
  asserted : e.answer = .stopped → ¬ WritesFirst (before ++ [e]) e.request.cycle

theorem right_read_success {log : List Entry} :
    Entry.Right read write writesPreventReads log ⟨⟨now, .read⟩, .success⟩ ↔
      (writesPreventReads = true → granted log now .write = 0) := by
  constructor
  · intro h hflag
    exact h.prevented hflag rfl rfl
  · intro h
    exact ⟨by simp, by simp, fun hflag _ _ => h hflag, by simp⟩

theorem right_read_failure {log : List Entry} :
    Entry.Right read write writesPreventReads log ⟨⟨now, .read⟩, .failure⟩ ↔
      granted log now .read = read ∨ writesPreventReads = true ∧ 0 < granted log now .write := by
  constructor
  · intro h
    exact h.refused_read rfl rfl
  · intro h
    exact ⟨fun _ _ => h, by simp, by simp, by simp⟩

theorem right_write_success {log : List Entry} :
    Entry.Right read write writesPreventReads log ⟨⟨now, .write⟩, .success⟩ :=
  ⟨by simp, by simp, by simp, by simp⟩

theorem right_write_failure {log : List Entry} (h : granted log now .write = write) :
    Entry.Right read write writesPreventReads log ⟨⟨now, .write⟩, .failure⟩ :=
  ⟨by simp, fun _ _ => h, by simp, by simp⟩

theorem right_write_stopped {log : List Entry} :
    Entry.Right read write writesPreventReads log ⟨⟨now, .write⟩, .stopped⟩ ↔
      ¬ ∀ e ∈ log, e.request ≠ ⟨now, .read⟩ := by
  have horder : WritesFirst (log ++ [⟨⟨now, .write⟩, .stopped⟩]) now ↔ ∀ e ∈ log, e.request ≠ ⟨now, .read⟩ :=
    writesFirst_concat_write rfl
  constructor
  · intro h hno
    exact h.asserted rfl (horder.mpr hno)
  · intro h
    exact ⟨by simp, by simp, by simp, fun _ hfirst => h (horder.mp hfirst)⟩

/-- A request is answered, the counts stay right, and the answer is right exactly when the request
meets counts of its own cycle. -/
structure Run.Answers (read write : ℕ) (writesPreventReads : Bool) (s : Run) (request : Request) (s' : Run) : Prop where
  counts : s'.Counts read write writesPreventReads request.cycle
  entry : ∃ answer, s'.log = s.log ++ [⟨request, answer⟩] ∧
    (Entry.Right read write writesPreventReads s.log ⟨request, answer⟩ ↔ s.ports.InStep request)

theorem Run.Counts.answersRead (h : s.Counts read write writesPreventReads now) (hread : 0 < read)
    (hrun : s.stopped = false) : s.Answers read write writesPreventReads ⟨now, .read⟩ (s.step ⟨now, .read⟩) := by
  have hgranted := h.granted_read
  have hwritten := h.granted_write
  have hnum := h.numReadPorts
  have hflag := h.writesPreventReads
  by_cases hlast : s.ports.readLastCycle = now
  · rw [if_pos hlast] at hgranted
    have hrefuse : Run.Counts read write writesPreventReads
        ⟨s.ports, s.log ++ [⟨⟨now, .read⟩, .failure⟩], false⟩ now :=
      h.refuse false (by simp) (fun _ => Nat.le_of_eq hlast.symm) (by simp)
    by_cases hfull : s.ports.readPortsInUse = read
    · have hstep : s.step ⟨now, .read⟩ = ⟨s.ports, s.log ++ [⟨⟨now, .read⟩, .failure⟩], false⟩ := by
        simp [Run.step, Ports.get, Ports.getReadPort, hrun, hlast, hfull, hnum]
      rw [hstep]
      refine ⟨hrefuse, .failure, rfl, ?_⟩
      rw [right_read_failure]
      simp [Ports.InStep, hlast, hfull, hgranted, hnum]
    · by_cases hprevent : s.ports.writePortsInUse ≠ 0 ∧ writesPreventReads = true
      · have hstep : s.step ⟨now, .read⟩ = ⟨s.ports, s.log ++ [⟨⟨now, .read⟩, .failure⟩], false⟩ := by
          simp [Run.step, Ports.get, Ports.getReadPort, hrun, hlast, hfull, hnum, hprevent, hflag]
        rw [hstep]
        refine ⟨hrefuse, .failure, rfl, ?_⟩
        -- the refusal is right if the writes that are counted are of this cycle
        rw [right_read_failure, hgranted, hwritten]
        simp [Ports.InStep, hlast, hfull, hnum, hprevent, hflag, Nat.pos_iff_ne_zero]
      · have hstep : s.step ⟨now, .read⟩ =
            ⟨{ s.ports with readLastCycle := now, readPortsInUse := granted s.log now .read + 1 },
              s.log ++ [⟨⟨now, .read⟩, .success⟩], false⟩ := by
          simp [Run.step, Ports.get, Ports.getReadPort, hrun, hlast, hfull, hnum, hprevent, hflag, hgranted]
        have hlt : granted s.log now .read < read := Nat.lt_of_le_of_ne (h.reads_le now) (hgranted ▸ hfull)
        have hnone : writesPreventReads = true → s.ports.writePortsInUse = 0 := fun hset =>
          Classical.byContradiction fun hne => hprevent ⟨hne, hset⟩
        rw [hstep]
        refine ⟨h.grantRead hlt, .success, rfl, iff_of_true (right_read_success.mpr ?_) ?_⟩
        · intro hset
          rw [hwritten, hnone hset, ite_self]
        · intro hset
          simp [hlast, hnone (hflag ▸ hset)]
  · rw [if_neg hlast] at hgranted
    have hstep : s.step ⟨now, .read⟩ =
        ⟨{ s.ports with readLastCycle := now, readPortsInUse := granted s.log now .read + 1 },
          s.log ++ [⟨⟨now, .read⟩, .success⟩], false⟩ := by
      simp [Run.step, Ports.get, Ports.getReadPort, hrun, hlast, hnum, hread, hgranted]
    rw [hstep]
    refine ⟨h.grantRead (hgranted ▸ hread), .success, rfl, ?_⟩
    -- the first read of the cycle does not look at the writes
    rw [right_read_success, hwritten]
    simp [Ports.InStep, hlast, hflag]

theorem Run.Counts.answersWrite (h : s.Counts read write writesPreventReads now) (hwrite : 0 < write)
    (hrun : s.stopped = false) : s.Answers read write writesPreventReads ⟨now, .write⟩ (s.step ⟨now, .write⟩) := by
  have hgranted := h.granted_write
  have hnum := h.numWritePorts
  have hflag := h.writesPreventReads
  by_cases hlast : s.ports.writeLastCycle = now
  · rw [if_pos hlast] at hgranted
    by_cases hfull : s.ports.writePortsInUse = write
    · have hstep : s.step ⟨now, .write⟩ = ⟨s.ports, s.log ++ [⟨⟨now, .write⟩, .failure⟩], false⟩ := by
        simp [Run.step, Ports.get, Ports.getWritePort, hrun, hlast, hfull, hnum]
      rw [hstep]
      refine ⟨h.refuse false (by simp) (by simp) (fun _ => Nat.le_of_eq hlast.symm), .failure, rfl, ?_⟩
      refine iff_of_true (right_write_failure (hgranted.trans hfull)) ?_
      simp [Ports.InStep, hfull, hnum]
    · by_cases hassert : writesPreventReads = true ∧ s.ports.readPortsInUse ≠ 0
      · have hstep : s.step ⟨now, .write⟩ = ⟨s.ports, s.log ++ [⟨⟨now, .write⟩, .stopped⟩], true⟩ := by
          simp [Run.step, Ports.get, Ports.getWritePort, hrun, hlast, hfull, hnum, hassert, hflag]
        rw [hstep]
        refine ⟨h.refuse true (by simp) (by simp) (fun _ => Nat.le_of_eq hlast.symm), .stopped, rfl, ?_⟩
        -- the assertion is right if the reads that are counted are of this cycle
        have hread : (¬ ∀ e ∈ s.log, e.request ≠ ⟨now, .read⟩) ↔ s.ports.readLastCycle = now := by
          constructor
          · intro hsome
            exact Classical.byContradiction fun hne => hsome (h.no_read hne)
          · intro hcycle hnone
            have hzero := granted_eq_zero hnone
            rw [← hcycle, h.readPortsInUse] at hzero
            exact hassert.2 hzero
        rw [right_write_stopped, hread]
        simp [Ports.InStep, hlast, hfull, hnum, hflag, hassert]
      · have hstep : s.step ⟨now, .write⟩ =
            ⟨{ s.ports with writeLastCycle := now, writePortsInUse := granted s.log now .write + 1 },
              s.log ++ [⟨⟨now, .write⟩, .success⟩], false⟩ := by
          simp [Run.step, Ports.get, Ports.getWritePort, hrun, hlast, hfull, hnum, hassert, hflag, hgranted]
        have hlt : granted s.log now .write < write := Nat.lt_of_le_of_ne (h.writes_le now) (hgranted ▸ hfull)
        rw [hstep]
        refine ⟨h.grantWrite hlt, .success, rfl, iff_of_true right_write_success ?_⟩
        intro hset _
        by_cases hzero : s.ports.readPortsInUse = 0
        · exact .inr (.inl hzero)
        · exact absurd ⟨hflag ▸ hset, hzero⟩ hassert
  · rw [if_neg hlast] at hgranted
    have hstep : s.step ⟨now, .write⟩ =
        ⟨{ s.ports with writeLastCycle := now, writePortsInUse := granted s.log now .write + 1 },
          s.log ++ [⟨⟨now, .write⟩, .success⟩], false⟩ := by
      simp [Run.step, Ports.get, Ports.getWritePort, hrun, hlast, hnum, hwrite, hgranted]
    rw [hstep]
    refine ⟨h.grantWrite (hgranted ▸ hwrite), .success, rfl, iff_of_true right_write_success ?_⟩
    intro _ hcycle
    exact absurd hcycle hlast

theorem Run.Counts.answers (h : s.Counts read write writesPreventReads now) (hread : 0 < read) (hwrite : 0 < write)
    (hrun : s.stopped = false) (hle : now ≤ request.cycle) :
    s.Answers read write writesPreventReads request (s.step request) := by
  have hcounts := h.mono hle
  obtain ⟨cycle, kind⟩ := request
  cases kind with
  | read => exact hcounts.answersRead hread hrun
  | write => exact hcounts.answersWrite hwrite hrun

/-! ## All requests -/

/-- Requests come in the order of their cycles. -/
def Ordered (requests : List Request) : Prop := requests.Pairwise fun r r' => r.cycle ≤ r'.cycle

theorem Ordered.exists_last {requests : List Request} (h : Ordered requests) :
    ∃ now, ∀ r ∈ requests, r.cycle ≤ now := by
  rcases List.eq_nil_or_concat' requests with rfl | ⟨before, last, rfl⟩
  · exact ⟨0, by simp⟩
  · refine ⟨last.cycle, ?_⟩
    intro r hr
    cases List.mem_append.mp hr with
    | inl hold => exact (List.pairwise_append.mp h).2.2 r hold last (List.mem_singleton_self last)
    | inr hnew => simp [List.mem_singleton.mp hnew]

theorem run_concat (ports : Ports) (requests : List Request) (request : Request) :
    ports.run (requests ++ [request]) = (ports.run requests).step request := by
  simp [Ports.run, List.foldl_append]

theorem Run.step_of_stopped (hstop : s.stopped = true) (request : Request) : s.step request = s := by
  rw [Run.step, if_pos hstop]

theorem initPorts_counts (read write : ℕ) (writesPreventReads : Bool) (now : ℕ) :
    ((initPorts read write writesPreventReads).run []).Counts read write writesPreventReads now where
  numReadPorts := rfl
  numWritePorts := rfl
  writesPreventReads := rfl
  readPortsInUse := rfl
  writePortsInUse := rfl
  reads := by simp [Ports.run]
  writes := by simp [Ports.run]
  readLastCycle := Nat.zero_le now
  writeLastCycle := Nat.zero_le now
  reads_le := fun _ => Nat.zero_le read
  writes_le := fun _ => Nat.zero_le write

theorem run_counts (hread : 0 < read) (hwrite : 0 < write) {requests : List Request} (hordered : Ordered requests)
    (hnow : ∀ r ∈ requests, r.cycle ≤ now) :
    ((initPorts read write writesPreventReads).run requests).Counts read write writesPreventReads now := by
  induction requests using List.reverseRecOn generalizing now with
  | nil => exact initPorts_counts read write writesPreventReads now
  | append_singleton requests request ih =>
      obtain ⟨hbefore, -, hlast⟩ := List.pairwise_append.mp hordered
      have hcounts := ih hbefore fun r hr => hlast r hr request (List.mem_singleton_self request)
      have hle : request.cycle ≤ now := hnow request (by simp)
      rw [run_concat]
      cases hstop : ((initPorts read write writesPreventReads).run requests).stopped with
      | true =>
          rw [Run.step_of_stopped hstop]
          exact hcounts.mono hle
      | false => exact (hcounts.answers hread hwrite hstop (Nat.le_refl _)).counts.mono hle

/-- Each request meets counts of its own cycle, as long as no assertion has failed. -/
def Ports.AlwaysInStep (ports : Ports) (requests : List Request) : Prop :=
  History.Always
    (fun before request => (ports.run before).stopped = false → (ports.run before).ports.InStep request) requests

theorem run_right_iff (hread : 0 < read) (hwrite : 0 < write) {requests : List Request} (hordered : Ordered requests) :
    History.Always (Entry.Right read write writesPreventReads)
        ((initPorts read write writesPreventReads).run requests).log ↔
      (initPorts read write writesPreventReads).AlwaysInStep requests := by
  induction requests using List.reverseRecOn with
  | nil => exact iff_of_true History.always_nil History.always_nil
  | append_singleton requests request ih =>
      obtain ⟨hbefore, -, hlast⟩ := List.pairwise_append.mp hordered
      have hcounts : ((initPorts read write writesPreventReads).run requests).Counts read write writesPreventReads
          request.cycle :=
        run_counts hread hwrite hbefore fun r hr => hlast r hr request (List.mem_singleton_self request)
      rw [run_concat, Ports.AlwaysInStep, History.always_concat, ← Ports.AlwaysInStep, ← ih hbefore]
      cases hstop : ((initPorts read write writesPreventReads).run requests).stopped with
      | true =>
          rw [Run.step_of_stopped hstop]
          simp
      | false =>
          obtain ⟨answer, hlog, hright⟩ := (hcounts.answers hread hwrite hstop (Nat.le_refl _)).entry
          rw [hlog, History.always_concat, hright]
          simp

theorem arbitrated_iff {log : List Entry} (hreads : ∀ cycle, granted log cycle .read ≤ read)
    (hwrites : ∀ cycle, granted log cycle .write ≤ write) :
    Arbitrated read write writesPreventReads log ↔ History.Always (Entry.Right read write writesPreventReads) log := by
  constructor
  · intro h before e after hlog
    exact ⟨h.refused_read before e after hlog, h.refused_write before e after hlog,
      fun hflag => h.prevented hflag before e after hlog, h.asserted before e after hlog⟩
  · intro h
    exact ⟨hreads, hwrites, fun before e after hlog => (h before e after hlog).refused_read,
      fun before e after hlog => (h before e after hlog).refused_write,
      fun hflag before e after hlog => (h before e after hlog).prevented hflag,
      fun before e after hlog => (h before e after hlog).asserted⟩

/-- The ports are arbitrated cycle by cycle exactly when, where writes prevent reads, no request
meets counts of another cycle. -/
theorem ports_arbitrated_iff (read write : ℕ) (writesPreventReads : Bool) (requests : List Request)
    (hread : 0 < read) (hwrite : 0 < write) (hordered : Ordered requests) :
    Arbitrated read write writesPreventReads ((initPorts read write writesPreventReads).run requests).log ↔
      (initPorts read write writesPreventReads).AlwaysInStep requests := by
  obtain ⟨now, hnow⟩ := hordered.exists_last
  have hcounts : ((initPorts read write writesPreventReads).run requests).Counts read write writesPreventReads now :=
    run_counts hread hwrite hordered hnow
  rw [arbitrated_iff hcounts.reads_le hcounts.writes_le]
  exact run_right_iff hread hwrite hordered

end

theorem ports_arbitrated_iff_two_cycles :
    Arbitrated 2 1 true ((initPorts 2 1 true).run [⟨1, .write⟩, ⟨2, .read⟩, ⟨2, .read⟩]).log ↔
      (initPorts 2 1 true).AlwaysInStep [⟨1, .write⟩, ⟨2, .read⟩, ⟨2, .read⟩] :=
  ports_arbitrated_iff 2 1 true _ (by decide) (by decide) (by unfold Ordered; decide)

/-- The first read of a cycle is granted although a write was granted before it. -/
theorem ports_read_after_write :
    ¬ ∀ (read write : ℕ) (writesPreventReads : Bool) (requests : List Request), 0 < read → 0 < write →
      Ordered requests →
        Arbitrated read write writesPreventReads ((initPorts read write writesPreventReads).run requests).log := by
  intro h
  have harb := h 1 1 true [⟨1, .write⟩, ⟨1, .read⟩] (by decide) (by decide) (by unfold Ordered; decide)
  have hnone := harb.prevented rfl [⟨⟨1, .write⟩, .success⟩] ⟨⟨1, .read⟩, .success⟩ [] (by decide) rfl rfl
  exact absurd hnone (by decide)

end Scarab.PortLib

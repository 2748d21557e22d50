import Scarab.Bp.Tagescl.Runs

/-! # What fits into the history register

The register has room for one history bit more for every branch that can be in flight, and for what
the rounding up of its size adds, but a branch inserts two bits or three. The assertions hold as
long as the bits of the branches in flight fit. -/

namespace Scarab.Bp.Tagescl

variable {cfg : Config} {m m' : Machine cfg} {w : Window} {event : Event} {events : List Event} {M : ℕ}

/-- The measure of the branches in flight stays within the bound at a call. -/
def Window.Stays (measure : List Update → ℕ) (bound : ℕ) (w : Window) (event : Event) : Prop :=
  ∀ w' ∈ (w.step event).toOption, measure w'.inFlight ≤ bound

instance (measure : List Update → ℕ) (bound : ℕ) (w : Window) (event : Event) :
    Decidable (w.Stays measure bound event) :=
  inferInstanceAs (Decidable (∀ w' ∈ (w.step event).toOption, _))

/-- The history bits that the register has room for. -/
def historyRoom (cfg : Config) (maxInFlightBranches : ℕ) : ℕ :=
  2 ^ getMinNumBitsToRepresent (cfg.maxHistorySize + maxInFlightBranches) - cfg.maxHistorySize

/-- The register still has the history behind every branch in flight, which is what folding out its
bits reads. -/
def Machine.Intact (m : Machine cfg) : Prop :=
  ∀ i < cfg.maxHistorySize + numBits m.window.inFlight,
    m.predictor.tage.historyRegister.bit i = (ideal cfg m.window.path).bits.getD i false

theorem Machine.Sound.intact (h : m.Sound) : m.Intact := by
  intro i hi
  have hspec : m.predictor.tage.historyRegister.numSpeculativeBits = numBits m.window.inFlight := h.speculative
  exact h.tage.register.bit i (by omega)

theorem Window.stays_iff {measure : List Update → ℕ} {bound : ℕ} {w' : Window} (hw : w.step event = .ok w') :
    w.Stays measure bound event ↔ measure w'.inFlight ≤ bound := by
  rw [Window.Stays, hw]
  simp [Except.toOption]

/-- Where the branches and their bits fit after a call, there is room for it. -/
theorem Machine.hasRoom_of_stays {w' : Window} (hfront : m.window.retired ≤ m.window.path.length)
    (hw : m.window.step event = .ok w') (hsize : w'.inFlight.length ≤ m.bufferSize)
    (hbits : numBits w'.inFlight ≤ m.capacity) : m.HasRoom event := by
  cases event with
  | fetch u =>
      cases hw
      simp only [Window.inFlight, List.drop_append_of_le_length hfront] at hsize hbits
      rw [numBits_append, numBits_singleton] at hbits
      rw [List.length_append, List.length_drop, List.length_singleton] at hsize
      exact ⟨by omega, hbits⟩
  | commit id => trivial
  | retire id => trivial
  | flush id resolveDir => trivial

/-- From any sound state, the calls succeed exactly as long as the bits in flight fit. -/
theorem Machine.Sound.run_ok_iff (h : m.Sound) (hM : M ≤ m.bufferSize)
    (hwindow : Execution.run Window.step m.window events = .ok w)
    (hbranches : Execution.Along Window.step (Window.Stays List.length M) m.window events) :
    (∃ m', m.run events = .ok m') ↔
      Execution.Along Window.step (Window.Stays numBits m.capacity) m.window events := by
  induction events generalizing m with
  | nil => exact ⟨fun _ => trivial, fun _ => ⟨m, rfl⟩⟩
  | cons event events ih =>
      obtain ⟨w₁, hw, hwindow⟩ := Execution.run_cons_eq_ok.mp hwindow
      simp only [Execution.along_cons hw, Window.stays_iff hw] at hbranches ⊢
      constructor
      · rintro ⟨m', hrun⟩
        obtain ⟨m₁, hstep, hrun⟩ := Execution.run_cons_eq_ok.mp hrun
        obtain ⟨hsound, hw₁, hcap, hsize⟩ := h.step hstep
        cases hw.symm.trans hw₁
        have hroom : m₁.predictor.tage.speculative ≤ m₁.capacity := hsound.tage.register.room
        have hspec : m₁.predictor.tage.speculative = numBits m₁.window.inFlight := hsound.speculative
        refine ⟨by omega, ?_⟩
        rw [← hcap]
        exact (ih hsound (by omega) hwindow hbranches.2).mp ⟨m', hrun⟩
      · rintro ⟨hbits, halong⟩
        have hroom : m.HasRoom event := Machine.hasRoom_of_stays h.front_le hw (hbranches.1.trans hM) hbits
        obtain ⟨m₁, hstep, hsound, hw₁, hcap, hsize⟩ := h.step_ok hroom hw
        rw [← hw₁] at hwindow hbranches halong
        rw [← hcap] at halong
        obtain ⟨m', hrun⟩ := (ih hsound (by omega) hwindow hbranches.2).mpr halong
        exact ⟨m', Execution.run_cons_eq_ok.mpr ⟨m₁, hstep, hrun⟩⟩

/-- In a run with no more branches in flight than announced, no assertion fails and no bit that is
still needed is overwritten exactly as long as the history bits in flight fit. -/
theorem assertions_hold_iff (uninitialized : ℕ → PredictionInfo cfg)
    (hwindow : Execution.run Window.step ⟨[], 0⟩ events = .ok w)
    (hbranches : Execution.Along Window.step (Window.Stays List.length M) ⟨[], 0⟩ events) :
    (∃ m, (Machine.init M uninitialized).run events = .ok m ∧ m.Intact) ↔
      Execution.Along Window.step (Window.Stays numBits (historyRoom cfg M)) ⟨[], 0⟩ events := by
  have hinit := Machine.sound_init M uninitialized
  have hiff := hinit.run_ok_iff (le_two_pow_getMinNumBits M) hwindow hbranches
  constructor
  · rintro ⟨m, hrun, _⟩
    exact hiff.mp ⟨m, hrun⟩
  · intro halong
    obtain ⟨m, hrun⟩ := hiff.mpr halong
    exact ⟨m, hrun, (Machine.run_sound hinit hrun).1.intact⟩

/-- A call and a loop branch in flight, the second one flushed, and then the first one retired. -/
theorem assertions_hold_iff_two :
    (∃ m, (Machine.init 2 fun _ => blank config64KB).run
      [.fetch ⟨⟨80, 640, ⟨false, false⟩⟩, true⟩, .fetch ⟨⟨640, 600, ⟨true, false⟩⟩, true⟩, .flush 1 false,
        .retire 0] = .ok m ∧ m.Intact) ↔
      Execution.Along Window.step (Window.Stays numBits (historyRoom config64KB 2)) ⟨[], 0⟩
        [.fetch ⟨⟨80, 640, ⟨false, false⟩⟩, true⟩, .fetch ⟨⟨640, 600, ⟨true, false⟩⟩, true⟩, .flush 1 false,
          .retire 0] :=
  assertions_hold_iff (w := ⟨[⟨⟨80, 640, ⟨false, false⟩⟩, true⟩, ⟨⟨640, 600, ⟨true, false⟩⟩, false⟩], 1⟩) _
    (by decide +kernel) (by decide +kernel)

theorem numBits_le (path : List Update) : numBits path ≤ 3 * path.length := by
  induction path with
  | nil => exact Nat.zero_le _
  | cons u path ih =>
      have hu : u.numBits ≤ 3 := by
        rw [Update.numBits, BranchType.numBitInserts]
        cases (u.br.type.isIndirect && !u.br.type.isConditional) <;> decide
      have hcons : numBits (u :: path) = u.numBits + numBits path := rfl
      rw [List.length_cons]
      omega

/-- With room for three bits of every branch, as for the 256 entries of the default node table, the
assertions hold in every run. -/
theorem assertions_hold_of_le (uninitialized : ℕ → PredictionInfo cfg) (hroom : 3 * M ≤ historyRoom cfg M)
    (hwindow : Execution.run Window.step ⟨[], 0⟩ events = .ok w)
    (hbranches : Execution.Along Window.step (Window.Stays List.length M) ⟨[], 0⟩ events) :
    ∃ m, (Machine.init M uninitialized).run events = .ok m ∧ m.Intact := by
  have hinit := Machine.sound_init M uninitialized
  have hbits : Execution.Along Window.step (Window.Stays numBits (historyRoom cfg M)) ⟨[], 0⟩ events := by
    apply hbranches.mono
    intro w event hstays w' hw
    have hlen := hstays w' hw
    have hle := numBits_le w'.inFlight
    omega
  obtain ⟨m, hrun⟩ := (hinit.run_ok_iff (le_two_pow_getMinNumBits M) hwindow hbranches).mpr hbits
  exact ⟨m, hrun, (Machine.run_sound hinit hrun).1.intact⟩

example : 3 * 256 ≤ historyRoom config64KB 256 := by decide +kernel

/-! ## Branches that are only fetched -/

theorem Window.run_fetch (w : Window) (live : List Update) :
    Execution.run Window.step w (live.map .fetch) = .ok { w with path := w.path ++ live } := by
  induction live generalizing w with
  | nil => simp
  | cons u live ih =>
      refine Execution.run_cons_eq_ok.mpr ⟨_, rfl, ?_⟩
      rw [ih, List.append_assoc]
      rfl

theorem Window.along_fetch (w : Window) (live : List Update) (hfits : w.path.length + live.length ≤ M) :
    Execution.Along Window.step (Window.Stays List.length M) w (live.map .fetch) := by
  induction live generalizing w with
  | nil => trivial
  | cons u live ih =>
      rw [List.length_cons] at hfits
      refine ⟨(Window.stays_iff rfl).mpr ?_, ih _ ?_⟩
      · rw [Window.inFlight, List.length_drop, List.length_append, List.length_singleton]
        omega
      · rw [List.length_append, List.length_singleton]
        omega

/-- The machine's window is the front end's. -/
theorem Machine.run_window (hrun : m.run events = .ok m') :
    Execution.run Window.step m.window events = .ok m'.window := by
  induction events generalizing m with
  | nil =>
      cases hrun
      rfl
  | cons event events ih =>
      obtain ⟨m₁, hstep, hrest⟩ := Execution.run_cons_eq_ok.mp hrun
      obtain ⟨w', hw, hcall⟩ := Execution.bind_eq_ok.mp hstep
      obtain ⟨s', _, heq⟩ := Execution.bind_eq_ok.mp hcall
      cases heq
      exact Execution.run_cons_eq_ok.mpr ⟨w', hw, ih hrest⟩

/-- With a node table of 512 entries, 366 indirect jumps have more history bits than fit. -/
theorem indirect_jumps_overflow : ¬ ∀ (M : ℕ) (uninitialized : ℕ → PredictionInfo config64KB) (events : List Event)
    (w : Window), Execution.run Window.step ⟨[], 0⟩ events = .ok w →
    Execution.Along Window.step (Window.Stays List.length M) ⟨[], 0⟩ events →
    ∃ m, (Machine.init M uninitialized).run events = .ok m ∧ m.Intact := by
  intro hclaim
  let live : List Update := List.replicate 366 ⟨⟨80, 640, ⟨false, true⟩⟩, true⟩
  obtain ⟨m, hrun, _⟩ := hclaim 512 (fun _ => blank _) (live.map .fetch) _ (Window.run_fetch ⟨[], 0⟩ live)
    (Window.along_fetch ⟨[], 0⟩ live (by rw [List.length_replicate]; decide))
  obtain ⟨hsound, hcap, _⟩ := Machine.run_sound (Machine.sound_init 512 _) hrun
  have hwindow : m.window = ⟨live, 0⟩ :=
    Except.ok.inj ((Machine.run_window hrun).symm.trans (Window.run_fetch ⟨[], 0⟩ live))
  have hbits : numBits m.window.inFlight = 366 * 3 := by
    rw [hwindow]
    decide +kernel
  have hspec : m.predictor.tage.speculative = numBits m.window.inFlight := hsound.speculative
  have hroom : m.predictor.tage.speculative ≤ m.capacity := hsound.tage.register.room
  have hsize : m.capacity = 1096 := hcap.trans (by decide +kernel)
  omega

end Scarab.Bp.Tagescl

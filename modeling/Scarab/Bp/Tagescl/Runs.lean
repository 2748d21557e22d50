import Scarab.Bp.Tagescl.InFlight

/-! # Recovery over whole runs

After a flush the histories are those of a run that never fetched the flushed branches. -/

namespace Scarab.Bp.Tagescl

variable {cfg : Config}

/-- The calls of a front end for one branch after the other, each with the branch's id. -/
inductive Event where
  | fetch (u : Update)
  | commit (id : ℕ)
  | retire (id : ℕ)
  | flush (id : ℕ) (resolveDir : Bool)
  deriving DecidableEq, Repr

/-- The branches that survive, the oldest one first, and how many of them are retired. Ids are
given in order, and again after a flush. -/
structure Window where
  path : List Update
  retired : ℕ
  deriving DecidableEq, Repr

/-- Only a branch in flight is committed or flushed, and only the oldest one is retired. -/
def Window.step (w : Window) : Event → Except String Window
  | .fetch u => .ok { w with path := w.path ++ [u] }
  | .commit id => if w.retired ≤ id ∧ id < w.path.length then .ok w else .error "not in flight"
  | .retire id =>
      if id = w.retired ∧ id < w.path.length then .ok { w with retired := w.retired + 1 }
      else .error "not the oldest branch"
  | .flush id resolveDir =>
      match w.path[id]? with
      | none => .error "not in flight"
      | some u =>
          if w.retired ≤ id then .ok { w with path := w.path.take id ++ [⟨u.br, resolveDir⟩] }
          else .error "not in flight"

/-- The branches in flight. -/
def Window.inFlight (w : Window) : List Update := w.path.drop w.retired

/-- The call for a branch passes what the branch is. -/
def TageScL.call (s : TageScL cfg) (w : Window) : Event → Except String (TageScL cfg)
  | .fetch u => s.fetch u
  | .commit id =>
      match w.path[id]? with
      | none => .error "not in flight"
      | some u => s.commitState id u.br
  | .retire id => s.commitStateAtRetire id
  | .flush id resolveDir =>
      match w.path[id]? with
      | none => .error "not in flight"
      | some u => s.flushBranchAndRepairState id u.br resolveDir

/-- The predictor, and what its front end knows. -/
structure Machine (cfg : Config) where
  predictor : TageScL cfg
  window : Window

def Machine.init (maxInFlightBranches : ℕ) (uninitialized : ℕ → PredictionInfo cfg) : Machine cfg :=
  ⟨.init maxInFlightBranches uninitialized, ⟨[], 0⟩⟩

def Machine.step (m : Machine cfg) (event : Event) : Except String (Machine cfg) := do
  let window ← m.window.step event
  let predictor ← m.predictor.call m.window event
  return ⟨predictor, window⟩

abbrev Machine.run : Machine cfg → List Event → Except String (Machine cfg) := Execution.run Machine.step

/-! ## Every call -/

def Machine.Sound (m : Machine cfg) : Prop := m.predictor.After m.window.path m.window.retired

/-- The history bits that the register has room for, and the branches that the buffer has. -/
def Machine.capacity (m : Machine cfg) : ℕ := m.predictor.tage.capacity

def Machine.bufferSize (m : Machine cfg) : ℕ := m.predictor.predictionInfoBuffer.bufferSize

variable {m m' : Machine cfg} {w w' : Window} {s s' : TageScL cfg} {event : Event} {u : Update}

/-- A fetch needs a place in the buffer and room for its bits. The other calls need nothing. -/
def Machine.HasRoom (m : Machine cfg) : Event → Prop
  | .fetch u => m.window.path.length < m.window.retired + m.bufferSize ∧
      numBits m.window.inFlight + u.numBits ≤ m.capacity
  | _ => True

theorem Machine.Sound.step_ok (h : m.Sound) (hroom : m.HasRoom event) (hw : m.window.step event = .ok w') :
    ∃ m', m.step event = .ok m' ∧ m'.Sound ∧ m'.window = w' ∧ m'.capacity = m.capacity ∧
      m'.bufferSize = m.bufferSize := by
  have hcall : ∃ s', m.predictor.call m.window event = .ok s' ∧ s'.After w'.path w'.retired ∧
      s'.tage.capacity = m.capacity ∧ s'.predictionInfoBuffer.bufferSize = m.bufferSize := by
    cases event with
    | fetch u =>
        cases hw
        exact TageScL.After.fetch h hroom.1 hroom.2
    | commit id =>
        obtain ⟨hid, heq⟩ := Execution.ite_error_eq_ok.mp hw
        cases heq
        have hu : m.window.path[id]? = some m.window.path[id] := List.getElem?_eq_getElem hid.2
        refine ⟨m.predictor, ?_, h, rfl, rfl⟩
        simp only [TageScL.call, hu]
        exact TageScL.After.commit h hid.1 hu _
    | retire id =>
        obtain ⟨hid, heq⟩ := Execution.ite_error_eq_ok.mp hw
        cases heq
        obtain ⟨rfl, hlt⟩ := hid
        exact TageScL.After.retire h (List.getElem?_eq_getElem hlt)
    | flush id resolveDir =>
        simp only [Window.step] at hw
        cases hu : m.window.path[id]? with
        | none =>
            rw [hu] at hw
            cases hw
        | some u =>
            rw [hu] at hw
            obtain ⟨hid, heq⟩ := Execution.ite_error_eq_ok.mp hw
            cases heq
            simp only [TageScL.call, hu]
            exact TageScL.After.flush h hid hu resolveDir
  obtain ⟨s', hs', hafter, hcap, hsize⟩ := hcall
  exact ⟨⟨s', w'⟩, Execution.bind_eq_ok.mpr ⟨w', hw, Execution.bind_eq_ok.mpr ⟨s', hs', rfl⟩⟩, hafter, rfl, hcap, hsize⟩

/-- A branch that was fetched had room. -/
theorem Machine.Sound.hasRoom (h : m.Sound) (hstep : m.step event = .ok m') : m.HasRoom event := by
  cases event with
  | fetch u =>
      obtain ⟨w', _, hstep⟩ := Execution.bind_eq_ok.mp hstep
      obtain ⟨s', hfetch, _⟩ := Execution.bind_eq_ok.mp hstep
      obtain ⟨⟨id, s₁⟩, hnew, hupdate⟩ := Execution.bind_eq_ok.mp hfetch
      obtain ⟨⟨id', buffer⟩, halloc, hnew⟩ := Execution.bind_eq_ok.mp hnew
      cases hnew
      obtain ⟨hlt, _⟩ := Execution.ite_error_eq_ok.mp halloc
      obtain ⟨⟨info, tage⟩, hpush, _⟩ := Execution.bind_eq_ok.mp hupdate
      obtain ⟨t, hbits, _⟩ := Execution.bind_eq_ok.mp hpush
      have hroom := TageHistories.pushBits_room _ h.tage.register.room hbits
      rw [length_insertedBits] at hroom
      have hsize := h.size
      have hspec := h.speculative
      refine ⟨?_, ?_⟩
      · simp only [Machine.bufferSize]
        omega
      · simp only [Window.inFlight, Machine.capacity, ← hspec]
        exact hroom
  | commit id => trivial
  | retire id => trivial
  | flush id resolveDir => trivial

theorem Machine.Sound.step (h : m.Sound) (hstep : m.step event = .ok m') :
    m'.Sound ∧ m.window.step event = .ok m'.window ∧ m'.capacity = m.capacity ∧ m'.bufferSize = m.bufferSize := by
  obtain ⟨w', hw, hrest⟩ := Execution.bind_eq_ok.mp hstep
  obtain ⟨s', _, heq⟩ := Execution.bind_eq_ok.mp hrest
  obtain ⟨m'', hstep', hsound, hwindow, hcap, hsize⟩ := h.step_ok (h.hasRoom hstep) hw
  cases hstep.symm.trans hstep'
  exact ⟨hsound, hwindow ▸ hw, hcap, hsize⟩

theorem Machine.sound_init (M : ℕ) (uninitialized : ℕ → PredictionInfo cfg) :
    (Machine.init M uninitialized).Sound := TageScL.after_init M uninitialized

theorem Machine.run_sound {events : List Event} (h : m.Sound) (hrun : m.run events = .ok m') :
    m'.Sound ∧ m'.capacity = m.capacity ∧ m'.bufferSize = m.bufferSize :=
  Execution.run_invariant (I := fun n => n.Sound ∧ n.capacity = m.capacity ∧ n.bufferSize = m.bufferSize)
    (fun _ _ _ hn hstep => by
      obtain ⟨hsound, _, hcap, hsize⟩ := hn.1.step hstep
      exact ⟨hsound, hcap.trans hn.2.1, hsize.trans hn.2.2⟩)
    ⟨h, rfl, rfl⟩ hrun

/-! ## Recovery -/

/-- What the predictor reads of its histories: the last bits of the register, the path history, the
three families of folded histories, and all histories of the statistical corrector. -/
structure Observation (cfg : Config) where
  history : List Bool
  pathHistory : BitVec 64
  indices : List ℕ
  tags0 : List ℕ
  tags1 : List ℕ
  sc : ScHistories cfg

def TageScL.observe (s : TageScL cfg) : Observation cfg where
  history := (List.range cfg.maxHistorySize).map s.tage.historyRegister.bit
  pathHistory := s.tage.pathHistory
  indices := s.tage.foldedHistoriesForIndices.map FoldedHistory.currentValue
  tags0 := s.tage.foldedHistoriesForTags0.map FoldedHistory.currentValue
  tags1 := s.tage.foldedHistoriesForTags1.map FoldedHistory.currentValue
  sc := s.statisticalCorrector

/-- The histories only depend on the branches that survive. -/
theorem TageScL.After.observe_eq {path : List Update} {n n' : ℕ} (h : s.After path n) (h' : s'.After path n') :
    s.observe = s'.observe := by
  have hbits : (List.range cfg.maxHistorySize).map s.tage.historyRegister.bit =
      (List.range cfg.maxHistorySize).map s'.tage.historyRegister.bit := by
    apply List.map_congr_left
    intro i hi
    have hlt := List.mem_range.mp hi
    rw [h.tage.register.bit i (by omega), h'.tage.register.bit i (by omega)]
  rw [TageScL.observe, TageScL.observe, hbits, h.pathHistory, h'.pathHistory, h.tage.indices, h'.tage.indices,
    h.tage.tags0, h'.tage.tags0, h.tage.tags1, h'.tage.tags1, h.sc, h'.sc]

/-- The branches that are fetched. -/
def fetched (events : List Event) : List Update :=
  events.filterMap fun
    | .fetch u => some u
    | _ => none

/-- No branch is flushed. -/
def FlushFree (events : List Event) : Prop := ∀ id resolveDir, Event.flush id resolveDir ∉ events

/-- Some branches are fetched and retired one after the other, and then others are fetched. -/
def replay (retired live : List Update) : List Event :=
  (retired.mapIdx fun k u => [Event.fetch u, .retire k]).flatten ++ live.map .fetch

theorem fetched_replay (retired live : List Update) : fetched (replay retired live) = retired ++ live := by
  have hlive : fetched (live.map .fetch) = live := by
    induction live with
    | nil => rfl
    | cons u live ih => exact congrArg (u :: ·) ih
  have hretired : fetched (retired.mapIdx fun k u => [Event.fetch u, .retire k]).flatten = retired := by
    induction retired using List.reverseRecOn with
    | nil => rfl
    | append_singleton retired u ih =>
        rw [List.mapIdx_append, List.flatten_append, fetched, List.filterMap_append]
        exact congrArg₂ (· ++ ·) ih rfl
  rw [replay, fetched, List.filterMap_append]
  exact congrArg₂ (· ++ ·) hretired hlive

theorem flushFree_replay (retired live : List Update) : FlushFree (replay retired live) := by
  intro id resolveDir hmem
  simp only [replay, List.mem_append, List.mem_flatten, List.mem_mapIdx, List.mem_map] at hmem
  cases hmem with
  | inl hmem =>
      obtain ⟨events, ⟨k, hk, rfl⟩, hin⟩ := hmem
      simp at hin
  | inr hmem =>
      obtain ⟨u, _, heq⟩ := hmem
      cases heq

/-- Branches that fit one at a time can be fetched and retired. -/
theorem Machine.Sound.run_retired (h : m.Sound) (hwindow : m.window = ⟨[], 0⟩) (hsize : 0 < m.bufferSize)
    (retired : List Update) (hfits : ∀ u ∈ retired, u.numBits ≤ m.capacity) :
    ∃ m', m.run (replay retired []) = .ok m' ∧ m'.Sound ∧ m'.window = ⟨retired, retired.length⟩ ∧
      m'.capacity = m.capacity ∧ m'.bufferSize = m.bufferSize := by
  induction retired using List.reverseRecOn with
  | nil => exact ⟨m, rfl, h, hwindow, rfl, rfl⟩
  | append_singleton retired u ih =>
      obtain ⟨m₁, hrun, hsound, hw, hcap, hsize₁⟩ := ih fun v hv => hfits v (List.mem_append_left _ hv)
      have hu := hfits u (by simp)
      have hroom : m₁.HasRoom (.fetch u) := by
        simp only [Machine.HasRoom, hw, hcap, hsize₁, Window.inFlight, List.drop_length]
        exact ⟨by omega, by simpa [numBits] using hu⟩
      obtain ⟨m₂, hfetch, hsound₂, hw₂, hcap₂, hsize₂⟩ := hsound.step_ok hroom rfl
      have hretire : m₂.window.step (.retire retired.length) = .ok ⟨retired ++ [u], retired.length + 1⟩ := by
        rw [hw₂, hw]
        exact if_pos ⟨rfl, by simp⟩
      have hroom₂ : m₂.HasRoom (.retire retired.length) := trivial
      obtain ⟨m₃, hstep, hsound₃, hw₃, hcap₃, hsize₃⟩ := hsound₂.step_ok hroom₂ hretire
      refine ⟨m₃, ?_, hsound₃, by simp [hw₃], hcap₃.trans (hcap₂.trans hcap), hsize₃.trans (hsize₂.trans hsize₁)⟩
      have happ : replay (retired ++ [u]) [] = replay retired [] ++ [.fetch u, .retire retired.length] := by
        simp [replay, List.mapIdx_append]
      rw [happ]
      exact Execution.run_append_eq_ok.mpr ⟨m₁, hrun, Execution.run_cons_eq_ok.mpr ⟨m₂, hfetch,
        Execution.run_cons_eq_ok.mpr ⟨m₃, hstep, rfl⟩⟩⟩

/-- Branches that fit together can be fetched. -/
theorem Machine.Sound.run_live (h : m.Sound) (live : List Update)
    (hsize : m.window.path.length + live.length ≤ m.window.retired + m.bufferSize)
    (hfits : numBits m.window.inFlight + numBits live ≤ m.capacity) :
    ∃ m', m.run (live.map .fetch) = .ok m' ∧ m'.Sound ∧ m'.window.path = m.window.path ++ live := by
  induction live generalizing m with
  | nil => exact ⟨m, rfl, h, by simp⟩
  | cons u live ih =>
      have hcons : numBits (u :: live) = u.numBits + numBits live := rfl
      rw [List.length_cons] at hsize
      have hfront := h.front_le
      have hroom : m.HasRoom (.fetch u) := ⟨by omega, by omega⟩
      obtain ⟨m₁, hfetch, hsound, hw, hcap, hsize₁⟩ := h.step_ok hroom rfl
      have hflight : numBits m₁.window.inFlight = numBits m.window.inFlight + u.numBits := by
        rw [hw, Window.inFlight, List.drop_append_of_le_length hfront, numBits_append, numBits_singleton]
        rfl
      obtain ⟨m₂, hrun, hsound₂, hpath⟩ := ih hsound
        (by rw [hw, hsize₁]; simp only [List.length_append, List.length_singleton]; omega) (by omega)
      refine ⟨m₂, Execution.run_cons_eq_ok.mpr ⟨m₁, hfetch, hrun⟩, hsound₂, ?_⟩
      rw [hpath, hw, List.append_assoc]
      rfl

/-- After a flush the histories are those of every run whose surviving branches are the ones before
the flushed branch, and that branch in its resolved direction; and there is one that only ever
fetched these. -/
theorem flush_transparent {M : ℕ} {uninitialized : ℕ → PredictionInfo cfg} {events : List Event} {id : ℕ}
    {resolveDir : Bool} (hrun : (Machine.init M uninitialized).run events = .ok m) (hu : m.window.path[id]? = some u)
    (hflush : m.step (.flush id resolveDir) = .ok m') :
    (∀ ref r, (Machine.init M uninitialized).run ref = .ok r →
      r.window.path = m.window.path.take id ++ [⟨u.br, resolveDir⟩] → m'.predictor.observe = r.predictor.observe) ∧
    ∃ ref r, FlushFree ref ∧ fetched ref = m.window.path.take id ++ [⟨u.br, resolveDir⟩] ∧
      (Machine.init M uninitialized).run ref = .ok r ∧ m'.predictor.observe = r.predictor.observe := by
  have hinit := Machine.sound_init M uninitialized
  obtain ⟨hsound, hcap, hsize⟩ := Machine.run_sound hinit hrun
  obtain ⟨hsound', hw, hcap', hsize'⟩ := hsound.step hflush
  have hpath : m'.window.path = m.window.path.take id ++ [⟨u.br, resolveDir⟩] := by
    simp only [Window.step, hu] at hw
    obtain ⟨_, heq⟩ := Execution.ite_error_eq_ok.mp hw
    exact (congrArg Window.path (Except.ok.inj heq)).symm
  have hsame : ∀ ref r, (Machine.init M uninitialized).run ref = .ok r →
      r.window.path = m.window.path.take id ++ [⟨u.br, resolveDir⟩] →
      m'.predictor.observe = r.predictor.observe := by
    intro ref r href hr
    have hafter : r.predictor.After r.window.path r.window.retired := (Machine.run_sound hinit href).1
    rw [hr, ← hpath] at hafter
    exact TageScL.After.observe_eq hsound' hafter
  refine ⟨hsame, ?_⟩
  let retired := m'.window.path.take m'.window.retired
  let live := m'.window.path.drop m'.window.retired
  have hfront := hsound'.front_le
  have hlen : retired.length = m'.window.retired := List.length_take_of_le hfront
  obtain ⟨m₁, hrun₁, hsound₁, hw₁, hcap₁, hsize₁⟩ := hinit.run_retired rfl (Nat.two_pow_pos _) retired fun v hv => by
    rw [← hcap, ← hcap']
    exact hsound'.fits v (List.mem_of_mem_take hv)
  have hroom : m'.predictor.tage.speculative ≤ m'.capacity := hsound'.tage.register.room
  obtain ⟨r, hrun₂, hsound₂, hpath₂⟩ := hsound₁.run_live live
    (by
      have hle := hsound'.size_le
      have hbuf : m'.predictor.predictionInfoBuffer.bufferSize = m₁.bufferSize := (hsize'.trans hsize).trans hsize₁.symm
      rw [hw₁]
      simp only [live, List.length_drop, hlen]
      omega)
    (by
      rw [hw₁, hcap₁, ← hcap, ← hcap']
      simp only [Window.inFlight, List.drop_length]
      have hspec : m'.predictor.tage.speculative = numBits live := hsound'.speculative
      rw [show numBits ([] : List Update) = 0 from rfl, Nat.zero_add]
      omega)
  have hsplit : retired ++ live = m.window.path.take id ++ [⟨u.br, resolveDir⟩] := by
    rw [← hpath]
    exact List.take_append_drop ..
  have href : (Machine.init M uninitialized).run (replay retired live) = .ok r := by
    have happ : replay retired live = replay retired [] ++ live.map .fetch := by simp [replay]
    rw [happ]
    exact Execution.run_append_eq_ok.mpr ⟨m₁, hrun₁, hrun₂⟩
  refine ⟨replay retired live, r, flushFree_replay retired live, (fetched_replay retired live).trans hsplit, href,
    hsame _ r href ?_⟩
  rw [hpath₂, hw₁]
  exact hsplit

/-- What the buffer holds before it is written. -/
def blank (cfg : Config) : PredictionInfo cfg :=
  ⟨⟨0, 0, 0⟩, (ScHistories.init cfg).snapshot 0, 0⟩

/-- Two rounds of a loop are predicted, and the first one turns out to be the last. -/
theorem flush_transparent_loop : ∃ m m' : Machine config64KB,
    (Machine.init 2 fun _ => blank _).run
      [.fetch ⟨⟨80, 64, ⟨true, false⟩⟩, true⟩, .fetch ⟨⟨80, 64, ⟨true, false⟩⟩, true⟩, .commit 0] = .ok m ∧
    m.step (.flush 0 false) = .ok m' ∧
    ∃ ref r, FlushFree ref ∧ fetched ref = [⟨⟨80, 64, ⟨true, false⟩⟩, false⟩] ∧
      (Machine.init 2 fun _ => blank _).run ref = .ok r ∧ m'.predictor.observe = r.predictor.observe := by
  have hobs : (fun m : Machine config64KB => m.window.path) <$> (Machine.init 2 fun _ => blank _).run
      [.fetch ⟨⟨80, 64, ⟨true, false⟩⟩, true⟩, .fetch ⟨⟨80, 64, ⟨true, false⟩⟩, true⟩, .commit 0] =
      .ok [⟨⟨80, 64, ⟨true, false⟩⟩, true⟩, ⟨⟨80, 64, ⟨true, false⟩⟩, true⟩] := by
    decide +kernel
  obtain ⟨m, hrun, hpath⟩ := Execution.map_eq_ok.mp hobs
  have hu : m.window.path[0]? = some ⟨⟨80, 64, ⟨true, false⟩⟩, true⟩ := by
    rw [hpath]
    rfl
  have hflush : (fun m' : Machine config64KB => m'.window.path) <$>
      ((Machine.init 2 fun _ => blank _).run
        [.fetch ⟨⟨80, 64, ⟨true, false⟩⟩, true⟩, .fetch ⟨⟨80, 64, ⟨true, false⟩⟩, true⟩, .commit 0] >>=
          fun m => m.step (.flush 0 false)) = .ok [⟨⟨80, 64, ⟨true, false⟩⟩, false⟩] := by
    decide +kernel
  obtain ⟨m', hstep, _⟩ := Execution.map_eq_ok.mp hflush
  rw [hrun] at hstep
  have href := (flush_transparent hrun hu hstep).2
  rw [hpath] at href
  exact ⟨m, m', hrun, hstep, href⟩

end Scarab.Bp.Tagescl

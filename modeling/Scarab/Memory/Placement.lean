import Scarab.Lib.Places
import Scarab.Memory.Steps

/-! # Where the requests are

A request buffer is on the free list, in an entry of a queue that is not to be removed, or in
Ramulator. A step loses track of one only when it hands it over at `CONSTANT_MEMORY_LATENCY`, sorts the
queue that it loops over, or puts a request that it freed into the L1 queue. -/

namespace Scarab.Memory

variable {cfg : Config} {env : Env} {base s t : State} {id ii next removed : ℕ} {k : QueueId} {req : MemReq}
  {priority : Priority} {overtakes : Prop} {done : Bool}

/-! ## Places -/

/-- A place for request buffers. -/
inductive Place where
  | free
  | ramulator
  | queue (k : QueueId)
  deriving DecidableEq

/-- An entry that is not to be removed. -/
def QueueEntry.isKept (entry : QueueEntry) : Bool := entry.priority.type < 15

/-- The requests of the entries that are not to be removed. -/
def State.keptIds (s : State) (k : QueueId) : List ℕ := ((s.queue k).filter QueueEntry.isKept).map QueueEntry.reqbuf

/-- The request buffers in a place. -/
def State.held (s : State) : Place → List ℕ
  | .free => s.reqBufferFreeList
  | .ramulator => s.ramulatorIds
  | .queue k => s.keptIds k

/-- The place that the state of a request says. A writeback that is lost is nowhere. -/
def MemReq.place (req : MemReq) (free : Option Place) : Option Place :=
  match req.state with
  | .inv => free
  | .memNew => some .ramulator
  | .busNew => none
  | _ => req.queue.map .queue

/-- The place of a request buffer. -/
def State.place (cfg : Config) (s : State) (id : ℕ) : Option Place :=
  (s.reqBuffer id).place (if id < cfg.totalMemReqBuffers then some .free else none)

/-- The queue of a loop. -/
def State.passQueue (s : State) : Option QueueId := s.pass.map Pass.queue

theorem State.passQueue_of_pass {pass : Pass} (h : s.pass = some pass) : s.passQueue = some pass.queue := by
  rw [State.passQueue, h, Option.map_some]

theorem State.passQueue_ne_of_none (h : s.pass = none) (k : QueueId) : s.passQueue ≠ some k := by
  rw [State.passQueue, h]
  simp

/-! ## The invariant -/

/-- The queues in which a request can be in a state. -/
def MemReq.Waits (req : MemReq) : Prop :=
  match req.state with
  | .inv | .busNew => True
  | .mlcNew | .mlcWait => req.queue = some .mlc
  | .l1New | .l1Wait => req.queue = some .l1
  | .memNew => req.type.isWb = false
  | .fillL1 => req.queue = some .l1fill ∧ req.type.isWb = false
  | .fillMlc => (req.queue = some .l1fill ∨ req.queue = some .mlcFill) ∧ req.type.isWb = false
  | .fillDone => (req.queue = some .l1fill ∨ req.queue = some .mlcFill ∨ req.queue = some (.coreFill req.procId)) ∧
      req.type.isWb = false
  | .l1HitDone => req.queue = some (.coreFill req.procId)
  | .mlcHitDone => False

/-- What holds of a request in use. -/
structure MemReq.Sound (req : MemReq) : Prop where
  waits : req.Waits
  low : req.state ≠ .inv → req.priority.type < 15

/-- The entries to remove are of the queue of the loop, as many as it counted, and behind it. -/
structure State.Marks (s : State) (next removed : ℕ) : Prop where
  kept : ∀ k, s.passQueue ≠ some k → ∀ entry ∈ s.queue k, entry.isKept = true
  removed : ∀ k, s.passQueue = some k → ((s.queue k).countP fun entry => !entry.isKept) = removed
  ahead : ∀ k, s.passQueue = some k → ∀ entry ∈ (s.queue k).drop next, entry.isKept = true

/-- The requests of the fill queue of the L1 are reads in use, also those of entries to remove. -/
def State.Fills (s : State) : Prop :=
  ∀ entry ∈ s.queue .l1fill, (s.reqBuffer entry.reqbuf).state ≠ .inv ∧ (s.reqBuffer entry.reqbuf).type.isWb = false

structure State.Tracked (cfg : Config) (s : State) (next removed : ℕ) : Prop where
  places : Places s.held (s.place cfg)
  sound : ∀ id, (s.reqBuffer id).Sound
  bound : ∀ id, (s.reqBuffer id).state ≠ .inv → id < cfg.totalMemReqBuffers
  marks : s.Marks next removed

/-! ## The basic operations -/

theorem State.setReq_sound (h : ∀ id, (s.reqBuffer id).Sound) (hreq : req.Sound) (id' : ℕ) :
    ((s.setReq id req).reqBuffer id').Sound := by
  by_cases hid : id' = id
  · rw [hid, State.setReq_self]
    exact hreq
  · rw [State.setReq_other hid]
    exact h id'

theorem State.setReq_bound {n : ℕ} (h : ∀ id, (s.reqBuffer id).state ≠ .inv → id < n) (hreq : req.state ≠ .inv → id < n)
    (id' : ℕ) : ((s.setReq id req).reqBuffer id').state ≠ .inv → id' < n := by
  by_cases hid : id' = id
  · rw [hid, State.setReq_self]
    exact hreq
  · rw [State.setReq_other hid]
    exact h id'

theorem State.setReq_place : (s.setReq id req).place cfg id =
    req.place (if id < cfg.totalMemReqBuffers then some .free else none) := by
  rw [State.place]
  rw [State.setReq_self]

theorem State.place_eq (h : t.reqBuffer id = s.reqBuffer id) : t.place cfg id = s.place cfg id := by
  unfold State.place
  rw [h]

theorem State.Marks.congr (h : s.Marks next removed) (hqueue : t.queue = s.queue) (hpass : t.passQueue = s.passQueue) :
    t.Marks next removed := by
  refine ⟨fun k hk => ?_, fun k hk => ?_, fun k hk => ?_⟩
  · rw [hqueue]
    exact h.kept k (hpass ▸ hk)
  · rw [hqueue]
    exact h.removed k (hpass ▸ hk)
  · rw [hqueue]
    exact h.ahead k (hpass ▸ hk)

theorem State.Fills.congr (h : s.Fills) (hqueue : t.queue = s.queue) (hreq : t.reqBuffer = s.reqBuffer) : t.Fills := by
  rw [State.Fills]
  rw [hqueue, hreq]
  exact h

/-- The requests, the queues and the lists stay as they are. -/
theorem State.Tracked.congr (h : s.Tracked cfg next removed) (hreq : t.reqBuffer = s.reqBuffer)
    (hqueue : t.queue = s.queue) (hfree : t.reqBufferFreeList.Perm s.reqBufferFreeList)
    (hram : t.ramulatorIds.Perm s.ramulatorIds) (hpass : t.passQueue = s.passQueue) : t.Tracked cfg next removed := by
  refine ⟨h.places.of_perm (fun p => ?_) fun id => State.place_eq (congrFun hreq id), fun id => ?_, fun id => ?_,
    h.marks.congr hqueue hpass⟩
  · cases p with
    | free => exact hfree
    | ramulator => exact hram
    | queue k =>
        unfold State.held State.keptIds
        rw [hqueue]
  · rw [hreq]
    exact h.sound id
  · rw [hreq]
    exact h.bound id

/-- A request changes and stays where it is. -/
theorem State.Tracked.setReq (h : s.Tracked cfg next removed) (hplace : (s.setReq id req).place cfg id = s.place cfg id)
    (hreq : req.Sound) (hlive : req.state ≠ .inv → (s.reqBuffer id).state ≠ .inv) :
    (s.setReq id req).Tracked cfg next removed := by
  refine ⟨h.places.of_perm (fun p => ?_) fun id' => ?_, State.setReq_sound h.sound hreq,
    State.setReq_bound h.bound fun hreq => h.bound id (hlive hreq), h.marks.congr rfl rfl⟩
  · cases p with
    | free => exact .refl _
    | ramulator => exact .refl _
    | queue k => exact .refl _
  · by_cases hid : id' = id
    · rw [hid]
      exact hplace
    · exact State.place_eq (State.setReq_other hid)

theorem State.Fills.setReq (h : s.Fills) (hreq : (s.reqBuffer id).state ≠ .inv ∧ (s.reqBuffer id).type.isWb = false →
    req.state ≠ .inv ∧ req.type.isWb = false) : (s.setReq id req).Fills := by
  intro entry hentry
  have hold := h entry hentry
  by_cases hid : entry.reqbuf = id
  · rw [hid, State.setReq_self]
    rw [hid] at hold
    exact hreq hold
  · rw [State.setReq_other hid]
    exact hold

/-! ## Entries -/

theorem State.EntryAt.exists_entry (h : s.EntryAt k ii id) : ∃ entry, (s.queue k)[ii]? = some entry ∧ entry.reqbuf = id := by
  rw [State.EntryAt] at h
  rwa [Option.map_eq_some_iff] at h

theorem State.mem_keptIds : id ∈ s.keptIds k ↔ ∃ entry ∈ s.queue k, entry.isKept = true ∧ entry.reqbuf = id := by
  rw [State.keptIds]
  simp only [List.mem_map, List.mem_filter, and_assoc]

theorem State.insertEntry_queue (s : State) (k : QueueId) (id : ℕ) (priority : Priority) (k' : QueueId) :
    (s.insertEntry k id priority).queue k' = if k' = k then s.queue k ++ [⟨id, priority⟩] else s.queue k' := rfl

theorem State.insertEntry_passQueue : (s.insertEntry k id priority).passQueue = s.passQueue :=
  State.insertEntry_pass_map (fun _ _ => rfl) s k id priority

theorem State.insertEntry_keptIds (hpriority : priority.type < 15) (k' : QueueId) :
    (s.insertEntry k id priority).keptIds k' = if k' = k then s.keptIds k ++ [id] else s.keptIds k' := by
  unfold State.keptIds
  rw [State.insertEntry_queue]
  by_cases hk : k' = k
  · rw [if_pos hk, if_pos hk, List.filter_append, List.map_append]
    simp [QueueEntry.isKept, hpriority]
  · rw [if_neg hk, if_neg hk]

theorem State.Marks.insertEntry (h : s.Marks next removed) (hpriority : priority.type < 15) :
    (s.insertEntry k id priority).Marks next removed := by
  have hkept : QueueEntry.isKept ⟨id, priority⟩ = true := by simpa [QueueEntry.isKept] using hpriority
  refine ⟨fun k' hk' entry hentry => ?_, fun k' hk' => ?_, fun k' hk' entry hentry => ?_⟩
  · rw [State.insertEntry_passQueue] at hk'
    rw [State.insertEntry_queue] at hentry
    by_cases hk : k' = k
    · subst hk
      rw [if_pos rfl, List.mem_append, List.mem_singleton] at hentry
      cases hentry with
      | inl hold => exact h.kept k' hk' entry hold
      | inr hnew => rwa [hnew]
    · rw [if_neg hk] at hentry
      exact h.kept k' hk' entry hentry
  · rw [State.insertEntry_passQueue] at hk'
    rw [State.insertEntry_queue]
    by_cases hk : k' = k
    · subst hk
      rw [if_pos rfl, List.countP_append, h.removed k' hk']
      simp [hkept]
    · rw [if_neg hk, h.removed k' hk']
  · rw [State.insertEntry_passQueue] at hk'
    rw [State.insertEntry_queue] at hentry
    by_cases hk : k' = k
    · subst hk
      rw [if_pos rfl, List.drop_append, List.mem_append] at hentry
      cases hentry with
      | inl hold => exact h.ahead k' hk' entry hold
      | inr hnew =>
          rw [List.mem_singleton.mp (List.mem_of_mem_drop hnew)]
          exact hkept
    · rw [if_neg hk] at hentry
      exact h.ahead k' hk' entry hentry

theorem State.Fills.insertEntry (h : s.Fills)
    (hreq : k = .l1fill → (s.reqBuffer id).state ≠ .inv ∧ (s.reqBuffer id).type.isWb = false) :
    (s.insertEntry k id priority).Fills := by
  intro entry hentry
  rw [State.insertEntry_queue] at hentry
  by_cases hk : QueueId.l1fill = k
  · subst hk
    rw [if_pos rfl, List.mem_append, List.mem_singleton] at hentry
    cases hentry with
    | inl hold => exact h entry hold
    | inr hnew =>
        subst hnew
        exact hreq rfl
  · rw [if_neg hk] at hentry
    exact h entry hentry

/-! ## Marked entries -/

theorem State.markEntry_queue (s : State) (k : QueueId) (ii : ℕ) (k' : QueueId) : (s.markEntry k ii).queue k' =
    if k' = k then (s.queue k).modify ii fun entry => { entry with priority := .min } else s.queue k' := rfl

/-- The entry that is marked, between the others. -/
theorem State.markEntry_split (h : s.EntryAt k ii id) : ∃ before after priority,
    before.length = ii ∧ s.queue k = before ++ ⟨id, priority⟩ :: after ∧
      (s.markEntry k ii).queue k = before ++ ⟨id, .min⟩ :: after := by
  obtain ⟨entry, hentry, rfl⟩ := h.exists_entry
  obtain ⟨hlt, heq⟩ := List.getElem?_eq_some_iff.mp hentry
  obtain ⟨before, entry', after, hold, hlength, hnew⟩ :=
    List.exists_of_modify (fun entry : QueueEntry => { entry with priority := .min }) hlt
  have hsame : entry' = entry := by
    simp only [hold, ← hlength, List.getElem_append_right (Nat.le_refl _), Nat.sub_self, List.getElem_cons_zero] at heq
    exact heq
  subst hsame
  rw [State.markEntry_queue, if_pos rfl]
  exact ⟨before, after, entry'.priority, hlength, hold, hnew⟩

theorem State.markEntry_keptIds (h : s.EntryAt k ii id) (hkept : ∀ entry ∈ (s.queue k).drop ii, entry.isKept = true) :
    (s.keptIds k).Perm (id :: (s.markEntry k ii).keptIds k) := by
  obtain ⟨before, after, priority, hlength, hold, hnew⟩ := State.markEntry_split h
  have hentry : QueueEntry.isKept ⟨id, priority⟩ = true := by
    refine hkept _ ?_
    rw [hold, ← hlength, List.drop_left]
    exact List.mem_cons_self
  unfold State.keptIds
  rw [hold, hnew, List.filter_append, List.filter_append, List.filter_cons_of_pos hentry,
    List.filter_cons_of_neg (by simp [QueueEntry.isKept, Priority.min]), List.map_append, List.map_cons, List.map_append]
  exact List.perm_middle

theorem State.markEntry_keptIds_other {k' : QueueId} (h : k' ≠ k) : (s.markEntry k ii).keptIds k' = s.keptIds k' := by
  unfold State.keptIds
  rw [State.markEntry_queue, if_neg h]

theorem State.Marks.markEntry (h : s.Marks ii removed) (hk : s.passQueue = some k) (hentry : s.EntryAt k ii id) :
    (s.markEntry k ii).Marks (ii + 1) (removed + 1) := by
  obtain ⟨before, after, priority, hlength, hold, hnew⟩ := State.markEntry_split hentry
  have hcount := h.removed k hk
  have hahead := h.ahead k hk
  rw [hold] at hcount hahead
  rw [← hlength, List.drop_left] at hahead
  refine ⟨fun k' hk' entry hmem => ?_, fun k' hk' => ?_, fun k' hk' entry hmem => ?_⟩
  · have hne : k' ≠ k := by
      rintro rfl
      exact hk' hk
    rw [State.markEntry_queue, if_neg hne] at hmem
    exact h.kept k' hk' entry hmem
  · obtain rfl : k = k' := Option.some.inj (hk.symm.trans hk')
    have hkept := hahead _ List.mem_cons_self
    rw [hnew, List.countP_append, List.countP_cons_of_pos (by simp [QueueEntry.isKept, Priority.min])]
    rw [List.countP_append, List.countP_cons_of_neg (by simp [hkept])] at hcount
    omega
  · obtain rfl : k = k' := Option.some.inj (hk.symm.trans hk')
    rw [hnew, ← hlength, ← List.drop_drop, List.drop_left] at hmem
    exact hahead entry (List.mem_cons_of_mem _ hmem)

theorem State.Fills.markEntry (h : s.Fills) : (s.markEntry k ii).Fills := by
  intro entry hentry
  rw [State.markEntry_queue] at hentry
  by_cases hk : QueueId.l1fill = k
  · subst hk
    rw [if_pos rfl] at hentry
    obtain ⟨n, hn, hget⟩ := List.mem_iff_getElem.mp hentry
    have hn' : n < (s.queue .l1fill).length := by simpa using hn
    have hold := h _ (List.getElem_mem hn')
    rw [List.getElem_modify] at hget
    subst hget
    split
    · exact hold
    · exact hold
  · rw [if_neg hk] at hentry
    exact h entry hentry

/-! ## Sorting and cutting -/

theorem Priority.le_trans {a b c : Priority} (hab : a.le b = true) (hbc : b.le c = true) : a.le c = true := by
  simp only [Priority.le, Priority.lt, Bool.not_eq_true', Bool.or_eq_false_iff, Bool.and_eq_false_iff, decide_eq_false_iff_not,
    beq_eq_false_iff_ne] at *
  omega

theorem Priority.le_total (a b : Priority) : (a.le b || b.le a) = true := by
  simp only [Priority.le, Priority.lt, Bool.or_eq_true, Bool.not_eq_true', Bool.or_eq_false_iff, Bool.and_eq_false_iff,
    decide_eq_false_iff_not, beq_eq_false_iff_ne]
  omega

theorem sortEntries_perm (entries : List QueueEntry) : (sortEntries entries).Perm entries := List.mergeSort_perm _ _

/-- The entries to remove come last. -/
theorem sortEntries_kept (entries : List QueueEntry) :
    (sortEntries entries).Pairwise fun a b => b.isKept = true → a.isKept = true := by
  have hsorted : (sortEntries entries).Pairwise fun a b => a.priority.le b.priority :=
    @List.pairwise_mergeSort _ (fun a b : QueueEntry => a.priority.le b.priority) (fun _ _ _ => Priority.le_trans)
      (fun a b => Priority.le_total a.priority b.priority) entries
  refine hsorted.imp fun {a b} hle hb => ?_
  simp only [Priority.le, Priority.lt, Bool.not_eq_true', Bool.or_eq_false_iff, decide_eq_false_iff_not] at hle
  simp only [QueueEntry.isKept, decide_eq_true_eq] at *
  omega

theorem State.setQueue_queue (s : State) (k : QueueId) (entries : List QueueEntry) (k' : QueueId) :
    (s.setQueue k entries).queue k' = if k' = k then entries else s.queue k' := rfl

/-- Another queue than that of the loop is ordered anew, and priorities change. -/
theorem State.Tracked.setQueue {entries : List QueueEntry} (h : s.Tracked cfg next removed) (hpass : s.passQueue ≠ some k)
    (hkept : ∀ entry ∈ entries, entry.isKept = true)
    (hids : (entries.map QueueEntry.reqbuf).Perm ((s.queue k).map QueueEntry.reqbuf)) :
    (s.setQueue k entries).Tracked cfg next removed := by
  refine ⟨h.places.of_perm (fun p => ?_) fun _ => rfl, h.sound, h.bound, ⟨fun k' hk' entry hentry => ?_, fun k' hk' => ?_,
    fun k' hk' entry hentry => ?_⟩⟩
  · cases p with
    | free => exact .refl _
    | ramulator => exact .refl _
    | queue k' =>
        change ((s.setQueue k entries).keptIds k').Perm (s.keptIds k')
        unfold State.keptIds
        by_cases hk : k' = k
        · subst hk
          rw [State.setQueue_queue, if_pos rfl, List.filter_eq_self.mpr hkept, List.filter_eq_self.mpr (h.marks.kept k' hpass)]
          exact hids
        · rw [State.setQueue_queue, if_neg hk]
  · rw [State.setQueue_queue] at hentry
    by_cases hk : k' = k
    · rw [if_pos hk] at hentry
      exact hkept entry hentry
    · rw [if_neg hk] at hentry
      exact h.marks.kept k' hk' entry hentry
  · have hk : k' ≠ k := by
      rintro rfl
      exact hpass hk'
    rw [State.setQueue_queue, if_neg hk]
    exact h.marks.removed k' hk'
  · have hk : k' ≠ k := by
      rintro rfl
      exact hpass hk'
    rw [State.setQueue_queue, if_neg hk] at hentry
    exact h.marks.ahead k' hk' entry hentry

theorem State.Fills.setQueue {entries : List QueueEntry} (h : s.Fills)
    (hids : (entries.map QueueEntry.reqbuf).Perm ((s.queue k).map QueueEntry.reqbuf)) : (s.setQueue k entries).Fills := by
  intro entry hentry
  rw [State.setQueue_queue] at hentry
  by_cases hk : QueueId.l1fill = k
  · subst hk
    rw [if_pos rfl] at hentry
    obtain ⟨entry', hmem, heq⟩ := List.mem_map.mp (hids.mem_iff.mp (List.mem_map_of_mem hentry))
    rw [← heq]
    exact h entry' hmem
  · rw [if_neg hk] at hentry
    exact h entry hentry

theorem sortEntries_ids (entries : List QueueEntry) :
    ((sortEntries entries).map QueueEntry.reqbuf).Perm (entries.map QueueEntry.reqbuf) := (sortEntries_perm entries).map _

theorem State.Tracked.sortQueue (h : s.Tracked cfg next removed) (hpass : s.passQueue ≠ some k) :
    (s.sortQueue k).Tracked cfg next removed :=
  h.setQueue hpass (fun entry hentry => h.marks.kept k hpass entry ((sortEntries_perm _).mem_iff.mp hentry)) (sortEntries_ids _)

/-- What is left of the queue of the loop when the counted entries are cut off. -/
theorem State.cutQueue_queue (hremoved : ((s.queue k).countP fun entry => !entry.isKept) = removed) :
    (s.cutQueue k removed).queue k = (sortEntries (s.queue k)).filter QueueEntry.isKept := by
  have hcount := (sortEntries_perm (s.queue k)).countP_eq fun entry => !entry.isKept
  rw [State.cutQueue]
  rw [State.setQueue_queue, if_pos rfl, ← (sortEntries_perm (s.queue k)).length_eq, ← hremoved, ← hcount,
    take_eq_filter (sortEntries_kept _)]

/-- The entries that are cut off are those that were to be removed. -/
theorem State.Tracked.cutQueue (h : s.Tracked cfg next removed) (hk : s.passQueue = some k) (next' : ℕ) :
    (s.cutQueue k removed).Tracked cfg next' 0 ∧ ∀ k', ∀ entry ∈ (s.cutQueue k removed).queue k', entry.isKept = true := by
  have hqueue := State.cutQueue_queue (h.marks.removed k hk)
  have hall (k' : QueueId) (entry : QueueEntry) (hentry : entry ∈ (s.cutQueue k removed).queue k') : entry.isKept = true := by
    by_cases hkk : k' = k
    · subst hkk
      rw [hqueue] at hentry
      exact (List.mem_filter.mp hentry).2
    · have hsame : (s.cutQueue k removed).queue k' = s.queue k' := if_neg hkk
      rw [hsame] at hentry
      refine h.marks.kept k' ?_ entry hentry
      rw [hk]
      exact fun heq => hkk (Option.some.inj heq).symm
  refine ⟨⟨h.places.of_perm (fun p => ?_) fun _ => rfl, h.sound, h.bound, ⟨fun k' _ => hall k', fun k' _ => ?_,
    fun k' _ entry hentry => hall k' entry (List.mem_of_mem_drop hentry)⟩⟩, hall⟩
  · cases p with
    | free => exact .refl _
    | ramulator => exact .refl _
    | queue k' =>
        change ((s.cutQueue k removed).keptIds k').Perm (s.keptIds k')
        unfold State.keptIds
        by_cases hkk : k' = k
        · subst hkk
          rw [hqueue, List.filter_filter]
          simp only [Bool.and_self]
          exact ((sortEntries_perm _).filter _).map _
        · have hsame : (s.cutQueue k removed).queue k' = s.queue k' := if_neg hkk
          rw [hsame]
  · rw [List.countP_eq_zero]
    intro entry hentry
    simp [hall k' entry hentry]

/-- Where all entries of the fill queue of the L1 are kept, its requests are reads in use. -/
theorem State.Tracked.fills (h : s.Tracked cfg next removed) (hall : ∀ entry ∈ s.queue .l1fill, entry.isKept = true) :
    s.Fills := by
  intro entry hentry
  have hplace : s.place cfg entry.reqbuf = some (.queue .l1fill) :=
    (h.places.mem _ _).mp (State.mem_keptIds.mpr ⟨entry, hentry, hall entry hentry, rfl⟩)
  have hwaits := (h.sound entry.reqbuf).waits
  rw [State.place, MemReq.place] at hplace
  rw [MemReq.Waits] at hwaits
  cases hstate : (s.reqBuffer entry.reqbuf).state <;> simp [hstate] at hplace hwaits ⊢ <;> grind

/-! ## Quiet moves -/

theorem MemReq.Sound.of_inv (h : req.state = .inv) : req.Sound := by
  refine ⟨?_, fun hlive => (hlive h).elim⟩
  rw [MemReq.Waits]
  rw [h]
  trivial

section

variable {loop : Prop} {req' : MemReq}

theorem MemReq.Follows.place_eq (h : req.Follows cfg loop req') (free : Option Place) : req'.place free = req.place free := by
  have hqueue := h.queue
  unfold MemReq.place
  rcases h.state with hsame | ⟨hmlc, hwait⟩ | ⟨hl1, hwait⟩
  · rw [hsame, hqueue]
  · rw [hmlc, hwait, hqueue]
  · rw [hl1, hwait, hqueue]

/-- A read stays one. -/
theorem MemReq.Follows.read (h : req.Follows cfg loop req') (hread : req.type.isWb = false) : req'.type.isWb = false := by
  refine Bool.eq_false_iff.mpr fun hwb => ?_
  rw [h.isWb hwb] at hread
  cases hread

theorem MemReq.Follows.sound (h : req.Follows cfg loop req') (hreq : req.Sound) : req'.Sound := by
  have hwaits := hreq.waits
  refine ⟨?_, fun hlive => ?_⟩
  · rw [MemReq.Waits] at hwaits ⊢
    rcases h.state with hsame | ⟨hmlc, hwait⟩ | ⟨hl1, hwait⟩
    · rw [hsame, h.queue, h.procId]
      cases hstate : req.state with
      | memNew =>
          rw [hstate] at hwaits
          exact h.read hwaits
      | fillL1 =>
          rw [hstate] at hwaits
          exact ⟨hwaits.1, h.read hwaits.2⟩
      | fillMlc =>
          rw [hstate] at hwaits
          exact ⟨hwaits.1, h.read hwaits.2⟩
      | fillDone =>
          rw [hstate] at hwaits
          exact ⟨hwaits.1, h.read hwaits.2⟩
      | _ =>
          rw [hstate] at hwaits
          exact hwaits
    · rw [hmlc] at hwaits
      rw [hwait, h.queue]
      exact hwaits
    · rw [hl1] at hwaits
      rw [hwait, h.queue]
      exact hwaits
  · cases h.priority with
    | inl hsame =>
        rw [hsame]
        refine hreq.low fun hinv => hlive ?_
        have := h.state
        grind
    | inr hlow => exact hlow

/-- Requests in use are followed, and others stay out of use. -/
theorem State.Tracked.of_follows (h : s.Tracked cfg next removed)
    (hfollows : ∀ id, (s.reqBuffer id).state ≠ .inv → (s.reqBuffer id).Follows cfg loop (t.reqBuffer id))
    (hinv : ∀ id, (s.reqBuffer id).state = .inv → (t.reqBuffer id).state = .inv) (hqueue : t.queue = s.queue)
    (hfree : t.reqBufferFreeList = s.reqBufferFreeList) (hram : t.ramulatorIds = s.ramulatorIds)
    (hpass : t.passQueue = s.passQueue) : t.Tracked cfg next removed := by
  refine ⟨h.places.of_perm (fun p => ?_) fun id => ?_, fun id => ?_, fun id hlive => ?_, h.marks.congr hqueue hpass⟩
  · cases p with
    | free => exact .of_eq hfree
    | ramulator => exact .of_eq hram
    | queue k =>
        unfold State.held State.keptIds
        rw [hqueue]
  · unfold State.place
    by_cases hlive : (s.reqBuffer id).state = .inv
    · unfold MemReq.place
      rw [hlive, hinv id hlive]
    · exact (hfollows id hlive).place_eq _
  · by_cases hlive : (s.reqBuffer id).state = .inv
    · exact .of_inv (hinv id hlive)
    · exact (hfollows id hlive).sound (h.sound id)
  · exact h.bound id fun hold => hlive (hinv id hold)

theorem State.Fills.of_follows (h : s.Fills)
    (hfollows : ∀ id, (s.reqBuffer id).state ≠ .inv → (s.reqBuffer id).Follows cfg loop (t.reqBuffer id))
    (hqueue : t.queue = s.queue) : t.Fills := by
  intro entry hentry
  rw [hqueue] at hentry
  obtain ⟨hlive, hread⟩ := h entry hentry
  have hreq := hfollows _ hlive
  exact ⟨hreq.live hlive, hreq.read hread⟩

end

theorem State.setReq_inv (h : (s.reqBuffer id).state = .inv → req.state = .inv) (id' : ℕ)
    (hinv : (s.reqBuffer id').state = .inv) : ((s.setReq id req).reqBuffer id').state = .inv := by
  by_cases hid : id' = id
  · rw [hid, State.setReq_self]
    exact h (hid ▸ hinv)
  · rw [State.setReq_other hid]
    exact hinv

/-- A request of Ramulator is in use. -/
theorem State.Tracked.memNew (h : s.Tracked cfg next removed) (hid : id ∈ s.ramulatorIds) :
    (s.reqBuffer id).state = .memNew := by
  have hplace : s.place cfg id = some .ramulator := (h.places.mem .ramulator id).mp hid
  rw [State.place, MemReq.place] at hplace
  cases hstate : (s.reqBuffer id).state <;> simp [hstate] at hplace ⊢

theorem State.Tracked.free_lt (h : s.Tracked cfg next removed) (hid : id ∈ s.reqBufferFreeList) :
    id < cfg.totalMemReqBuffers := by
  have hplace : s.place cfg id = some .free := (h.places.mem .free id).mp hid
  by_cases hlive : (s.reqBuffer id).state = .inv
  · rw [State.place, MemReq.place] at hplace
    rw [hlive] at hplace
    by_contra hge
    simp [hge] at hplace
  · exact h.bound id hlive

/-- A request of an entry that is kept is in the queue that its state says. -/
theorem State.Tracked.queue_eq (h : s.Tracked cfg next removed) (hid : id ∈ s.keptIds k) :
    (s.reqBuffer id).queue = some k ∧ (s.reqBuffer id).state ≠ .inv := by
  have hplace : s.place cfg id = some (.queue k) := (h.places.mem (.queue k) id).mp hid
  rw [State.place, MemReq.place] at hplace
  cases hstate : (s.reqBuffer id).state <;> simp [hstate] at hplace ⊢ <;> assumption

theorem modify_priority_ids (entries : List QueueEntry) (ii : ℕ) (priority : Priority) :
    (entries.modify ii fun entry => { entry with priority }).map QueueEntry.reqbuf = entries.map QueueEntry.reqbuf := by
  refine List.ext_getElem (by simp) fun n hn hn' => ?_
  rw [List.getElem_map, List.getElem_map, List.getElem_modify]
  split
  · rfl
  · rfl

theorem modify_priority_kept {entries : List QueueEntry} (hlow : priority.type < 15)
    (h : ∀ entry ∈ entries, entry.isKept = true) :
    ∀ entry ∈ entries.modify ii fun entry => { entry with priority }, entry.isKept = true := by
  intro entry hentry
  obtain ⟨n, hn, hget⟩ := List.mem_iff_getElem.mp hentry
  rw [List.getElem_modify] at hget
  subst hget
  split
  · simpa [QueueEntry.isKept] using hlow
  · exact h _ (List.getElem_mem _)

/-- In a loop, only other queues than that of the loop are sorted. -/
theorem State.Reranks.elsewhere {sorted : QueueId} (h : s.Tracked cfg next removed) (hfills : s.Fills) (hno : ¬ overtakes)
    (hentry : s.EntryAt k ii id) (hqueue : (s.reqBuffer id).queue = some sorted) (hpass : s.Reranks overtakes k id) :
    s.passQueue ≠ some k ∧ s.passQueue ≠ some sorted := by
  obtain ⟨entry, hget, hid⟩ := hentry.exists_entry
  have hmem : entry ∈ s.queue k := List.mem_of_getElem? hget
  rcases hpass with hnone | ⟨hwb, rfl | ⟨rfl, hother | hyes⟩⟩
  · exact ⟨State.passQueue_ne_of_none hnone k, State.passQueue_ne_of_none hnone sorted⟩
  · -- no writeback is in the fill queue of the L1
    have hread := (hfills entry hmem).2
    rw [hid, hwb] at hread
    cases hread
  · have hpass : s.passQueue ≠ some .l1 := by
      rw [State.passQueue]
      rw [Ne, Option.map_eq_some_iff]
      rintro ⟨pass, hpass, hl1⟩
      exact hother pass hpass hl1
    have hkept : id ∈ s.keptIds .l1 := State.mem_keptIds.mpr ⟨entry, hmem, h.marks.kept .l1 hpass entry hmem, hid⟩
    obtain rfl : QueueId.l1 = sorted := Option.some.inj ((h.queue_eq hkept).1.symm.trans hqueue)
    exact ⟨hpass, hpass⟩
  · exact (hno hyes).elim

theorem State.Tracked.rerank {sorted : QueueId} (h : s.Tracked cfg next removed) (hfills : s.Fills)
    (hpriority : priority.type < 15) (hqueues : s.passQueue ≠ some k ∧ s.passQueue ≠ some sorted) :
    ((s.setQueue k ((s.queue k).modify ii fun entry => { entry with priority })).sortQueue sorted).Tracked cfg next removed ∧
      ((s.setQueue k ((s.queue k).modify ii fun entry => { entry with priority })).sortQueue sorted).Fills := by
  have hids := modify_priority_ids (s.queue k) ii priority
  have hset := h.setQueue hqueues.1 (modify_priority_kept hpriority (h.marks.kept k hqueues.1)) (.of_eq hids)
  exact ⟨hset.sortQueue hqueues.2, (hfills.setQueue (.of_eq hids)).setQueue (sortEntries_ids _)⟩

theorem State.Tracked.fresh {free : List ℕ} {ops : List OpPtr} (h : s.Tracked cfg next removed)
    (hfree : s.reqBufferFreeList = id :: free) (hreq : req.Starts cfg s id k ops) (hpriority : priority.type < 15) :
    (((s.takeReq free req.procId).setReq id req).insertEntry k id priority).Tracked cfg next removed := by
  have hplace : req.place (if id < cfg.totalMemReqBuffers then some .free else none) = some (.queue k) := by
    rw [MemReq.place]
    rcases hreq.place with ⟨-, hstate⟩ | ⟨-, hstate⟩
    · rw [hstate, hreq.queue]
      rfl
    · rw [hstate, hreq.queue]
      rfl
  refine ⟨?_, State.setReq_sound h.sound ⟨?_, fun _ => hreq.priority⟩,
    State.setReq_bound h.bound fun _ => ?_, State.Marks.insertEntry (h.marks.congr rfl rfl) hpriority⟩
  · refine h.places.move (i := id) (p := .free) (q := .queue k) (by simp) (.of_eq hfree) ?_ (fun r hfree hk => ?_) ?_
      fun j hj => State.place_eq (State.setReq_other hj)
    · change (((s.takeReq free req.procId).setReq id req).insertEntry k id priority).keptIds k |>.Perm (id :: s.keptIds k)
      rw [State.insertEntry_keptIds hpriority, if_pos rfl]
      exact List.perm_append_comm
    · cases r with
      | free => exact (hfree rfl).elim
      | ramulator => exact .refl _
      | queue k' =>
          change (((s.takeReq free req.procId).setReq id req).insertEntry k id priority).keptIds k' |>.Perm (s.keptIds k')
          have hne : k' ≠ k := fun heq => hk (congrArg Place.queue heq)
          rw [State.insertEntry_keptIds hpriority, if_neg hne]
          exact .refl _
    · exact State.setReq_place.trans hplace
  · rw [MemReq.Waits]
    rcases hreq.place with ⟨rfl, hstate⟩ | ⟨rfl, hstate⟩
    · rw [hstate]
      exact hreq.queue
    · rw [hstate]
      exact hreq.queue
  · exact h.free_lt (hfree ▸ List.mem_cons_self)

/-- No quiet move loses track of a request. -/
theorem Quiet.tracked (hno : ¬ overtakes) (h : s.Tracked cfg next removed)
    (hfills : s.Fills) (hmove : Quiet cfg overtakes s t) : t.Tracked cfg next removed ∧ t.Fills := by
  have hfollows (id : ℕ) (hlive : (s.reqBuffer id).state ≠ .inv) := hmove.follows hlive
  cases hmove with
  | idle => exact ⟨h.of_follows hfollows (fun _ hinv => hinv) rfl rfl rfl rfl, hfills.of_follows hfollows rfl⟩
  | lines => exact ⟨h.of_follows hfollows (fun _ hinv => hinv) rfl rfl rfl rfl, hfills.of_follows hfollows rfl⟩
  | call => exact ⟨h.of_follows hfollows (fun _ hinv => hinv) rfl rfl rfl rfl, hfills.of_follows hfollows rfl⟩
  | note id' =>
      exact ⟨h.of_follows hfollows (State.setReq_inv fun hinv => hinv) rfl rfl rfl rfl,
        hfills.of_follows hfollows rfl⟩
  | start id' state rdyCycle hstate =>
      refine ⟨h.of_follows hfollows (State.setReq_inv fun hinv => ?_) rfl rfl rfl rfl,
        hfills.of_follows hfollows rfl⟩
      rw [hinv] at hstate
      simp at hstate
  | deliver id' =>
      exact ⟨h.of_follows hfollows (State.setReq_inv fun hinv => hinv) rfl rfl rfl rfl,
        hfills.of_follows hfollows rfl⟩
  | join id' ops req hlive hops hjoin =>
      exact ⟨h.of_follows hfollows (State.setReq_inv fun hinv => hjoin.state.trans hinv) rfl rfl rfl rfl,
        hfills.of_follows hfollows rfl⟩
  | reserve id' ops req hpass hlive hjoin =>
      exact ⟨h.of_follows hfollows (State.setReq_inv fun hinv => hjoin.state.trans hinv) rfl rfl rfl rfl,
        hfills.of_follows hfollows rfl⟩
  | rerank id' k sorted ii priority hentry hlive hqueue hpriority hpass =>
      exact h.rerank hfills hpriority (hpass.elsewhere h hfills hno hentry hqueue)
  | fresh id' free k ops req priority calls hfree hinv hpass hreq hpriority =>
      refine ⟨(h.fresh hfree hreq hpriority).congr rfl rfl (.refl _) (.refl _) rfl, ?_⟩
      have hset : (s.setReq id' req).Fills := hfills.setReq fun hlive => (hlive.1 hinv).elim
      have hinsert : ((s.setReq id' req).insertEntry k id' priority).Fills := by
        refine hset.insertEntry fun hk => ?_
        rcases hreq.place with ⟨rfl, -⟩ | ⟨rfl, -⟩
        · cases hk
        · cases hk
      exact hinsert.congr rfl rfl
  | writtenBack id' free req hfree hinv hstate =>
      have hset : (s.setReq id' req).Tracked cfg next removed := by
        refine h.setReq ?_ (.of_inv hstate) fun hlive => (hlive hstate).elim
        unfold State.place MemReq.place
        rw [State.setReq_self, hstate, hinv]
      have hperm : (free ++ [id']).Perm s.reqBufferFreeList := by
        rw [hfree]
        exact List.perm_append_comm
      exact ⟨hset.congr rfl rfl hperm (.refl _) rfl,
        (hfills.setReq fun hlive => (hlive.1 hinv).elim : (s.setReq id' req).Fills).congr rfl rfl⟩

theorem QuietRun.tracked (hno : ¬ overtakes) (h : s.Tracked cfg next removed)
    (hfills : s.Fills) (hrun : QuietRun cfg overtakes s t) : t.Tracked cfg next removed ∧ t.Fills := by
  induction hrun with
  | refl => exact ⟨h, hfills⟩
  | tail _ hmove ih => exact hmove.tracked hno ih.1 ih.2

theorem QuietRun.passQueue_eq (h : QuietRun cfg overtakes s t) : t.passQueue = s.passQueue := h.pass_map fun _ _ => rfl

/-- The queue of the loop only grows, by what is inserted. -/
def State.Adds (s : State) (pass : Pass) (t : State) : Prop :=
  ∃ new, t.queue pass.queue = s.queue pass.queue ++ new ∧ (∀ entry ∈ new, entry.isKept = true) ∧
    t.pass = some { pass with inserted := pass.inserted ++ new.map QueueEntry.reqbuf }

theorem State.adds_of_queue {pass : Pass} (hqueue : t.queue pass.queue = s.queue pass.queue) (hpass : t.pass = some pass) :
    s.Adds pass t := ⟨[], by rw [hqueue, List.append_nil], by simp, by simp [hpass]⟩

theorem Quiet.adds {pass : Pass} (hno : ¬ overtakes) (h : s.Tracked cfg next removed) (hfills : s.Fills)
    (hmove : Quiet cfg overtakes s t) (hloop : s.pass = some pass) : s.Adds pass t := by
  have hk := State.passQueue_of_pass hloop
  cases hmove with
  | rerank id' k' sorted ii priority hentry hlive hqueue hpriority hpass =>
      obtain ⟨hk', hsorted⟩ := hpass.elsewhere h hfills hno hentry hqueue
      have hne : pass.queue ≠ k' := fun heq => hk' (heq ▸ hk)
      have hne' : pass.queue ≠ sorted := fun heq => hsorted (heq ▸ hk)
      refine State.adds_of_queue ?_ hloop
      rw [State.sortQueue]
      rw [State.setQueue_queue, if_neg hne', State.setQueue_queue, if_neg hne]
  | fresh id' free k' ops req priority calls hfree hinv hpass hreq hpriority =>
      by_cases hkk : pass.queue = k'
      · refine ⟨[⟨id', priority⟩], ?_, ?_, ?_⟩
        · exact (State.insertEntry_queue ((s.takeReq free req.procId).setReq id' req) k' id' priority pass.queue).trans
            (hkk ▸ if_pos rfl)
        · simpa [QueueEntry.isKept] using hpriority
        · change s.pass.map _ = _
          rw [hloop, Option.map_some, if_pos hkk, List.map_singleton]
      · refine State.adds_of_queue ?_ ?_
        · exact (State.insertEntry_queue ((s.takeReq free req.procId).setReq id' req) k' id' priority pass.queue).trans
            (if_neg hkk)
        · change s.pass.map _ = _
          rw [hloop, Option.map_some, if_neg hkk]
  | _ => exact State.adds_of_queue rfl hloop

theorem QuietRun.adds {pass : Pass} (hno : ¬ overtakes) (h : s.Tracked cfg next removed) (hfills : s.Fills)
    (hrun : QuietRun cfg overtakes s t) (hpass : s.pass = some pass) : s.Adds pass t := by
  induction hrun with
  | refl => exact State.adds_of_queue rfl hpass
  | tail hrun hmove ih =>
      obtain ⟨hm, hmfills⟩ := QuietRun.tracked hno h hfills hrun
      obtain ⟨new, hqueue, hnew, hmpass⟩ := ih
      obtain ⟨new', hqueue', hnew', htpass⟩ := hmove.adds hno hm hmfills hmpass
      refine ⟨new ++ new', ?_, fun entry hentry => ?_, ?_⟩
      · rw [hqueue', hqueue, List.append_assoc]
      · exact (List.mem_append.mp hentry).elim (hnew entry) (hnew' entry)
      · rw [htpass, List.map_append, List.append_assoc]

theorem State.EntryAt.adds {pass : Pass} (h : s.EntryAt pass.queue ii id) (hadds : s.Adds pass t) :
    t.EntryAt pass.queue ii id := by
  obtain ⟨new, hqueue, -, -⟩ := hadds
  obtain ⟨entry, hentry, hid⟩ := h.exists_entry
  obtain ⟨hlt, -⟩ := List.getElem?_eq_some_iff.mp hentry
  rw [State.EntryAt]
  rw [hqueue, List.getElem?_append_left hlt, hentry, Option.map_some, hid]

/-! ## Leaving and entering a place -/

/-- The loop is at an entry that is kept. -/
theorem State.Tracked.at_entry (h : s.Tracked cfg ii removed) (hk : s.passQueue = some k) (hentry : s.EntryAt k ii id) :
    id ∈ s.keptIds k ∧ (s.entryPriority k ii).type < 15 := by
  obtain ⟨entry, hget, hid⟩ := hentry.exists_entry
  have hahead : entry.isKept = true := by
    refine h.marks.ahead k hk entry (List.mem_of_getElem? (i := 0) ?_)
    rw [List.getElem?_drop]
    exact hget
  refine ⟨State.mem_keptIds.mpr ⟨entry, List.mem_of_getElem? hget, hahead, hid⟩, ?_⟩
  rw [State.entryPriority]
  rw [hget]
  simpa [QueueEntry.isKept] using hahead

/-- The request of an entry that is marked leaves the queue of the loop. -/
theorem State.Tracked.leave (h : s.Tracked cfg ii removed) (hk : s.passQueue = some k) (hentry : s.EntryAt k ii id)
    (hplace : req.place (some .free) = none) (hreq : req.Sound) :
    ((s.setReq id req).markEntry k ii).Tracked cfg (ii + 1) (removed + 1) := by
  have hid := (h.at_entry hk hentry).1
  have hbound := h.bound id (h.queue_eq hid).2
  have hnone : (s.setReq id req).place cfg id = none := by rw [State.setReq_place, if_pos hbound, hplace]
  refine ⟨?_, State.setReq_sound h.sound hreq, State.setReq_bound h.bound fun _ => hbound,
    State.Marks.markEntry (h.marks.congr rfl rfl) hk hentry⟩
  refine h.places.leave (i := id) (p := .queue k) ?_ (fun q hq => ?_) hnone fun j hj => State.place_eq (State.setReq_other hj)
  · exact State.markEntry_keptIds (s := s.setReq id req) hentry (h.marks.ahead k hk)
  · cases q with
    | free => exact .refl _
    | ramulator => exact .refl _
    | queue k' => exact .of_eq (State.markEntry_keptIds_other fun heq => hq (congrArg Place.queue heq))

/-- A request that is nowhere comes to the end of a queue. -/
theorem State.Tracked.enterQueue (h : s.Tracked cfg next removed) (hfrom : s.place cfg id = none)
    (hbound : id < cfg.totalMemReqBuffers) (hplace : req.place (some .free) = some (.queue k)) (hreq : req.Sound)
    (hpriority : priority.type < 15) : ((s.setReq id req).insertEntry k id priority).Tracked cfg next removed := by
  have hto : (s.setReq id req).place cfg id = some (.queue k) := by rw [State.setReq_place, if_pos hbound, hplace]
  refine ⟨?_, State.setReq_sound h.sound hreq, State.setReq_bound h.bound fun _ => hbound,
    State.Marks.insertEntry (h.marks.congr rfl rfl) hpriority⟩
  have hids (k' : QueueId) : ((s.setReq id req).insertEntry k id priority).keptIds k' =
      if k' = k then s.keptIds k ++ [id] else s.keptIds k' := State.insertEntry_keptIds hpriority k'
  refine h.places.enter (i := id) (p := .queue k) hfrom ?_ (fun q hq => ?_) hto fun j hj => State.place_eq (State.setReq_other hj)
  · change (((s.setReq id req).insertEntry k id priority).keptIds k).Perm (id :: s.keptIds k)
    rw [hids k, if_pos rfl]
    exact List.perm_append_comm
  · cases q with
    | free => exact .refl _
    | ramulator => exact .refl _
    | queue k' => exact .of_eq ((hids k').trans (if_neg fun heq => hq (congrArg Place.queue heq)))

/-- A request that is nowhere comes to the free list. -/
theorem State.Tracked.enterFree (h : s.Tracked cfg next removed) (hfrom : s.place cfg id = none)
    (hbound : id < cfg.totalMemReqBuffers) (hinv : req.state = .inv) :
    State.Tracked cfg { s.setReq id req with reqBufferFreeList := s.reqBufferFreeList ++ [id] } next removed := by
  have hto : (s.setReq id req).place cfg id = some .free := by
    rw [State.setReq_place, if_pos hbound]
    rw [MemReq.place]
    rw [hinv]
  refine ⟨?_, State.setReq_sound h.sound (.of_inv hinv), State.setReq_bound h.bound fun _ => hbound, h.marks.congr rfl rfl⟩
  refine h.places.enter (i := id) (p := .free) hfrom List.perm_append_comm (fun q hq => ?_) hto fun j hj =>
    State.place_eq (State.setReq_other hj)
  cases q with
  | free => exact (hq rfl).elim
  | ramulator => exact .refl _
  | queue k' => exact .refl _

/-- A request that is nowhere comes to Ramulator. -/
theorem State.Tracked.enterRamulator {inflightReadReqs : List (Addr × List ℕ)} {physAddr : Addr}
    (h : s.Tracked cfg next removed) (hfrom : s.place cfg id = none) (hbound : id < cfg.totalMemReqBuffers)
    (hstate : req.state = .memNew) (hreq : req.Sound)
    (hinflight : Registers physAddr id s.inflightReadReqs inflightReadReqs) :
    State.Tracked cfg { s.setReq id req with inflightReadReqs } next removed := by
  have hto : (s.setReq id req).place cfg id = some .ramulator := by
    rw [State.setReq_place]
    rw [MemReq.place]
    rw [hstate]
  refine ⟨?_, State.setReq_sound h.sound hreq, State.setReq_bound h.bound fun _ => hbound, h.marks.congr rfl rfl⟩
  refine h.places.enter (i := id) (p := .ramulator) hfrom (hinflight.perm.append_right _) (fun q hq => ?_) hto fun j hj =>
    State.place_eq (State.setReq_other hj)
  cases q with
  | free => exact .refl _
  | ramulator => exact (hq rfl).elim
  | queue k' => exact .refl _

/-! ## Progress -/

/-- At `CONSTANT_MEMORY_LATENCY`, a request that misses in the L1 goes straight to its fill queue. -/
def State.HandsOver (cfg : Config) (s : State) : Prop :=
  cfg.constantMemoryLatency = true ∧
    ∃ id, s.AtSend cfg id ∨ s.AtMiss cfg id ∧ (s.reqBuffer id).type = .wb ∧ cfg.l1WriteThrough = true

/-- The step for the next entry leaves no entry behind and does not disturb its loop. -/
structure State.Careful (cfg : Config) (env : Env) (s : State) : Prop where
  handsOver : ¬ s.HandsOver cfg
  overtakes : ¬ s.Overtakes cfg env
  revives : ∀ id, ¬ s.AtRevival cfg id

/-- No entry is written through, the memory has no fixed latency, and types are not matched. -/
structure Config.Tracks (cfg : Config) : Prop where
  typeMatches : cfg.allowTypeMatches = false
  latency : cfg.constantMemoryLatency = false
  l1Through : cfg.l1WriteThrough = false
  mlcThrough : cfg.mlcWriteThrough = false

theorem Config.Tracks.careful (hcfg : cfg.Tracks) (env : Env) (s : State) : s.Careful cfg env := by
  refine ⟨fun hyes => ?_, fun hyes => ?_, fun id hyes => ?_⟩
  · cases hcfg.latency.symm.trans hyes.1
  · cases hcfg.typeMatches.symm.trans hyes.1
  · cases hcfg.mlcThrough.symm.trans hyes.through

/-- The request is on its way to another place. -/
def MemReq.nowhere (req : MemReq) : MemReq := { req with state := .busNew }

theorem State.Tracked.leaves (h : s.Tracked cfg ii removed) (hk : s.passQueue = some k) (hentry : s.EntryAt k ii id) :
    ((s.setReq id (s.reqBuffer id).nowhere).markEntry k ii).Tracked cfg (ii + 1) (removed + 1) ∧
      ((s.setReq id (s.reqBuffer id).nowhere).markEntry k ii).place cfg id = none ∧ id < cfg.totalMemReqBuffers := by
  have hlive := (h.queue_eq (h.at_entry hk hentry).1).2
  have hsound := h.sound id
  refine ⟨h.leave hk hentry rfl ⟨trivial, fun _ => hsound.low hlive⟩, ?_, h.bound id hlive⟩
  exact State.setReq_place

theorem State.insertEntry_markEntry {out : QueueId} (hne : out ≠ k) (s : State) :
    (s.insertEntry out id priority).markEntry k ii = (s.markEntry k ii).insertEntry out id priority := by
  have hqueue : ((s.insertEntry out id priority).markEntry k ii).queue =
      ((s.markEntry k ii).insertEntry out id priority).queue := by
    funext k'
    rw [State.markEntry_queue, State.insertEntry_queue, State.insertEntry_queue, State.insertEntry_queue,
      State.markEntry_queue, State.markEntry_queue]
    by_cases hkk : k' = k
    · subst hkk
      rw [if_pos rfl, if_neg hne.symm, if_neg hne.symm, if_pos rfl]
    · rw [if_neg hkk, if_neg hne, if_neg hkk]
  exact congrArg (fun queue => { s.insertEntry out id priority with queue }) hqueue

/-- The request goes on to another queue. -/
theorem State.Tracked.toQueue {out : QueueId} (h : s.Tracked cfg ii removed) (hk : s.passQueue = some k)
    (hentry : s.EntryAt k ii id) (hne : out ≠ k) (hplace : req.place (some .free) = some (.queue out)) (hreq : req.Sound)
    (hpriority : priority.type < 15) :
    (((s.setReq id req).insertEntry out id priority).markEntry k ii).Tracked cfg (ii + 1) (removed + 1) := by
  obtain ⟨hleft, hnone, hbound⟩ := h.leaves hk hentry
  rw [State.insertEntry_markEntry hne]
  refine (hleft.enterQueue hnone hbound hplace hreq hpriority).congr ?_ rfl (.refl _) (.refl _) rfl
  exact (congrArg State.reqBuffer (State.setReq_setReq s id (s.reqBuffer id).nowhere req)).symm

/-- The request is freed. -/
theorem State.Tracked.toFree (h : s.Tracked cfg ii removed) (hk : s.passQueue = some k) (hentry : s.EntryAt k ii id) :
    (((s.setReq id req).freeReq id).markEntry k ii).Tracked cfg (ii + 1) (removed + 1) := by
  obtain ⟨hleft, hnone, hbound⟩ := h.leaves hk hentry
  have hinv : ({ req with state := .inv, opPtrs := [] } : MemReq).state = .inv := rfl
  have hfree := hleft.enterFree hnone hbound hinv
  refine hfree.congr ?_ rfl (.refl _) (.refl _) rfl
  have hto : ((s.setReq id req).freeReq id).reqBuffer = (s.setReq id { req with state := .inv, opPtrs := [] }).reqBuffer := by
    funext id'
    by_cases hid : id' = id
    · rw [hid, State.freeReq_self, State.setReq_self, State.setReq_self]
    · rw [State.freeReq_other hid, State.setReq_other hid, State.setReq_other hid]
  refine hto.trans ?_
  exact (congrArg State.reqBuffer (State.setReq_setReq s id (s.reqBuffer id).nowhere _)).symm

/-- The request is sent to Ramulator. -/
theorem State.Tracked.toRamulator {inflightReadReqs : List (Addr × List ℕ)} {physAddr : Addr} (h : s.Tracked cfg ii removed)
    (hk : s.passQueue = some k) (hentry : s.EntryAt k ii id) (hstate : req.state = .memNew) (hreq : req.Sound)
    (hinflight : Registers physAddr id s.inflightReadReqs inflightReadReqs) :
    State.Tracked cfg ({ s.setReq id req with inflightReadReqs }.markEntry k ii) (ii + 1) (removed + 1) := by
  obtain ⟨hleft, hnone, hbound⟩ := h.leaves hk hentry
  refine (hleft.enterRamulator hnone hbound hstate hreq hinflight).congr ?_ rfl (.refl _) (.refl _) rfl
  exact (congrArg State.reqBuffer (State.setReq_setReq s id (s.reqBuffer id).nowhere req)).symm

theorem State.Tracked.past (h : s.Tracked cfg ii removed) : s.Tracked cfg (ii + 1) removed := by
  refine ⟨h.places, h.sound, h.bound, h.marks.kept, h.marks.removed, fun k hk entry hentry => h.marks.ahead k hk entry ?_⟩
  rw [← List.drop_drop] at hentry
  exact List.mem_of_mem_drop hentry

theorem State.count_passQueue (s : State) {f : Pass → Pass} (hf : ∀ pass, (f pass).queue = pass.queue) :
    (s.count f).passQueue = s.passQueue := by
  rw [State.count, State.passQueue]
  rw [Option.map_map]
  exact congrArg (s.pass.map ·) (funext hf)

theorem State.trainMiss_tracked (h : s.Tracked cfg next removed) : (s.trainMiss cfg id).Tracked cfg next removed := by
  rw [State.trainMiss_eq]
  exact h.congr rfl rfl (.refl _) (.refl _) rfl

/-- A change of a request that no place depends on. -/
theorem State.Tracked.setNote (h : s.Tracked cfg next removed) (hstate : req.state = (s.reqBuffer id).state)
    (hqueue : req.queue = (s.reqBuffer id).queue) (htype : req.type = (s.reqBuffer id).type)
    (hproc : req.procId = (s.reqBuffer id).procId)
    (hpriority : req.priority = (s.reqBuffer id).priority) : (s.setReq id req).Tracked cfg next removed := by
  have hsound := h.sound id
  refine h.setReq ?_ ⟨?_, ?_⟩ fun hlive => hstate ▸ hlive
  · rw [State.setReq_place]
    unfold State.place MemReq.place
    rw [hstate, hqueue]
  · have hwaits := hsound.waits
    rw [MemReq.Waits] at hwaits ⊢
    rw [hstate, hqueue, htype, hproc]
    exact hwaits
  · rw [hstate, hpriority]
    exact hsound.low

theorem State.reserve_tracked (h : s.Tracked cfg next removed) : (s.reserve cfg id).Tracked cfg next removed := by
  obtain ⟨n, -, heq⟩ := State.reserve_eq s cfg id
  rw [heq]
  have hcount : (s.count fun pass => { pass with reserveEntryCount := pass.reserveEntryCount + n }).Tracked cfg next removed := by
    exact h.congr rfl rfl (.refl _) (.refl _) (State.count_passQueue _ fun _ => rfl)
  exact hcount.setNote rfl rfl rfl rfl rfl

/-- No progress loses track of a request. -/
theorem Progress.tracked (hcareful : base.Careful cfg env) (h : Progress cfg env base k id ii s done t) (hs : s.Tracked cfg ii removed)
    (hk : s.passQueue = some k) (hentry : s.EntryAt k ii id) :
    t.Tracked cfg (ii + 1) (if done then removed + 1 else removed) := by
  obtain ⟨hkept, hlow⟩ := hs.at_entry hk hentry
  obtain ⟨hqueue, hlive⟩ := hs.queue_eq hkept
  have hsound := hs.sound id
  have hsound' {req : MemReq} (hwaits : req.Waits) (hpriority : req.priority = (s.reqBuffer id).priority) : req.Sound := by
    refine ⟨hwaits, fun _ => ?_⟩
    rw [hpriority]
    exact hsound.low hlive
  cases h with
  | toFill out state rdyCycle back priority h hpriority =>
      have hprio : priority.type < 15 := by
        rcases hpriority with hlt | rfl | rfl
        · exact hlt
        · exact hlow
        · exact hsound.low hlive
      have hwaits := hsound.waits
      rw [MemReq.Waits] at hwaits
      cases h with
      | l1Mlc hstate hmlc hdest hreadr => exact hs.toQueue hk hentry (by decide) rfl (hsound' ⟨.inr rfl, hreadr⟩ rfl) hprio
      | l1Core hstate hdone => exact hs.toQueue hk hentry (by simp) rfl (hsound' rfl rfl) hprio
      | fillMlc hstate =>
          rw [hstate] at hwaits
          exact hs.toQueue hk hentry (by decide) rfl (hsound' ⟨.inr rfl, hwaits.2⟩ rfl) hprio
      | fillCore hstate hdone =>
          rw [hstate] at hwaits
          exact hs.toQueue hk hentry (by simp) rfl (hsound' ⟨.inr (.inr rfl), hwaits.2⟩ rfl) hprio
  | toL1 rdyCycle reserves priority hk' hstate hwb hreserves hpriority =>
      have hprio : priority.type < 15 := by
        rcases hpriority with hlt | rfl
        · exact hlt
        · exact hsound.low hlive
      have hne : QueueId.l1 ≠ k := by simp [hk']
      have hsoundl1 : MemReq.Sound { s.reqBuffer id with
          state := .l1New
          rdyCycle
          queue := some .l1
          reservedEntryCount := (s.reqBuffer id).reservedEntryCount + reserves } := hsound' rfl rfl
      have hmoved := hs.toQueue hk hentry hne rfl hsoundl1 hprio
      rw [State.insertEntry_markEntry hne] at hmoved
      exact hmoved.congr rfl rfl (.refl _) (.refl _) (State.count_passQueue _ fun _ => rfl)
  | reviveL1 rdyCycle priority hk' hstate hwb hthrough hdone hpriority hbase => exact (hcareful.revives id hbase).elim
  | release rdyCycle back h => exact hs.toFree hk hentry
  | fill c way rdyCycle hk' hstate hreadr =>
      have hset : (s.setL1 (cfg.l1Of (s.reqBuffer id).procId) c).Tracked cfg ii removed := hs.congr rfl rfl (.refl _) (.refl _) rfl
      have hwaits := hsound.waits
      rw [MemReq.Waits] at hwaits
      rw [hstate] at hwaits
      have hnext : (if cfg.mlcPresent && (s.reqBuffer id).destination != .l1 then MemReqState.fillMlc else .fillDone) = .fillMlc ∨
          (if cfg.mlcPresent && (s.reqBuffer id).destination != .l1 then MemReqState.fillMlc else .fillDone) = .fillDone := by
        split
        · exact .inl rfl
        · exact .inr rfl
      generalize (if cfg.mlcPresent && (s.reqBuffer id).destination != .l1 then MemReqState.fillMlc else .fillDone) = state
        at hnext ⊢
      have hplace : s.place cfg id = (s.reqBuffer id).queue.map .queue := by
        rw [State.place, MemReq.place]
        rw [hstate]
      refine hset.past.setReq ?_ (hsound' ?_ rfl) fun _ => hlive
      · rw [State.setReq_place]
        refine Eq.trans ?_ hplace.symm
        rcases hnext with rfl | rfl
        · rfl
        · rfl
      · rcases hnext with rfl | rfl
        · exact ⟨.inl hwaits.1, hreadr⟩
        · exact ⟨.inl hwaits.1, hreadr⟩
  | filled rdyCycle hk' hstate =>
      have hwaits := hsound.waits
      rw [MemReq.Waits] at hwaits
      rw [hstate] at hwaits
      refine hs.past.setReq ?_ (hsound' ⟨hwaits.1.imp_right .inl, hwaits.2⟩ rfl) fun _ => hlive
      rw [State.setReq_place]
      unfold State.place MemReq.place
      rw [hstate]
  | fillWb c way rdyCycle =>
      have hset : (s.setL1 (cfg.l1Of (s.reqBuffer id).procId) c).Tracked cfg ii removed := hs.congr rfl rfl (.refl _) (.refl _) rfl
      exact hset.toFree hk hentry
  | lost rdyCycle => exact hs.leave hk hentry rfl (hsound' trivial rfl)
  | fillLost c way rdyCycle =>
      have hset : (s.setL1 (cfg.l1Of (s.reqBuffer id).procId) c).Tracked cfg ii removed := hs.congr rfl rfl (.refl _) (.refl _) rfl
      exact hset.leave hk hentry rfl (hsound' trivial rfl)
  | fillOver c way rdyCycle priority hk' hmiss hquiet hwb hthrough hconstant =>
      exact (hcareful.handsOver ⟨hconstant, id, .inr ⟨hmiss, hwb, hthrough⟩⟩).elim
  | revive c way rdyCycle priority hk' hmiss hquiet hwb hthrough hconstant =>
      exact (hcareful.handsOver ⟨hconstant, id, .inr ⟨hmiss, hwb, hthrough⟩⟩).elim
  | send inflightReadReqs hk' hsend htaken hquiet hstate hreadr hramulator hinflight =>
      exact State.trainMiss_tracked (State.reserve_tracked
        (hs.toRamulator hk hentry rfl (hsound' hreadr rfl) hinflight))
  | reject => exact State.trainMiss_tracked (State.reserve_tracked hs.past)
  | handOver rdyCycle priority hk' hsend hon => exact (hcareful.handsOver ⟨hon, id, .inl hsend⟩).elim

end Scarab.Memory

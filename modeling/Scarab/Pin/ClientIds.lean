import Mathlib.Data.List.FinRange
import Mathlib.Data.Fintype.EquivFin

/-! # The ids of the clients

`Server` of `message_queue_interface_lib.cc` accepts its clients one after another, and each names the id that it
wants, or none. When all are there they are put where they asked to be. -/

namespace Scarab.Pin

abbrev SocketDescriptor := BitVec 32

/-- `max_unsigned_int`, for a client that wants no id in particular; as a descriptor it is -1, and no client. -/
def maxUnsignedInt : BitVec 32 := -1

/-- What a client sends when it connects, with the descriptor that `accept` returned for it. -/
structure Connection where
  fd : SocketDescriptor
  requestedId : BitVec 32
  accepted : 0 ≤ fd.toInt

/-- How the assignment ends before its end. -/
inductive Stop where
  | assertion (message : String)
  /-- An access to a vector at an index that it does not have. -/
  | outside (index : ℕ)
  deriving DecidableEq, Repr

structure Server where
  clientFds : List SocketDescriptor
  requestedClientIds : List (BitVec 32)
  deriving DecidableEq, Repr

/-- `operator[]`. -/
def access {α : Type*} (vector : List α) (index : ℕ) : Except Stop α :=
  match vector[index]? with
  | some x => .ok x
  | none => .error (.outside index)

/-- `requested_id`, of the client that came as the `i`-th. -/
def effectiveId (requested : BitVec 32) (i : ℕ) : ℕ := if requested = maxUnsignedInt then i else requested.toNat

namespace Server

/-- `accept_new_clients`, with `get_requested_client_id`. -/
def acceptNewClients (s : Server) (c : Connection) : Server where
  clientFds := s.clientFds ++ [c.fd]
  requestedClientIds := s.requestedClientIds ++ [c.requestedId]

/-- The loop of `verify_and_assign_requested_client_ids` from `i` on, over `temp_client_fds`. -/
def assign (s : Server) : ℕ → ℕ → List SocketDescriptor → Except Stop (List SocketDescriptor)
  | 0, _, tempClientFds => .ok tempClientFds
  | left + 1, i, tempClientFds => do
      let requestedId := effectiveId (← access s.requestedClientIds i) i
      if (← access tempClientFds requestedId) ≠ maxUnsignedInt then
        .error (.assertion "Two or more clients requested the same id")
      else assign s left (i + 1) (tempClientFds.set requestedId (← access s.clientFds i))

/-- `verify_and_assign_requested_client_ids`. -/
def verifyAndAssignRequestedClientIds (s : Server) (numClients : BitVec 32) : Except Stop Server :=
  if s.requestedClientIds.length ≠ numClients.toNat then .error (.assertion "Some clients did not request a client id")
  else do return { s with clientFds := ← s.assign numClients.toNat 0 (.replicate numClients.toNat maxUnsignedInt) }

/-- `init`, for the clients that connect. -/
def init (numClients : BitVec 32) (connections : List Connection) : Except Stop Server :=
  (connections.foldl acceptNewClients ⟨[], []⟩).verifyAndAssignRequestedClientIds numClients

end Server

theorem access_of_some {α : Type*} {vector : List α} {index : ℕ} {x : α} (h : vector[index]? = some x) :
    access vector index = .ok x := by
  rw [access, h]

theorem access_of_le {α : Type*} {vector : List α} {index : ℕ} (h : vector.length ≤ index) :
    access vector index = .error (.outside index) := by
  rw [access, List.getElem?_eq_none h]

theorem Connection.fd_ne (c : Connection) : c.fd ≠ maxUnsignedInt := fun h => by
  have hnonneg := c.accepted
  rw [h] at hnonneg
  exact absurd hnonneg (by decide)

/-! ## Who asks for which id -/

/-- The id that the `i`-th client asks for. -/
def wanted (connections : List Connection) (i : ℕ) : ℕ :=
  match connections[i]? with
  | some c => effectiveId c.requestedId i
  | none => i

/-- The clients before the `i`-th ask for different ids. -/
def DistinctBelow (connections : List Connection) (i : ℕ) : Prop :=
  ∀ k < i, ∀ j < k, wanted connections j ≠ wanted connections k

/-- Each client that comes after clients that ask for different ids asks for one of the ids that there are. -/
def AsksInside (connections : List Connection) : Prop :=
  ∀ i < connections.length, DistinctBelow connections i → wanted connections i < connections.length

/-- The clients are where they asked to be. -/
structure Assigned (connections : List Connection) (clientFds : List SocketDescriptor) : Prop where
  perm : clientFds.Perm (connections.map (·.fd))
  placed : ∀ i (hi : i < connections.length), clientFds[wanted connections i]? = some connections[i].fd

/-- The loop before its `i`-th client: those before it have their places, and the other places are free. -/
structure Placed (connections : List Connection) (i : ℕ) (tempClientFds : List SocketDescriptor) : Prop where
  length_eq : tempClientFds.length = connections.length
  distinct : DistinctBelow connections i
  placed : ∀ j < i, ∀ hj : j < connections.length, tempClientFds[wanted connections j]? = some connections[j].fd
  free : ∀ id < connections.length, (∀ j < i, wanted connections j ≠ id) → tempClientFds[id]? = some maxUnsignedInt

theorem placed_zero (connections : List Connection) :
    Placed connections 0 (.replicate connections.length maxUnsignedInt) where
  length_eq := List.length_replicate
  distinct k hk := absurd hk (Nat.not_lt_zero k)
  placed j hj := absurd hj (Nat.not_lt_zero j)
  free id hid _ := by rw [List.getElem?_replicate, if_pos hid]

theorem Placed.wanted_lt {connections : List Connection} {i : ℕ} {tempClientFds : List SocketDescriptor}
    (h : Placed connections i tempClientFds) {j : ℕ} (hj : j < i) (hlt : j < connections.length) :
    wanted connections j < connections.length := by
  obtain ⟨hbound, -⟩ := List.getElem?_eq_some_iff.mp (h.placed j hj hlt)
  rw [h.length_eq] at hbound
  exact hbound

/-- A client whose place is free takes it. -/
theorem Placed.set {connections : List Connection} {i : ℕ} {tempClientFds : List SocketDescriptor}
    (h : Placed connections i tempClientFds) (hi : i < connections.length)
    (hinside : wanted connections i < connections.length) (hnew : ∀ j < i, wanted connections j ≠ wanted connections i) :
    Placed connections (i + 1) (tempClientFds.set (wanted connections i) connections[i].fd) where
  length_eq := by rw [List.length_set, h.length_eq]
  distinct k hk j hj := by
    rcases Nat.lt_or_eq_of_le (Nat.le_of_lt_succ hk) with hk | rfl
    · exact h.distinct k hk j hj
    · exact hnew j hj
  placed j hj hlt := by
    rcases Nat.lt_or_eq_of_le (Nat.le_of_lt_succ hj) with hj | rfl
    · rw [List.getElem?_set_ne (hnew j hj).symm]
      exact h.placed j hj hlt
    · exact List.getElem?_set_self (by rw [h.length_eq]; exact hinside)
  free id hid hother := by
    rw [List.getElem?_set_ne (hother i (Nat.lt_succ_self i))]
    exact h.free id hid fun j hj => hother j (Nat.lt_succ_of_lt hj)

/-- When every client has its place, the places hold the clients in another order. -/
theorem Placed.assigned {connections : List Connection} {clientFds : List SocketDescriptor}
    (h : Placed connections connections.length clientFds) : Assigned connections clientFds where
  placed i hi := h.placed i hi hi
  perm := by
    let place : Fin connections.length → Fin connections.length := fun i => ⟨wanted connections i, h.wanted_lt i.2 i.2⟩
    have hinj : Function.Injective place := by
      intro i j hij
      have hsame : wanted connections i = wanted connections j := Fin.mk.inj hij
      rcases Nat.lt_trichotomy i j with hlt | heq | hlt
      · exact absurd hsame (h.distinct j j.2 i hlt)
      · exact Fin.ext heq
      · exact absurd hsame.symm (h.distinct i i.2 j hlt)
    let σ : Equiv.Perm (Fin connections.length) := Equiv.ofBijective place (Finite.injective_iff_bijective.mp hinj)
    let held : Fin connections.length → SocketDescriptor := fun i => clientFds.get (i.cast h.length_eq.symm)
    have hheld : List.ofFn held = clientFds := by
      refine List.ext_getElem (by rw [List.length_ofFn, h.length_eq]) fun i hi hi' => ?_
      rw [List.getElem_ofFn]
      rfl
    have hmoved : List.ofFn (held ∘ σ) = connections.map (·.fd) := by
      refine List.ext_getElem (by rw [List.length_ofFn, List.length_map]) fun i hi hi' => ?_
      rw [List.getElem_ofFn, List.getElem_map]
      rw [List.length_map] at hi'
      exact (List.getElem?_eq_some_iff.mp (h.placed i hi' hi')).2
    have hperm := Equiv.Perm.ofFn_comp_perm σ held
    rw [hheld, hmoved] at hperm
    exact hperm.symm

/-! ## The loop -/

/-- How the assignment can end: all clients placed, a place that is taken, or one that there is not. -/
inductive Ending (connections : List Connection) : Except Stop (List SocketDescriptor) → Prop where
  | assigned {clientFds} (h : Placed connections connections.length clientFds) : Ending connections (.ok clientFds)
  | taken (i : ℕ) (hi : i < connections.length) (hbelow : DistinctBelow connections i) (j : ℕ) (hj : j < i)
      (hsame : wanted connections j = wanted connections i) (hinside : ∀ k < i, wanted connections k < connections.length) :
      Ending connections (.error (.assertion "Two or more clients requested the same id"))
  | outside (i : ℕ) (hi : i < connections.length) (hbelow : DistinctBelow connections i)
      (houtside : connections.length ≤ wanted connections i) :
      Ending connections (.error (.outside (wanted connections i)))

theorem wanted_eq {connections : List Connection} {i : ℕ} (hi : i < connections.length) :
    wanted connections i = effectiveId connections[i].requestedId i := by
  rw [wanted, List.getElem?_eq_getElem hi]

namespace Server

theorem assign_ending {s : Server} {connections : List Connection} (hfds : s.clientFds = connections.map (·.fd))
    (hids : s.requestedClientIds = connections.map (·.requestedId)) {left i : ℕ} {tempClientFds : List SocketDescriptor}
    (hleft : i + left = connections.length) (h : Placed connections i tempClientFds) :
    Ending connections (s.assign left i tempClientFds) := by
  induction left generalizing i tempClientFds with
  | zero =>
      obtain rfl : i = connections.length := hleft
      exact .assigned h
  | succ left ih =>
      have hi : i < connections.length := by omega
      have hid : access s.requestedClientIds i = .ok connections[i].requestedId := by
        refine access_of_some ?_
        rw [hids, List.getElem?_map, List.getElem?_eq_getElem hi]
        rfl
      have hfd : access s.clientFds i = .ok connections[i].fd := by
        refine access_of_some ?_
        rw [hfds, List.getElem?_map, List.getElem?_eq_getElem hi]
        rfl
      rw [assign, hid]
      simp only [bind, Except.bind, hfd, ← wanted_eq hi]
      by_cases hinside : wanted connections i < connections.length
      · by_cases hnew : ∀ j < i, wanted connections j ≠ wanted connections i
        · rw [access_of_some (h.free _ hinside hnew)]
          exact ih (by omega) (h.set hi hinside hnew)
        · simp only [not_forall, not_not] at hnew
          obtain ⟨j, hj, hsame⟩ := hnew
          have htaken := hsame ▸ h.placed j hj (hj.trans hi)
          rw [access_of_some htaken]
          simp only [if_pos (Connection.fd_ne _)]
          exact .taken i hi h.distinct j hj hsame fun k hk => h.wanted_lt hk (hk.trans hi)
      · rw [access_of_le (by rw [h.length_eq]; exact Nat.le_of_not_lt hinside)]
        exact .outside i hi h.distinct (Nat.le_of_not_lt hinside)

theorem foldl_acceptNewClients (s : Server) (connections : List Connection) :
    (connections.foldl acceptNewClients s).clientFds = s.clientFds ++ connections.map (·.fd) ∧
      (connections.foldl acceptNewClients s).requestedClientIds =
        s.requestedClientIds ++ connections.map (·.requestedId) := by
  induction connections generalizing s with
  | nil => simp
  | cons c connections ih =>
      obtain ⟨hfds, hids⟩ := ih (s.acceptNewClients c)
      rw [List.foldl_cons, hfds, hids]
      simp only [acceptNewClients, List.map_cons, List.append_assoc, List.singleton_append, and_self]

theorem init_ending {numClients : BitVec 32} {connections : List Connection}
    (hall : connections.length = numClients.toNat) : ∃ outcome, Ending connections outcome ∧
      init numClients connections =
        outcome.map fun clientFds => ⟨clientFds, connections.map (·.requestedId)⟩ := by
  obtain ⟨hfds, hids⟩ := foldl_acceptNewClients ⟨[], []⟩ connections
  rw [List.nil_append] at hfds hids
  refine ⟨_, assign_ending hfds hids (Nat.zero_add _) (placed_zero connections), ?_⟩
  rw [init, verifyAndAssignRequestedClientIds, hids, List.length_map, if_neg (not_not.mpr hall), ← hall]
  cases Server.assign _ connections.length 0 (List.replicate connections.length maxUnsignedInt) with
  | error stop => rfl
  | ok clientFds => rfl

/-- The server stops for an id asked for twice, or has all clients where they asked to be, exactly if no client whose
predecessors ask for different ids asks for an id that there is not. -/
theorem init_assigns_iff {numClients : BitVec 32} {connections : List Connection}
    (hall : connections.length = numClients.toNat) :
    (init numClients connections = .error (.assertion "Two or more clients requested the same id") ∨
      ∃ s, init numClients connections = .ok s ∧ Assigned connections s.clientFds) ↔ AsksInside connections := by
  obtain ⟨outcome, hending, hinit⟩ := init_ending hall
  rw [hinit]
  constructor
  · intro h i hi hbelow
    cases hending with
    | assigned hplaced => exact hplaced.wanted_lt hi hi
    | taken i' hi' hbelow' j hj hsame hinside =>
        rcases Nat.lt_trichotomy i i' with hlt | rfl | hlt
        · exact hinside i hlt
        · exact hsame ▸ hinside j hj
        · exact absurd hsame (hbelow i' hlt j hj)
    | outside i' hi' hbelow' houtside =>
        rcases h with h | ⟨s, h, -⟩ <;> cases h
  · intro h
    cases hending with
    | assigned hplaced => exact .inr ⟨_, rfl, hplaced.assigned⟩
    | taken => exact .inl rfl
    | outside i hi hbelow houtside => exact absurd (h i hi hbelow) (Nat.not_lt_of_le houtside)

/-- Two clients that ask for each other's index. -/
theorem init_assigns_iff_crossed :
    let connections : List Connection := [⟨7, 1, by decide⟩, ⟨8, 0, by decide⟩]
    init 2 connections = .ok ⟨[8, 7], [1, 0]⟩ ∧ AsksInside connections := by
  intro connections
  have hinit : init 2 connections = .ok ⟨[8, 7], [1, 0]⟩ := by decide
  have hplaced : ∀ i (hi : i < connections.length), [(8 : SocketDescriptor), 7][wanted connections i]? =
      some connections[i].fd := by decide
  exact ⟨hinit, (init_assigns_iff (by decide)).mp (.inr ⟨_, hinit, ⟨by decide, hplaced⟩⟩)⟩

/-- A client that comes alone and asks for the id 5. -/
theorem init_outside :
    let connections : List Connection := [⟨7, 5, by decide⟩]
    init 1 connections = .error (.outside 5) ∧
      ¬ (init 1 connections = .error (.assertion "Two or more clients requested the same id") ∨
        ∃ s, init 1 connections = .ok s ∧ Assigned connections s.clientFds) := by
  intro connections
  have hinit : init 1 connections = .error (.outside 5) := by decide
  refine ⟨hinit, ?_⟩
  rw [hinit]
  rintro (h | ⟨s, h, -⟩)
  · exact absurd h (by decide)
  · cases h

end Server

end Scarab.Pin

import Scarab.Pin.Socket

/-! # Messages on a stream

The connection is a stream without record boundaries, and `scarab_receive` returns what one `recv` happens to
return. So it returns the messages that were sent exactly if the stream is cut where they end. -/

namespace Scarab.Pin

/-! ## What is sent -/

/-- The numbers of bytes that the calls of `::send` take. -/
def counts : List SendResult → List ℕ
  | [] => []
  | .count n :: results => n :: counts results
  | .wouldBlock :: results => counts results
  | .failed :: results => counts results

/-- A message that was sent: no check failed, and no call of `::send` took more than it was given. -/
structure Sending where
  message : List Byte
  results : List SendResult
  written : List Byte
  sent : TcpSocket.send message results = .ok (some (written, []))
  counts_le : ∀ n ∈ counts results, n ≤ message.length

/-- The pieces of the message, each of them taken from its beginning, are the message. -/
def Sending.Spelled (s : Sending) : Prop := (counts s.results).flatMap (s.message.take ·) = s.message

instance (s : Sending) : Decidable s.Spelled := inferInstanceAs (Decidable (_ = _))

namespace TcpSocket

theorem sendLoop_spec {message written written' : List Byte} {results rest : List SendResult} {totalBytesSent : ℕ}
    (h : sendLoop message results written totalBytesSent = .ok (some (written', rest))) :
    ∃ used, results = used ++ rest ∧ written' = written ++ (counts used).flatMap (message.take ·) ∧
      totalBytesSent + (counts used).sum = message.length := by
  induction results generalizing written totalBytesSent with
  | nil => cases h
  | cons r results ih =>
      cases r with
      | wouldBlock =>
          obtain ⟨used, rfl, hwritten, hsum⟩ := ih h
          exact ⟨.wouldBlock :: used, rfl, hwritten, hsum⟩
      | failed => cases h
      | count n =>
          rw [sendLoop] at h
          split at h
          · obtain ⟨used, rfl, hwritten, hsum⟩ := ih h
            refine ⟨.count n :: used, rfl, ?_, ?_⟩
            · rw [hwritten, List.append_assoc]
              rfl
            · rw [counts, List.sum_cons]
              omega
          · split at h
            · cases h
            · next hdone =>
                obtain ⟨rfl, rfl⟩ := Prod.mk.inj (Option.some.inj (Except.ok.inj h))
                exact ⟨[.count n], rfl, by simp [counts], by simp [counts]; omega⟩

end TcpSocket

theorem Sending.written_eq (s : Sending) :
    s.written = (counts s.results).flatMap (s.message.take ·) ∧ s.written.length = s.message.length := by
  obtain ⟨-, hloop⟩ := Execution.ite_error_eq_ok.mp s.sent
  obtain ⟨used, hused, hwritten, hsum⟩ := TcpSocket.sendLoop_spec hloop
  obtain rfl : s.results = used := by rw [hused, List.append_nil]
  refine ⟨hwritten, ?_⟩
  have hlength : ∀ ns : List ℕ, (∀ n ∈ ns, n ≤ s.message.length) →
      (ns.flatMap (s.message.take ·)).length = ns.sum := by
    intro ns hns
    rw [List.length_flatMap]
    congr 1
    refine (List.map_congr_left fun n hn => ?_).trans (List.map_id ns)
    exact List.length_take_of_le (hns n hn)
  rw [hwritten, List.nil_append, hlength _ s.counts_le]
  omega

theorem Sending.spelled_iff (s : Sending) : s.Spelled ↔ s.written = s.message := by
  unfold Spelled
  rw [s.written_eq.1]

/-! ## What is received -/

theorem TcpSocket.scarabReceive_bytes {chunk : List Byte} {reads : List ReadResult} (hne : chunk ≠ []) :
    scarabReceive (.bytes chunk :: reads) = .ok (some (chunk, reads)) := if_neg hne

/-- Every call returns the chunk of a read. -/
theorem TcpSocket.scarabReceives_eq {reads : List ReadResult} (hreads : ∀ r ∈ reads, r.Delivers) {calls : ℕ}
    (hcalls : (chunks reads).length ≤ calls) : scarabReceives calls reads = .ok (chunks reads) := by
  induction reads generalizing calls with
  | nil => cases calls <;> rfl
  | cons r reads ih =>
      obtain ⟨hr, hlater⟩ := List.forall_mem_cons.mp hreads
      rcases hr with rfl | ⟨chunk, rfl, hne, -⟩
      · have hskip : scarabReceives calls (.wouldBlock :: reads) = scarabReceives calls reads := by
          cases calls <;> rfl
        rw [hskip]
        exact ih hlater hcalls
      · cases calls with
        | zero => exact absurd hcalls (Nat.not_succ_le_zero _)
        | succ calls =>
            rw [scarabReceives, scarabReceive_bytes hne]
            simp only [bind, Except.bind]
            rw [ih hlater (Nat.le_of_succ_le_succ hcalls)]
            rfl

/-- A message that one call of `::send` takes as a whole. -/
def Sending.whole (message : List Byte) (h : message.length ≤ receiveBufferMaxSize) : Sending where
  message
  results := [.count message.length]
  written := message
  sent := by simp [TcpSocket.send, TcpSocket.sendLoop, h]
  counts_le := by simp [counts]

/-- A call of `::send` that takes less than the message is followed by one that starts over. -/
example : TcpSocket.send [1, 2] [.count 1, .wouldBlock, .count 1] = .ok (some ([1, 1], [])) := by decide

end Scarab.Pin

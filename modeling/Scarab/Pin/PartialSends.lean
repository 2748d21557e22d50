import Mathlib.Algebra.Order.BigOperators.Group.List
import Mathlib.Algebra.Order.Group.Nat
import Scarab.Pin.Framing

/-! # Sends in part

A call of `::send` may take less than it is offered. `send` then offers the whole buffer again, from its beginning. -/

namespace Scarab.Pin

/-- What `::send` returns while the connection holds: nothing yet, or how much of the offer it took. Only of an empty
offer it takes nothing. -/
def SendResult.Accepts (message : List Byte) (r : SendResult) : Prop :=
  r = .wouldBlock ∨ ∃ n, r = .count n ∧ min 1 message.length ≤ n ∧ n ≤ message.length

/-- The first of the counts make up the message, and each of the pieces that they cut it into is also what the message
begins with. -/
def CutAlike (message : List Byte) (ns : List ℕ) : Prop :=
  ∃ k, (ns.take k).sum = message.length ∧ ∀ piece ∈ (ns.take k).splitLengths message, piece <+: message

theorem counts_append (results results' : List SendResult) :
    counts (results ++ results') = counts results ++ counts results' := by
  induction results with
  | nil => rfl
  | cons r results ih =>
      cases r with
      | wouldBlock => exact ih
      | failed => exact ih
      | count n => exact congrArg (n :: ·) ih

theorem accepts_bounds {message : List Byte} {results : List SendResult} (h : ∀ r ∈ results, r.Accepts message) :
    ∀ n ∈ counts results, min 1 message.length ≤ n ∧ n ≤ message.length := by
  induction results with
  | nil => exact fun n hn => absurd hn List.not_mem_nil
  | cons r results ih =>
      obtain ⟨hr, hlater⟩ := List.forall_mem_cons.mp h
      rcases hr with rfl | ⟨m, rfl, hm⟩
      · exact ih hlater
      · exact List.forall_mem_cons.mpr ⟨hm, ih hlater⟩

/-- Pieces that are each taken from the beginning are the pieces of the message exactly if it begins with all of
those. -/
theorem flatMap_take_eq_iff {message : List Byte} {ns : List ℕ} (hsum : ns.sum = message.length)
    (hns : ∀ n ∈ ns, n ≤ message.length) :
    ns.flatMap (message.take ·) = message ↔ ∀ piece ∈ ns.splitLengths message, piece <+: message := by
  have htaken : (ns.map (message.take ·)).map List.length = ns := by
    rw [List.map_map]
    exact (List.map_congr_left fun n hn => List.length_take_of_le (hns n hn)).trans (List.map_id ns)
  have hcut : (ns.splitLengths message).map List.length = ns :=
    List.map_splitLengths_length _ _ (Nat.le_of_eq hsum)
  have hwhole : (ns.splitLengths message).flatten = message :=
    List.flatten_splitLengths _ _ (Nat.le_of_eq hsum.symm)
  constructor
  · intro h piece hpiece
    have hsame : ns.map (message.take ·) = ns.splitLengths message :=
      List.eq_iff_flatten_eq.mpr ⟨by rw [hwhole, ← List.flatMap_def, h], htaken.trans hcut.symm⟩
    rw [← hsame] at hpiece
    obtain ⟨n, -, rfl⟩ := List.mem_map.mp hpiece
    exact List.take_prefix n message
  · intro h
    have hpieces : (ns.splitLengths message).map (fun piece => message.take piece.length) = ns.splitLengths message :=
      (List.map_congr_left fun piece hpiece => (List.prefix_iff_eq_take.mp (h piece hpiece)).symm).trans (List.map_id _)
    have hsame : ns.map (message.take ·) = ns.splitLengths message := by
      rw [← hpieces, ← hcut, List.map_map, hcut]
      rfl
    rw [List.flatMap_def, hsame, hwhole]

namespace TcpSocket

/-- An empty message is sent with the first call that does not block. -/
theorem sendLoop_nil {results : List SendResult} (hresults : .failed ∉ results)
    (hzero : ∀ n ∈ counts results, min 1 0 ≤ n ∧ n ≤ 0) (hsome : counts results ≠ []) :
    ∃ rest, sendLoop [] results [] 0 = .ok (some ([], rest)) := by
  induction results with
  | nil => exact absurd rfl hsome
  | cons r results ih =>
      have hr := List.ne_of_not_mem_cons hresults
      have hlater := List.not_mem_of_not_mem_cons hresults
      cases r with
      | failed => exact absurd rfl hr
      | wouldBlock => exact ih hlater hzero hsome
      | count n =>
          obtain rfl := Nat.le_zero.mp (hzero n List.mem_cons_self).2
          exact ⟨results, rfl⟩

/-- The loop ends where the counts make up what is left of the message. -/
theorem sendLoop_take {message : List Byte} {results : List SendResult} (hresults : .failed ∉ results)
    (hpos : ∀ n ∈ counts results, 0 < n) (written : List Byte) {totalBytesSent k : ℕ}
    (hlt : totalBytesSent < message.length) (hsum : totalBytesSent + ((counts results).take k).sum = message.length) :
    ∃ rest, sendLoop message results written totalBytesSent =
      .ok (some (written ++ ((counts results).take k).flatMap (message.take ·), rest)) := by
  induction results generalizing written totalBytesSent k with
  | nil =>
      simp only [counts, List.take_nil, List.sum_nil] at hsum
      omega
  | cons r results ih =>
      have hr := List.ne_of_not_mem_cons hresults
      have hlater := List.not_mem_of_not_mem_cons hresults
      cases r with
      | failed => exact absurd rfl hr
      | wouldBlock => exact ih hlater hpos written hlt hsum
      | count n =>
          obtain ⟨-, hpos⟩ := List.forall_mem_cons.mp hpos
          cases k with
          | zero =>
              simp only [List.take_zero, List.sum_nil] at hsum
              omega
          | succ k =>
              simp only [counts, List.take_succ_cons, List.sum_cons, List.flatMap_cons] at hsum ⊢
              rw [sendLoop, ← List.append_assoc]
              by_cases hmore : totalBytesSent + n < message.length
              · rw [if_pos hmore]
                exact ih hlater hpos _ hmore (by omega)
              · have hdone : totalBytesSent + n = message.length := by omega
                -- no count is zero, so none is left
                have hnone : (counts results).take k = [] := by
                  refine List.eq_nil_iff_forall_not_mem.mpr fun m hm => ?_
                  have hm0 := hpos m (List.mem_of_mem_take hm)
                  have hle := List.le_sum_of_mem hm
                  omega
                rw [if_neg hmore, if_neg (not_not.mpr hdone), hnone, List.flatMap_nil, List.append_nil]
                exact ⟨results, rfl⟩

end TcpSocket

/-- A message goes out as it is exactly if the pieces that `::send` takes are all beginnings of it. -/
theorem send_eq_message_iff {message : List Byte} {results : List SendResult}
    (hsize : message.length ≤ receiveBufferMaxSize) (hresults : ∀ r ∈ results, r.Accepts message)
    (hsome : counts results ≠ []) :
    (∃ rest, TcpSocket.send message results = .ok (some (message, rest))) ↔ CutAlike message (counts results) := by
  have hbounds := accepts_bounds hresults
  have hfailed : .failed ∉ results := fun h => by
    rcases hresults _ h with hfail | ⟨n, hfail, -⟩ <;> cases hfail
  rw [TcpSocket.send, if_pos hsize]
  constructor
  · rintro ⟨rest, h⟩
    obtain ⟨used, rfl, hwritten, hsum⟩ := TcpSocket.sendLoop_spec h
    rw [List.nil_append] at hwritten
    rw [Nat.zero_add] at hsum
    have hfirst : (counts (used ++ rest)).take (counts used).length = counts used := by
      rw [counts_append, List.take_left]
    have hused : ∀ n ∈ counts used, n ≤ message.length := fun n hn =>
      (hbounds n (by rw [counts_append]; exact List.mem_append_left _ hn)).2
    refine ⟨(counts used).length, by rw [hfirst, hsum], ?_⟩
    rw [hfirst]
    exact (flatMap_take_eq_iff hsum hused).mp hwritten.symm
  · rintro ⟨k, hsum, hpieces⟩
    have htaken := (flatMap_take_eq_iff hsum fun n hn => (hbounds n (List.mem_of_mem_take hn)).2).mpr hpieces
    cases message with
    | nil => exact TcpSocket.sendLoop_nil hfailed hbounds hsome
    | cons byte message =>
        obtain ⟨rest, h⟩ := TcpSocket.sendLoop_take hfailed (fun n hn => Nat.lt_of_lt_of_le (by simp) (hbounds n hn).1)
          [] (Nat.zero_lt_succ _) ((Nat.zero_add _).trans hsum)
        exact ⟨rest, by rw [h, List.nil_append, htaken]⟩

/-- Two bytes that are alike may go out one at a time. -/
theorem send_eq_message_iff_alike :
    CutAlike [7, 7] (counts [.count 1, .wouldBlock, .count 1]) ∧
      ∃ rest, TcpSocket.send [7, 7] [.count 1, .wouldBlock, .count 1] = .ok (some ([7, 7], rest)) := by
  have hresults : ∀ r ∈ [SendResult.count 1, .wouldBlock, .count 1], r.Accepts [7, 7] := by
    intro r hr
    simp only [List.mem_cons, List.not_mem_nil, or_false] at hr
    rcases hr with rfl | rfl | rfl
    · exact .inr ⟨1, rfl, by decide, by decide⟩
    · exact .inl rfl
    · exact .inr ⟨1, rfl, by decide, by decide⟩
  have halike : CutAlike [7, 7] (counts [.count 1, .wouldBlock, .count 1]) := ⟨2, by decide, by decide⟩
  exact ⟨halike, (send_eq_message_iff (by decide) hresults (by decide)).mpr halike⟩

/-- A second call that takes one byte takes the first one again. -/
theorem send_starts_over :
    (∀ r ∈ [SendResult.count 1, .count 1], r.Accepts [1, 2]) ∧
      TcpSocket.send [1, 2] [.count 1, .count 1] = .ok (some ([1, 1], [])) ∧
      ¬ ∃ rest, TcpSocket.send [1, 2] [.count 1, .count 1] = .ok (some ([1, 2], rest)) := by
  have hsent : TcpSocket.send [1, 2] [.count 1, .count 1] = .ok (some ([1, 1], [])) := by decide
  refine ⟨fun r hr => ?_, hsent, ?_⟩
  · obtain rfl : r = .count 1 := by simpa using hr
    exact .inr ⟨1, rfl, by decide, by decide⟩
  · rintro ⟨rest, h⟩
    rw [hsent] at h
    exact absurd (Prod.mk.inj (Option.some.inj (Except.ok.inj h))).1 (by decide)

/-- And one that takes both bytes takes more than are left. -/
example : TcpSocket.send [1, 2] [.count 1, .count 2] =
    .error "TCPSocket Send did not send the correct number of bytes!" := by decide

end Scarab.Pin

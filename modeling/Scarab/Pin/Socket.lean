import Mathlib.Algebra.GroupWithZero.Nat
import Mathlib.Data.List.SplitLengths
import Scarab.Lib.Execution

/-! # The sockets between PIN and the simulator

`TCPSocket` of `message_queue_interface_lib.cc`. What the system calls return is an input: a call that blocks
returns nothing yet, and where the results end the function still waits. -/

namespace Scarab.Pin

abbrev Byte := BitVec 8

/-- `RECEIVE_BUFFER_MAX_SIZE`. -/
def receiveBufferMaxSize : ℕ := 1 <<< 12

/-- What `::send` returns. -/
inductive SendResult where
  /-- A negative value, with `EWOULDBLOCK` or `EAGAIN`. -/
  | wouldBlock
  /-- A negative value, with another error. -/
  | failed
  | count (n : ℕ)
  deriving DecidableEq, Repr

/-- What `recv` and `read` return, with the bytes they leave in the buffer; none of them if the peer is gone. -/
inductive ReadResult where
  | wouldBlock
  | failed
  | bytes (chunk : List Byte)
  deriving DecidableEq, Repr

namespace TcpSocket

/-! ## Sending -/

/-- The loop of `send`: the bytes that it hands over, and `total_bytes_sent`. -/
def sendLoop (message : List Byte) :
    List SendResult → List Byte → ℕ → Except String (Option (List Byte × List SendResult))
  | [], _, _ => .ok none
  | .wouldBlock :: results, written, totalBytesSent => sendLoop message results written totalBytesSent
  | .failed :: _, _, _ => .error "Send Failed"
  | .count n :: results, written, totalBytesSent =>
      -- every call sends from the beginning of the buffer
      let written := written ++ message.take n
      let totalBytesSent := totalBytesSent + n
      if totalBytesSent < message.length then sendLoop message results written totalBytesSent
      else if totalBytesSent ≠ message.length then
        .error "TCPSocket Send did not send the correct number of bytes!"
      else .ok (some (written, results))

/-- `send`. -/
def send (message : List Byte) (results : List SendResult) : Except String (Option (List Byte × List SendResult)) :=
  if message.length ≤ receiveBufferMaxSize then sendLoop message results [] 0
  else .error "Need to allocation more space in the send buffer"

/-! ## Receiving -/

/-- `scarab_receive`. -/
def scarabReceive : List ReadResult → Except String (Option (List Byte × List ReadResult))
  | [] => .ok none
  | .wouldBlock :: reads => scarabReceive reads
  | .failed :: _ => .error "Receive Failed"
  | .bytes chunk :: reads =>
      if chunk = [] then .error "Socket closed unepectedly on read. PIN process probably died."
      else .ok (some (chunk, reads))

/-- The loops of `pin_receive`, with `receive_buffer` and `bytes_recv`. -/
def pinFill (numBytesRecv : ℕ) :
    List ReadResult → List Byte → ℤ → Except String (List Byte × ℤ × List ReadResult)
  | [], receiveBuffer, bytesRecv => .ok (receiveBuffer, bytesRecv, [])
  | r :: reads, receiveBuffer, bytesRecv =>
      if receiveBuffer.length < numBytesRecv then
        match r with
        -- the inner loop goes on, and would find the outer condition as it was
        | .wouldBlock => pinFill numBytesRecv reads receiveBuffer (-1)
        | .failed => .error "Receive Failed (pin_receive)"
        | .bytes chunk =>
            if chunk = [] then .error "Socket closed unexpectedly on read. Scarab process probably died."
            else pinFill numBytesRecv reads (receiveBuffer ++ chunk) chunk.length
      else .ok (receiveBuffer, bytesRecv, r :: reads)

/-- `pin_receive`: the message, if there is one yet, and `receive_buffer`. -/
def pinReceive (numBytesRecv : ℕ) (receiveBuffer : List Byte) (reads : List ReadResult) :
    Except String (Option (List Byte) × List Byte × List ReadResult) := do
  let (receiveBuffer, bytesRecv, reads) ← pinFill numBytesRecv reads receiveBuffer 0
  if receiveBuffer.length < numBytesRecv then return (none, receiveBuffer, reads)
  else if bytesRecv < 0 then .error "Receive Failed (pin_receive)"
  else return (some (receiveBuffer.take numBytesRecv), receiveBuffer.drop numBytesRecv, reads)

/-! ## Calls one after another -/

/-- Successive calls of `scarab_receive`. -/
def scarabReceives : ℕ → List ReadResult → Except String (List (List Byte))
  | 0, _ => .ok []
  | calls + 1, reads => do
      match ← scarabReceive reads with
      | none => return []
      | some (message, reads) => return message :: (← scarabReceives calls reads)

/-- Successive calls of `pin_receive`, each for a number of bytes, as far as they return. -/
def pinReceives : List ℕ → List Byte → List ReadResult → Except String (List (List Byte) × List Byte × List ReadResult)
  | [], receiveBuffer, reads => .ok ([], receiveBuffer, reads)
  | size :: sizes, receiveBuffer, reads => do
      match ← pinReceive size receiveBuffer reads with
      | (none, receiveBuffer, reads) => return ([], receiveBuffer, reads)
      | (some message, receiveBuffer, reads) =>
          let (messages, receiveBuffer, reads) ← pinReceives sizes receiveBuffer reads
          return (message :: messages, receiveBuffer, reads)

end TcpSocket

/-! ## A stream in pieces -/

/-- A read of a stream that is not over: nothing yet, or a chunk that fits the buffer. -/
def ReadResult.Delivers (r : ReadResult) : Prop :=
  r = .wouldBlock ∨ ∃ chunk, r = .bytes chunk ∧ chunk ≠ [] ∧ chunk.length ≤ receiveBufferMaxSize

/-- The chunks of the reads. -/
def chunks : List ReadResult → List (List Byte)
  | [] => []
  | .bytes chunk :: reads => chunk :: chunks reads
  | .wouldBlock :: reads => chunks reads
  | .failed :: reads => chunks reads

/-- The bytes of the reads. -/
def stream (reads : List ReadResult) : List Byte := (chunks reads).flatten

theorem chunks_append (reads reads' : List ReadResult) : chunks (reads ++ reads') = chunks reads ++ chunks reads' := by
  induction reads with
  | nil => rfl
  | cons r reads ih =>
      cases r with
      | wouldBlock => exact ih
      | failed => exact ih
      | bytes chunk => exact congrArg (chunk :: ·) ih

theorem stream_append (reads reads' : List ReadResult) : stream (reads ++ reads') = stream reads ++ stream reads' := by
  unfold stream
  rw [chunks_append, List.flatten_append]

/-! ## Buffered receiving -/

namespace TcpSocket

/-- The loop reads only what it needs, and all of it if that is not enough. -/
theorem pinFill_spec {size : ℕ} {reads : List ReadResult} (hreads : ∀ r ∈ reads, r.Delivers) (receiveBuffer : List Byte)
    (bytesRecv : ℤ) : ∃ used rest bytesRecv', reads = used ++ rest ∧
      pinFill size reads receiveBuffer bytesRecv = .ok (receiveBuffer ++ stream used, bytesRecv', rest) ∧
        ((receiveBuffer ++ stream used).length < size → rest = []) ∧
        (size ≤ (receiveBuffer ++ stream used).length → 0 ≤ bytesRecv ∨ receiveBuffer.length < size → 0 ≤ bytesRecv') := by
  induction reads generalizing receiveBuffer bytesRecv with
  | nil =>
      refine ⟨[], [], bytesRecv, rfl, by simp [pinFill, stream, chunks], fun _ => rfl, fun hsize hnonneg => ?_⟩
      rcases hnonneg with hnonneg | hlt
      · exact hnonneg
      · simp only [stream, chunks, List.flatten_nil, List.append_nil] at hsize
        exact absurd hlt (Nat.not_lt_of_le hsize)
  | cons r reads ih =>
      obtain ⟨hr, hlater⟩ := List.forall_mem_cons.mp hreads
      unfold pinFill
      by_cases hlt : receiveBuffer.length < size
      · rw [if_pos hlt]
        rcases hr with rfl | ⟨chunk, rfl, hne, -⟩
        · obtain ⟨used, rest, bytesRecv', rfl, hfill, hempty, hnonneg⟩ := ih hlater receiveBuffer (-1)
          exact ⟨.wouldBlock :: used, rest, bytesRecv', rfl, hfill, hempty, fun hsize _ => hnonneg hsize (.inr hlt)⟩
        · obtain ⟨used, rest, bytesRecv', rfl, hfill, hempty, hnonneg⟩ := ih hlater (receiveBuffer ++ chunk) chunk.length
          have hstream : receiveBuffer ++ stream (.bytes chunk :: used) = receiveBuffer ++ chunk ++ stream used := by
            simp [stream, chunks, List.append_assoc]
          refine ⟨.bytes chunk :: used, rest, bytesRecv', rfl, ?_, ?_, fun hsize _ => ?_⟩
          · rw [hstream]
            simpa only [hne, if_false] using hfill
          · rw [hstream]
            exact hempty
          · rw [hstream] at hsize
            exact hnonneg hsize (.inl (Int.natCast_nonneg _))
      · rw [if_neg hlt]
        refine ⟨[], r :: reads, bytesRecv, rfl, by simp [stream, chunks], ?_, fun _ hnonneg => ?_⟩
        · simp only [stream, chunks, List.flatten_nil, List.append_nil]
          exact fun h => absurd h hlt
        · exact hnonneg.resolve_right hlt

theorem pinReceive_spec (size : ℕ) {reads : List ReadResult} (hreads : ∀ r ∈ reads, r.Delivers) (receiveBuffer : List Byte) :
    ∃ used rest, reads = used ++ rest ∧
      (pinReceive size receiveBuffer reads = .ok (none, receiveBuffer ++ stream used, rest) ∧ rest = [] ∧
          (receiveBuffer ++ stream used).length < size ∨
        pinReceive size receiveBuffer reads = .ok (some ((receiveBuffer ++ stream used).take size),
          (receiveBuffer ++ stream used).drop size, rest) ∧ size ≤ (receiveBuffer ++ stream used).length) := by
  obtain ⟨used, rest, bytesRecv', hsplit, hfill, hempty, hnonneg⟩ := pinFill_spec hreads receiveBuffer 0
  refine ⟨used, rest, hsplit, ?_⟩
  unfold pinReceive
  rw [hfill]
  simp only [bind, Except.bind, pure, Except.pure]
  by_cases hlt : (receiveBuffer ++ stream used).length < size
  · rw [if_pos hlt]
    exact .inl ⟨rfl, hempty hlt, hlt⟩
  · have hsize := Nat.le_of_not_lt hlt
    have hread : ¬ bytesRecv' < 0 := Int.not_lt.mpr (hnonneg hsize (.inl (Int.le_refl 0)))
    rw [if_neg hlt, if_neg hread]
    exact .inr ⟨rfl, hsize⟩

/-- Calls of `pin_receive` that returned some messages, and left some bytes in `receive_buffer`. -/
structure Slices (sizes : List ℕ) (receiveBuffer : List Byte) (reads : List ReadResult) (messages : List (List Byte))
    (receiveBuffer' : List Byte) (rest : List ReadResult) : Prop where
  /-- The buffer holds what was read and not returned. -/
  held : ∃ used, reads = used ++ rest ∧ messages.flatten ++ receiveBuffer' = receiveBuffer ++ stream used
  /-- The messages are the next bytes of the stream, cut to the sizes. -/
  cut : messages = (sizes.take messages.length).splitLengths (receiveBuffer ++ stream reads)
  lengths : messages.map List.length = sizes.take messages.length
  /-- A call waits only for bytes that are not there. -/
  waits : messages.length < sizes.length → rest = [] ∧ ∃ size, sizes[messages.length]? = some size ∧
    receiveBuffer'.length < size

/-- Successive calls of `pin_receive` return successive slices of the stream, each as long as asked for, and as soon
as they are there. -/
theorem pinReceives_slices (sizes : List ℕ) (receiveBuffer : List Byte) {reads : List ReadResult}
    (hreads : ∀ r ∈ reads, r.Delivers) : ∃ messages receiveBuffer' rest,
      pinReceives sizes receiveBuffer reads = .ok (messages, receiveBuffer', rest) ∧
        Slices sizes receiveBuffer reads messages receiveBuffer' rest ∧
          (sizes.sum ≤ (receiveBuffer ++ stream reads).length → messages.length = sizes.length) := by
  induction sizes generalizing receiveBuffer reads with
  | nil =>
      refine ⟨[], receiveBuffer, reads, rfl, ⟨⟨[], rfl, by simp [stream, chunks]⟩, rfl, rfl, nofun⟩, fun _ => rfl⟩
  | cons size sizes ih =>
      obtain ⟨used, rest, rfl, hwait | hreturn⟩ := pinReceive_spec size hreads receiveBuffer
      · obtain ⟨hreceive, rfl, hlt⟩ := hwait
        refine ⟨[], receiveBuffer ++ stream used, [], ?_, ⟨⟨used, rfl, rfl⟩, rfl, rfl, fun _ => ⟨rfl, size, rfl, hlt⟩⟩, ?_⟩
        · rw [pinReceives, hreceive]
          rfl
        · intro hsum
          rw [List.append_nil, List.sum_cons] at hsum
          omega
      · obtain ⟨hreceive, hsize⟩ := hreturn
        have hrest : ∀ r ∈ rest, r.Delivers := fun r hr => hreads r (List.mem_append_right used hr)
        obtain ⟨messages, receiveBuffer', last, hrun, hslices, hall⟩ := ih ((receiveBuffer ++ stream used).drop size) hrest
        have hstream : (receiveBuffer ++ stream (used ++ rest)).drop size =
            (receiveBuffer ++ stream used).drop size ++ stream rest := by
          rw [stream_append, ← List.append_assoc, List.drop_append_of_le_length hsize]
        have hfirst : (receiveBuffer ++ stream (used ++ rest)).take size = (receiveBuffer ++ stream used).take size := by
          rw [stream_append, ← List.append_assoc, List.take_append_of_le_length hsize]
        refine ⟨(receiveBuffer ++ stream used).take size :: messages, receiveBuffer', last, ?_, ⟨?_, ?_, ?_, ?_⟩, ?_⟩
        · rw [pinReceives, hreceive]
          simp only [bind, Except.bind]
          rw [hrun]
          rfl
        · obtain ⟨later, rfl, hheld⟩ := hslices.held
          refine ⟨used ++ later, (List.append_assoc _ _ _).symm, ?_⟩
          rw [List.flatten_cons, List.append_assoc, hheld, ← List.append_assoc, List.take_append_drop, stream_append,
            List.append_assoc]
        · rw [List.length_cons, List.take_succ_cons, List.splitLengths_cons, hfirst, hstream, ← hslices.cut]
        · rw [List.map_cons, List.length_cons, List.take_succ_cons, hslices.lengths, List.length_take,
            Nat.min_eq_left hsize]
        · intro hlt
          exact hslices.waits (Nat.lt_of_succ_lt_succ hlt)
        · intro hsum
          rw [List.length_cons, List.length_cons, hall]
          rw [List.sum_cons, stream_append] at hsum
          rw [List.length_append, List.length_drop]
          simp only [List.length_append] at hsum ⊢
          omega

/-- A chunk that holds a message and a half, and the other half after a read that blocked. -/
theorem pinReceives_slices_coalesced :
    ∃ messages receiveBuffer' rest, pinReceives [2, 2] [] [.bytes [1, 2, 3], .wouldBlock, .bytes [4, 5]] =
        .ok (messages, receiveBuffer', rest) ∧ messages = [[1, 2], [3, 4]] ∧ receiveBuffer' = [5] ∧
      Slices [2, 2] [] [.bytes [1, 2, 3], .wouldBlock, .bytes [4, 5]] messages receiveBuffer' rest := by
  have hreads : ∀ r ∈ [ReadResult.bytes [1, 2, 3], .wouldBlock, .bytes [4, 5]], r.Delivers := by
    intro r hr
    simp only [List.mem_cons, List.not_mem_nil, or_false] at hr
    rcases hr with rfl | rfl | rfl
    · exact .inr ⟨_, rfl, by decide, by decide⟩
    · exact .inl rfl
    · exact .inr ⟨_, rfl, by decide, by decide⟩
  obtain ⟨messages, receiveBuffer', rest, hrun, hslices, -⟩ := pinReceives_slices [2, 2] [] hreads
  have hrun' : pinReceives [2, 2] [] [.bytes [1, 2, 3], .wouldBlock, .bytes [4, 5]] =
    .ok ([[1, 2], [3, 4]], [5], []) := by decide
  obtain ⟨hmessages, hrest⟩ := Prod.mk.inj (Except.ok.inj (hrun.symm.trans hrun'))
  exact ⟨messages, receiveBuffer', rest, hrun, hmessages, (Prod.mk.inj hrest).1, hslices⟩

end TcpSocket

end Scarab.Pin

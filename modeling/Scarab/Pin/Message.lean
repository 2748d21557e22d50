import Scarab.Pin.Socket

/-! # Messages

`MessageBase` and the three forms of `Message` of `message_queue_interface_lib.h`. A message of a plain type
replaces its bytes when it is assigned to; one of a vector or a deque adds to them. -/

namespace Scarab.Pin

/-- `MAX_PACKET_SIZE`. -/
def maxPacketSize : ℕ := 1 <<< 12

/-- A type whose values are the bytes of their objects. -/
class Plain (α : Type) where
  /-- `sizeof`. -/
  size : ℕ
  encode : α → List Byte
  decode : List Byte → α
  size_pos : 0 < size
  encode_length : ∀ a, (encode a).length = size
  decode_encode : ∀ a, decode (encode a) = a

structure MessageBase where
  data : List Byte
  dataSize : ℕ
  deriving DecidableEq, Repr

namespace MessageBase

/-- The default constructor. -/
def init : MessageBase := ⟨[], 0⟩

/-- The constructor from bytes that were received. -/
def ofBytes (obj : List Byte) : Except String MessageBase :=
  let dataSize := obj.length % 2 ^ 32
  if dataSize ≤ maxPacketSize then .ok ⟨obj, dataSize⟩
  else .error "Scarab does not currently support sending messages larger than MAX_PACKET_SIZE.\n"

def size (m : MessageBase) : ℕ := m.dataSize

def getRawData (m : MessageBase) : List Byte := m.data

end MessageBase

section

variable {α : Type} [Plain α]

/-! ## Plain types -/

namespace Message

/-- `Message<T>::copy`. -/
def copy (m : MessageBase) (object : α) : Except String MessageBase :=
  let dataSize := Plain.size α % 2 ^ 32
  if dataSize ≤ maxPacketSize then .ok { m with data := (Plain.encode object).take dataSize, dataSize }
  else .error "Scarab does not currently support sending messages larger than MAX_PACKET_SIZE.\n"

/-- The conversion of `Message<T>` to `T`. -/
def toValue (m : MessageBase) : Except String α :=
  if Plain.size α % 2 ^ 32 = m.dataSize then .ok (Plain.decode m.data)
  else .error "Recieve type is not the same size as the send type"

end Message

/-! ## Sequences -/

/-- The bytes of the elements. -/
def serialize (object : List α) : List Byte := object.flatMap Plain.encode

/-- `copy` of a sequence. -/
def copySequence (m : MessageBase) (object : List α) : Except String MessageBase :=
  let dataSize := object.length * Plain.size α % 2 ^ 32
  if dataSize ≤ maxPacketSize then
    -- the elements are inserted at the end of what is there
    .ok { m with data := m.data ++ serialize object, dataSize }
  else .error "Scarab does not currently support sending messages larger than MAX_PACKET_SIZE.\n"

/-- The conversion to a sequence: one element for each `sizeof(T)` bytes, as far as `data_size` goes. -/
def toSequence (m : MessageBase) : List α :=
  (List.range (m.dataSize / Plain.size α)).map fun i =>
    Plain.decode ((m.data.drop (i * Plain.size α)).take (Plain.size α))

namespace MessageVector

/-- `Message<std::vector<T>>::copy`. -/
def copy (m : MessageBase) (object : List α) : Except String MessageBase := copySequence m object

/-- The conversion of `Message<std::vector<T>>` to `std::vector<T>`. -/
def toValue (m : MessageBase) : Except String (List α) := .ok (toSequence m)

end MessageVector

namespace MessageDeque

/-- `Message<std::deque<T>>::copy`. -/
def copy (m : MessageBase) (object : List α) : Except String MessageBase := copySequence m object

/-- The conversion of `Message<std::deque<T>>` to `std::deque<T>`. -/
def toValue (m : MessageBase) : Except String (List α) := .ok (toSequence m)

end MessageDeque

/-! ## What a sequence of elements is as bytes -/

theorem serialize_cons (a : α) (object : List α) : serialize (a :: object) = Plain.encode a ++ serialize object := rfl

theorem serialize_length (object : List α) : (serialize object).length = object.length * Plain.size α := by
  induction object with
  | nil => simp [serialize]
  | cons a object ih =>
      rw [serialize_cons, List.length_append, Plain.encode_length, ih, List.length_cons, Nat.succ_mul, Nat.add_comm]

theorem serialize_eq_nil {object : List α} : serialize object = [] ↔ object = [] := by
  rw [← List.length_eq_zero_iff, ← List.length_eq_zero_iff, serialize_length, Nat.mul_eq_zero]
  exact or_iff_left (Nat.ne_of_gt Plain.size_pos)

/-- The bytes of an element are where its index says. -/
theorem serialize_getElem (object : List α) {i : ℕ} (hi : i < object.length) :
    ((serialize object).drop (i * Plain.size α)).take (Plain.size α) = Plain.encode object[i] := by
  induction object generalizing i with
  | nil => exact absurd hi (Nat.not_lt_zero i)
  | cons a object ih =>
      rw [serialize_cons]
      cases i with
      | zero =>
          rw [Nat.zero_mul, List.drop_zero]
          exact List.take_left' (Plain.encode_length a)
      | succ i =>
          have hskip : (i + 1) * Plain.size α = (Plain.encode a).length + i * Plain.size α := by
            rw [Plain.encode_length, Nat.succ_mul, Nat.add_comm]
          rw [hskip, List.drop_length_add_append, List.getElem_cons_succ]
          exact ih (Nat.lt_of_succ_lt_succ hi)

theorem toSequence_serialize (object : List α) :
    toSequence ⟨serialize object, object.length * Plain.size α⟩ = object := by
  unfold toSequence
  dsimp only
  rw [Nat.mul_div_cancel _ (Plain.size_pos (α := α))]
  apply List.ext_getElem
  · simp
  · intro i _ hi
    rw [List.getElem_map, List.getElem_range, serialize_getElem object hi, Plain.decode_encode]

/-! ## Assignments -/

/-- The message holds the value: its bytes are those of the value, as many as will be sent, and it gives it back. -/
structure Holds {β : Type} (toValue : MessageBase → Except String β) (encode : β → List Byte) (m : MessageBase) (v : β) :
    Prop where
  raw : m.getRawData = encode v
  value : toValue m = .ok v
  size : m.size = m.getRawData.length

theorem size_mod {n : ℕ} (h : n ≤ maxPacketSize) : n % 2 ^ 32 = n :=
  Nat.mod_eq_of_lt (Nat.lt_of_le_of_lt h (by decide))

/-- The bytes of a message that holds a value make the same message at the other end. -/
theorem Holds.received {β : Type} {toValue : MessageBase → Except String β} {encode : β → List Byte} {m : MessageBase}
    {v : β} (h : Holds toValue encode m v) (hsize : m.size ≤ maxPacketSize) :
    MessageBase.ofBytes m.getRawData = .ok m := by
  have hlength : m.getRawData.length = m.dataSize := h.size.symm
  have hmod : m.getRawData.length % 2 ^ 32 = m.dataSize := by
    rw [hlength]
    exact size_mod hsize
  unfold MessageBase.ofBytes
  rw [hmod]
  exact if_pos hsize

/-- An assignment of a plain value leaves nothing of what was there. -/
theorem copy_holds (m : MessageBase) (object : α) (hsize : Plain.size α ≤ maxPacketSize) :
    ∃ m', Message.copy m object = .ok m' ∧ Holds Message.toValue Plain.encode m' object := by
  have hmod := size_mod hsize
  have hdata : (Plain.encode object).take (Plain.size α) = Plain.encode object :=
    List.take_of_length_le (Nat.le_of_eq (Plain.encode_length object))
  refine ⟨⟨Plain.encode object, Plain.size α⟩, ?_, rfl, ?_, (Plain.encode_length object).symm⟩
  · unfold Message.copy
    rw [hmod]
    dsimp only
    rw [hdata]
    exact if_pos hsize
  · unfold Message.toValue
    rw [hmod, Plain.decode_encode]
    exact if_pos rfl

theorem copySequence_eq (m : MessageBase) {object : List α} (hsize : object.length * Plain.size α ≤ maxPacketSize) :
    copySequence m object = .ok ⟨m.data ++ serialize object, object.length * Plain.size α⟩ := by
  unfold copySequence
  rw [size_mod hsize]
  exact if_pos hsize

/-- Assignments of sequences pile up their bytes. -/
theorem run_copySequence (m : MessageBase) (earlier : List (List α)) {last : List α}
    (hsize : ∀ v ∈ earlier ++ [last], v.length * Plain.size α ≤ maxPacketSize) :
    Execution.run copySequence m (earlier ++ [last]) =
      .ok ⟨m.data ++ earlier.flatMap serialize ++ serialize last, last.length * Plain.size α⟩ := by
  induction earlier generalizing m with
  | nil =>
      refine Execution.run_cons_eq_ok.mpr ⟨_, copySequence_eq m (hsize last (by simp)), ?_⟩
      simp
  | cons v earlier ih =>
      obtain ⟨hv, hlater⟩ := List.forall_mem_cons.mp hsize
      refine Execution.run_cons_eq_ok.mpr ⟨_, copySequence_eq m hv, ?_⟩
      refine (ih _ hlater).trans ?_
      simp only [List.flatMap_cons, List.append_assoc]

/-- So a sequence is held exactly if nothing was there before. -/
theorem holds_sequence (data : List Byte) (earlier : List (List α)) (last : List α) :
    Holds (fun m => .ok (toSequence m)) serialize
        ⟨data ++ earlier.flatMap serialize ++ serialize last, last.length * Plain.size α⟩ last ↔
      data = [] ∧ ∀ v ∈ earlier, v = [] := by
  constructor
  · intro h
    have hnothing : data ++ earlier.flatMap serialize = [] := List.append_left_eq_self.mp h.raw
    obtain ⟨hdata, hearlier⟩ := List.append_eq_nil_iff.mp hnothing
    refine ⟨hdata, fun v hv => serialize_eq_nil.mp ?_⟩
    exact List.flatMap_eq_nil_iff.mp hearlier v hv
  · rintro ⟨rfl, hempty⟩
    have hearlier : earlier.flatMap serialize = [] :=
      List.flatMap_eq_nil_iff.mpr fun v hv => serialize_eq_nil.mpr (hempty v hv)
    rw [hearlier, List.nil_append, List.nil_append]
    exact ⟨rfl, congrArg Except.ok (toSequence_serialize last), (serialize_length last).symm⟩

/-- After assignments that fit a packet, a message of a plain type holds the last value. One of a vector or a deque
holds it exactly if the message had no bytes at first, and the values before the last had no elements. -/
theorem message_holds_last (m : MessageBase) :
    (∀ (earlier : List α) (last : α), Plain.size α ≤ maxPacketSize → ∃ m',
      Execution.run Message.copy m (earlier ++ [last]) = .ok m' ∧ Holds Message.toValue Plain.encode m' last) ∧
    (∀ (earlier : List (List α)) (last : List α),
      (∀ v ∈ earlier ++ [last], v.length * Plain.size α ≤ maxPacketSize) →
        (∃ m', Execution.run MessageVector.copy m (earlier ++ [last]) = .ok m' ∧
          (Holds MessageVector.toValue serialize m' last ↔ m.data = [] ∧ ∀ v ∈ earlier, v = [])) ∧
        ∃ m', Execution.run MessageDeque.copy m (earlier ++ [last]) = .ok m' ∧
          (Holds MessageDeque.toValue serialize m' last ↔ m.data = [] ∧ ∀ v ∈ earlier, v = [])) := by
  constructor
  · intro earlier last hsize
    induction earlier generalizing m with
    | nil =>
        obtain ⟨m', hcopy, hholds⟩ := copy_holds m last hsize
        exact ⟨m', Execution.run_cons_eq_ok.mpr ⟨m', hcopy, rfl⟩, hholds⟩
    | cons v earlier ih =>
        obtain ⟨t, hcopy, -⟩ := copy_holds m v hsize
        obtain ⟨m', hrun, hholds⟩ := ih t
        exact ⟨m', Execution.run_cons_eq_ok.mpr ⟨t, hcopy, hrun⟩, hholds⟩
  · intro earlier last hsize
    exact ⟨⟨_, run_copySequence m earlier hsize, holds_sequence m.data earlier last⟩,
      _, run_copySequence m earlier hsize, holds_sequence m.data earlier last⟩

end

/-! ## Assigning twice -/

/-- `uint8_t`. -/
instance : Plain Byte where
  size := 1
  encode b := [b]
  decode bytes := bytes.headD 0
  size_pos := Nat.one_pos
  encode_length _ := rfl
  decode_encode _ := rfl

/-- A vector that is assigned over another one. -/
theorem message_holds_both : ∃ m, Execution.run MessageVector.copy MessageBase.init [[(1 : Byte)], [2]] = .ok m ∧
    m.getRawData = [1, 2] ∧ MessageVector.toValue m = .ok [(1 : Byte)] ∧ m.size = 1 ∧
      ¬ Holds MessageVector.toValue serialize m [(2 : Byte)] := by
  refine ⟨⟨[1, 2], 1⟩, by decide, rfl, by decide, rfl, fun h => ?_⟩
  exact absurd h.raw (by decide)

theorem message_holds_last_assigned : ∃ m m', Execution.run Message.copy MessageBase.init [(1 : Byte), 2] = .ok m ∧
    Holds Message.toValue Plain.encode m (2 : Byte) ∧
      Execution.run MessageVector.copy MessageBase.init [[], [(1 : Byte), 2]] = .ok m' ∧
        Holds MessageVector.toValue serialize m' [(1 : Byte), 2] := by
  obtain ⟨hplain, hsequence⟩ := message_holds_last (α := Byte) MessageBase.init
  obtain ⟨m, hm, hholds⟩ := hplain [1] 2 (by decide)
  obtain ⟨⟨m', hm', hiff⟩, -⟩ := hsequence [[]] [1, 2] (by decide)
  exact ⟨m, m', hm, hholds, hm', hiff.mpr ⟨rfl, by decide⟩⟩

end Scarab.Pin

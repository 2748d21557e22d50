import Mathlib.Data.Int.Notation
import Mathlib.Logic.Function.Basic
import Scarab.Lib.Execution
import Scarab.Lib.Linked

/-! # The list library

Entries that are linked through pointers. A list keeps the entries taken out of it on a free
list of its own, or gives them back to `free`. -/

namespace Scarab.ListLib

/-- `List`. The pointers are to entries, which have numbers, and NULL is `none`. -/
structure LinkedList where
  head : Option ℕ
  tail : Option ℕ
  /-- The current element, for traversals. -/
  current : Option ℕ
  free : Option ℕ
  count : ℤ
  /-- The place of `current` in the list, from 0. -/
  place : ℤ
  useFreeList : Bool
  freeCount : ℤ
  totalCount : ℤ

/-- The memory that the lists share. What is in an entry that is not allocated does not matter. -/
structure Heap where
  next : ℕ → Option ℕ
  prev : ℕ → Option ℕ
  allocated : ℕ → Bool
  /-- The calls of `malloc` so far. -/
  mallocs : ℕ

/-- What an operation on one list gets at. -/
structure View where
  heap : Heap
  list : LinkedList

def View.setNext (v : View) (entry : ℕ) (q : Option ℕ) : View :=
  { v with heap.next := Function.update v.heap.next entry q }

def View.setPrev (v : View) (entry : ℕ) (q : Option ℕ) : View :=
  { v with heap.prev := Function.update v.heap.prev entry q }

/-- `entry->`, which NULL does not allow. -/
def deref : Option ℕ → Except String ℕ
  | none => .error "NULL"
  | some entry => .ok entry

/-- `init_list`. It leaves `current` and `place` as they are. -/
def initList (list : LinkedList) (useFreeList : Bool) : LinkedList :=
  { list with
    head := none
    tail := none
    free := none
    count := 0
    useFreeList
    freeCount := 0
    totalCount := 0 }

/-! ## Allocation -/

/-- `FREE_LIST_ALLOC_SIZE`. -/
def freeListAllocSize : ℕ := 8

-- what each call of `malloc` returns
variable (ret : ℕ → Option ℕ)

/-- `malloc` of entries that lie one after the other, none of which is in use. -/
def Heap.malloc (h : Heap) (n : ℕ) : Except String (ℕ × Heap) :=
  match ret h.mallocs with
  | none => .error "ASSERT: rval"
  | some rval =>
      if (List.range' rval n).any h.allocated then .error "malloc: in use"
      else .ok (rval, { h with
        allocated := fun entry => (List.range' rval n).contains entry || h.allocated entry
        mallocs := h.mallocs + 1 })

/-- `free` of one entry. -/
def Heap.free (h : Heap) (entry : ℕ) : Except String Heap :=
  if h.allocated entry then .ok { h with allocated := Function.update h.allocated entry false }
  else .error "free: not allocated"

/-- The loop of `get_list_entry` that links the rest of a block, `n` times round. -/
def linkBlock (next : ℕ → Option ℕ) (temp : ℕ) : ℕ → ℕ → Option ℕ
  | 0 => Function.update next temp none
  | n + 1 => linkBlock (Function.update next temp (some (temp + 1))) (temp + 1) n

/-- `get_list_entry`. -/
def getListEntry (v : View) : Except String (ℕ × View) :=
  if v.list.useFreeList then
    match v.list.free with
    | some temp =>
        .ok (temp, { v with
          list.free := v.heap.next temp
          list.freeCount := v.list.freeCount - 1 })
    | none => do
        let (rval, heap) ← v.heap.malloc ret freeListAllocSize
        return (rval, { v with
          heap := { heap with next := linkBlock heap.next (rval + 1) (freeListAllocSize - 2) }
          list.free := some (rval + 1)
          list.totalCount := v.list.totalCount + freeListAllocSize
          list.freeCount := v.list.freeCount + (freeListAllocSize - 1) })
  else do
    let (rval, heap) ← v.heap.malloc ret 1
    return (rval, { v with heap, list.totalCount := v.list.totalCount + 1 })

/-- `free_list_entry`. -/
def freeListEntry (v : View) (entry : ℕ) : Except String View :=
  if v.list.useFreeList then
    let v := v.setNext entry v.list.free
    .ok { v with
      list.free := some entry
      list.freeCount := v.list.freeCount + 1
      list.count := v.list.count - 1 }
  else do
    let heap ← v.heap.free entry
    return { v with
      heap
      list.totalCount := v.list.totalCount - 1
      list.count := v.list.count - 1 }

/-- `for(temp0 = ..; temp0 != NULL; temp0 = temp1)`, which frees what it goes over, at most `n`
times round. -/
def freeAll : ℕ → Option ℕ → Heap → Except String Heap
  | _, none, h => .ok h
  | 0, some _, _ => .error "more entries than were ever allocated"
  | n + 1, some temp0, h => do
      let temp1 := h.next temp0
      let h ← h.free temp0
      freeAll n temp1 h

/-- No loop can free more entries than this. -/
def Heap.bound (h : Heap) : ℕ := freeListAllocSize * h.mallocs

/-! ## Clearing and clipping -/

/-- `clear_list`. -/
def clearList (v : View) : Except String View :=
  match v.list.tail with
  | some tail =>
      if v.list.useFreeList then
        let v := v.setNext tail v.list.free
        .ok { v with
          list.free := v.list.head
          list.freeCount := v.list.freeCount + v.list.count
          list.head := none
          list.tail := none
          list.count := 0 }
      else do
        let heap ← freeAll v.heap.bound v.list.head v.heap
        return { v with
          heap
          list.head := none
          list.tail := none
          list.count := 0 }
  | none => if v.list.count = 0 then .ok v else .error "ASSERT: list->count == 0"

/-- `clip_list_at_current`. -/
def clipListAtCurrent (v : View) : Except String View :=
  match v.list.current with
  | none => .error "ASSERT: list->current"
  | some current =>
      match v.heap.next current with
      | none => .ok v
      | some next => do
          let v ← (
            if v.list.useFreeList then do
              let tail ← deref v.list.tail
              let v := v.setNext tail v.list.free
              let v := { v with list.free := v.heap.next current }
              let v := v.setNext current none
              return { v with
                list.freeCount := v.list.freeCount + (v.list.count - (v.list.place + 1)) }
            else do
              let heap ← freeAll v.heap.bound (some next) v.heap
              return { v with heap })
          let v := v.setNext current none
          return { v with
            list.tail := some current
            list.count := v.list.place + 1 }

/-! ## Adding -/

/-- `sl_list_add_tail`. -/
def slListAddTail (v : View) : Except String (Option ℕ × View) := do
  let (temp, v) ← getListEntry ret v
  let v := v.setNext temp none
  if v.list.count = 0 then
    return (some temp, { v with
      list.head := some temp
      list.tail := some temp
      list.count := v.list.count + 1 })
  else do
    let tail ← deref v.list.tail
    let v := v.setNext tail (some temp)
    return (some temp, { v with
      list.tail := some temp
      list.count := v.list.count + 1 })

/-- `dl_list_add_tail`. -/
def dlListAddTail (v : View) : Except String (Option ℕ × View) := do
  let (temp, v) ← getListEntry ret v
  let v := (v.setNext temp none).setPrev temp none
  if v.list.count = 0 then
    let v := v.setPrev temp none
    return (some temp, { v with
      list.head := some temp
      list.tail := some temp
      list.count := v.list.count + 1 })
  else do
    let v := v.setPrev temp v.list.tail
    let tail ← deref v.list.tail
    let v := v.setNext tail (some temp)
    return (some temp, { v with
      list.tail := some temp
      list.count := v.list.count + 1 })

/-- `sl_list_add_head`. -/
def slListAddHead (v : View) : Except String (Option ℕ × View) := do
  let (temp, v) ← getListEntry ret v
  let v := v.setNext temp v.list.head
  return (some temp, { v with
    list.head := some temp
    list.tail := if v.list.count = 0 then some temp else v.list.tail
    list.count := v.list.count + 1 })

/-- `dl_list_add_head`. -/
def dlListAddHead (v : View) : Except String (Option ℕ × View) := do
  let (temp, v) ← getListEntry ret v
  let v := (v.setNext temp v.list.head).setPrev temp none
  if v.list.count = 0 then
    return (some temp, { v with
      list.tail := some temp
      list.head := some temp
      list.count := v.list.count + 1 })
  else do
    let head ← deref v.list.head
    let v := v.setPrev head (some temp)
    return (some temp, { v with
      list.head := some temp
      list.count := v.list.count + 1 })

/-- `sl_list_add_after_current`. -/
def slListAddAfterCurrent (v : View) : Except String (Option ℕ × View) := do
  let (temp, v) ← getListEntry ret v
  match v.list.current with
  -- a second entry is taken, and the first one is in no list
  | none => slListAddTail ret v
  | some current =>
      let v := v.setNext temp (v.heap.next current)
      let v := v.setNext current (some temp)
      return (some temp, { v with
        list.tail := if v.list.tail = some current then some temp else v.list.tail
        list.count := v.list.count + 1 })

/-- `dl_list_add_after_current`. -/
def dlListAddAfterCurrent (v : View) : Except String (Option ℕ × View) := do
  let (temp, v) ← getListEntry ret v
  match v.list.current with
  | none => dlListAddTail ret v
  | some current =>
      let v := v.setNext temp (v.heap.next current)
      let v := v.setPrev temp (some current)
      let v ← (
        if v.list.tail = some current then .ok { v with list.tail := some temp }
        else do
          let next ← deref (v.heap.next current)
          return v.setPrev next (some temp))
      let v := v.setNext current (some temp)
      return (some temp, { v with list.count := v.list.count + 1 })

/-! ## Removing -/

/-- `sl_list_remove_head`. -/
def slListRemoveHead (v : View) : Except String (Option ℕ × View) :=
  match v.list.head with
  | none => .ok (none, v)
  | some free => do
      let v :=
        if v.list.tail = v.list.head then { v with list.head := none, list.tail := none }
        else { v with list.head := v.heap.next free }
      let v ← freeListEntry v free
      return (some free, v)

/-- `dl_list_remove_head`. -/
def dlListRemoveHead (v : View) : Except String (Option ℕ × View) :=
  match v.list.head with
  | none => .ok (none, v)
  | some free => do
      let v ← (
        if v.list.tail = v.list.head then .ok { v with list.head := none, list.tail := none }
        else do
          let v := { v with list.head := v.heap.next free }
          let head ← deref v.list.head
          return v.setPrev head none)
      let v ← freeListEntry v free
      return (some free, v)

/-- `dl_list_remove_tail`. -/
def dlListRemoveTail (v : View) : Except String (Option ℕ × View) :=
  match v.list.tail with
  | none => .ok (none, v)
  | some free => do
      let v ← (
        if v.list.tail = v.list.head then .ok { v with list.head := none, list.tail := none }
        else do
          let v := { v with list.tail := v.heap.prev free }
          let tail ← deref v.list.tail
          return v.setNext tail none)
      let v ← freeListEntry v free
      return (some free, v)

/-- `dl_list_remove_current`. The place stays. -/
def dlListRemoveCurrent (v : View) : Except String (Option ℕ × View) :=
  match v.list.current with
  | none => .error "ASSERT: list->current"
  | some free => do
      let v ← (
        match v.heap.next free, v.heap.prev free with
        | some next, some prev =>
            let v := v.setPrev next (some prev)
            let v := v.setNext prev (some next)
            Except.ok { v with list.current := some prev }
        | some next, none =>
            if v.list.head = some free then
              let v := { v with list.head := some next }
              let v := v.setPrev next none
              Except.ok { v with list.current := none }
            else .error "ASSERT: list->head == list->current"
        | none, some prev =>
            if v.list.tail = some free then
              let v := { v with list.tail := some prev, list.current := some prev }
              Except.ok (v.setNext prev none)
            else .error "ASSERT: list->tail == list->current"
        | none, none =>
            if v.list.head = some free then
              if v.list.tail = some free then
                Except.ok { v with list.head := none, list.tail := none, list.current := none }
              else .error "ASSERT: list->tail == list->current"
            else .error "ASSERT: list->head == list->current")
      let v ← freeListEntry v free
      return (some free, v)

/-! ## Traversing -/

/-- `list_start_head_traversal`. -/
def listStartHeadTraversal (v : View) : View :=
  { v with list.current := v.list.head, list.place := 0 }

/-- `list_start_tail_traversal`. -/
def listStartTailTraversal (v : View) : View :=
  { v with list.current := v.list.tail, list.place := v.list.count - 1 }

/-- `list_next_element`. -/
def listNextElement (v : View) : View :=
  { v with
    list.current :=
      match v.list.current with
      | some current => v.heap.next current
      | none => v.list.head
    list.place := v.list.place + 1 }

/-- `list_prev_element`. -/
def listPrevElement (v : View) : View :=
  { v with
    list.current :=
      match v.list.current with
      | some current => v.heap.prev current
      | none => v.list.tail
    list.place := v.list.place - 1 }

/-! ## Any number of lists -/

/-- The operations, `sl` on a singly and `dl` on a doubly linked list. -/
inductive Op where
  | slAddTail
  | dlAddTail
  | slAddHead
  | dlAddHead
  | slAddAfterCurrent
  | dlAddAfterCurrent
  | slRemoveHead
  | dlRemoveHead
  | dlRemoveTail
  | dlRemoveCurrent
  | clip
  | clear
  | startHead
  | startTail
  | next
  | prev
  deriving DecidableEq, Repr

/-- What an operation returns is left out. -/
def View.step (v : View) : Op → Except String View
  | .slAddTail => Prod.snd <$> slListAddTail ret v
  | .dlAddTail => Prod.snd <$> dlListAddTail ret v
  | .slAddHead => Prod.snd <$> slListAddHead ret v
  | .dlAddHead => Prod.snd <$> dlListAddHead ret v
  | .slAddAfterCurrent => Prod.snd <$> slListAddAfterCurrent ret v
  | .dlAddAfterCurrent => Prod.snd <$> dlListAddAfterCurrent ret v
  | .slRemoveHead => Prod.snd <$> slListRemoveHead v
  | .dlRemoveHead => Prod.snd <$> dlListRemoveHead v
  | .dlRemoveTail => Prod.snd <$> dlListRemoveTail v
  | .dlRemoveCurrent => Prod.snd <$> dlListRemoveCurrent v
  | .clip => clipListAtCurrent v
  | .clear => clearList v
  | .startHead => .ok (listStartHeadTraversal v)
  | .startTail => .ok (listStartTailTraversal v)
  | .next => .ok (listNextElement v)
  | .prev => .ok (listPrevElement v)

/-- The lists, each under its name. -/
structure State (ι : Type) where
  heap : Heap
  lists : ι → LinkedList

def State.view (s : State ι) (i : ι) : View := ⟨s.heap, s.lists i⟩

def State.step [DecidableEq ι] (s : State ι) (op : ι × Op) : Except String (State ι) := do
  let v ← (s.view op.1).step ret op.2
  return ⟨v.heap, Function.update s.lists op.1 v.list⟩

/-- After `init_list` of every list, with any contents of the memory before. -/
def State.init (next prev : ℕ → Option ℕ) (uninitialized : ι → LinkedList) (useFreeList : ι → Bool) :
    State ι :=
  ⟨⟨next, prev, fun _ => false, 0⟩, fun i => initList (uninitialized i) (useFreeList i)⟩

/-- `verify_list_counts`, where `count` and `freeCount` are what its loops count. -/
def verifyListCounts (list : LinkedList) (count freeCount : ℤ) : Bool :=
  list.count + list.freeCount = list.totalCount ∧ count = list.count ∧ freeCount = list.freeCount ∧
    count + freeCount = list.totalCount

end Scarab.ListLib

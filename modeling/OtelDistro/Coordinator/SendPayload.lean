import OtelDistro.Bytes
import Mathlib.Order.Basic
import Mathlib.Order.Nat

/-!
# OtelDistro.Coordinator.SendPayload — a payload cut into chunks for the bounded shared queue

* `CoordinatorPayload`, `QueueMessage`: the fixed-size record, and the part of it that goes through the queue.
* `trySend`, `enqueueMessage`: `try_send` refuses a message when the queue holds 100; `enqueueMessage` does not look at
  its result and reports failure only when it throws.
* `sendPayload`: the loop over the chunks.  Before each chunk other processes may enqueue and the coordinator may
  dequeue (`Turn`).

`sendLoop_eq`: the loop is a fold over `chunksFrom`.  `sendPayload_reports_iff`: `true` means that every chunk was
placed exactly when a `try_send` throws or there is room before every chunk; `fullQueue_reports_success` is a payload
that is lost and reported as sent.
-/

namespace OtelDistro.Coordinator

/-- `pid_t`. -/
abbrev Pid := Int32

/-- The fields of `CoordinatorPayload` in front of the data. -/
structure ChunkHeader where
  senderProcessId : Pid
  msgId : UInt64
  payloadTotalSize : UInt64
  payloadOffset : UInt64
deriving DecidableEq

/-- `sizeof(CoordinatorPayload::payload)`. -/
def payloadCapacity : ℕ := 4064

/-- `offsetof(CoordinatorPayload, payload)`. -/
def payloadFieldOffset : UInt64 := 32

def maxQueueSize : ℕ := 100

/-- The whole record, as the receiver's buffer holds it. -/
structure CoordinatorPayload extends ChunkHeader where
  payload : Str
  payload_length : payload.length = payloadCapacity

/-- What goes through the queue: the record up to the end of the chunk's data. -/
structure QueueMessage extends ChunkHeader where
  data : Str
  fits : data.length ≤ payloadCapacity
deriving DecidableEq

abbrev Queue := List QueueMessage

/-- `message_queue::try_send`: the queue with the message, or `none` when it is full. -/
def trySend (q : Queue) (m : QueueMessage) : Option Queue := if q.length < maxQueueSize then some (q ++ [m]) else none

/-- `throws`: `try_send` throws an `interprocess_exception`. -/
def enqueueMessage (q : Queue) (m : QueueMessage) (throws : Bool) : Bool × Queue :=
  if throws then (false, q) else (true, (trySend q m).getD q)

/-- The message if `trySend` accepts it. -/
def placedIn (q : Queue) (m : QueueMessage) : List QueueMessage := if q.length < maxQueueSize then [m] else []

theorem trySend_of_room {q : Queue} {m : QueueMessage} (h : q.length < maxQueueSize) :
    trySend q m = some (q ++ [m]) := if_pos h

theorem placedIn_of_room {q : Queue} {m : QueueMessage} (h : q.length < maxQueueSize) : placedIn q m = [m] := if_pos h

theorem placedIn_of_full {q : Queue} {m : QueueMessage} (h : ¬ q.length < maxQueueSize) : placedIn q m = [] := if_neg h

theorem placedIn_length_le (q : Queue) (m : QueueMessage) : (placedIn q m).length ≤ 1 := by
  unfold placedIn
  split <;> simp

/-! ## Chunks of a payload -/

section Chunks

variable (payload : ByteVec) (offset : UInt64)

def chunkSize : UInt64 := min (UInt64.ofNat payloadCapacity) (payload.size - offset)

theorem chunkSize_toNat_eq_min :
    (chunkSize payload offset).toNat = min payloadCapacity (payload.size - offset).toNat := by
  rw [chunkSize, show min (UInt64.ofNat payloadCapacity) (payload.size - offset) =
    if UInt64.ofNat payloadCapacity ≤ payload.size - offset then UInt64.ofNat payloadCapacity
    else payload.size - offset from rfl, Nat.min_def]
  simp only [UInt64.le_iff_toNat_le, show (UInt64.ofNat payloadCapacity).toNat = payloadCapacity from rfl]
  split <;> rfl

theorem chunkSize_toNat (h : offset < payload.size) :
    (chunkSize payload offset).toNat = min payloadCapacity (payload.bytes.length - offset.toNat) := by
  have hle : offset ≤ payload.size := UInt64.le_iff_toNat_le.mpr (Nat.le_of_lt (UInt64.lt_iff_toNat_lt.mp h))
  rw [chunkSize_toNat_eq_min, UInt64.toNat_sub_of_le _ _ hle, ByteVec.size_toNat]

/-- The bytes that the `memcpy` of one iteration copies. -/
def chunkData : Str := (payload.bytes.drop offset.toNat).take (chunkSize payload offset).toNat

theorem chunkData_length_le : (chunkData payload offset).length ≤ payloadCapacity := by
  have := chunkSize_toNat_eq_min payload offset
  rw [chunkData, List.length_take]
  omega

theorem chunkData_length (h : offset < payload.size) :
    (chunkData payload offset).length = (chunkSize payload offset).toNat := by
  rw [chunkData, List.length_take, List.length_drop, chunkSize_toNat payload offset h]
  omega

theorem chunkSize_pos (h : offset < payload.size) : 0 < (chunkSize payload offset).toNat := by
  have := UInt64.lt_iff_toNat_lt.mp h
  rw [ByteVec.size_toNat] at this
  rw [chunkSize_toNat payload offset h, payloadCapacity]
  omega

/-- The offset advances without wrapping, and not past the end. -/
theorem offset_add_chunkSize (h : offset < payload.size) :
    (offset + chunkSize payload offset).toNat = offset.toNat + (chunkSize payload offset).toNat ∧
      offset.toNat + (chunkSize payload offset).toNat ≤ payload.bytes.length := by
  have hlt := UInt64.lt_iff_toNat_lt.mp h
  rw [ByteVec.size_toNat] at hlt
  have hfits := payload.fits
  have hs := chunkSize_toNat payload offset h
  rw [UInt64.toNat_add]
  omega

/-- One chunk of the message `msgId` of process `pid`. -/
def chunkAt (pid : Pid) (msgId : UInt64) : QueueMessage :=
  ⟨⟨pid, msgId, payload.size, offset⟩, chunkData payload offset, chunkData_length_le payload offset⟩

end Chunks

/-! ## The loop of `sendPayload` -/

/-- What another process, or the coordinator, does to the queue. -/
inductive EnvOp
  | enqueue (m : QueueMessage)
  | dequeue

def EnvOp.apply (q : Queue) : EnvOp → Queue
  | .enqueue m => (trySend q m).getD q
  | .dequeue => q.tail

/-- What happens before and during one `try_send` of the loop. -/
structure Turn where
  ops : List EnvOp := []
  throws : Bool := false

def Turn.before (t : Turn) (q : Queue) : Queue := t.ops.foldl EnvOp.apply q

/-- `placed` records the chunks that went into the queue. -/
structure SendResult where
  returned : Bool
  placed : List QueueMessage
  queue : Queue

section Send

variable (pid : Pid) (msgId : UInt64) (payload : ByteVec) (env : ℕ → Turn)

theorem remaining_decreasing {payload : ByteVec} {offset : UInt64} (h : offset < payload.size) :
    payload.size.toNat - (offset + chunkSize payload offset).toNat < payload.size.toNat - offset.toNat := by
  have h1 := offset_add_chunkSize payload offset h
  have h2 := chunkSize_pos payload offset h
  rw [ByteVec.size_toNat, h1.1]
  omega

/-- The `while` loop, `turn` counting its iterations. -/
def sendLoop (turn : ℕ) (offset : UInt64) (q : Queue) (placed : List QueueMessage) : SendResult :=
  if offset < payload.size then
    let chunk := chunkAt payload offset pid msgId
    let before := (env turn).before q
    match enqueueMessage before chunk (env turn).throws with
    | (false, q) => ⟨false, placed, q⟩
    | (true, q) =>
      sendLoop (turn + 1) (offset + chunkSize payload offset) q
        (placed ++ placedIn before chunk)
  else ⟨true, placed, q⟩
termination_by payload.size.toNat - offset.toNat
decreasing_by exact remaining_decreasing ‹_›

/-- `msgId` is the sender's counter after its increment. -/
def sendPayload (q : Queue) : SendResult := sendLoop pid msgId payload env 0 0 q []

/-- The chunks of the payload from an offset on. -/
def chunksFrom (offset : UInt64) : List QueueMessage :=
  if offset < payload.size then
    chunkAt payload offset pid msgId :: chunksFrom (offset + chunkSize payload offset)
  else []
termination_by payload.size.toNat - offset.toNat
decreasing_by exact remaining_decreasing ‹_›

/-- All chunks of the payload, in order. -/
def chunks : List QueueMessage := chunksFrom pid msgId payload 0

end Send

/-- The loop over a given list of chunks. -/
def sendAll (env : ℕ → Turn) : ℕ → List QueueMessage → Queue → List QueueMessage → SendResult
  | _, [], q, placed => ⟨true, placed, q⟩
  | turn, chunk :: rest, q, placed =>
    let before := (env turn).before q
    if (env turn).throws then ⟨false, placed, before⟩
    else sendAll env (turn + 1) rest ((trySend before chunk).getD before)
      (placed ++ placedIn before chunk)

/-- There is room in the queue before each of the chunks, those before it having been placed. -/
def RoomForAll (env : ℕ → Turn) : ℕ → List QueueMessage → Queue → Prop
  | _, [], _ => True
  | turn, chunk :: rest, q => ((env turn).before q).length < maxQueueSize ∧
      RoomForAll env (turn + 1) rest ((env turn).before q ++ [chunk])

section Loop

variable {pid : Pid} {msgId : UInt64} {payload : ByteVec} {env : ℕ → Turn}

theorem chunksFrom_of_lt {offset : UInt64} (h : offset < payload.size) : chunksFrom pid msgId payload offset =
    chunkAt payload offset pid msgId :: chunksFrom pid msgId payload (offset + chunkSize payload offset) := by
  rw [chunksFrom, if_pos h]

theorem chunksFrom_of_not_lt {offset : UInt64} (h : ¬ offset < payload.size) :
    chunksFrom pid msgId payload offset = [] := by
  rw [chunksFrom, if_neg h]

/-- The loop goes through the chunks in order. -/
theorem sendLoop_eq (turn : ℕ) (offset : UInt64) (q : Queue) (placed : List QueueMessage) :
    sendLoop pid msgId payload env turn offset q placed =
      sendAll env turn (chunksFrom pid msgId payload offset) q placed := by
  fun_induction sendLoop pid msgId payload env turn offset q placed with
  | case1 turn offset q placed hlt chunk before q' heq =>
    rw [chunksFrom_of_lt hlt, sendAll]
    cases ht : (env turn).throws with
    | true =>
      rw [ht] at heq
      simp only [enqueueMessage, if_true, Prod.mk.injEq, true_and] at heq
      rw [if_pos rfl, ← heq]
    | false => simp [enqueueMessage, ht] at heq
  | case2 turn offset q placed hlt chunk before q' heq ih =>
    rw [ih, chunksFrom_of_lt hlt, sendAll]
    cases ht : (env turn).throws with
    | true => simp [enqueueMessage, ht] at heq
    | false =>
      rw [ht] at heq
      simp only [enqueueMessage, Bool.false_eq_true, if_false, Prod.mk.injEq, true_and] at heq
      rw [if_neg Bool.false_ne_true, heq]
  | case3 turn offset q placed hlt =>
    rw [chunksFrom_of_not_lt hlt]
    rfl

/-- The chunks hold the payload. -/
theorem chunksFrom_data (offset : UInt64) :
    (chunksFrom pid msgId payload offset).flatMap QueueMessage.data = payload.bytes.drop offset.toNat := by
  fun_induction chunksFrom pid msgId payload offset with
  | case1 offset hlt ih =>
    rw [List.flatMap_cons, ih, (offset_add_chunkSize payload offset hlt).1, ← List.drop_drop]
    exact List.take_append_drop _ _
  | case2 offset hlt =>
    have : payload.bytes.length ≤ offset.toNat := by
      rw [UInt64.lt_iff_toNat_lt, ByteVec.size_toNat] at hlt
      omega
    rw [List.drop_of_length_le this]
    rfl

theorem chunks_data : (chunks pid msgId payload).flatMap QueueMessage.data = payload.bytes :=
  chunksFrom_data 0

end Loop

section Outcome

variable {env : ℕ → Turn} {turn : ℕ} {cs : List QueueMessage} {q : Queue} {placed : List QueueMessage}

/-- The loop returns `true` unless a `try_send` throws. -/
theorem sendAll_returned :
    (sendAll env turn cs q placed).returned = true ↔ ∀ i < cs.length, (env (turn + i)).throws = false := by
  induction cs generalizing turn q placed with
  | nil => simp [sendAll]
  | cons c cs ih =>
    rw [sendAll]
    cases ht : (env turn).throws with
    | true =>
      rw [if_pos rfl]
      refine ⟨fun h => absurd h Bool.false_ne_true, fun h => ?_⟩
      have h0 := h 0 (Nat.succ_pos _)
      rw [Nat.add_zero, ht] at h0
      exact h0.symm
    | false =>
      rw [if_neg Bool.false_ne_true, ih]
      refine ⟨?_, ?_⟩
      · intro h i hi
        cases i with
        | zero => exact ht
        | succ i =>
          rw [show turn + (i + 1) = turn + 1 + i by omega]
          exact h i (Nat.lt_of_succ_lt_succ hi)
      · intro h i hi
        rw [Nat.add_right_comm]
        exact h (i + 1) (Nat.succ_lt_succ hi)

theorem sendAll_placed_length_le :
    (sendAll env turn cs q placed).placed.length ≤ placed.length + cs.length := by
  induction cs generalizing turn q placed with
  | nil => exact Nat.le_refl _
  | cons c cs ih =>
    rw [sendAll]
    by_cases ht : (env turn).throws = true
    · rw [if_pos ht]
      exact Nat.le_add_right _ _
    · rw [if_neg ht]
      refine ih.trans ?_
      have := placedIn_length_le ((env turn).before q) c
      rw [List.length_append, List.length_cons]
      omega

/-- Without an exception the chunks are all placed exactly when there is room before each. -/
theorem sendAll_placed_iff (ht : ∀ i < cs.length, (env (turn + i)).throws = false) :
    (sendAll env turn cs q placed).placed = placed ++ cs ↔ RoomForAll env turn cs q := by
  induction cs generalizing turn q placed with
  | nil => simp [sendAll, RoomForAll]
  | cons c cs ih =>
    have h0 := ht 0 (Nat.succ_pos _)
    rw [Nat.add_zero] at h0
    have hs : ∀ i < cs.length, (env (turn + 1 + i)).throws = false := fun i hi => by
      rw [Nat.add_right_comm]
      exact ht (i + 1) (Nat.succ_lt_succ hi)
    rw [sendAll, h0, if_neg Bool.false_ne_true, RoomForAll]
    by_cases hroom : ((env turn).before q).length < maxQueueSize
    · rw [placedIn_of_room hroom, trySend_of_room hroom, Option.getD_some, List.append_cons placed c cs, ih hs]
      exact ⟨fun h => ⟨hroom, h⟩, And.right⟩
    · refine ⟨fun h => ?_, fun h => absurd h.1 hroom⟩
      -- a chunk that was not placed is missing at the end
      have hlen := congrArg List.length h
      have hle : (sendAll env (turn + 1) cs ((trySend ((env turn).before q) c).getD ((env turn).before q))
          placed).placed.length ≤ placed.length + cs.length := sendAll_placed_length_le
      rw [placedIn_of_full hroom, List.append_nil, List.length_append, List.length_cons] at hlen
      omega

end Outcome

/-! ## Main results -/

/-- The claim of the return value: `true` means that every chunk is in the queue. -/
def ReportsPlaced (pid : Pid) (msgId : UInt64) (payload : ByteVec) (env : ℕ → Turn) (q : Queue) : Prop :=
  (sendPayload pid msgId payload env q).returned = true →
    (sendPayload pid msgId payload env q).placed = chunks pid msgId payload

/-- **What `true` is worth**: it means that every chunk was placed exactly when some `try_send` of the call throws
(and the call returns `false`) or the queue has room before every chunk. -/
theorem sendPayload_reports_iff (pid : Pid) (msgId : UInt64) (payload : ByteVec) (env : ℕ → Turn) (q : Queue) :
    ReportsPlaced pid msgId payload env q ↔
      (∃ i < (chunks pid msgId payload).length, (env i).throws = true) ∨
        RoomForAll env 0 (chunks pid msgId payload) q := by
  rw [ReportsPlaced, sendPayload, sendLoop_eq, ← chunks, sendAll_returned]
  simp only [Nat.zero_add]
  by_cases ht : ∀ i < (chunks pid msgId payload).length, (env i).throws = false
  · have hno : ¬ ∃ i < (chunks pid msgId payload).length, (env i).throws = true := by
      rintro ⟨i, hi, h⟩
      rw [ht i hi] at h
      cases h
    have hiff : (sendAll env 0 (chunks pid msgId payload) q []).placed = [] ++ chunks pid msgId payload ↔
        RoomForAll env 0 (chunks pid msgId payload) q :=
      sendAll_placed_iff fun i hi => by rw [Nat.zero_add]; exact ht i hi
    rw [List.nil_append] at hiff
    rw [hiff]
    exact ⟨fun h => Or.inr (h ht), fun h _ => h.resolve_left hno⟩
  · refine ⟨fun _ => Or.inl ?_, fun _ h => absurd h ht⟩
    simpa using ht

/-- **A dropped payload is reported as sent**: the queue is full, the only chunk of the payload is not placed. -/
theorem fullQueue_reports_success : ¬ ∀ (pid : Pid) (msgId : UInt64) (payload : ByteVec) (env : ℕ → Turn) (q : Queue),
    q.length ≤ maxQueueSize → ReportsPlaced pid msgId payload env q := by
  intro h
  let payload : ByteVec := ⟨[1], by decide⟩
  let q : Queue := List.replicate 100 (chunkAt payload 0 2 1)
  have hc : chunks 1 1 payload = [chunkAt payload 0 1 1] := by
    rw [chunks, chunksFrom_of_lt (by decide), chunksFrom_of_not_lt (by decide)]
  have := h 1 1 payload (fun _ => {}) q (by decide)
  rw [ReportsPlaced, sendPayload, sendLoop_eq, ← chunks, hc] at this
  exact absurd (this rfl) (by decide)

end OtelDistro.Coordinator

import OtelDistro.Coordinator.ChunkedMessageProcessor
import OtelDistro.Lib.Runs

/-!
# OtelDistro.Coordinator.ChunkedDelivery — messages from many processes through the shared queue

Any number of processes run `sendPayload`, one call after the other; the coordinator receives from the queue and
cleans up.  The actions are the iterations of the loops: a chunk may be placed, lost, or its `try_send` may throw.

* `System.transfer`: what one call looks like to the reassembly library; every step of the system is a step of the
  library's `Transfer` there, or changes nothing (`Inv.step` carries `Transfer.Inv` along).
* `sharedQueue_delivery`: while no process has made more than `2^64` calls, what is processed is the payload of a call, no call is
  delivered twice, and a call none of whose chunks is lost is delivered once its chunks have left the queue.

The message id is a 64-bit counter.  `wrapped_id_is_rejected`: after `2^64` further calls a message meets the remains
of an older one and is never delivered.
-/

namespace OtelDistro.Coordinator

open OtelDistro.Lib

namespace ChunkedDelivery

/-! ## The system -/

/-- One call of `sendPayload`; `lost` records that a chunk was not placed in the queue. -/
structure Call where
  payload : ByteVec
  payloadOffset : UInt64 := 0
  lost : Bool := false

/-- `msgId` is the counter of the process, `done` its finished calls (oldest first). -/
structure Sender where
  msgId : UInt64 := 0
  done : List Call := []
  current : Option Call := none

def Sender.calls (w : Sender) : List Call := w.done ++ w.current.toList

/-- A message given to `processMessage_`. -/
structure Processed where
  pid : Pid
  msgId : UInt64
  data : Str

/-- `aged` records which partial messages were dropped by a cleanup. -/
structure System where
  sender : Pid → Sender := fun _ => {}
  queue : Queue := []
  buffer : CoordinatorPayload
  received : Received := ∅
  processed : List Processed := []
  aged : Pid → UInt64 → Bool := fun _ _ => false

/-- `try_send` of one chunk. -/
inductive ChunkOutcome
  | placed
  | lost
  | threw

inductive Action
  | call (pid : Pid) (payload : ByteVec)
  | chunk (pid : Pid) (outcome : ChunkOutcome)
  | ret (pid : Pid)
  | receive (now : ℤ)
  | cleanup (now maxAge : ℤ)

def System.setSender (s : System) (pid : Pid) (w : Sender) (queue : Queue) : System :=
  { s with sender := Function.update s.sender pid w, queue := queue }

/-- The start of a call: the counter is incremented first. -/
def Sender.call (w : Sender) (payload : ByteVec) : Sender :=
  { w with msgId := w.msgId + 1, current := some { payload := payload } }

/-- The sender after an iteration that goes on. -/
def Sender.advance (w : Sender) (c : Call) (lost : Bool) : Sender :=
  { w with current := some ⟨c.payload, c.payloadOffset + chunkSize c.payload c.payloadOffset, c.lost || lost⟩ }

/-- The sender after its call returned. -/
def Sender.finish (w : Sender) (c : Call) : Sender := { w with done := w.done ++ [c], current := none }

/-- One iteration of the loop of `sendPayload`. -/
def System.sendChunk (s : System) (pid : Pid) (outcome : ChunkOutcome) (c : Call) : Option System :=
  let w := s.sender pid
  match outcome with
  | .placed => (trySend s.queue (chunkAt c.payload c.payloadOffset pid w.msgId)).map
      (s.setSender pid (w.advance c false))
  | .lost => some (s.setSender pid (w.advance c true) s.queue)
  | .threw => some (s.setSender pid (w.finish { c with lost := true }) s.queue)

/-- `tryReceiveMessage`; on an empty queue it times out. -/
def System.receive (s : System) (now : ℤ) : System :=
  match s.queue with
  | [] => s
  | m :: queue =>
    let res := receiveMessage s.received m s.buffer now
    { s with queue := queue
             buffer := m.into s.buffer
             received := res.1
             processed := s.processed ++ (handedOn res.2).toList.map (⟨m.senderProcessId, m.msgId, ·⟩) }

def System.cleanup (s : System) (now maxAge : ℤ) : System :=
  { s with received := cleanupAbandonedMessages s.received now maxAge
           aged := fun p i => s.aged p i || (s.received.find p i).any (·.abandoned now maxAge) }

def step (s : System) : Action → Option System
  | .call p payload =>
    if (s.sender p).current.isNone then some (s.setSender p ((s.sender p).call payload) s.queue) else none
  | .chunk p outcome =>
    (s.sender p).current.bind fun c => if c.payloadOffset < c.payload.size then s.sendChunk p outcome c else none
  | .ret p =>
    (s.sender p).current.bind fun c =>
      if c.payloadOffset < c.payload.size then none else some (s.setSender p ((s.sender p).finish c) s.queue)
  | .receive now => some (s.receive now)
  | .cleanup now maxAge => some (s.cleanup now maxAge)

/-- No process makes more than `2^64` calls. -/
def CallOk (s : System) : Action → Prop
  | .call p _ => (s.sender p).calls.length < 2 ^ 64
  | _ => True

/-! ## One call as a transfer -/

/-- The id of the call with index `k`. -/
def idOf (k : ℕ) : UInt64 := UInt64.ofNat (k + 1)

theorem idOf_inj {k k' : ℕ} (hk : k < 2 ^ 64) (hk' : k' < 2 ^ 64) (h : idOf k = idOf k') : k = k' := by
  have := congrArg UInt64.toNat h
  rw [idOf, idOf, UInt64.toNat_ofNat', UInt64.toNat_ofNat'] at this
  omega

/-- The call with index `k` of process `p`. -/
def Made (s : System) (p : Pid) (k : ℕ) (c : Call) : Prop := (s.sender p).calls[k]? = some c

/-- The chunks of message `i` of process `p` in the queue. -/
def System.channel (s : System) (p : Pid) (i : UInt64) : List (Fragment UInt8) :=
  (s.queue.filter fun m => m.senderProcessId = p ∧ m.msgId = i).map fragmentOf

/-- What was processed as message `i` of process `p`. -/
def System.deliveries (s : System) (p : Pid) (i : UInt64) : List Str :=
  (s.processed.filter fun e => e.pid = p ∧ e.msgId = i).map Processed.data

def System.transfer (s : System) (p : Pid) (i : UInt64) (c : Call) : Transfer UInt8 where
  sent := c.payloadOffset.toNat
  channel := s.channel p i
  buffer := s.received.bufferOf p i
  delivered := s.deliveries p i
  lost := c.lost
  aged := s.aged p i

/-- Message `i` of process `p` has the content `payload`. -/
def IsPayload (s : System) (p : Pid) (i : UInt64) (payload : ByteVec) : Prop :=
  ∃ k c, Made s p k c ∧ i = idOf k ∧ c.payload = payload

structure Inv (s : System) : Prop where
  msgId : ∀ p, (s.sender p).msgId = UInt64.ofNat (s.sender p).calls.length
  bound : ∀ p, (s.sender p).calls.length ≤ 2 ^ 64
  queue : ∀ m ∈ s.queue, ∃ payload, IsPayload s m.senderProcessId m.msgId payload ∧ m.PartOf payload
  received : ∀ p i m, s.received.find p i = some m → ∃ payload, IsPayload s p i payload ∧ m.totalSize = payload.size
  processed : ∀ e ∈ s.processed, ∃ payload, IsPayload s e.pid e.msgId payload
  aged : ∀ p i, s.aged p i = true → ∃ payload, IsPayload s p i payload
  transfer : ∀ p k c, Made s p k c → (s.transfer p (idOf k) c).Inv c.payload.bytes

section Senders

variable {s t : System} {p q : Pid} {i : UInt64} {k : ℕ} {c : Call} {payload payload' : ByteVec} {w : Sender}

theorem Inv.lt (hI : Inv s) (h : Made s p k c) : k < 2 ^ 64 := by
  obtain ⟨hk, -⟩ := List.getElem?_eq_some_iff.mp h
  have := hI.bound p
  omega

/-- Ids tell the calls of a process apart. -/
theorem Inv.payload_unique (hI : Inv s) (h : Made s p k c) (h' : IsPayload s p (idOf k) payload) :
    payload = c.payload := by
  obtain ⟨k', c', hm, hid, rfl⟩ := h'
  obtain rfl := idOf_inj (hI.lt h) (hI.lt hm) hid
  rw [Made, Option.some.inj (h.symm.trans hm)] at *

theorem IsPayload.mono (h : IsPayload s p i payload)
    (hmono : ∀ k c, Made s p k c → ∃ c', Made t p k c' ∧ c'.payload = c.payload) : IsPayload t p i payload := by
  obtain ⟨k, c, hm, rfl, rfl⟩ := h
  obtain ⟨c', hm', hp⟩ := hmono k c hm
  exact ⟨k, c', hm', rfl, hp⟩

theorem calls_of_none (h : w.current = none) : w.calls = w.done := by
  rw [Sender.calls, h]
  exact List.append_nil _

theorem calls_of_some (h : w.current = some c) : w.calls = w.done ++ [c] := by
  rw [Sender.calls, h]
  rfl

theorem calls_call : (w.call payload).calls = w.done ++ [{ payload := payload }] := rfl

theorem calls_advance (lost : Bool) : (w.advance c lost).calls =
    w.done ++ [⟨c.payload, c.payloadOffset + chunkSize c.payload c.payloadOffset, c.lost || lost⟩] := rfl

theorem calls_finish : (w.finish c).calls = w.done ++ [c] := List.append_nil _

/-- A call at an index of `l ++ [c]`. -/
theorem getElem?_snoc {l : List Call} {c c' : Call} (h : (l ++ [c])[k]? = some c') :
    l[k]? = some c' ∧ k < l.length ∨ k = l.length ∧ c' = c := by
  rcases Nat.lt_or_ge k l.length with hk | hk
  · rw [List.getElem?_append_left hk] at h
    exact Or.inl ⟨h, hk⟩
  · rw [List.getElem?_append_right hk] at h
    obtain ⟨h0, h1⟩ := List.getElem?_eq_some_iff.mp h
    rw [List.length_singleton] at h0
    refine Or.inr ⟨by omega, ?_⟩
    rw [← h1]
    exact List.getElem_singleton _

/-- Replacing the last call by one with the same payload keeps the payloads. -/
theorem snoc_mono {l : List Call} {c c' : Call} (hp : c'.payload = c.payload) {k : ℕ} {d : Call}
    (h : (l ++ [c])[k]? = some d) : ∃ d', (l ++ [c'])[k]? = some d' ∧ d'.payload = d.payload := by
  rcases getElem?_snoc h with ⟨h, hk⟩ | ⟨rfl, rfl⟩
  · exact ⟨d, by rw [List.getElem?_append_left hk, h], rfl⟩
  · exact ⟨c', List.getElem?_concat_length, hp⟩

@[simp] theorem sender_setSender_self {queue : Queue} : (s.setSender p w queue).sender p = w :=
  Function.update_self _ _ _

theorem sender_setSender_ne {queue : Queue} (h : q ≠ p) : (s.setSender p w queue).sender q = s.sender q :=
  Function.update_of_ne h _ _

theorem made_setSender_self {queue : Queue} : Made (s.setSender p w queue) p k c ↔ w.calls[k]? = some c := by
  unfold Made
  rw [sender_setSender_self]

theorem made_setSender_ne {queue : Queue} (h : q ≠ p) : Made (s.setSender p w queue) q k c ↔ Made s q k c := by
  unfold Made
  rw [sender_setSender_ne h]

/-- Nothing is known of a message before its call. -/
theorem Inv.transfer_fresh (hI : Inv s) (hk : (s.sender p).calls.length = k) (hlt : k < 2 ^ 64) :
    s.transfer p (idOf k) { payload := payload } = {} := by
  have hno : ∀ payload', ¬ IsPayload s p (idOf k) payload' := by
    rintro payload' ⟨k', c', hm, hid, -⟩
    obtain rfl := idOf_inj hlt (hI.lt hm) hid
    obtain ⟨h, -⟩ := List.getElem?_eq_some_iff.mp hm
    omega
  have hchannel : s.channel p (idOf k) = [] := by
    rw [System.channel, List.map_eq_nil_iff, List.filter_eq_nil_iff]
    intro m hm h
    obtain ⟨payload', hp, -⟩ := hI.queue m hm
    simp only [decide_eq_true_eq] at h
    rw [h.1, h.2] at hp
    exact hno _ hp
  have hbuffer : s.received.bufferOf p (idOf k) = none := by
    rw [Received.bufferOf, Option.map_eq_none_iff, Option.eq_none_iff_forall_ne_some]
    intro m hm
    obtain ⟨payload', hp, -⟩ := hI.received p _ m hm
    exact hno _ hp
  have hdeliveries : s.deliveries p (idOf k) = [] := by
    rw [System.deliveries, List.map_eq_nil_iff, List.filter_eq_nil_iff]
    intro e he h
    obtain ⟨payload', hp⟩ := hI.processed e he
    simp only [decide_eq_true_eq] at h
    rw [h.1, h.2] at hp
    exact hno _ hp
  have haged : s.aged p (idOf k) = false := by
    rw [← Bool.not_eq_true]
    intro h
    obtain ⟨payload', hp⟩ := hI.aged p _ h
    exact hno _ hp
  rw [System.transfer, hchannel, hbuffer, hdeliveries, haged]
  rfl

/-- A transfer whose chunks are not among those enqueued. -/
theorem transfer_setSender_ne (chunks : Queue) (h : ∀ m ∈ chunks, ¬ (m.senderProcessId = q ∧ m.msgId = i)) :
    (s.setSender p w (s.queue ++ chunks)).transfer q i c = s.transfer q i c := by
  have hnone : chunks.filter (fun m => m.senderProcessId = q ∧ m.msgId = i) = [] :=
    List.filter_eq_nil_iff.mpr fun m hm => by simpa using h m hm
  have hchannel : (s.setSender p w (s.queue ++ chunks)).channel q i = s.channel q i := by
    show ((s.queue ++ chunks).filter _).map _ = _
    rw [List.filter_append, hnone, List.append_nil]
    rfl
  rw [System.transfer, hchannel]
  rfl

theorem Inv.msgId_current (hI : Inv s) (hcur : (s.sender p).current = some c) :
    (s.sender p).msgId = idOf (s.sender p).done.length := by
  rw [hI.msgId, calls_of_some hcur, List.length_append]
  rfl

/-- What has to be shown when only one sender and the end of the queue change. -/
theorem Inv.setSender (chunks : Queue) (hI : Inv s) (hid : w.msgId = UInt64.ofNat w.calls.length)
    (hbound : w.calls.length ≤ 2 ^ 64)
    (hmono : ∀ k c, Made s p k c → ∃ c', w.calls[k]? = some c' ∧ c'.payload = c.payload)
    (hchunks : ∀ m ∈ chunks, m.senderProcessId = p ∧
      ∃ k c, w.calls[k]? = some c ∧ m.msgId = idOf k ∧ m.PartOf c.payload)
    (htransfer : ∀ k c, w.calls[k]? = some c →
      ((s.setSender p w (s.queue ++ chunks)).transfer p (idOf k) c).Inv c.payload.bytes) :
    Inv (s.setSender p w (s.queue ++ chunks)) := by
  have hmono' : ∀ q k c, Made s q k c → ∃ c', Made (s.setSender p w (s.queue ++ chunks)) q k c' ∧
      c'.payload = c.payload := by
    intro q k c hm
    by_cases h : q = p
    · subst h
      obtain ⟨c', hc', hp⟩ := hmono k c hm
      exact ⟨c', made_setSender_self.mpr hc', hp⟩
    · exact ⟨c, (made_setSender_ne h).mpr hm, rfl⟩
  constructor
  case msgId =>
    intro q
    by_cases h : q = p
    · subst h
      rw [sender_setSender_self, hid]
    · rw [sender_setSender_ne h, hI.msgId]
  case bound =>
    intro q
    by_cases h : q = p
    · subst h
      rw [sender_setSender_self]
      exact hbound
    · rw [sender_setSender_ne h]
      exact hI.bound q
  case queue =>
    intro m hm
    rcases List.mem_append.mp hm with hm | hm
    · obtain ⟨payload, hp, hpart⟩ := hI.queue m hm
      exact ⟨payload, hp.mono (hmono' _), hpart⟩
    · obtain ⟨hpid, k, c, hc, hmid, hpart⟩ := hchunks m hm
      refine ⟨c.payload, ⟨k, c, ?_, hmid, rfl⟩, hpart⟩
      rw [hpid]
      exact made_setSender_self.mpr hc
  case received =>
    intro q i m hm
    obtain ⟨payload, hp, ht⟩ := hI.received q i m hm
    exact ⟨payload, hp.mono (hmono' _), ht⟩
  case processed =>
    intro e he
    obtain ⟨payload, hp⟩ := hI.processed e he
    exact ⟨payload, hp.mono (hmono' _)⟩
  case aged =>
    intro q i h
    obtain ⟨payload, hp⟩ := hI.aged q i h
    exact ⟨payload, hp.mono (hmono' _)⟩
  case transfer =>
    intro q k c hm
    by_cases h : q = p
    · subst h
      exact htransfer k c (made_setSender_self.mp hm)
    · rw [transfer_setSender_ne chunks fun m hm e => h (e.1.symm.trans (hchunks m hm).1)]
      exact hI.transfer q k c ((made_setSender_ne h).mp hm)

/-- A new call. -/
theorem Inv.call (hI : Inv s) (hcur : (s.sender p).current = none) (hlt : (s.sender p).calls.length < 2 ^ 64) :
    Inv (s.setSender p ((s.sender p).call payload) s.queue) := by
  have hw : ((s.sender p).call payload).calls = (s.sender p).calls ++ [{ payload := payload }] := by
    rw [calls_call, calls_of_none hcur]
  have hlen : ((s.sender p).call payload).calls.length = (s.sender p).calls.length + 1 := by
    rw [hw, List.length_append, List.length_singleton]
  rw [← List.append_nil s.queue]
  refine hI.setSender [] ?_ ?_ ?_ ?_ ?_
  · rw [hlen]
    show (s.sender p).msgId + 1 = _
    rw [hI.msgId, UInt64.ofNat_add]
    rfl
  · rw [hlen]
    exact hlt
  · intro k c hm
    obtain ⟨hk, -⟩ := List.getElem?_eq_some_iff.mp hm
    rw [hw]
    exact ⟨c, by rw [List.getElem?_append_left hk]; exact hm, rfl⟩
  · intro m hm
    cases hm
  · intro k c hc
    rw [List.append_nil]
    show (s.transfer p (idOf k) c).Inv _
    rw [hw] at hc
    rcases getElem?_snoc hc with ⟨hc, -⟩ | ⟨rfl, rfl⟩
    · exact hI.transfer p k c hc
    · rw [hI.transfer_fresh rfl hlt]
      exact Transfer.inv_init

/-- A step of the call in progress, which may enqueue a chunk of its message. -/
theorem Inv.replaceLast (chunks : Queue) {c' : Call} (hI : Inv s) (hcur : (s.sender p).current = some c)
    (hw : w.calls = (s.sender p).done ++ [c']) (hid : w.msgId = (s.sender p).msgId) (hpay : c'.payload = c.payload)
    (hchunks : ∀ m ∈ chunks, m.senderProcessId = p ∧ m.msgId = (s.sender p).msgId ∧ m.PartOf c.payload)
    (hlast : ((s.setSender p w (s.queue ++ chunks)).transfer p (idOf (s.sender p).done.length) c').Inv
      c.payload.bytes) :
    Inv (s.setSender p w (s.queue ++ chunks)) := by
  have hcalls := calls_of_some hcur
  have hlen : (s.sender p).calls.length = (s.sender p).done.length + 1 := by
    rw [hcalls, List.length_append, List.length_singleton]
  have hmsgId := hI.msgId_current hcur
  have hbound := hI.bound p
  have hwlen : w.calls.length = (s.sender p).calls.length := by
    rw [hw, hlen, List.length_append, List.length_singleton]
  have hlast' : w.calls[(s.sender p).done.length]? = some c' := by
    rw [hw]
    exact List.getElem?_concat_length
  refine hI.setSender chunks ?_ ?_ ?_ ?_ ?_
  · rw [hid, hwlen, hI.msgId]
  · rw [hwlen]
    exact hbound
  · intro k d hm
    rw [Made, hcalls] at hm
    rw [hw]
    exact snoc_mono hpay hm
  · intro m hm
    obtain ⟨h1, h2, h3⟩ := hchunks m hm
    exact ⟨h1, _, c', hlast', h2.trans hmsgId, hpay ▸ h3⟩
  · intro k d hd
    rw [hw] at hd
    rcases getElem?_snoc hd with ⟨hd, hk⟩ | ⟨rfl, rfl⟩
    · -- an older call: the new chunks are not its own
      have hold : Made s p k d := by
        rw [Made, hcalls, List.getElem?_append_left hk]
        exact hd
      have hne : ∀ m ∈ chunks, ¬ (m.senderProcessId = p ∧ m.msgId = idOf k) := by
        rintro m hm ⟨-, e⟩
        have := idOf_inj (by omega) (by omega) (e.symm.trans ((hchunks m hm).2.1.trans hmsgId))
        omega
      rw [transfer_setSender_ne chunks hne]
      exact hI.transfer p k d hold
    · rw [hpay]
      exact hlast

theorem Inv.transfer_current (hI : Inv s) (hcur : (s.sender p).current = some c) :
    (s.transfer p (idOf (s.sender p).done.length) c).Inv c.payload.bytes := by
  refine hI.transfer p _ c ?_
  rw [Made, calls_of_some hcur]
  exact List.getElem?_concat_length

/-- One iteration of the loop of `sendPayload`. -/
theorem Inv.sendChunk {o : ChunkOutcome} (hI : Inv s) (hcur : (s.sender p).current = some c)
    (hlt : c.payloadOffset < c.payload.size) (h : s.sendChunk p o c = some t) : Inv t := by
  have hcurrent := hI.transfer_current hcur
  have hpart := chunkAt_partOf p (s.sender p).msgId hlt
  have hstop : (fragmentOf (chunkAt c.payload c.payloadOffset p (s.sender p).msgId)).stop =
      (c.payloadOffset + chunkSize c.payload c.payloadOffset).toNat := by
    rw [(offset_add_chunkSize _ _ hlt).1, ← chunkData_length _ _ hlt]
    rfl
  cases o with
  | placed =>
    simp only [System.sendChunk, trySend, Option.map_eq_some_iff, Option.ite_none_right_eq_some,
      Option.some.injEq] at h
    obtain ⟨queue, ⟨-, rfl⟩, rfl⟩ := h
    refine hI.replaceLast _ hcur (calls_advance false) rfl rfl (fun m hm => ?_) ?_
    · obtain rfl := List.mem_singleton.mp hm
      exact ⟨rfl, rfl, hpart⟩
    · have hs := hcurrent.step (.send _ _ hpart.piece rfl)
      rw [hstop] at hs
      have hchannel : (s.setSender p ((s.sender p).advance c false)
          (s.queue ++ [chunkAt c.payload c.payloadOffset p (s.sender p).msgId])).channel p
            (idOf (s.sender p).done.length) = s.channel p (idOf (s.sender p).done.length) ++
          [fragmentOf (chunkAt c.payload c.payloadOffset p (s.sender p).msgId)] := by
        show ((s.queue ++ _).filter _).map _ = _
        rw [List.filter_append, List.map_append, List.filter_cons_of_pos]
        · rfl
        · simpa [chunkAt] using hI.msgId_current hcur
      rw [System.transfer, hchannel, Bool.or_false]
      exact hs
  | lost =>
    simp only [System.sendChunk, Option.some.injEq] at h
    subst h
    rw [← List.append_nil s.queue]
    refine hI.replaceLast [] hcur (calls_advance true) rfl rfl (fun m hm => by cases hm) ?_
    have hs := hcurrent.step (.lose _ _ hpart.piece rfl)
    rw [hstop] at hs
    rw [List.append_nil, System.transfer, Bool.or_true]
    exact hs
  | threw =>
    simp only [System.sendChunk, Option.some.injEq] at h
    subst h
    rw [← List.append_nil s.queue]
    refine hI.replaceLast [] hcur calls_finish rfl rfl (fun m hm => by cases hm) ?_
    rw [List.append_nil]
    exact hcurrent.step (.abandon _)

theorem Inv.ret (hI : Inv s) (hcur : (s.sender p).current = some c) :
    Inv (s.setSender p ((s.sender p).finish c) s.queue) := by
  rw [← List.append_nil s.queue]
  refine hI.replaceLast [] hcur calls_finish rfl rfl (fun m hm => by cases hm) ?_
  rw [List.append_nil]
  exact hI.transfer_current hcur

end Senders

section Receiver

variable {s t : System} {p : Pid} {i : UInt64} {k : ℕ} {c : Call} {m : QueueMessage} {queue : Queue} {now maxAge : ℤ}

theorem System.receive_nil (h : s.queue = []) : s.receive now = s := by
  rw [System.receive, h]

theorem System.receive_cons (h : s.queue = m :: queue) : s.receive now =
    { s with queue := queue
             buffer := m.into s.buffer
             received := (receiveMessage s.received m s.buffer now).1
             processed := s.processed ++ (handedOn (receiveMessage s.received m s.buffer now).2).toList.map
               (⟨m.senderProcessId, m.msgId, ·⟩) } := by
  rw [System.receive, h]

theorem channel_cons_self (h : s.queue = m :: queue) (hm : m.senderProcessId = p ∧ m.msgId = i) :
    s.channel p i = fragmentOf m :: { s with queue := queue }.channel p i := by
  rw [System.channel, h, List.filter_cons_of_pos (by simpa using hm)]
  rfl

theorem channel_cons_ne (h : s.queue = m :: queue) (hm : ¬ (m.senderProcessId = p ∧ m.msgId = i)) :
    s.channel p i = { s with queue := queue }.channel p i := by
  rw [System.channel, h, List.filter_cons_of_neg (by simpa using hm)]
  rfl

theorem deliveries_append_self (es : List Processed) (h : ∀ e ∈ es, e.pid = p ∧ e.msgId = i) :
    { s with processed := s.processed ++ es }.deliveries p i = s.deliveries p i ++ es.map Processed.data := by
  have hall : es.filter (fun e => e.pid = p ∧ e.msgId = i) = es :=
    List.filter_eq_self.mpr fun e he => by simpa using h e he
  show ((s.processed ++ es).filter _).map _ = _
  rw [List.filter_append, hall, List.map_append]
  rfl

theorem deliveries_append_ne (es : List Processed) (h : ∀ e ∈ es, ¬ (e.pid = p ∧ e.msgId = i)) :
    { s with processed := s.processed ++ es }.deliveries p i = s.deliveries p i := by
  have hnone : es.filter (fun e => e.pid = p ∧ e.msgId = i) = [] :=
    List.filter_eq_nil_iff.mpr fun e he => by simpa using h e he
  show ((s.processed ++ es).filter _).map _ = _
  rw [List.filter_append, hnone, List.append_nil]
  rfl

/-- The transfer of the message a chunk belongs to receives a fragment. -/
theorem transfer_receive_self {total : ℕ} (hq : s.queue = m :: queue) (hkey : m.senderProcessId = p ∧ m.msgId = i)
    (hbuffer : (receiveMessage s.received m s.buffer now).1.bufferOf p i =
      (feed total (s.received.bufferOf p i) (fragmentOf m)).1)
    (hout : handedOn (receiveMessage s.received m s.buffer now).2 =
      (feed total (s.received.bufferOf p i) (fragmentOf m)).2) :
    (s.receive now).transfer p i c =
      { s.transfer p i c with
          channel := { s with queue := queue }.channel p i
          buffer := (feed total (s.received.bufferOf p i) (fragmentOf m)).1
          delivered := s.deliveries p i ++ (feed total (s.received.bufferOf p i) (fragmentOf m)).2.toList } := by
  rw [System.receive_cons hq]
  refine Transfer.ext rfl rfl hbuffer ?_ rfl rfl
  rw [← hout]
  refine (deliveries_append_self _ fun e he => ?_).trans ?_
  · obtain ⟨data, -, rfl⟩ := List.mem_map.mp he
    exact hkey
  · rw [List.map_map]
    exact congrArg _ (List.map_id _)

/-- The other transfers are as they were. -/
theorem transfer_receive_ne (hq : s.queue = m :: queue) (hkey : ¬ (m.senderProcessId = p ∧ m.msgId = i))
    (hother : (receiveMessage s.received m s.buffer now).1.find p i = s.received.find p i) :
    (s.receive now).transfer p i c = s.transfer p i c := by
  rw [System.receive_cons hq]
  refine Transfer.ext rfl (channel_cons_ne hq hkey).symm (congrArg (Option.map _) hother)
    (deliveries_append_ne _ fun e he => ?_) rfl rfl
  obtain ⟨data, -, rfl⟩ := List.mem_map.mp he
  exact hkey

/-- The coordinator takes one message from the queue. -/
theorem Inv.receive (hI : Inv s) (now : ℤ) : Inv (s.receive now) := by
  cases hq : s.queue with
  | nil => rwa [System.receive_nil hq]
  | cons m queue =>
    have hm : m ∈ s.queue := hq ▸ List.mem_cons_self
    obtain ⟨payload, hp, hpart⟩ := hI.queue m hm
    obtain ⟨k₀, c₀, hmade, hid, rfl⟩ := hp
    have hfound : ∀ msg, s.received.find m.senderProcessId m.msgId = some msg → msg.totalSize = c₀.payload.size := by
      intro msg hmsg
      obtain ⟨payload, hp, ht⟩ := hI.received _ _ msg hmsg
      rw [hid] at hp
      rw [ht, hI.payload_unique hmade hp]
    obtain ⟨hbuffer, hout, htotal, hother⟩ := receiveMessage_spec s.buffer now hpart hfound
    have htransfer : ∀ p k c, Made s p k c → ((s.receive now).transfer p (idOf k) c).Inv c.payload.bytes := by
      intro p k c hc
      have hinv := hI.transfer p k c hc
      by_cases hkey : m.senderProcessId = p ∧ m.msgId = idOf k
      · have hc₀ : c₀.payload = c.payload := by
          refine hI.payload_unique hc ?_
          rw [← hkey.1, ← hkey.2]
          exact ⟨k₀, c₀, hmade, hid, rfl⟩
        rw [hkey.1, hkey.2, hc₀] at hbuffer hout
        rw [transfer_receive_self hq hkey hbuffer hout]
        exact hinv.step (.receive _ _ _ (channel_cons_self hq hkey))
      · rw [transfer_receive_ne hq hkey (hother p (idOf k) hkey)]
        exact hinv
    rw [System.receive_cons hq] at htransfer ⊢
    refine ⟨hI.msgId, hI.bound, ?_, ?_, ?_, hI.aged, htransfer⟩
    · intro m' hm'
      exact hI.queue m' (hq ▸ List.mem_cons_of_mem _ hm')
    · intro p i msg hmsg
      by_cases hkey : m.senderProcessId = p ∧ m.msgId = i
      · obtain ⟨rfl, rfl⟩ := hkey
        exact ⟨c₀.payload, ⟨k₀, c₀, hmade, hid, rfl⟩, htotal msg hmsg⟩
      · exact hI.received p i msg ((hother p i hkey).symm.trans hmsg)
    · intro e he
      rcases List.mem_append.mp he with he | he
      · exact hI.processed e he
      · obtain ⟨data, -, rfl⟩ := List.mem_map.mp he
        exact ⟨c₀.payload, k₀, c₀, hmade, hid, rfl⟩

theorem find_cleanup_some {msg : ChunkedMessage} {r : Received}
    (h : (cleanupAbandonedMessages r now maxAge).find p i = some msg) : r.find p i = some msg := by
  rw [find_cleanup, Option.bind_eq_some_iff] at h
  obtain ⟨msg', hm, h⟩ := h
  by_cases hab : msg'.abandoned now maxAge = true
  · rw [if_pos hab] at h
    cases h
  · rw [if_neg hab, Option.some.injEq] at h
    exact h ▸ hm

/-- Cleanup drops partial messages and records which. -/
theorem Inv.cleanup (hI : Inv s) (now maxAge : ℤ) : Inv (s.cleanup now maxAge) := by
  refine ⟨hI.msgId, hI.bound, hI.queue, fun p i msg hmsg => hI.received p i msg (find_cleanup_some hmsg),
    hI.processed, ?_, ?_⟩
  · intro p i h
    rcases Bool.or_eq_true_iff.mp h with h | h
    · exact hI.aged p i h
    · obtain ⟨msg, hmsg, -⟩ := (Option.any_eq_true _ _).mp h
      obtain ⟨payload, hp, -⟩ := hI.received p i msg hmsg
      exact ⟨payload, hp⟩
  · intro p k c hc
    have hinv := hI.transfer p k c hc
    cases hf : s.received.find p (idOf k) with
    | none =>
      refine hinv.congr (Transfer.ext rfl rfl ?_ rfl rfl ?_)
      · show ((cleanupAbandonedMessages s.received now maxAge).find p (idOf k)).map _ = (s.received.find p (idOf k)).map _
        rw [find_cleanup, hf]
        rfl
      · show (s.aged p (idOf k) || (s.received.find p (idOf k)).any _) = s.aged p (idOf k)
        rw [hf, Option.any_none, Bool.or_false]
    | some msg =>
      by_cases hab : msg.abandoned now maxAge = true
      · refine (hinv.step (.drop _)).congr (Transfer.ext rfl rfl ?_ rfl rfl ?_)
        · show ((cleanupAbandonedMessages s.received now maxAge).find p (idOf k)).map _ = none
          rw [find_cleanup, hf, Option.bind_some, if_pos hab]
          rfl
        · show (s.aged p (idOf k) || (s.received.find p (idOf k)).any _) = true
          rw [hf, Option.any_some, hab, Bool.or_true]
      · refine hinv.congr (Transfer.ext rfl rfl ?_ rfl rfl ?_)
        · show ((cleanupAbandonedMessages s.received now maxAge).find p (idOf k)).map _ =
            (s.received.find p (idOf k)).map _
          rw [find_cleanup, hf, Option.bind_some, if_neg hab]
        · show (s.aged p (idOf k) || (s.received.find p (idOf k)).any _) = s.aged p (idOf k)
          rw [hf, Option.any_some, Bool.eq_false_iff.mpr hab, Bool.or_false]

end Receiver

theorem inv_init (buffer : CoordinatorPayload) : Inv { buffer := buffer } := by
  refine ⟨fun _ => rfl, fun _ => Nat.zero_le _, ?_, ?_, ?_, ?_, ?_⟩
  · intro m h
    cases h
  · intro p i m h
    rw [Received.find, Received.messagesForSender, AList.lookup_empty, Option.getD_none, AList.lookup_empty] at h
    cases h
  · intro e h
    cases h
  · intro p i h
    cases h
  · intro p k c h
    cases h

/-- **Every step keeps the invariant.** -/
theorem Inv.step {s t : System} {a : Action} (hI : Inv s) (ho : CallOk s a) (h : step s a = some t) : Inv t := by
  cases a with
  | call p payload =>
    simp only [ChunkedDelivery.step, Option.ite_none_right_eq_some, Option.some.injEq] at h
    obtain ⟨hcur, rfl⟩ := h
    exact hI.call (Option.isNone_iff_eq_none.mp hcur) ho
  | chunk p o =>
    simp only [ChunkedDelivery.step, Option.bind_eq_some_iff, Option.ite_none_right_eq_some] at h
    obtain ⟨c, hcur, hlt, h⟩ := h
    exact hI.sendChunk hcur hlt h
  | ret p =>
    simp only [ChunkedDelivery.step, Option.bind_eq_some_iff, Option.ite_none_left_eq_some, Option.some.injEq] at h
    obtain ⟨c, hcur, -, rfl⟩ := h
    exact hI.ret hcur
  | receive now =>
    simp only [ChunkedDelivery.step, Option.some.injEq] at h
    exact h ▸ hI.receive now
  | cleanup now maxAge =>
    simp only [ChunkedDelivery.step, Option.some.injEq] at h
    exact h ▸ hI.cleanup now maxAge

/-! ## Main results -/

/-- All chunks of the call were placed in the queue. -/
structure Call.Enqueued (c : Call) : Prop where
  all : c.payloadOffset = c.payload.size
  placed : c.lost = false

/-- What the queue owes its users in a state. -/
structure Delivery (s : System) : Prop where
  identical : ∀ e ∈ s.processed, ∃ k c, Made s e.pid k c ∧ e.msgId = idOf k ∧ e.data = c.payload.bytes
  atMostOnce : ∀ p k c, Made s p k c → (s.deliveries p (idOf k)).length ≤ 1
  complete : ∀ p k c, Made s p k c → c.payload.bytes ≠ [] → c.Enqueued → s.aged p (idOf k) = false →
    s.channel p (idOf k) = [] → s.deliveries p (idOf k) = [c.payload.bytes]

theorem Inv.delivery {s : System} (hI : Inv s) : Delivery s := by
  refine ⟨?_, fun p k c hm => (hI.transfer p k c hm).length_delivered_le, ?_⟩
  · intro e he
    obtain ⟨payload, k, c, hm, hid, -⟩ := hI.processed e he
    refine ⟨k, c, hm, hid, (hI.transfer _ k c hm).delivered_eq ?_⟩
    exact List.mem_map.mpr ⟨e, List.mem_filter.mpr ⟨he, by simpa using hid⟩, rfl⟩
  · intro p k c hm hne henq haged hchannel
    refine (hI.transfer p k c hm).delivered_of_complete hne ?_ hchannel henq.placed haged
    show c.payloadOffset.toNat = _
    rw [henq.all, ByteVec.size_toNat]

/-- Receiving as often as there are messages empties the queue. -/
theorem drain (now : ℤ) (n : ℕ) : ∀ s : System, Inv s → s.queue.length = n →
    ∃ t, run step s (List.replicate n (.receive now)) = some t ∧ Inv t ∧ t.queue = [] ∧ t.sender = s.sender ∧
      t.aged = s.aged := by
  induction n with
  | zero =>
    intro s hI h
    exact ⟨s, rfl, hI, List.length_eq_zero_iff.mp h, rfl, rfl⟩
  | succ n ih =>
    intro s hI h
    obtain ⟨m, queue, hq⟩ := List.exists_cons_of_length_eq_add_one h
    have hr : s.receive now = _ := System.receive_cons hq
    have hlen : (s.receive now).queue.length = n := by
      rw [hq, List.length_cons] at h
      rw [hr]
      exact Nat.succ.inj h
    obtain ⟨t, ht, hIt, hempty, hsender, haged⟩ := ih (s.receive now) (hI.receive now) hlen
    rw [hr] at hsender haged
    exact ⟨t, ht, hIt, hempty, hsender, haged⟩

/-- **Delivery over the shared queue**: in every run in which no process makes more than `2^64` calls, what is
processed is the payload of a call, at most once each; and when the coordinator receives what is queued, every call
whose chunks were all enqueued and whose partial message was not aged out has been delivered exactly once. -/
theorem sharedQueue_delivery {buffer : CoordinatorPayload} {as : List Action} {s : System}
    (h : Path step CallOk { buffer := buffer } as s) :
    Delivery s ∧ ∀ now, ∃ t, run step s (List.replicate s.queue.length (.receive now)) = some t ∧ Delivery t ∧
      ∀ p k c, Made s p k c → c.payload.bytes ≠ [] → c.Enqueued → s.aged p (idOf k) = false →
        t.deliveries p (idOf k) = [c.payload.bytes] := by
  have hI : Inv s := h.invariant (fun _ _ _ hI ho hs => hI.step ho hs) (inv_init buffer)
  refine ⟨hI.delivery, fun now => ?_⟩
  obtain ⟨t, ht, hIt, hempty, hsender, haged⟩ := drain now _ s hI rfl
  refine ⟨t, ht, hIt.delivery, fun p k c hm hne henq ha => ?_⟩
  refine hIt.delivery.complete p k c ?_ hne henq (by rw [haged, ha]) ?_
  · rw [Made, hsender]
    exact hm
  · rw [System.channel, hempty]
    rfl

/-- A buffer to receive into, and a payload of one byte. -/
def zeroBuffer : CoordinatorPayload := ⟨⟨0, 0, 0, 0⟩, List.replicate payloadCapacity 0, List.length_replicate⟩

def oneByte : ByteVec := ⟨[7], by decide⟩

/-- One call of one process, received. -/
theorem sharedQueue_delivery_witness : ∃ s, run step { buffer := zeroBuffer }
    [.call 1 oneByte, .chunk 1 .placed, .ret 1, .receive 0] = some s ∧ Delivery s := by
  have hp : Path step CallOk { buffer := zeroBuffer } [.call 1 oneByte, .chunk 1 .placed, .ret 1, .receive 0] _ :=
    .cons (show 0 < 2 ^ 64 by decide) rfl (.cons trivial rfl (.cons trivial rfl (.cons trivial rfl (.nil _))))
  exact ⟨_, hp.run_eq, (sharedQueue_delivery hp).1⟩

/-! ## The id comes round -/

section Wrap

variable {s : System} {p : Pid} {c : Call} {payload : ByteVec} {w : Sender} {queue : Queue}

theorem setSender_setSender (w w' : Sender) (queue queue' : Queue) :
    (s.setSender p w queue).setSender p w' queue' = s.setSender p w' queue' := by
  simp [System.setSender]

theorem step_call (h : (s.sender p).current = none) :
    step s (.call p payload) = some (s.setSender p ((s.sender p).call payload) s.queue) := by
  rw [step, h]
  rfl

theorem step_lost (h : w.current = some c) (hlt : c.payloadOffset < c.payload.size) :
    step (s.setSender p w queue) (.chunk p .lost) = some (s.setSender p (w.advance c true) queue) := by
  rw [step, sender_setSender_self, h, Option.bind_some, if_pos hlt, ← setSender_setSender w (w.advance c true) queue]
  show some ((s.setSender p w queue).setSender p (((s.setSender p w queue).sender p).advance c true) queue) = _
  rw [sender_setSender_self]

theorem step_placed (h : w.current = some c) (hlt : c.payloadOffset < c.payload.size)
    (hroom : queue.length < maxQueueSize) : step (s.setSender p w queue) (.chunk p .placed) =
      some (s.setSender p (w.advance c false) (queue ++ [chunkAt c.payload c.payloadOffset p w.msgId])) := by
  rw [step, sender_setSender_self, h, Option.bind_some, if_pos hlt, System.sendChunk, sender_setSender_self]
  show (trySend queue _).map _ = _
  rw [trySend_of_room hroom, Option.map_some, setSender_setSender]

theorem step_ret (h : w.current = some c) (hge : ¬ c.payloadOffset < c.payload.size) :
    step (s.setSender p w queue) (.ret p) = some (s.setSender p (w.finish c) queue) := by
  rw [step, sender_setSender_self, h, Option.bind_some, if_neg hge, setSender_setSender]
  rfl

/-- The sender after a call of one chunk, which was lost. -/
def Sender.lostCall (w : Sender) : Sender := ⟨w.msgId + 1, w.done ++ [⟨oneByte, 1, true⟩], none⟩

theorem run_lostCall (h : (s.sender p).current = none) :
    run step s [.call p oneByte, .chunk p .lost, .ret p] = some (s.setSender p (s.sender p).lostCall s.queue) := by
  rw [run_cons, step_call h, Option.bind_some, run_cons, step_lost rfl (by decide), Option.bind_some, run_cons,
    step_ret rfl (by decide)]
  rfl

/-- Any number of such calls. -/
theorem run_lostCalls (n : ℕ) : ∀ s : System, (s.sender p).current = none →
    ∃ as w, run step s as = some (s.setSender p w s.queue) ∧ w.current = none ∧
      w.msgId = (s.sender p).msgId + UInt64.ofNat n ∧ w.done.length = (s.sender p).done.length + n := by
  induction n with
  | zero =>
    intro s h
    refine ⟨[], s.sender p, ?_, h, (UInt64.add_zero _).symm, rfl⟩
    simp [System.setSender]
  | succ n ih =>
    intro s h
    obtain ⟨as, w, hrun, hcur, hid, hlen⟩ := ih (s.setSender p (s.sender p).lostCall s.queue)
      (by rw [sender_setSender_self]; rfl)
    rw [sender_setSender_self] at hid hlen
    refine ⟨_ ++ as, w, (run_append_of (run_lostCall h)).trans (hrun.trans ?_), hcur, ?_, ?_⟩
    · exact congrArg some (setSender_setSender _ _ _ _)
    · rw [hid, UInt64.ofNat_add, UInt64.add_comm (UInt64.ofNat n), ← UInt64.add_assoc]
      rfl
    · rw [hlen, Sender.lostCall, List.length_append, List.length_singleton]
      omega

/-- The call of a payload of two chunks after its first iteration, and after its second. -/
def firstSent (payload : ByteVec) : Call := ⟨payload, 0 + chunkSize payload 0, false⟩

def secondLost (payload : ByteVec) : Call :=
  ⟨payload, (firstSent payload).payloadOffset + chunkSize payload (firstSent payload).payloadOffset, true⟩

theorem firstSent_offset (h : payload.size = 4065) : (firstSent payload).payloadOffset = 4064 := by
  rw [firstSent, chunkSize, h]
  show 0 + min (UInt64.ofNat payloadCapacity) (4065 - 0) = (4064 : UInt64)
  decide

theorem secondLost_offset (h : payload.size = 4065) : (secondLost payload).payloadOffset = 4065 := by
  rw [secondLost, firstSent_offset h, chunkSize, h]
  show 4064 + min (UInt64.ofNat payloadCapacity) (4065 - 4064) = (4065 : UInt64)
  decide

/-- The first of two chunks is placed, the second one lost. -/
theorem run_halfSent (h : payload.size = 4065) (hcur : (s.sender p).current = none) (hroom : s.queue.length < 100) :
    run step s [.call p payload, .chunk p .placed, .chunk p .lost, .ret p] =
      some (s.setSender p ⟨(s.sender p).msgId + 1, (s.sender p).done ++ [secondLost payload], none⟩
        (s.queue ++ [chunkAt payload 0 p ((s.sender p).msgId + 1)])) := by
  have hlt : (0 : UInt64) < payload.size := by
    rw [h]
    decide
  have hlt' : (firstSent payload).payloadOffset < (firstSent payload).payload.size := by
    rw [firstSent_offset h, firstSent, h]
    decide
  have hge : ¬ (secondLost payload).payloadOffset < (secondLost payload).payload.size := by
    rw [secondLost_offset h, secondLost, h]
    decide
  rw [run_cons, step_call hcur, Option.bind_some, run_cons, step_placed rfl hlt hroom, Option.bind_some,
    run_cons, step_lost (c := firstSent payload) rfl hlt', Option.bind_some, run_cons,
    step_ret (c := secondLost payload) rfl hge]
  rfl

/-- A call of one chunk, which is placed. -/
theorem run_oneByte (hcur : (s.sender p).current = none) (hroom : s.queue.length < 100) :
    run step s [.call p oneByte, .chunk p .placed, .ret p] =
      some (s.setSender p ⟨(s.sender p).msgId + 1, (s.sender p).done ++ [⟨oneByte, 1, false⟩], none⟩
        (s.queue ++ [chunkAt oneByte 0 p ((s.sender p).msgId + 1)])) := by
  rw [run_cons, step_call hcur, Option.bind_some, run_cons, step_placed rfl (by decide) hroom, Option.bind_some,
    run_cons, step_ret rfl (by decide)]
  rfl

/-- What is left of the first message in the coordinator. -/
structure HalfReceived (s : System) : Prop where
  current : (s.sender 1).current = none
  msgId : (s.sender 1).msgId = 1
  calls : (s.sender 1).done.length = 1
  queue : s.queue = []
  processed : s.processed = []
  aged : s.aged 1 1 = false
  buffer : ∃ b, s.received.bufferOf 1 1 = some b ∧ b.length = 4064

theorem run_halfReceived (h : payload.size = 4065) :
    ∃ as s, run step { buffer := zeroBuffer } as = some s ∧ HalfReceived s := by
  let s₀ : System := { buffer := zeroBuffer }
  let c := chunkAt payload 0 1 1
  have hlt : (0 : UInt64) < payload.size := by
    rw [h]
    decide
  have hdata : c.data.length = 4064 := by
    show (chunkData payload 0).length = 4064
    rw [chunkData_length _ _ hlt, chunkSize, h]
    show (min (UInt64.ofNat payloadCapacity) (4065 - 0)).toNat = 4064
    decide
  have htotal : payload.bytes.length = 4065 := by
    rw [← ByteVec.size_toNat, h]
    rfl
  have hsent := run_halfSent (s := s₀) (p := 1) h rfl (by decide)
  have hnone : ∀ m, (∅ : Received).find 1 1 = some m → m.totalSize = payload.size := fun m hm => by cases hm
  obtain ⟨hbuffer, hout, -⟩ := receiveMessage_spec zeroBuffer 0 (chunkAt_partOf 1 1 hlt) hnone
  have hfed : feed payload.bytes.length none (fragmentOf c) = (some c.data, none) := by
    refine feed_accept rfl fun e => ?_
    have : (fragmentOf c).stop = 0 + c.data.length := rfl
    omega
  refine ⟨_ ++ [.receive 0], _, (run_append_of hsent).trans rfl, ⟨rfl, rfl, rfl, rfl, ?_, rfl, ?_⟩⟩
  · show [] ++ (handedOn (receiveMessage ∅ c zeroBuffer 0).2).toList.map _ = []
    rw [hout.trans (congrArg Prod.snd hfed)]
    rfl
  · exact ⟨c.data, hbuffer.trans (congrArg Prod.fst hfed), hdata⟩

/-- A chunk at offset 0 is refused while there are remains of an older message under its id. -/
theorem receive_remains {r : Received} {b : Str} (hb : r.bufferOf 1 1 = some b) (hlen : b.length = 4064)
    (buffer : CoordinatorPayload) : handedOn (receiveMessage r (chunkAt oneByte 0 1 1) buffer 0).2 = none := by
  rw [Received.bufferOf, Option.map_eq_some_iff] at hb
  obtain ⟨m, hm, rfl⟩ := hb
  have hfound : r.findOrCreate (chunkAt oneByte 0 1 1).toChunkHeader = .ok m := by
    unfold Received.findOrCreate
    simp only [chunkAt, hm]
  have hne : m.data.bytes.length ≠ ((chunkAt oneByte 0 1 1).into buffer).payloadOffset.toNat := by
    rw [hlen]
    exact Nat.succ_ne_zero _
  rw [receiveMessage, processReceivedChunk_of_ok 0 ((chunkAt oneByte 0 1 1).into buffer) hfound,
    ChunkedMessage.append_unexpected hne]
  rfl

/-- **A message can meet the remains of an older one**: after one message with a lost chunk and `2^64 - 1` lost ones
the id comes round; the next message is enqueued completely, nothing was aged out, and it is not delivered. -/
theorem wrapped_id_is_rejected : ¬ ∀ (buffer : CoordinatorPayload) (as : List Action) (s : System),
    run step { buffer := buffer } as = some s → Delivery s := by
  intro h
  let twoChunks : ByteVec := ⟨List.replicate 4065 0, by rw [List.length_replicate]; decide⟩
  have hsize : twoChunks.size = 4065 := by
    rw [ByteVec.size, List.length_replicate]
    rfl
  obtain ⟨as, s, hs, hhalf⟩ := run_halfReceived hsize
  obtain ⟨as', w, hw, hcur, hid, hlen⟩ := run_lostCalls (2 ^ 64 - 1) s hhalf.current
  rw [hhalf.msgId, show (1 : UInt64) + UInt64.ofNat (2 ^ 64 - 1) = 0 by decide] at hid
  rw [hhalf.calls] at hlen
  rw [hhalf.queue] at hw
  -- the last call, whose only chunk is placed
  have hlast := run_oneByte (s := s.setSender 1 w []) (p := 1) (by rw [sender_setSender_self]; exact hcur)
    (show 0 < 100 by decide)
  rw [sender_setSender_self, hid, setSender_setSender] at hlast
  let u := s.setSender 1 ⟨1, w.done ++ [⟨oneByte, 1, false⟩], none⟩ [chunkAt oneByte 0 1 1]
  have hrun : run step { buffer := zeroBuffer } (as ++ (as' ++ ([.call 1 oneByte, .chunk 1 .placed, .ret 1] ++
      [.receive 0]))) = some (u.receive 0) := by
    rw [run_append_of hs, run_append_of hw, run_append_of hlast]
    rfl
  have hreceive : u.receive 0 = _ := System.receive_cons rfl
  obtain ⟨b, hb, hblen⟩ := hhalf.buffer
  have hprocessed : (u.receive 0).processed = [] := by
    rw [hreceive]
    show s.processed ++ (handedOn (receiveMessage s.received (chunkAt oneByte 0 1 1) s.buffer 0).2).toList.map _ = []
    rw [hhalf.processed, receive_remains hb hblen]
    rfl
  have hid' : idOf w.done.length = 1 := by
    rw [idOf, hlen]
    decide
  have hmade : Made (u.receive 0) 1 w.done.length ⟨oneByte, 1, false⟩ := by
    rw [hreceive]
    show (u.sender 1).calls[w.done.length]? = _
    rw [sender_setSender_self, calls_of_none rfl]
    exact List.getElem?_concat_length
  have hcomplete := (h _ _ _ hrun).complete 1 _ _ hmade (by decide) ⟨rfl, rfl⟩ (by rw [hid']; exact hhalf.aged) rfl
  rw [System.deliveries, hprocessed] at hcomplete
  cases hcomplete

end Wrap

end ChunkedDelivery

end OtelDistro.Coordinator

import OtelDistro.Coordinator.ChunkedDelivery

/-!
# OtelDistro.Coordinator.PidReuse — partial messages of processes that are gone

Processes fork, run `sendPayload` and exit, also in the middle of a call; a pid that is free may be given to a later
process, whose `msgId_` is the one of its parent.  The coordinator receives, and cleans up once a minute.

The chunks in the queue and the partial messages know only `(pid, msgId)`.  Beside them the model records which call they
come from (`Queued.call`, `System.owner`), which no step looks at.

* `processes_uncombined`: what the coordinator holds and delivers comes from one call each, as long as no chunk continues what
  another call left (`OwnRemains`).
* `uncombined_of_fresh`: that is so while no call starts under a key of which something is left.
* `process_gets_the_rest_of_another`: a process that died after its first chunk, and one that got its pid.
-/

namespace OtelDistro.Coordinator

open OtelDistro.Lib

namespace PidReuse

/-! ## The system -/

/-- A call of `sendPayload`; `life` is the number of the process that made it. -/
structure Call where
  life : ℕ
  pid : Pid
  msgId : UInt64
  payload : ByteVec

/-- A call in progress; `call` is its number. -/
structure Sending where
  call : ℕ
  payload : ByteVec
  payloadOffset : UInt64 := 0

/-- `msgId` is `msgId_`. -/
structure Process where
  life : ℕ
  msgId : UInt64
  current : Option Sending := none

/-- A message in the queue, and the number of its call. -/
structure Queued where
  message : QueueMessage
  call : ℕ

/-- `calls` are all calls that were made; `owner` is the call that the bytes of a partial message are from. -/
structure System where
  process : Pid → Option Process
  lives : ℕ := 1
  calls : List Call := []
  queue : List Queued := []
  buffer : CoordinatorPayload
  received : Received := ∅
  owner : Pid × UInt64 → ℕ := fun _ => 0
  processed : List ChunkedDelivery.Processed := []
  lastCleanupTime : Option ℤ := none

/-- `throws`: `try_send` throws.  `exit` is any end of a process, its pid is free afterwards. -/
inductive Action
  | fork (parent child : Pid)
  | exit (pid : Pid)
  | call (pid : Pid) (payload : ByteVec)
  | chunk (pid : Pid) (throws : Bool)
  | ret (pid : Pid)
  | receive (now : ℤ)
  | periodicTask (now : ℤ)

def System.setProcess (s : System) (pid : Pid) (p : Option Process) : System :=
  { s with process := Function.update s.process pid p }

/-- Processes are forked from the one that the module was initialised in. -/
def System.init (parentPid : Pid) (buffer : CoordinatorPayload) : System :=
  System.setProcess { process := fun _ => none, buffer := buffer } parentPid (some { life := 0, msgId := 0 })

/-- The child has a copy of its parent's `ChunkedMessageProcessor`. -/
def System.fork (s : System) (parent : Process) (child : Pid) : System :=
  { s.setProcess child (some { life := s.lives, msgId := parent.msgId }) with lives := s.lives + 1 }

/-- The start of a call: the counter is incremented first. -/
def System.call (s : System) (pid : Pid) (p : Process) (payload : ByteVec) : System :=
  { s.setProcess pid (some ⟨p.life, p.msgId + 1, some { call := s.calls.length, payload := payload }⟩) with
    calls := s.calls ++ [⟨p.life, pid, p.msgId + 1, payload⟩] }

/-- The call after a chunk. -/
def Sending.advance (c : Sending) : Sending :=
  { c with payloadOffset := c.payloadOffset + chunkSize c.payload c.payloadOffset }

/-- One iteration of the loop of `sendPayload`; a chunk for which the queue has no room is lost. -/
def System.sendChunk (s : System) (pid : Pid) (p : Process) (c : Sending) (throws : Bool) : System :=
  if throws then s.setProcess pid (some { p with current := none })
  else
    let chunk := chunkAt c.payload c.payloadOffset pid p.msgId
    { s.setProcess pid (some { p with current := some c.advance }) with
      queue := s.queue ++ (placedIn (s.queue.map Queued.message) chunk).map (⟨·, c.call⟩) }

/-- The key of a chunk in `recievedMessages_`. -/
def Queued.key (q : Queued) : Pid × UInt64 := (q.message.senderProcessId, q.message.msgId)

/-- The partial message under the key of a chunk. -/
def System.found (s : System) (q : Queued) : Option ChunkedMessage :=
  s.received.find q.message.senderProcessId q.message.msgId

/-- The call that the partial message is from after the chunk: one without bytes becomes the chunk's. -/
def System.ownerAfter (s : System) (q : Queued) : ℕ :=
  if (s.found q).any fun m => m.data.bytes ≠ [] then s.owner q.key else q.call

/-- `tryReceiveMessage`; on an empty queue it times out. -/
def System.receive (s : System) (now : ℤ) : System :=
  match s.queue with
  | [] => s
  | q :: queue =>
    let res := receiveMessage s.received q.message s.buffer now
    { s with queue := queue
             buffer := q.message.into s.buffer
             received := res.1
             owner := Function.update s.owner q.key (s.ownerAfter q)
             processed := s.processed ++
               (handedOn res.2).toList.map (⟨q.message.senderProcessId, q.message.msgId, ·⟩) }

/-- A minute, on the steady clock. -/
def cleanUpLostMessagesInterval : ℤ := 60 * 10 ^ 9

/-- `std::chrono::seconds(10)`. -/
def maxAge : ℤ := 10 * 10 ^ 9

/-- The part of the periodic task that touches partial messages.  `lastCleanupTime` is a `static` local, the time of the
first round until there was a cleanup. -/
def System.periodicTask (s : System) (now : ℤ) : System :=
  let lastCleanupTime := s.lastCleanupTime.getD now
  if now - lastCleanupTime ≥ cleanUpLostMessagesInterval then
    { s with received := cleanupAbandonedMessages s.received now maxAge, lastCleanupTime := some now }
  else { s with lastCleanupTime := some lastCleanupTime }

def step (s : System) : Action → Option System
  | .fork parent child =>
    (s.process parent).bind fun p => if (s.process child).isNone then some (s.fork p child) else none
  | .exit pid => (s.process pid).map fun _ => s.setProcess pid none
  | .call pid payload =>
    (s.process pid).bind fun p => if p.current.isNone then some (s.call pid p payload) else none
  | .chunk pid throws =>
    (s.process pid).bind fun p => p.current.bind fun c =>
      if c.payloadOffset < c.payload.size then some (s.sendChunk pid p c throws) else none
  | .ret pid =>
    (s.process pid).bind fun p => p.current.bind fun c =>
      if c.payloadOffset < c.payload.size then none else some (s.setProcess pid (some { p with current := none }))
  | .receive now => some (s.receive now)
  | .periodicTask now => some (s.periodicTask now)

/-! ## What no step may meet -/

/-- A chunk is not received at the end of a partial message that has bytes of another call, or that is empty and was
made for another size. -/
def OwnRemains (s : System) : Action → Prop
  | .receive _ => ∀ q ∈ s.queue.head?, ∀ m, s.found q = some m → m.data.size = q.message.payloadOffset →
      if m.data.bytes ≠ [] then s.owner q.key = q.call else m.totalSize = q.message.payloadTotalSize
  | _ => True

/-- Partial messages and deliveries come from one call each. -/
structure Uncombined (s : System) : Prop where
  pending : ∀ pid msgId m, s.received.find pid msgId = some m → m.data.bytes ≠ [] →
    ∃ c ∈ s.calls, c.pid = pid ∧ c.msgId = msgId ∧ m.data.bytes <+: c.payload.bytes
  processed : ∀ e ∈ s.processed, ∃ c ∈ s.calls, c.pid = e.pid ∧ c.msgId = e.msgId ∧ e.data = c.payload.bytes

/-! ## The invariant -/

/-- Call `n` was made under this key, with this payload. -/
def Made (calls : List Call) (n : ℕ) (key : Pid × UInt64) (payload : ByteVec) : Prop :=
  ∃ life, calls[n]? = some ⟨life, key.1, key.2, payload⟩

structure Inv (s : System) : Prop where
  current : ∀ pid p c, s.process pid = some p → p.current = some c → Made s.calls c.call (pid, p.msgId) c.payload
  queue : ∀ q ∈ s.queue, ∃ payload, Made s.calls q.call q.key payload ∧ q.message.PartOf payload
  pending : ∀ pid msgId m, s.received.find pid msgId = some m → m.data.bytes ≠ [] →
    ∃ payload, Made s.calls (s.owner (pid, msgId)) (pid, msgId) payload ∧ m.totalSize = payload.size ∧
      m.data.bytes = payload.bytes.take m.data.bytes.length
  processed : ∀ e ∈ s.processed, ∃ n payload, Made s.calls n (e.pid, e.msgId) payload ∧ e.data = payload.bytes

section Steps

variable {s t : System} {pid : Pid} {p : Process} {c : Sending} {q : Queued} {queue : List Queued} {payload : ByteVec}
  {key : Pid × UInt64} {n : ℕ} {now : ℤ} {calls : List Call}

/-- A call has one payload. -/
theorem Made.payload_unique {payload' : ByteVec} {key' : Pid × UInt64} (h : Made calls n key payload)
    (h' : Made calls n key' payload') : payload' = payload := by
  obtain ⟨life, h⟩ := h
  obtain ⟨life', h'⟩ := h'
  rw [h, Option.some.injEq, Call.mk.injEq] at h'
  exact h'.2.2.2.symm

theorem Made.mem (h : Made calls n key payload) :
    ∃ c ∈ calls, c.pid = key.1 ∧ c.msgId = key.2 ∧ c.payload = payload := by
  obtain ⟨life, h⟩ := h
  exact ⟨_, List.mem_of_getElem? h, rfl, rfl, rfl⟩

theorem Made.append (h : Made calls n key payload) (more : List Call) : Made (calls ++ more) n key payload := by
  obtain ⟨life, h⟩ := h
  obtain ⟨hn, -⟩ := List.getElem?_eq_some_iff.mp h
  refine ⟨life, ?_⟩
  rw [List.getElem?_append_left hn]
  exact h

@[simp] theorem process_setProcess_self {w : Option Process} : (s.setProcess pid w).process pid = w :=
  Function.update_self _ _ _

theorem process_setProcess_ne {w : Option Process} {pid' : Pid} (h : pid' ≠ pid) :
    (s.setProcess pid w).process pid' = s.process pid' :=
  Function.update_of_ne h _ _

/-- A process comes, goes or goes on. -/
theorem Inv.setProcess (h : Inv s) {w : Option Process}
    (hw : ∀ p c, w = some p → p.current = some c → Made s.calls c.call (pid, p.msgId) c.payload) :
    Inv (s.setProcess pid w) := by
  refine ⟨fun pid' p c hp hc => ?_, h.queue, h.pending, h.processed⟩
  by_cases heq : pid' = pid
  · subst heq
    rw [process_setProcess_self] at hp
    exact hw p c hp hc
  · rw [process_setProcess_ne heq] at hp
    exact h.current pid' p c hp hc

theorem inv_init (parentPid : Pid) (buffer : CoordinatorPayload) : Inv (System.init parentPid buffer) := by
  have hempty : Inv { process := fun _ => none, buffer := buffer } := by
    constructor
    · intro pid p c hp
      cases hp
    · intro q hq
      cases hq
    · intro pid msgId m hm
      rw [Received.find, Received.messagesForSender, AList.lookup_empty, Option.getD_none, AList.lookup_empty] at hm
      cases hm
    · intro e he
      cases he
  refine hempty.setProcess fun p c hp hc => ?_
  rw [← Option.some.inj hp] at hc
  cases hc

/-- More calls are known. -/
theorem Inv.addCall (h : Inv s) (call : Call) : Inv { s with calls := s.calls ++ [call] } where
  current pid p c hp hc := (h.current pid p c hp hc).append _
  queue q hq := by
    obtain ⟨payload, hmade, hpart⟩ := h.queue q hq
    exact ⟨payload, hmade.append _, hpart⟩
  pending pid msgId m hm hne := by
    obtain ⟨payload, hmade, hrest⟩ := h.pending pid msgId m hm hne
    exact ⟨payload, hmade.append _, hrest⟩
  processed e he := by
    obtain ⟨n, payload, hmade, hdata⟩ := h.processed e he
    exact ⟨n, payload, hmade.append _, hdata⟩

theorem Inv.fork (h : Inv s) (child : Pid) : Inv (s.fork p child) := by
  have hset : Inv (s.setProcess child (some { life := s.lives, msgId := p.msgId })) := by
    refine h.setProcess fun p' c hp hc => ?_
    rw [← Option.some.inj hp] at hc
    cases hc
  exact ⟨hset.current, hset.queue, hset.pending, hset.processed⟩

theorem Inv.call (h : Inv s) : Inv (s.call pid p payload) := by
  refine (h.addCall ⟨p.life, pid, p.msgId + 1, payload⟩).setProcess fun p' c hp hc => ?_
  rw [← Option.some.inj hp] at hc ⊢
  rw [← Option.some.inj hc]
  exact ⟨p.life, List.getElem?_concat_length⟩

theorem mem_placedIn {queue : Queue} {m m' : QueueMessage} (h : m ∈ placedIn queue m') : m = m' := by
  unfold placedIn at h
  split at h
  · exact List.mem_singleton.mp h
  · cases h

theorem Inv.sendChunk (h : Inv s) (hp : s.process pid = some p) (hc : p.current = some c)
    (hlt : c.payloadOffset < c.payload.size) (throws : Bool) : Inv (s.sendChunk pid p c throws) := by
  have hmade := h.current pid p c hp hc
  unfold System.sendChunk
  by_cases ht : throws = true
  · rw [if_pos ht]
    refine h.setProcess fun p' c' hp' hc' => ?_
    rw [← Option.some.inj hp'] at hc'
    cases hc'
  · rw [if_neg ht]
    have hset : Inv (s.setProcess pid (some { p with current := some c.advance })) := by
      refine h.setProcess fun p' c' hp' hc' => ?_
      rw [← Option.some.inj hp'] at hc' ⊢
      rw [← Option.some.inj hc']
      exact hmade
    refine ⟨hset.current, fun q hq => ?_, hset.pending, hset.processed⟩
    rcases List.mem_append.mp hq with hq | hq
    · exact h.queue q hq
    · obtain ⟨m, hm, rfl⟩ := List.mem_map.mp hq
      rw [mem_placedIn hm]
      exact ⟨c.payload, hmade, chunkAt_partOf pid p.msgId hlt⟩

/-! ## Receiving -/

theorem System.receive_nil (h : s.queue = []) : s.receive now = s := by
  rw [System.receive, h]

theorem System.receive_cons (h : s.queue = q :: queue) : s.receive now =
    { s with queue := queue
             buffer := q.message.into s.buffer
             received := (receiveMessage s.received q.message s.buffer now).1
             owner := Function.update s.owner q.key (s.ownerAfter q)
             processed := s.processed ++ (handedOn (receiveMessage s.received q.message s.buffer now).2).toList.map
               (⟨q.message.senderProcessId, q.message.msgId, ·⟩) } := by
  rw [System.receive, h]

/-- What receiving a chunk does to the partial message under its key, and what it hands on. -/
structure Takes (s : System) (q : Queued) (payload : ByteVec) (now : ℤ) : Prop where
  pending : ∀ m, (receiveMessage s.received q.message s.buffer now).1.find q.message.senderProcessId q.message.msgId =
    some m → m.data.bytes ≠ [] →
      (s.found q = some m ∧ s.ownerAfter q = s.owner q.key) ∨
        s.ownerAfter q = q.call ∧ m.totalSize = payload.size ∧ m.data.bytes = payload.bytes.take m.data.bytes.length
  other : ∀ pid msgId, (pid, msgId) ≠ q.key →
    (receiveMessage s.received q.message s.buffer now).1.find pid msgId = s.received.find pid msgId
  handedOn : ∀ data, handedOn (receiveMessage s.received q.message s.buffer now).2 = some data → data = payload.bytes

/-- A chunk that meets nothing, or a message of its own size that begins like its payload. -/
theorem takes_of_prefix (hpart : q.message.PartOf payload) (hfound : ∀ m, s.found q = some m → m.totalSize = payload.size)
    (hbegins : ∀ m, s.found q = some m → m.data.bytes = payload.bytes.take m.data.bytes.length)
    (howner : s.ownerAfter q = q.call) : Takes s q payload now := by
  obtain ⟨hbuffer, hout, htotal, hother⟩ := receiveMessage_spec s.buffer now hpart hfound
  have hb : (s.received.bufferOf q.message.senderProcessId q.message.msgId).getD [] =
      payload.bytes.take ((s.received.bufferOf q.message.senderProcessId q.message.msgId).getD []).length := by
    unfold Received.bufferOf
    cases hf : s.received.find q.message.senderProcessId q.message.msgId with
    | none => rfl
    | some m => exact hbegins m hf
  obtain ⟨hkept, hdone⟩ := feed_prefix hpart.piece hb
  refine ⟨fun m hm _ => .inr ⟨howner, htotal m hm, hkept _ ?_⟩, fun pid msgId hne => ?_, fun data hdata => ?_⟩
  · rw [← hbuffer, Received.bufferOf, hm]
    rfl
  · exact hother pid msgId fun heq => hne (Prod.ext heq.1.symm heq.2.symm)
  · exact hdone data (hout.symm.trans hdata)

/-- A chunk elsewhere changes nothing. -/
theorem takes_of_unexpected {m : ChunkedMessage} (hf : s.found q = some m)
    (hoff : m.data.bytes.length ≠ q.message.payloadOffset.toNat) : Takes s q payload now := by
  obtain ⟨hout, hfind⟩ := receiveMessage_unexpected s.buffer now hf hoff
  refine ⟨fun m' hm' hne => .inl ⟨(hfind _ _).symm.trans hm', ?_⟩, fun pid msgId _ => hfind pid msgId, ?_⟩
  · obtain rfl : m = m' := Option.some.inj (hf.symm.trans ((hfind _ _).symm.trans hm'))
    rw [System.ownerAfter, hf, Option.any_some, if_pos (decide_eq_true hne)]
  · intro data hdata
    rw [hout] at hdata
    cases hdata

theorem Inv.takes (h : Inv s) (hpart : q.message.PartOf payload) (hmade : Made s.calls q.call q.key payload)
    (hown : ∀ m, s.found q = some m → m.data.size = q.message.payloadOffset →
      if m.data.bytes ≠ [] then s.owner q.key = q.call else m.totalSize = q.message.payloadTotalSize) :
    Takes s q payload now := by
  cases hf : s.found q with
  | none =>
    refine takes_of_prefix hpart (fun m hm => ?_) (fun m hm => ?_) ?_
    · cases hf.symm.trans hm
    · cases hf.symm.trans hm
    · rw [System.ownerAfter, hf]
      rfl
  | some m =>
    by_cases hoff : m.data.bytes.length = q.message.payloadOffset.toNat
    · have hm := hown m hf (UInt64.toNat_inj.mp (by rw [ByteVec.size_toNat, hoff]))
      by_cases hne : m.data.bytes ≠ []
      · rw [if_pos hne] at hm
        obtain ⟨payload', hmade', htotal, hbytes⟩ := h.pending _ _ m hf hne
        have hmade'' : Made s.calls q.call q.key payload' := hm ▸ hmade'
        obtain rfl := hmade.payload_unique hmade''
        refine takes_of_prefix hpart (fun m' hm' => ?_) (fun m' hm' => ?_) ?_
        · rw [← Option.some.inj (hf.symm.trans hm')]
          exact htotal
        · rw [← Option.some.inj (hf.symm.trans hm')]
          exact hbytes
        · rw [System.ownerAfter, hf, Option.any_some, if_pos (decide_eq_true hne)]
          exact hm
      · rw [if_neg hne] at hm
        rw [ne_eq, not_not] at hne
        refine takes_of_prefix hpart (fun m' hm' => ?_) (fun m' hm' => ?_) ?_
        · rw [← Option.some.inj (hf.symm.trans hm'), hm, hpart.total]
        · rw [← Option.some.inj (hf.symm.trans hm'), hne]
          rfl
        · rw [System.ownerAfter, hf, Option.any_some, if_neg (by rw [hne]; exact Bool.false_ne_true)]
    · exact takes_of_unexpected hf hoff

theorem Inv.receive (h : Inv s) (hown : OwnRemains s (.receive now)) : Inv (s.receive now) := by
  cases hq : s.queue with
  | nil => rwa [System.receive_nil hq]
  | cons q queue =>
    obtain ⟨payload, hmade, hpart⟩ := h.queue q (hq ▸ List.mem_cons_self)
    have htakes : Takes s q payload now := h.takes hpart hmade (hown q (by rw [hq]; rfl))
    rw [System.receive_cons hq]
    refine ⟨h.current, fun q' hq' => h.queue q' (hq ▸ List.mem_cons_of_mem _ hq'), ?_, ?_⟩
    · intro pid msgId m hm hne
      by_cases hkey : (pid, msgId) = q.key
      · obtain ⟨rfl, rfl⟩ := Prod.mk.inj hkey
        show ∃ payload, Made s.calls (Function.update s.owner q.key (s.ownerAfter q) q.key) q.key payload ∧ _
        rw [Function.update_self]
        rcases htakes.pending m hm hne with ⟨hf, howner⟩ | ⟨howner, htotal, hbytes⟩
        · rw [howner]
          exact h.pending _ _ m hf hne
        · rw [howner]
          exact ⟨payload, hmade, htotal, hbytes⟩
      · show ∃ payload, Made s.calls (Function.update s.owner q.key (s.ownerAfter q) (pid, msgId)) (pid, msgId) payload ∧ _
        rw [Function.update_of_ne hkey]
        exact h.pending pid msgId m ((htakes.other pid msgId hkey).symm.trans hm) hne
    · intro e he
      rcases List.mem_append.mp he with he | he
      · exact h.processed e he
      · obtain ⟨data, hdata, rfl⟩ := List.mem_map.mp he
        exact ⟨q.call, payload, hmade, htakes.handedOn data (Option.mem_toList.mp hdata)⟩

theorem Inv.periodicTask (h : Inv s) (now : ℤ) : Inv (s.periodicTask now) := by
  unfold System.periodicTask
  simp only
  split
  · exact ⟨h.current, h.queue, fun pid msgId m hm => h.pending pid msgId m (ChunkedDelivery.find_cleanup_some hm),
      h.processed⟩
  · exact ⟨h.current, h.queue, h.pending, h.processed⟩

/-- **Every step keeps the invariant.** -/
theorem Inv.step {a : Action} (h : Inv s) (hown : OwnRemains s a) (hstep : step s a = some t) : Inv t := by
  cases a with
  | fork parent child =>
    simp only [PidReuse.step, Option.bind_eq_some_iff, Option.ite_none_right_eq_some, Option.some.injEq] at hstep
    obtain ⟨p, -, -, rfl⟩ := hstep
    exact h.fork child
  | exit pid =>
    simp only [PidReuse.step, Option.map_eq_some_iff] at hstep
    obtain ⟨p, -, rfl⟩ := hstep
    exact h.setProcess fun p c hp => by cases hp
  | call pid payload =>
    simp only [PidReuse.step, Option.bind_eq_some_iff, Option.ite_none_right_eq_some, Option.some.injEq] at hstep
    obtain ⟨p, -, -, rfl⟩ := hstep
    exact h.call
  | chunk pid throws =>
    simp only [PidReuse.step, Option.bind_eq_some_iff, Option.ite_none_right_eq_some, Option.some.injEq] at hstep
    obtain ⟨p, hp, c, hc, hlt, rfl⟩ := hstep
    exact h.sendChunk hp hc hlt throws
  | ret pid =>
    simp only [PidReuse.step, Option.bind_eq_some_iff, Option.ite_none_left_eq_some, Option.some.injEq] at hstep
    obtain ⟨p, -, c, -, -, rfl⟩ := hstep
    refine h.setProcess fun p' c' hp' hc' => ?_
    rw [← Option.some.inj hp'] at hc'
    cases hc'
  | receive now =>
    simp only [PidReuse.step, Option.some.injEq] at hstep
    exact hstep ▸ h.receive hown
  | periodicTask now =>
    simp only [PidReuse.step, Option.some.injEq] at hstep
    exact hstep ▸ h.periodicTask now

theorem Inv.uncombined (h : Inv s) : Uncombined s where
  pending pid msgId m hm hne := by
    obtain ⟨payload, hmade, -, hbytes⟩ := h.pending pid msgId m hm hne
    obtain ⟨c, hc, hpid, hid, rfl⟩ := hmade.mem
    exact ⟨c, hc, hpid, hid, hbytes ▸ List.take_prefix _ _⟩
  processed e he := by
    obtain ⟨n, payload, hmade, hdata⟩ := h.processed e he
    obtain ⟨c, hc, hpid, hid, rfl⟩ := hmade.mem
    exact ⟨c, hc, hpid, hid, hdata⟩

end Steps

/-! ## Main results -/

/-- **Nothing of two calls is combined**, in every run in which no chunk continues what another call left. -/
theorem processes_uncombined {parentPid : Pid} {buffer : CoordinatorPayload} {as : List Action} {s : System}
    (h : Path step OwnRemains (System.init parentPid buffer) as s) : Uncombined s :=
  (h.invariant (fun _ _ _ hI hok hstep => hI.step hok hstep) (inv_init parentPid buffer)).uncombined

/-- A process sends a byte and exits; its pid is given to another one, which sends a byte under the same id. -/
def reused : List Action :=
  [.fork 1 7, .call 7 ChunkedDelivery.oneByte, .chunk 7 false, .exit 7, .receive 0, .fork 1 7,
    .call 7 ⟨[9], by decide⟩, .chunk 7 false, .ret 7, .receive 1]

theorem processes_uncombined_witness : ∃ s, run step (System.init 1 ChunkedDelivery.zeroBuffer) reused = some s ∧
    s.processed.map (fun e => e.data) = [[7], [9]] ∧ Uncombined s := by
  have hpath : ∃ s, Path step OwnRemains (System.init 1 ChunkedDelivery.zeroBuffer) reused s ∧
      s.processed.map (fun e => e.data) = [[7], [9]] := by
    refine ⟨_, .cons trivial rfl (.cons trivial rfl (.cons trivial rfl (.cons trivial rfl (.cons ?_ rfl
      (.cons trivial rfl (.cons trivial rfl (.cons trivial rfl (.cons trivial rfl (.cons ?_ rfl (.nil _)))))))))), rfl⟩
    · intro q hq m hm
      cases hq
      cases hm
    · intro q hq m hm
      cases hq
      cases hm
  obtain ⟨s, hpath, hdata⟩ := hpath
  exact ⟨s, hpath.run_eq, hdata, processes_uncombined hpath⟩

/-! ## Keys of which nothing is left -/

/-- A call does not start under a key of which the coordinator or the queue holds something. -/
def FreshKey (s : System) : Action → Prop
  | .call pid _ => ∀ p, s.process pid = some p →
      s.received.find pid (p.msgId + 1) = none ∧ ∀ q ∈ s.queue, q.key ≠ (pid, p.msgId + 1)
  | _ => True

/-- Call `n` is the last one under its key. -/
structure Newest (calls : List Call) (n : ℕ) (key : Pid × UInt64) : Prop where
  made : ∃ payload, Made calls n key payload
  last : ∀ n' payload', Made calls n' key payload' → n' ≤ n

/-- Everything there is of a key is of its last call. -/
structure NewestInv (s : System) : Prop where
  current : ∀ pid p c, s.process pid = some p → p.current = some c → Newest s.calls c.call (pid, p.msgId)
  queue : ∀ q ∈ s.queue, Newest s.calls q.call q.key
  pending : ∀ pid msgId m, s.received.find pid msgId = some m → Newest s.calls (s.owner (pid, msgId)) (pid, msgId) ∧
    ∀ payload, Made s.calls (s.owner (pid, msgId)) (pid, msgId) payload → m.totalSize = payload.size

section Fresh

variable {s t : System} {pid : Pid} {p : Process} {c : Sending} {q : Queued} {queue : List Queued} {payload : ByteVec}
  {key : Pid × UInt64} {n n' : ℕ} {now : ℤ} {calls : List Call} {made : Call}

theorem Newest.unique (h : Newest calls n key) (h' : Newest calls n' key) : n = n' := by
  obtain ⟨payload, hmade⟩ := h.made
  obtain ⟨payload', hmade'⟩ := h'.made
  exact le_antisymm (h'.last n payload hmade) (h.last n' payload' hmade')

/-- A call that is known after a further one. -/
theorem Made.of_append (h : Made (calls ++ [made]) n key payload) :
    Made calls n key payload ∨ n = calls.length ∧ (made.pid, made.msgId) = key := by
  obtain ⟨life, h⟩ := h
  rcases Nat.lt_or_ge n calls.length with hn | hn
  · rw [List.getElem?_append_left hn] at h
    exact .inl ⟨life, h⟩
  · rw [List.getElem?_append_right hn] at h
    obtain ⟨hlt, heq⟩ := List.getElem?_eq_some_iff.mp h
    rw [List.length_singleton] at hlt
    rw [List.getElem_singleton] at heq
    exact .inr ⟨by omega, by rw [heq]⟩

/-- A call under another key. -/
theorem Newest.append (h : Newest calls n key) (hne : key ≠ (made.pid, made.msgId)) : Newest (calls ++ [made]) n key := by
  obtain ⟨payload, hmade⟩ := h.made
  refine ⟨⟨payload, hmade.append _⟩, fun n' payload' hmade' => ?_⟩
  rcases hmade'.of_append with hold | ⟨-, hkey⟩
  · exact h.last n' payload' hold
  · exact absurd hkey.symm hne

theorem newest_last : Newest (calls ++ [made]) calls.length (made.pid, made.msgId) := by
  refine ⟨⟨made.payload, made.life, List.getElem?_concat_length⟩, fun n' payload' hmade' => ?_⟩
  obtain ⟨life, hmade'⟩ := hmade'
  obtain ⟨hlt, -⟩ := List.getElem?_eq_some_iff.mp hmade'
  rw [List.length_append, List.length_singleton] at hlt
  omega

theorem NewestInv.setProcess (h : NewestInv s) {w : Option Process}
    (hw : ∀ p c, w = some p → p.current = some c → Newest s.calls c.call (pid, p.msgId)) : NewestInv (s.setProcess pid w) := by
  refine ⟨fun pid' p c hp hc => ?_, h.queue, h.pending⟩
  by_cases heq : pid' = pid
  · subst heq
    rw [process_setProcess_self] at hp
    exact hw p c hp hc
  · rw [process_setProcess_ne heq] at hp
    exact h.current pid' p c hp hc

theorem newestInv_init (parentPid : Pid) (buffer : CoordinatorPayload) : NewestInv (System.init parentPid buffer) := by
  refine ⟨fun pid p c hp hc => ?_, fun q hq => absurd hq List.not_mem_nil, fun pid msgId m hm => ?_⟩
  · obtain ⟨life, hmade⟩ := (inv_init parentPid buffer).current pid p c hp hc
    cases hmade
  · rw [System.init, System.setProcess, Received.find, Received.messagesForSender, AList.lookup_empty,
      Option.getD_none, AList.lookup_empty] at hm
    cases hm

theorem NewestInv.call (h : NewestInv s) (hp : s.process pid = some p) (hfresh : FreshKey s (.call pid payload)) :
    NewestInv (s.call pid p payload) := by
  obtain ⟨hfind, hqueue⟩ := hfresh p hp
  refine ⟨fun pid' p' c' hp' hc' => ?_, fun q hq => (h.queue q hq).append (hqueue q hq), ?_⟩
  · by_cases heq : pid' = pid
    · subst heq
      have hp'' : some _ = some p' := (Function.update_self pid' _ s.process).symm.trans hp'
      rw [← Option.some.inj hp''] at hc' ⊢
      rw [← Option.some.inj hc']
      exact newest_last
    · have hp'' : s.process pid' = some p' := (Function.update_of_ne heq _ _).symm.trans hp'
      exact (h.current pid' p' c' hp'' hc').append fun hkey => heq (Prod.mk.inj hkey).1
  · intro pid' msgId m hm
    have hne : (pid', msgId) ≠ (pid, p.msgId + 1) := by
      intro hkey
      obtain ⟨rfl, rfl⟩ := Prod.mk.inj hkey
      cases hfind.symm.trans hm
    obtain ⟨hnewest, htotal⟩ := h.pending pid' msgId m hm
    refine ⟨hnewest.append hne, fun payload' hmade => ?_⟩
    rcases hmade.of_append with hold | ⟨-, hkey⟩
    · exact htotal payload' hold
    · exact absurd hkey.symm hne

theorem NewestInv.sendChunk (h : NewestInv s) (hp : s.process pid = some p) (hc : p.current = some c) (throws : Bool) :
    NewestInv (s.sendChunk pid p c throws) := by
  have hnewest := h.current pid p c hp hc
  unfold System.sendChunk
  by_cases ht : throws = true
  · rw [if_pos ht]
    refine h.setProcess fun p' c' hp' hc' => ?_
    rw [← Option.some.inj hp'] at hc'
    cases hc'
  · rw [if_neg ht]
    have hset : NewestInv (s.setProcess pid (some { p with current := some c.advance })) := by
      refine h.setProcess fun p' c' hp' hc' => ?_
      rw [← Option.some.inj hp'] at hc' ⊢
      rw [← Option.some.inj hc']
      exact hnewest
    refine ⟨hset.current, fun q hq => ?_, hset.pending⟩
    rcases List.mem_append.mp hq with hq | hq
    · exact h.queue q hq
    · obtain ⟨m, hm, rfl⟩ := List.mem_map.mp hq
      rw [mem_placedIn hm]
      exact hnewest

/-- What is left under the key of a chunk in the queue is of its call. -/
theorem NewestInv.owner_eq (h : NewestInv s) (hq : q ∈ s.queue) {m : ChunkedMessage} (hf : s.found q = some m) :
    s.owner q.key = q.call :=
  (h.pending _ _ m hf).1.unique (h.queue q hq)

theorem NewestInv.totalSize_eq (h : NewestInv s) (hq : q ∈ s.queue) (hmade : Made s.calls q.call q.key payload)
    {m : ChunkedMessage} (hf : s.found q = some m) : m.totalSize = payload.size := by
  refine (h.pending _ _ m hf).2 payload ?_
  show Made s.calls (s.owner q.key) q.key payload
  rw [h.owner_eq hq hf]
  exact hmade

/-- No chunk continues what another call left. -/
theorem NewestInv.ownRemains (h : NewestInv s) (hI : Inv s) (a : Action) : OwnRemains s a := by
  cases a with
  | receive now =>
    intro q hq m hf _
    have hmem : q ∈ s.queue := List.mem_of_mem_head? hq
    obtain ⟨payload, hmade, hpart⟩ := hI.queue q hmem
    split
    · exact h.owner_eq hmem hf
    · rw [h.totalSize_eq hmem hmade hf, hpart.total]
  | fork | exit | call | chunk | ret | periodicTask => trivial

theorem NewestInv.receive (h : NewestInv s) (hI : Inv s) (now : ℤ) : NewestInv (s.receive now) := by
  cases hq : s.queue with
  | nil => rwa [System.receive_nil hq]
  | cons q queue =>
    have hmem : q ∈ s.queue := hq ▸ List.mem_cons_self
    obtain ⟨payload, hmade, hpart⟩ := hI.queue q hmem
    obtain ⟨-, -, htotal, hother⟩ := receiveMessage_spec s.buffer now hpart fun m hf => h.totalSize_eq hmem hmade hf
    have howner : s.ownerAfter q = q.call := by
      unfold System.ownerAfter
      split
      · next hany =>
        obtain ⟨m, hf, -⟩ := (Option.any_eq_true _ _).mp hany
        exact h.owner_eq hmem hf
      · rfl
    rw [System.receive_cons hq]
    refine ⟨h.current, fun q' hq' => h.queue q' (hq ▸ List.mem_cons_of_mem _ hq'), fun pid msgId m hm => ?_⟩
    by_cases hkey : (pid, msgId) = q.key
    · obtain ⟨rfl, rfl⟩ := Prod.mk.inj hkey
      show Newest s.calls (Function.update s.owner q.key (s.ownerAfter q) q.key) q.key ∧
        ∀ payload, Made s.calls (Function.update s.owner q.key (s.ownerAfter q) q.key) q.key payload → _
      rw [Function.update_self, howner]
      refine ⟨h.queue q hmem, fun payload' hmade' => ?_⟩
      rw [hmade.payload_unique hmade']
      exact htotal m hm
    · show Newest s.calls (Function.update s.owner q.key (s.ownerAfter q) (pid, msgId)) (pid, msgId) ∧
        ∀ payload, Made s.calls (Function.update s.owner q.key (s.ownerAfter q) (pid, msgId)) (pid, msgId) payload → _
      rw [Function.update_of_ne hkey]
      exact h.pending pid msgId m ((hother pid msgId fun heq => hkey (Prod.ext heq.1.symm heq.2.symm)).symm.trans hm)

theorem NewestInv.periodicTask (h : NewestInv s) (now : ℤ) : NewestInv (s.periodicTask now) := by
  unfold System.periodicTask
  simp only
  split
  · exact ⟨h.current, h.queue, fun pid msgId m hm => h.pending pid msgId m (ChunkedDelivery.find_cleanup_some hm)⟩
  · exact ⟨h.current, h.queue, h.pending⟩

theorem NewestInv.step {a : Action} (h : NewestInv s) (hI : Inv s) (hfresh : FreshKey s a) (hstep : step s a = some t) :
    NewestInv t := by
  cases a with
  | fork parent child =>
    simp only [PidReuse.step, Option.bind_eq_some_iff, Option.ite_none_right_eq_some, Option.some.injEq] at hstep
    obtain ⟨p, -, -, rfl⟩ := hstep
    have hset : NewestInv (s.setProcess child (some { life := s.lives, msgId := p.msgId })) := by
      refine h.setProcess fun p' c hp hc => ?_
      rw [← Option.some.inj hp] at hc
      cases hc
    exact ⟨hset.current, hset.queue, hset.pending⟩
  | exit pid =>
    simp only [PidReuse.step, Option.map_eq_some_iff] at hstep
    obtain ⟨p, -, rfl⟩ := hstep
    exact h.setProcess fun p c hp => by cases hp
  | call pid payload =>
    simp only [PidReuse.step, Option.bind_eq_some_iff, Option.ite_none_right_eq_some, Option.some.injEq] at hstep
    obtain ⟨p, hp, -, rfl⟩ := hstep
    exact h.call hp hfresh
  | chunk pid throws =>
    simp only [PidReuse.step, Option.bind_eq_some_iff, Option.ite_none_right_eq_some, Option.some.injEq] at hstep
    obtain ⟨p, hp, c, hc, -, rfl⟩ := hstep
    exact h.sendChunk hp hc throws
  | ret pid =>
    simp only [PidReuse.step, Option.bind_eq_some_iff, Option.ite_none_left_eq_some, Option.some.injEq] at hstep
    obtain ⟨p, -, c, -, -, rfl⟩ := hstep
    refine h.setProcess fun p' c' hp' hc' => ?_
    rw [← Option.some.inj hp'] at hc'
    cases hc'
  | receive now =>
    simp only [PidReuse.step, Option.some.injEq] at hstep
    exact hstep ▸ h.receive hI now
  | periodicTask now =>
    simp only [PidReuse.step, Option.some.injEq] at hstep
    exact hstep ▸ h.periodicTask now

/-- Runs in which every call finds its key unused combine nothing. -/
theorem uncombined_of_fresh {parentPid : Pid} {buffer : CoordinatorPayload} {as : List Action}
    (h : Path step FreshKey (System.init parentPid buffer) as s) : Uncombined s := by
  have hinv := h.invariant (I := fun s => Inv s ∧ NewestInv s)
    (fun _ a _ hI hok hstep => ⟨hI.1.step (hI.2.ownRemains hI.1 a) hstep, hI.2.step hI.1 hok hstep⟩)
    ⟨inv_init parentPid buffer, newestInv_init parentPid buffer⟩
  exact hinv.1.uncombined

end Fresh

/-! ## A process gets the rest of another one's message -/

section LeftBehind

variable {s : System} {pid parent child : Pid} {p : Process} {c : Sending} {payload old new : ByteVec}

theorem step_fork (hp : s.process parent = some p) (hfree : s.process child = none) :
    step s (.fork parent child) = some (s.fork p child) := by
  rw [step, hp, Option.bind_some, hfree]
  rfl

theorem step_exit (hp : s.process pid = some p) : step s (.exit pid) = some (s.setProcess pid none) := by
  rw [step, hp]
  rfl

theorem step_call (hp : s.process pid = some p) (hc : p.current = none) :
    step s (.call pid payload) = some (s.call pid p payload) := by
  rw [step, hp, Option.bind_some, hc]
  rfl

theorem step_chunk (hp : s.process pid = some p) (hc : p.current = some c) (hlt : c.payloadOffset < c.payload.size)
    (hroom : s.queue.length < maxQueueSize) : step s (.chunk pid false) =
      some { s.setProcess pid (some { p with current := some c.advance }) with
        queue := s.queue ++ [⟨chunkAt c.payload c.payloadOffset pid p.msgId, c.call⟩] } := by
  have hroom' : (s.queue.map Queued.message).length < maxQueueSize := by rwa [List.length_map]
  rw [step, hp, Option.bind_some, hc, Option.bind_some, if_pos hlt, System.sendChunk, if_neg Bool.false_ne_true]
  simp only
  rw [placedIn_of_room hroom']
  rfl

/-- The first of the two chunks of a payload of 4065 bytes. -/
theorem firstChunk_length (h : payload.size = 4065) : (0 : UInt64) < payload.size ∧ (chunkData payload 0).length = 4064 := by
  have hlt : (0 : UInt64) < payload.size := by
    rw [h]
    decide
  refine ⟨hlt, ?_⟩
  rw [chunkData_length _ _ hlt, chunkSize, h]
  show (min (UInt64.ofNat payloadCapacity) (4065 - 0)).toNat = 4064
  decide

theorem secondChunk_length (h : payload.size = 4065) :
    (4064 : UInt64) < payload.size ∧ (chunkData payload 4064).length = 1 := by
  have hlt : (4064 : UInt64) < payload.size := by
    rw [h]
    decide
  refine ⟨hlt, ?_⟩
  rw [chunkData_length _ _ hlt, chunkSize, h]
  show (min (UInt64.ofNat payloadCapacity) (4065 - 4064)).toNat = 1
  decide

theorem length_of_size (h : payload.size = 4065) : payload.bytes.length = 4065 := by
  rw [← ByteVec.size_toNat, h]
  rfl

/-- The coordinator has the first chunk of a process that is gone, and another process has its pid and its counter. -/
structure LeftBehind (s : System) (old : ByteVec) : Prop where
  process : s.process 7 = some { life := 2, msgId := 0 }
  queue : s.queue = []
  calls : s.calls = [⟨1, 7, 1, old⟩]
  processed : s.processed = []
  found : ∃ m, s.received.find 7 1 = some m ∧ m.totalSize = 4065 ∧ m.data.bytes = chunkData old 0

/-- The first process exits after its first chunk. -/
theorem run_leftBehind (buffer : CoordinatorPayload) (h : old.size = 4065) :
    ∃ as s, run step (System.init 1 buffer) as = some s ∧ LeftBehind s old := by
  obtain ⟨hlt, hlen⟩ := firstChunk_length h
  have hnone : ∀ m, (∅ : Received).find 7 1 = some m → m.totalSize = old.size := fun m hm => by cases hm
  obtain ⟨hbuffer, hout, htotal, -⟩ := receiveMessage_spec buffer 0 (chunkAt_partOf 7 1 hlt) hnone
  have hfed : feed old.bytes.length none (fragmentOf (chunkAt old 0 7 1)) = (some (chunkData old 0), none) := by
    refine feed_accept rfl ?_
    show 0 + (chunkData old 0).length ≠ old.bytes.length
    rw [hlen, length_of_size h]
    decide
  have hroom : List.length ([] : List Queued) < maxQueueSize := by decide
  refine ⟨[.fork 1 7, .call 7 old, .chunk 7 false, .receive 0, .exit 7, .fork 1 7], _, path_true_iff.mp
    (.cons trivial (step_fork rfl rfl) (.cons trivial (step_call rfl rfl) (.cons trivial (step_chunk rfl rfl hlt hroom)
      (.cons trivial rfl (.cons trivial (step_exit rfl) (.cons trivial (step_fork rfl rfl) (.nil _))))))),
    rfl, rfl, rfl, ?_, ?_⟩
  · show [] ++ (handedOn (receiveMessage ∅ (chunkAt old 0 7 1) buffer 0).2).toList.map _ = []
    rw [hout.trans (congrArg Prod.snd hfed)]
    rfl
  · obtain ⟨m, hm, hbytes⟩ := Option.map_eq_some_iff.mp (hbuffer.trans (congrArg Prod.fst hfed))
    exact ⟨m, hm, (htotal m hm).trans h, hbytes⟩

/-- The second chunk of the other process completes the message of the first one. -/
theorem run_combined (hs : LeftBehind s old) (hold : old.size = 4065) (h : new.size = 4065) :
    ∃ as t, run step s as = some t ∧ t.calls = [⟨1, 7, 1, old⟩, ⟨2, 7, 1, new⟩] ∧
      t.processed = [⟨7, 1, chunkData old 0 ++ chunkData new 4064⟩] := by
  obtain ⟨hlt, hlen⟩ := firstChunk_length h
  obtain ⟨hlt', hlen'⟩ := secondChunk_length h
  obtain ⟨m, hm, htotal, hbytes⟩ := hs.found
  have hmlen : m.data.bytes.length = 4064 := by
    rw [hbytes, (firstChunk_length hold).2]
  let q₁ := chunkAt new 0 7 1
  let q₂ := chunkAt new 4064 7 1
  -- the first chunk is refused, since the old one is there
  obtain ⟨hrefused, hsame⟩ := receiveMessage_unexpected (r := s.received) (c := q₁) s.buffer 1 hm
    (show m.data.bytes.length ≠ (0 : UInt64).toNat by rw [hmlen]; decide)
  have hm' : (receiveMessage s.received q₁ s.buffer 1).1.find 7 1 = some m := (hsame 7 1).trans hm
  -- the second one continues it
  have hfound : ∀ m', (receiveMessage s.received q₁ s.buffer 1).1.find 7 1 = some m' → m'.totalSize = new.size := by
    intro m' h'
    rw [← Option.some.inj (hm'.symm.trans h'), htotal, h]
  obtain ⟨-, hout, -⟩ := receiveMessage_spec (q₁.into s.buffer) 2 (chunkAt_partOf 7 1 hlt') hfound
  have hbuffer : (receiveMessage s.received q₁ s.buffer 1).1.bufferOf 7 1 = some (chunkData old 0) := by
    rw [Received.bufferOf, hm', Option.map_some, hbytes]
  have hfed : (feed new.bytes.length ((receiveMessage s.received q₁ s.buffer 1).1.bufferOf 7 1) (fragmentOf q₂)).2 =
      some (chunkData old 0 ++ chunkData new 4064) := by
    rw [hbuffer, feed_complete]
    · rfl
    · exact (firstChunk_length hold).2
    · show 4064 + (chunkData new 4064).length = new.bytes.length
      rw [hlen', length_of_size h]
  -- the run
  obtain ⟨process, lives, calls, queue, buffer, received, owner, processed, lastCleanupTime⟩ := s
  obtain rfl : queue = [] := hs.queue
  obtain rfl : calls = _ := hs.calls
  obtain rfl : processed = [] := hs.processed
  have hoffset : 0 + chunkSize new 0 = 4064 := ChunkedDelivery.firstSent_offset h
  have hnext : 0 + chunkSize new 0 < new.size := by rwa [hoffset]
  have hroom : List.length ([] : List Queued) < maxQueueSize := by decide
  have hroom' : List.length [(⟨q₁, 1⟩ : Queued)] < maxQueueSize := Nat.lt_of_lt_of_le Nat.one_lt_two (by decide)
  refine ⟨[.call 7 new, .chunk 7 false, .chunk 7 false, .receive 1, .receive 2], _, path_true_iff.mp
    (.cons trivial (step_call hs.process rfl) (.cons trivial (step_chunk rfl rfl hlt hroom)
      (.cons trivial (step_chunk rfl rfl hnext hroom') (.cons trivial rfl (.cons trivial rfl (.nil _)))))),
    rfl, ?_⟩
  show ([] ++ (handedOn (receiveMessage received q₁ buffer 1).2).toList.map _) ++ (handedOn (receiveMessage
    (receiveMessage received q₁ buffer 1).1 (chunkAt new (0 + chunkSize new 0) 7 1) (q₁.into buffer) 2).2).toList.map _
      = _
  rw [hrefused, hoffset, hout.trans hfed]
  rfl

/-- A payload of two chunks. -/
def twoChunks (b : UInt8) : ByteVec := ⟨List.replicate 4065 b, by rw [List.length_replicate]; decide⟩

theorem twoChunks_size (b : UInt8) : (twoChunks b).size = 4065 := by
  rw [ByteVec.size, twoChunks, List.length_replicate]
  rfl

theorem mem_chunkData_twoChunks {b : UInt8} {offset : UInt64} (h : 0 < (chunkData (twoChunks b) offset).length) :
    b ∈ chunkData (twoChunks b) offset := by
  obtain ⟨x, hx⟩ := List.exists_mem_of_length_pos h
  have hmem : x ∈ (twoChunks b).bytes := List.mem_of_mem_drop (List.mem_of_mem_take hx)
  rwa [List.eq_of_mem_replicate hmem] at hx

/-- **The rest of a message is taken from another process**: 4064 bytes of one that is gone, then the last byte of one
with its pid. -/
theorem process_gets_the_rest_of_another : ¬ ∀ (parentPid : Pid) (buffer : CoordinatorPayload) (as : List Action)
    (s : System), run step (System.init parentPid buffer) as = some s → Uncombined s := by
  intro hall
  obtain ⟨as, s, hrun, hs⟩ := run_leftBehind ChunkedDelivery.zeroBuffer (twoChunks_size 1)
  obtain ⟨bs, t, hrun', hcalls, hprocessed⟩ := run_combined hs (twoChunks_size 1) (twoChunks_size 2)
  have hdelivered := (hall 1 ChunkedDelivery.zeroBuffer _ t ((run_append_of hrun).trans hrun')).processed
  rw [hprocessed] at hdelivered
  obtain ⟨c, hc, -, -, hdata⟩ := hdelivered _ (List.mem_singleton_self _)
  have hone : (1 : UInt8) ∈ c.payload.bytes := by
    rw [← hdata]
    exact List.mem_append_left _ (mem_chunkData_twoChunks (by rw [(firstChunk_length (twoChunks_size 1)).2]; decide))
  have htwo : (2 : UInt8) ∈ c.payload.bytes := by
    rw [← hdata]
    exact List.mem_append_right _ (mem_chunkData_twoChunks (by rw [(secondChunk_length (twoChunks_size 2)).2]; decide))
  rw [hcalls] at hc
  rcases List.mem_pair.mp hc with rfl | rfl
  · exact absurd (List.eq_of_mem_replicate htwo) (by decide)
  · exact absurd (List.eq_of_mem_replicate hone) (by decide)

end LeftBehind

end PidReuse

end OtelDistro.Coordinator

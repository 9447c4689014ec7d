import OtelDistro.Coordinator.SendPayload
import OtelDistro.Lib.KeyedStore
import OtelDistro.Lib.Reassembly

/-!
# OtelDistro.Coordinator.ChunkedMessageProcessor — reassembly of chunks in the coordinator

* `ChunkedMessage`: a partial message; `addNextChunk` appends.
* `Received`: partial messages by sender and message id (`recievedMessages_`), with the four ways the code changes it.
* `processReceivedChunk`: find or create the message of a chunk, check the offset, append; a completed message leaves
  the map and is handed on.  A rejected chunk throws, and what the call did to the map before stays.
* `cleanupAbandonedMessages`: drop what was not updated for `maxAge`.

`receiveMessage_spec`: on a chunk that `sendPayload` made the call is one `feed` of the reassembly library at the
chunk's key, and changes no other key.
-/

namespace OtelDistro.Coordinator

open OtelDistro.Lib

/-! ## Partial messages -/

/-- What the receiving side throws. -/
inductive ChunkError
  /-- `reserve` or `insert` beyond `max_size()`. -/
  | lengthError
  | unexpectedOffset (offset expected : UInt64) (pid : Pid) (msgId : UInt64)
  | exceedsPayloadSize (size offset expected : UInt64)
  | exceedsTotalSize
deriving DecidableEq

def ChunkError.what : ChunkError → String
  | .lengthError => "length_error"
  | .unexpectedOffset offset expected pid msgId =>
    s!"ChunkedMessageProcessor: received chunk with unexpected offset: {offset}, expected: {expected}. pid: {pid}, msgId: {msgId}"
  | .exceedsPayloadSize size offset expected =>
    s!"ChunkedMessageProcessor: received chunk exceeds total payload size. Size: {size}, offset: {offset},  expected: {expected}"
  | .exceedsTotalSize => "ChunkedMessage: chunk exceeds total size"

/-- `lastUpdated` is a reading of the steady clock. -/
structure ChunkedMessage where
  totalSize : UInt64
  data : ByteVec := ⟨[], by decide⟩
  lastUpdated : ℤ := 0

/-- The constructor: `reserve` throws above `max_size()`. -/
def ChunkedMessage.create (totalSize : UInt64) : Except ChunkError ChunkedMessage :=
  if totalSize.toNat < 2 ^ 63 then .ok { totalSize := totalSize } else .error .lengthError

/-- The span is the first `size` bytes of `memory`; the flag says that the message is complete. -/
def ChunkedMessage.addNextChunk (m : ChunkedMessage) (memory : Str) (size : UInt64) (now : ℤ) :
    Except ChunkError (ChunkedMessage × Bool) :=
  if m.data.size + size > m.totalSize then .error .exceedsTotalSize
  else if h : m.data.bytes.length + size.toNat < 2 ^ 63 then
    let data : ByteVec := ⟨m.data.bytes ++ memory.take size.toNat, by
      rw [List.length_append, List.length_take]; omega⟩
    .ok (⟨m.totalSize, data, now⟩, data.size = m.totalSize)
  else .error .lengthError

/-! ## The map of partial messages -/

abbrev Received := KMap Pid (KMap UInt64 ChunkedMessage)

namespace Received

variable (r : Received) (pid : Pid) (msgId : UInt64)

def messagesForSender : KMap UInt64 ChunkedMessage := (r.lookup pid).getD ∅

def find : Option ChunkedMessage := (r.messagesForSender pid).lookup msgId

/-- `operator[]`: the sender has an entry from now on. -/
def touch : Received := r.insert pid (r.messagesForSender pid)

def put (m : ChunkedMessage) : Received := r.insert pid ((r.messagesForSender pid).insert msgId m)

/-- Erase a message, and its sender when nothing is left. -/
def remove : Received :=
  let rest := (r.messagesForSender pid).erase msgId
  if rest.entries.isEmpty then r.erase pid else r.insert pid rest

variable {r : Received} {pid pid' : Pid} {msgId msgId' : UInt64}

theorem messagesForSender_insert (ms : KMap UInt64 ChunkedMessage) :
    messagesForSender (r.insert pid ms) pid' = if pid = pid' then ms else r.messagesForSender pid' := by
  unfold messagesForSender
  rw [KMap.lookup_insert']
  split <;> rfl

theorem find_put (m : ChunkedMessage) : (r.put pid msgId m).find pid' msgId' =
    if pid = pid' ∧ msgId = msgId' then some m else r.find pid' msgId' := by
  unfold find put
  rw [messagesForSender_insert]
  by_cases h : pid = pid'
  · subst h
    rw [if_pos rfl, KMap.lookup_insert']
    simp
  · rw [if_neg h, if_neg fun h' => h h'.1]

/-- An erased sender is a sender without messages. -/
theorem find_remove_aux : (r.remove pid msgId).find pid' msgId' =
    if pid = pid' then ((r.messagesForSender pid).erase msgId).lookup msgId' else r.find pid' msgId' := by
  unfold find remove
  by_cases he : ((r.messagesForSender pid).erase msgId).entries.isEmpty = true
  · rw [if_pos he, KMap.lookup_of_isEmpty he]
    unfold messagesForSender
    rw [KMap.lookup_erase']
    split <;> rfl
  · rw [if_neg he, messagesForSender_insert]
    split <;> rfl

theorem find_remove : (r.remove pid msgId).find pid' msgId' =
    if pid = pid' ∧ msgId = msgId' then none else r.find pid' msgId' := by
  rw [find_remove_aux, KMap.lookup_erase']
  by_cases h : pid = pid'
  · subst h
    simp [find]
  · rw [if_neg h, if_neg fun h' => h h'.1]

end Received

/-! ## Reception -/

/-- The message of a chunk, created when it is not there. -/
def Received.findOrCreate (r : Received) (chunk : ChunkHeader) : Except ChunkError ChunkedMessage :=
  match r.find chunk.senderProcessId chunk.msgId with
  | some m => .ok m
  | none => ChunkedMessage.create chunk.payloadTotalSize

/-- The two checks, then `addNextChunk`. -/
def ChunkedMessage.append (m : ChunkedMessage) (chunk : CoordinatorPayload) (chunkSize : UInt64) (now : ℤ) :
    Except ChunkError (ChunkedMessage × Bool) :=
  let payloadSize := chunkSize - payloadFieldOffset
  if m.data.size ≠ chunk.payloadOffset then
    .error (.unexpectedOffset chunk.payloadOffset m.data.size chunk.senderProcessId chunk.msgId)
  else if chunk.payloadOffset + payloadSize > chunk.payloadTotalSize then
    .error (.exceedsPayloadSize payloadSize chunk.payloadOffset chunk.payloadTotalSize)
  else m.addNextChunk chunk.payload payloadSize now

/-- The map after the call, and what it throws or hands to `processMessage_`. -/
def processReceivedChunk (r : Received) (chunk : CoordinatorPayload) (chunkSize : UInt64) (now : ℤ) :
    Received × Except ChunkError (Option Str) :=
  match r.findOrCreate chunk.toChunkHeader with
  | .error e => (r.touch chunk.senderProcessId, .error e)
  | .ok message =>
    match message.append chunk chunkSize now with
    | .error e => (r.put chunk.senderProcessId chunk.msgId message, .error e)
    | .ok (message, true) => (r.remove chunk.senderProcessId chunk.msgId, .ok (some message.data.bytes))
    | .ok (message, false) => (r.put chunk.senderProcessId chunk.msgId message, .ok none)

/-- The buffer after a message was received into it; the bytes after the message are the old ones. -/
def QueueMessage.into (m : QueueMessage) (buffer : CoordinatorPayload) : CoordinatorPayload :=
  ⟨m.toChunkHeader, m.data ++ buffer.payload.drop m.data.length, by
    have := m.fits
    rw [List.length_append, List.length_drop, buffer.payload_length]
    omega⟩

/-- The received size. -/
def QueueMessage.size (m : QueueMessage) : UInt64 := UInt64.ofNat m.data.length + payloadFieldOffset

/-- `tryReceiveMessage` on a message taken from the queue. -/
def receiveMessage (r : Received) (m : QueueMessage) (buffer : CoordinatorPayload) (now : ℤ) :
    Received × Except ChunkError (Option Str) :=
  processReceivedChunk r (m.into buffer) m.size now

/-- A chunk at the end of the message, within the total size, is appended. -/
theorem ChunkedMessage.append_ok (m : ChunkedMessage) (chunk : CoordinatorPayload) (now : ℤ) {chunkSize : UInt64}
    {data : Str} (hsub : (chunkSize - payloadFieldOffset).toNat = data.length)
    (htake : chunk.payload.take data.length = data) (hoff : m.data.bytes.length = chunk.payloadOffset.toNat)
    (htotal : m.totalSize = chunk.payloadTotalSize) (hmax : chunk.payloadTotalSize.toNat < 2 ^ 63)
    (hle : chunk.payloadOffset.toNat + data.length ≤ chunk.payloadTotalSize.toNat) :
    ∃ v : ByteVec, v.bytes = m.data.bytes ++ data ∧ m.append chunk chunkSize now =
      .ok (⟨m.totalSize, v, now⟩, decide (chunk.payloadOffset.toNat + data.length = chunk.payloadTotalSize.toNat)) := by
  have hds : m.data.size = chunk.payloadOffset := UInt64.toNat_inj.mp (by rw [ByteVec.size_toNat, hoff])
  have hno : ¬ chunk.payloadOffset + (chunkSize - payloadFieldOffset) > chunk.payloadTotalSize := by
    rw [gt_iff_lt, UInt64.lt_iff_toNat_lt, UInt64.toNat_add, hsub]
    omega
  have hfits : m.data.bytes.length + (chunkSize - payloadFieldOffset).toNat < 2 ^ 63 := by omega
  have hv : (m.data.bytes ++ data).length < 2 ^ 63 := by
    rw [List.length_append]
    omega
  refine ⟨⟨m.data.bytes ++ data, hv⟩, rfl, ?_⟩
  unfold ChunkedMessage.append ChunkedMessage.addNextChunk
  rw [if_neg (not_not.mpr hds), if_neg hno, hds, htotal, if_neg hno, dif_pos hfits]
  simp only [hsub, htake]
  congr 2
  rw [decide_eq_decide, ← UInt64.toNat_inj, ByteVec.size_toNat, List.length_append, hoff]

/-- A chunk elsewhere is refused. -/
theorem ChunkedMessage.append_unexpected {m : ChunkedMessage} {chunk : CoordinatorPayload} {chunkSize : UInt64}
    {now : ℤ} (h : m.data.bytes.length ≠ chunk.payloadOffset.toNat) :
    m.append chunk chunkSize now =
      .error (.unexpectedOffset chunk.payloadOffset m.data.size chunk.senderProcessId chunk.msgId) := by
  refine if_pos fun e => h ?_
  rw [← e, ByteVec.size_toNat]

/-! ## Cleanup -/

def ChunkedMessage.abandoned (m : ChunkedMessage) (now maxAge : ℤ) : Bool := now - m.lastUpdated > maxAge

def cleanupAbandonedMessages (r : Received) (now maxAge : ℤ) : Received :=
  r.filterMapValues fun _ messagesForSender =>
    let rest : KMap UInt64 ChunkedMessage :=
      messagesForSender.filterMapValues fun _ m => if m.abandoned now maxAge then none else some m
    if rest.entries.isEmpty then none else some rest

/-- Cleanup drops the abandoned messages and no other. -/
theorem find_cleanup (r : Received) (now maxAge : ℤ) (pid : Pid) (msgId : UInt64) :
    (cleanupAbandonedMessages r now maxAge).find pid msgId =
      (r.find pid msgId).bind fun m => if m.abandoned now maxAge then none else some m := by
  unfold Received.find Received.messagesForSender cleanupAbandonedMessages
  rw [KMap.lookup_filterMapValues]
  cases r.lookup pid with
  | none => rfl
  | some ms =>
    have hrest := KMap.lookup_filterMapValues
      (fun _ (m : ChunkedMessage) => if m.abandoned now maxAge then none else some m) ms msgId
    simp only [Option.bind_some, Option.getD_some]
    rw [← hrest]
    by_cases he : (ms.filterMapValues fun _ (m : ChunkedMessage) =>
        if m.abandoned now maxAge then none else some m).entries.isEmpty = true
    · rw [if_pos he, KMap.lookup_of_isEmpty he]
      rfl
    · rw [if_neg he]
      rfl

/-! ## A chunk of a payload -/

/-- The chunk as a fragment. -/
def fragmentOf (m : QueueMessage) : Fragment UInt8 := ⟨m.payloadOffset.toNat, m.data⟩

/-- `c` is a non-empty piece of `payload` and announces its size. -/
structure QueueMessage.PartOf (c : QueueMessage) (payload : ByteVec) : Prop where
  piece : (fragmentOf c).PieceOf payload.bytes
  total : c.payloadTotalSize = payload.size

/-- What `sendPayload` puts into the queue. -/
theorem chunkAt_partOf {payload : ByteVec} {offset : UInt64} (pid : Pid) (msgId : UInt64) (hlt : offset < payload.size) :
    (chunkAt payload offset pid msgId).PartOf payload := by
  have hsize := chunkData_length payload offset hlt
  have hpos := chunkSize_pos payload offset hlt
  have hadd := offset_add_chunkSize payload offset hlt
  have hstop : (fragmentOf (chunkAt payload offset pid msgId)).stop =
      offset.toNat + (chunkSize payload offset).toNat := by
    show offset.toNat + (chunkData payload offset).length = _
    rw [hsize]
  refine ⟨⟨fun h => ?_, ?_, ?_⟩, rfl⟩
  · rw [show (chunkData payload offset) = [] from h, List.length_nil] at hsize
    omega
  · rw [hstop]
    exact hadd.2
  · rw [hstop]
    exact List.take_add

/-- What a call hands on. -/
def handedOn (e : Except ChunkError (Option Str)) : Option Str := e.toOption.join

/-- The bytes received so far. -/
def Received.bufferOf (r : Received) (pid : Pid) (msgId : UInt64) : Option Str :=
  (r.find pid msgId).map fun m => m.data.bytes

section Part

variable {payload : ByteVec} {c : QueueMessage} {r : Received} (buffer : CoordinatorPayload) (now : ℤ)

theorem size_sub_toNat (c : QueueMessage) : (c.size - payloadFieldOffset).toNat = c.data.length := by
  have hfits := c.fits
  rw [payloadCapacity] at hfits
  rw [QueueMessage.size, UInt64.add_sub_cancel, UInt64.toNat_ofNat']
  omega

/-- The received span is the data of the message, whatever the buffer held before. -/
theorem into_take (c : QueueMessage) :
    (c.into buffer).payload.take c.data.length = c.data := by
  rw [QueueMessage.into, List.take_left']
  rfl

theorem findOrCreate_part (hc : c.PartOf payload)
    (h : ∀ m, r.find c.senderProcessId c.msgId = some m → m.totalSize = payload.size) :
    ∃ m, r.findOrCreate c.toChunkHeader = .ok m ∧ m.totalSize = payload.size ∧
      m.data.bytes = (r.bufferOf c.senderProcessId c.msgId).getD [] := by
  unfold Received.findOrCreate Received.bufferOf
  cases hf : r.find c.senderProcessId c.msgId with
  | some m => exact ⟨m, rfl, h m hf, rfl⟩
  | none =>
    have hmax : c.payloadTotalSize.toNat < 2 ^ 63 := by
      rw [hc.total, ByteVec.size_toNat]
      exact payload.fits
    exact ⟨{ totalSize := c.payloadTotalSize }, if_pos hmax, hc.total, rfl⟩

/-- The four outcomes of `processReceivedChunk` once the message is found. -/
theorem processReceivedChunk_of_ok (chunk : CoordinatorPayload) {chunkSize : UInt64} {m : ChunkedMessage}
    (hm : r.findOrCreate chunk.toChunkHeader = .ok m) : processReceivedChunk r chunk chunkSize now =
      match m.append chunk chunkSize now with
      | .error e => (r.put chunk.senderProcessId chunk.msgId m, .error e)
      | .ok (m, true) => (r.remove chunk.senderProcessId chunk.msgId, .ok (some m.data.bytes))
      | .ok (m, false) => (r.put chunk.senderProcessId chunk.msgId m, .ok none) := by
  unfold processReceivedChunk
  rw [hm]

theorem bufferOf_put (m : ChunkedMessage) (pid : Pid) (msgId : UInt64) :
    (r.put pid msgId m).bufferOf pid msgId = some m.data.bytes := by
  rw [Received.bufferOf, Received.find_put, if_pos ⟨rfl, rfl⟩]
  rfl

theorem bufferOf_remove (pid : Pid) (msgId : UInt64) : (r.remove pid msgId).bufferOf pid msgId = none := by
  rw [Received.bufferOf, Received.find_remove, if_pos ⟨rfl, rfl⟩]
  rfl

/-- A chunk that does not continue the message under its key is refused, and the message stays. -/
theorem receiveMessage_unexpected {m : ChunkedMessage} (hf : r.find c.senderProcessId c.msgId = some m)
    (hoff : m.data.bytes.length ≠ c.payloadOffset.toNat) :
    handedOn (receiveMessage r c buffer now).2 = none ∧
      ∀ pid msgId, (receiveMessage r c buffer now).1.find pid msgId = r.find pid msgId := by
  have hm : r.findOrCreate (c.into buffer).toChunkHeader = .ok m := by
    show r.findOrCreate c.toChunkHeader = _
    unfold Received.findOrCreate
    rw [hf]
  have hres : receiveMessage r c buffer now = _ := processReceivedChunk_of_ok now (c.into buffer) hm
  rw [ChunkedMessage.append_unexpected hoff] at hres
  rw [hres]
  refine ⟨rfl, fun pid msgId => ?_⟩
  refine (Received.find_put _).trans ?_
  by_cases hkey : c.senderProcessId = pid ∧ c.msgId = msgId
  · obtain ⟨rfl, rfl⟩ := hkey
    exact (if_pos ⟨rfl, rfl⟩).trans hf.symm
  · exact if_neg hkey

/-- **One received chunk** of a payload: at its key the call is one `feed`, every other key keeps its message. -/
theorem receiveMessage_spec (hc : c.PartOf payload)
    (hfound : ∀ m, r.find c.senderProcessId c.msgId = some m → m.totalSize = payload.size) :
    let res := receiveMessage r c buffer now
    let fed := feed payload.bytes.length (r.bufferOf c.senderProcessId c.msgId) (fragmentOf c)
    res.1.bufferOf c.senderProcessId c.msgId = fed.1 ∧ handedOn res.2 = fed.2 ∧
      (∀ m, res.1.find c.senderProcessId c.msgId = some m → m.totalSize = payload.size) ∧
      ∀ p i, ¬ (c.senderProcessId = p ∧ c.msgId = i) → res.1.find p i = r.find p i := by
  intro res fed
  obtain ⟨m, hm, htotal, hbytes⟩ := findOrCreate_part hc hfound
  have hres : res = _ := processReceivedChunk_of_ok now (c.into buffer) hm
  have htot : c.payloadTotalSize.toNat = payload.bytes.length := by rw [hc.total, ByteVec.size_toNat]
  have hstop : (fragmentOf c).stop = c.payloadOffset.toNat + c.data.length := rfl
  by_cases hoff : m.data.bytes.length = c.payloadOffset.toNat
  · obtain ⟨v, hv, happ⟩ := ChunkedMessage.append_ok m (c.into buffer) now
      (size_sub_toNat c) (into_take buffer c) hoff (htotal.trans hc.total.symm)
      (by show c.payloadTotalSize.toNat < _; rw [htot]; exact payload.fits)
      (by show c.payloadOffset.toNat + c.data.length ≤ c.payloadTotalSize.toNat; rw [htot]; exact hc.piece.stop_le)
    have hoff' : ((r.bufferOf c.senderProcessId c.msgId).getD []).length = (fragmentOf c).offset := by
      rw [← hbytes]
      exact hoff
    rw [happ] at hres
    by_cases hend : (fragmentOf c).stop = payload.bytes.length
    · have hfed : fed = _ := feed_complete hoff' hend
      rw [decide_eq_true (by rw [← htot] at hend; exact hend)] at hres
      rw [hres, hfed]
      refine ⟨bufferOf_remove _ _, ?_, ?_, ?_⟩
      · show some v.bytes = _
        rw [hv, hbytes]
        rfl
      · intro m' h
        rw [Received.find_remove, if_pos ⟨rfl, rfl⟩] at h
        cases h
      · intro p i hne
        exact Received.find_remove.trans (if_neg hne)
    · have hfed : fed = _ := feed_accept hoff' hend
      rw [decide_eq_false (by rw [← htot] at hend; exact hend)] at hres
      rw [hres, hfed]
      refine ⟨?_, rfl, ?_, ?_⟩
      · rw [← hbytes]
        exact (bufferOf_put _ _ _).trans (congrArg some hv)
      · intro m' h
        rw [Received.find_put, if_pos ⟨rfl, rfl⟩, Option.some.injEq] at h
        rw [← h]
        exact htotal
      · intro p i hne
        exact (Received.find_put _).trans (if_neg hne)
  · have hfed : fed = _ := feed_reject (by rw [← hbytes]; exact hoff)
    rw [ChunkedMessage.append_unexpected hoff] at hres
    rw [hres, hfed]
    refine ⟨?_, rfl, ?_, ?_⟩
    · rw [← hbytes]
      exact bufferOf_put _ _ _
    · intro m' h
      rw [Received.find_put, if_pos ⟨rfl, rfl⟩, Option.some.injEq] at h
      rw [← h]
      exact htotal
    · intro p i hne
      exact (Received.find_put _).trans (if_neg hne)

end Part

end OtelDistro.Coordinator

import OtelDistro.Coordinator.ChunkedMessageProcessor

/-!
# OtelDistro.Coordinator.ChunkRejection — chunks of any content

The queue is writable by every worker, so `processReceivedChunk` meets headers and sizes that no `sendPayload` made.

* `receiveChunk`: the call where `reserve` may also find no memory (`reserves`), which leaves the sender's entry behind.
* `AppendedWithin`: what an accepted chunk appended, and that none of the three additions and subtractions wrapped.
* `SameMessages`: the maps hold the same senders and the same messages.

`reception_in_bounds`: an accepted chunk is appended from inside the received bytes.  `rejection_restores_iff`: a rejected
chunk leaves the map as it was exactly when its message was known, or its size cannot be reserved and the sender was known;
`rejected_first_chunk_stays` is a first chunk that is rejected and leaves a message.
-/

namespace OtelDistro.Coordinator

open OtelDistro.Lib

/-! ## Reception with a finite heap -/

/-- What leaves `processReceivedChunk`: an exception of the checks and sizes, or `bad_alloc` of `reserve`. -/
inductive ReceptionError
  | chunk (e : ChunkError)
  | badAlloc
deriving DecidableEq

/-- Constructing the message of a first chunk fails: above `max_size()`, or without memory for the declared size. -/
def cannotReserve (reserves : UInt64 → Bool) (totalSize : UInt64) : Bool := 2 ^ 63 ≤ totalSize.toNat || !reserves totalSize

/-- `processReceivedChunk` where `reserve` of a size within `max_size()` succeeds according to `reserves`. -/
def receiveChunk (reserves : UInt64 → Bool) (r : Received) (chunk : CoordinatorPayload) (chunkSize : UInt64) (now : ℤ) :
    Received × Except ReceptionError (Option Str) :=
  if (r.find chunk.senderProcessId chunk.msgId).isNone ∧ chunk.payloadTotalSize.toNat < 2 ^ 63 ∧
      reserves chunk.payloadTotalSize = false then
    (r.touch chunk.senderProcessId, .error .badAlloc)
  else
    let (r', result) := processReceivedChunk r chunk chunkSize now
    (r', result.mapError .chunk)

theorem receiveChunk_of_reserves {reserves : UInt64 → Bool} {r : Received} {chunk : CoordinatorPayload}
    {chunkSize : UInt64} {now : ℤ} (h : reserves chunk.payloadTotalSize = true) :
    receiveChunk reserves r chunk chunkSize now =
      ((processReceivedChunk r chunk chunkSize now).1, (processReceivedChunk r chunk chunkSize now).2.mapError .chunk) := by
  rw [receiveChunk, if_neg]
  rintro ⟨-, -, hno⟩
  rw [h] at hno
  cases hno

/-! ## Accepted chunks -/

/-- The payload bytes among the first `chunkSize` bytes of the record. -/
def receivedPayload (chunk : CoordinatorPayload) (chunkSize : UInt64) : Str :=
  chunk.payload.take (chunkSize.toNat - payloadFieldOffset.toNat)

/-- The bytes of the chunk's message before the call. -/
def Received.before (r : Received) (chunk : CoordinatorPayload) : Str :=
  (r.bufferOf chunk.senderProcessId chunk.msgId).getD []

/-- The chunk was appended from inside the received bytes, without a wrap modulo `2^64`. -/
structure AppendedWithin (r : Received) (chunk : CoordinatorPayload) (chunkSize : UInt64) (r' : Received)
    (handed : Option Str) : Prop where
  header : payloadFieldOffset ≤ chunkSize
  payloadSize : (chunkSize - payloadFieldOffset).toNat = chunkSize.toNat - payloadFieldOffset.toNat
  inside : (receivedPayload chunk chunkSize).length = chunkSize.toNat - payloadFieldOffset.toNat
  offsetEnd : (chunk.payloadOffset + (chunkSize - payloadFieldOffset)).toNat =
    chunk.payloadOffset.toNat + (chunkSize.toNat - payloadFieldOffset.toNat)
  currentEnd : (UInt64.ofNat (r.before chunk).length + (chunkSize - payloadFieldOffset)).toNat =
    (r.before chunk).length + (chunkSize.toNat - payloadFieldOffset.toNat)
  appended : (handed = none ∧ r'.bufferOf chunk.senderProcessId chunk.msgId =
      some (r.before chunk ++ receivedPayload chunk chunkSize)) ∨
    (handed = some (r.before chunk ++ receivedPayload chunk chunkSize) ∧
      r'.bufferOf chunk.senderProcessId chunk.msgId = none)

section Accepted

variable {r : Received} {chunk : CoordinatorPayload} {chunkSize : UInt64} {now : ℤ} {m m' : ChunkedMessage} {complete : Bool}

/-- What is appended is what the two checks let through. -/
theorem ChunkedMessage.append_cases (h : m.append chunk chunkSize now = .ok (m', complete)) :
    m.data.size = chunk.payloadOffset ∧
      m.data.bytes.length + (chunkSize - payloadFieldOffset).toNat < 2 ^ 63 ∧
      m'.data.bytes = m.data.bytes ++ chunk.payload.take (chunkSize - payloadFieldOffset).toNat := by
  unfold ChunkedMessage.append ChunkedMessage.addNextChunk at h
  by_cases hoff : m.data.size = chunk.payloadOffset
  · rw [if_neg (not_not.mpr hoff)] at h
    split at h
    · cases h
    · split at h
      · cases h
      · by_cases hfits : m.data.bytes.length + (chunkSize - payloadFieldOffset).toNat < 2 ^ 63
        · rw [dif_pos hfits] at h
          simp only [Except.ok.injEq, Prod.mk.injEq] at h
          exact ⟨hoff, hfits, h.1 ▸ rfl⟩
        · rw [dif_neg hfits] at h
          cases h
  · rw [if_pos hoff] at h
    cases h

/-- A size below the header's would make the span `2^64 - 32` bytes long or longer, which no vector holds. -/
theorem header_le_of_fits {n : ℕ} (h : n + (chunkSize - payloadFieldOffset).toNat < 2 ^ 63) (hs : chunkSize.toNat ≤ 4096) :
    payloadFieldOffset ≤ chunkSize := by
  by_contra hlt
  rw [UInt64.not_le, UInt64.lt_iff_toNat_lt] at hlt
  have hsub := UInt64.toNat_sub chunkSize payloadFieldOffset
  rw [show payloadFieldOffset.toNat = 32 from rfl] at hlt hsub
  omega

/-- The message found or created holds the bytes of the key. -/
theorem findOrCreate_before (h : r.findOrCreate chunk.toChunkHeader = .ok m) : m.data.bytes = r.before chunk := by
  unfold Received.findOrCreate at h
  unfold Received.before Received.bufferOf
  cases hf : r.find chunk.senderProcessId chunk.msgId with
  | some m₀ =>
    rw [hf] at h
    cases h
    rfl
  | none =>
    rw [hf] at h
    simp only [ChunkedMessage.create] at h
    split at h
    · cases h
      rfl
    · cases h

/-- The outcomes of `processReceivedChunk`. -/
theorem processReceivedChunk_cases (r : Received) (chunk : CoordinatorPayload) (chunkSize : UInt64) (now : ℤ) :
    (∃ e, r.findOrCreate chunk.toChunkHeader = .error e ∧
      processReceivedChunk r chunk chunkSize now = (r.touch chunk.senderProcessId, .error e)) ∨
    (∃ m e, r.findOrCreate chunk.toChunkHeader = .ok m ∧
      processReceivedChunk r chunk chunkSize now = (r.put chunk.senderProcessId chunk.msgId m, .error e)) ∨
    ∃ m m' complete, r.findOrCreate chunk.toChunkHeader = .ok m ∧ m.append chunk chunkSize now = .ok (m', complete) ∧
      processReceivedChunk r chunk chunkSize now =
        if complete then (r.remove chunk.senderProcessId chunk.msgId, .ok (some m'.data.bytes))
        else (r.put chunk.senderProcessId chunk.msgId m', .ok none) := by
  cases hm : r.findOrCreate chunk.toChunkHeader with
  | error e =>
    refine .inl ⟨e, rfl, ?_⟩
    unfold processReceivedChunk
    rw [hm]
  | ok m =>
    have hres : processReceivedChunk r chunk chunkSize now = _ := processReceivedChunk_of_ok now chunk hm
    cases happ : m.append chunk chunkSize now with
    | error e =>
      rw [happ] at hres
      exact .inr (.inl ⟨m, e, rfl, hres⟩)
    | ok res =>
      obtain ⟨m', complete⟩ := res
      rw [happ] at hres
      refine .inr (.inr ⟨m, m', complete, rfl, happ, hres.trans ?_⟩)
      cases complete <;> rfl

/-- Appending to the message that was found. -/
theorem appendedWithin_of_append (hs : chunkSize.toNat ≤ 4096) (hm : r.findOrCreate chunk.toChunkHeader = .ok m)
    (happ : m.append chunk chunkSize now = .ok (m', complete)) :
    AppendedWithin r chunk chunkSize
      (if complete then r.remove chunk.senderProcessId chunk.msgId else r.put chunk.senderProcessId chunk.msgId m')
      (if complete then some m'.data.bytes else none) := by
  obtain ⟨hoff, hfits, hbytes⟩ := ChunkedMessage.append_cases happ
  have hbefore := findOrCreate_before hm
  have hheader := header_le_of_fits hfits hs
  have hsize : (chunkSize - payloadFieldOffset).toNat = chunkSize.toNat - payloadFieldOffset.toNat :=
    UInt64.toNat_sub_of_le _ _ hheader
  have hlen : chunk.payloadOffset.toNat = m.data.bytes.length := by rw [← hoff, ByteVec.size_toNat]
  rw [hsize] at hfits hbytes
  have hdata : m'.data.bytes = r.before chunk ++ receivedPayload chunk chunkSize := by rw [hbytes, hbefore]; rfl
  refine ⟨hheader, hsize, ?_, ?_, ?_, ?_⟩
  · have hcap := chunk.payload_length
    rw [payloadCapacity] at hcap
    rw [receivedPayload, List.length_take, show payloadFieldOffset.toNat = 32 from rfl]
    omega
  · rw [UInt64.toNat_add, hsize, hlen]
    omega
  · rw [UInt64.toNat_add, hsize, UInt64.toNat_ofNat', ← hbefore]
    omega
  · cases complete with
    | true => exact .inr ⟨congrArg some hdata, bufferOf_remove _ _⟩
    | false => exact .inl ⟨rfl, (bufferOf_put _ _ _).trans (congrArg some hdata)⟩

end Accepted

/-! ## Rejected chunks -/

/-- The same senders have an entry, with the same messages. -/
structure SameMessages (r r' : Received) : Prop where
  senders : ∀ pid, (r'.lookup pid).isSome = (r.lookup pid).isSome
  messages : ∀ pid msgId, r'.find pid msgId = r.find pid msgId

section Rejected

variable {r : Received} {pid : Pid} {msgId : UInt64} {m : ChunkedMessage}

theorem isSome_of_find (h : (r.find pid msgId).isSome = true) : (r.lookup pid).isSome = true := by
  unfold Received.find Received.messagesForSender at h
  cases hl : r.lookup pid with
  | some ms => rfl
  | none =>
    rw [hl] at h
    exact h

theorem isSome_lookup_insert (ms : KMap UInt64 ChunkedMessage) (pid' : Pid) :
    (AList.lookup pid' (r.insert pid ms)).isSome = (decide (pid = pid') || (r.lookup pid').isSome) := by
  rw [KMap.lookup_insert']
  by_cases h : pid = pid'
  · simp [h]
  · simp [h]

theorem find_touch (pid' : Pid) (msgId' : UInt64) : (r.touch pid).find pid' msgId' = r.find pid' msgId' := by
  unfold Received.find Received.touch
  rw [Received.messagesForSender_insert]
  by_cases h : pid = pid'
  · rw [if_pos h, h]
  · rw [if_neg h]

/-- `operator[]` changes nothing exactly when the sender has an entry. -/
theorem sameMessages_touch_iff : SameMessages r (r.touch pid) ↔ (r.lookup pid).isSome = true := by
  constructor
  · intro h
    rw [← h.senders pid, Received.touch, isSome_lookup_insert, decide_eq_true rfl, Bool.true_or]
  · refine fun h => ⟨fun pid' => ?_, find_touch⟩
    rw [Received.touch, isSome_lookup_insert]
    by_cases he : pid = pid'
    · rw [← he, h, Bool.or_true]
    · rw [decide_eq_false he, Bool.false_or]

/-- Storing the message that was found or created changes nothing exactly when it was found. -/
theorem sameMessages_put_iff (hm : ∀ m', r.find pid msgId = some m' → m = m') :
    SameMessages r (r.put pid msgId m) ↔ (r.find pid msgId).isSome = true := by
  constructor
  · intro h
    rw [← h.messages pid msgId, Received.find_put, if_pos ⟨rfl, rfl⟩]
    rfl
  · refine fun h => ⟨fun pid' => ?_, fun pid' msgId' => ?_⟩
    · rw [Received.put, isSome_lookup_insert]
      by_cases he : pid = pid'
      · rw [← he, isSome_of_find h, Bool.or_true]
      · rw [decide_eq_false he, Bool.false_or]
    · rw [Received.find_put]
      by_cases he : pid = pid' ∧ msgId = msgId'
      · obtain ⟨rfl, rfl⟩ := he
        obtain ⟨m', hm'⟩ := Option.isSome_iff_exists.mp h
        rw [if_pos ⟨rfl, rfl⟩, hm', hm m' hm']
      · rw [if_neg he]

end Rejected

/-- The chunk's message is known, or it can never be created and its sender is known. -/
def EntryExists (reserves : UInt64 → Bool) (r : Received) (chunk : CoordinatorPayload) : Prop :=
  (r.find chunk.senderProcessId chunk.msgId).isSome = true ∨
    (r.lookup chunk.senderProcessId).isSome = true ∧ cannotReserve reserves chunk.payloadTotalSize = true

section Entry

variable {r : Received} {chunk : CoordinatorPayload} {m : ChunkedMessage} {e : ChunkError} (reserves : UInt64 → Bool)

theorem entryExists_iff_of_cannotReserve {reserves : UInt64 → Bool} (h : cannotReserve reserves chunk.payloadTotalSize = true)
    (hnone : r.find chunk.senderProcessId chunk.msgId = none) :
    EntryExists reserves r chunk ↔ (r.lookup chunk.senderProcessId).isSome = true := by
  rw [EntryExists, hnone, h]
  simp

theorem findOrCreate_error (h : r.findOrCreate chunk.toChunkHeader = .error e) :
    r.find chunk.senderProcessId chunk.msgId = none ∧ cannotReserve reserves chunk.payloadTotalSize = true := by
  unfold Received.findOrCreate at h
  cases hf : r.find chunk.senderProcessId chunk.msgId with
  | some m =>
    rw [hf] at h
    cases h
  | none =>
    refine ⟨rfl, ?_⟩
    rw [hf] at h
    simp only [ChunkedMessage.create] at h
    split at h
    · cases h
    · rw [cannotReserve, decide_eq_true (by omega), Bool.true_or]

theorem findOrCreate_ok (h : r.findOrCreate chunk.toChunkHeader = .ok m) :
    (∀ m', r.find chunk.senderProcessId chunk.msgId = some m' → m = m') ∧
      (r.find chunk.senderProcessId chunk.msgId = none → chunk.payloadTotalSize.toNat < 2 ^ 63) := by
  unfold Received.findOrCreate at h
  cases hf : r.find chunk.senderProcessId chunk.msgId with
  | some m₀ =>
    rw [hf] at h
    cases h
    exact ⟨fun m' h => Option.some.inj h, fun h => by cases h⟩
  | none =>
    rw [hf] at h
    simp only [ChunkedMessage.create] at h
    split at h
    · rename_i hlt
      exact ⟨fun m' h => (by cases h), fun _ => hlt⟩
    · cases h

end Entry

/-! ## Main results -/

/-- **Bounds of reception**: whatever the map, the record and the received size, the chunk is refused with an exception,
or exactly its payload bytes are appended, from inside what was received and without a wrap. -/
theorem reception_in_bounds (reserves : UInt64 → Bool) (r : Received) (chunk : CoordinatorPayload) (chunkSize : UInt64)
    (now : ℤ) (hs : chunkSize ≤ 4096) :
    (∃ e, (receiveChunk reserves r chunk chunkSize now).2 = .error e) ∨
      ∃ handed, (receiveChunk reserves r chunk chunkSize now).2 = .ok handed ∧
        AppendedWithin r chunk chunkSize (receiveChunk reserves r chunk chunkSize now).1 handed := by
  have hs' : chunkSize.toNat ≤ 4096 := UInt64.le_iff_toNat_le.mp hs
  unfold receiveChunk
  split
  · exact .inl ⟨_, rfl⟩
  · rcases processReceivedChunk_cases r chunk chunkSize now with ⟨e, -, hres⟩ | ⟨m, e, -, hres⟩ |
      ⟨m, m', complete, hm, happ, hres⟩
    · rw [hres]
      exact .inl ⟨_, rfl⟩
    · rw [hres]
      exact .inl ⟨_, rfl⟩
    · have hin := appendedWithin_of_append hs' hm happ
      rw [hres]
      refine .inr ⟨if complete then some m'.data.bytes else none, ?_⟩
      cases complete <;> exact ⟨rfl, hin⟩

/-- **What a rejection leaves behind**: a rejected chunk leaves the map as it was exactly when its message was known
before, or the declared size cannot be reserved and the sender was known. -/
theorem rejection_restores_iff (reserves : UInt64 → Bool) (r : Received) (chunk : CoordinatorPayload) (chunkSize : UInt64)
    (now : ℤ) {e : ReceptionError} (h : (receiveChunk reserves r chunk chunkSize now).2 = .error e) :
    SameMessages r (receiveChunk reserves r chunk chunkSize now).1 ↔ EntryExists reserves r chunk := by
  unfold receiveChunk at h ⊢
  by_cases hmem : (r.find chunk.senderProcessId chunk.msgId).isNone ∧ chunk.payloadTotalSize.toNat < 2 ^ 63 ∧
      reserves chunk.payloadTotalSize = false
  · have hcannot : cannotReserve reserves chunk.payloadTotalSize = true := by
      rw [cannotReserve, hmem.2.2, Bool.not_false, Bool.or_true]
    rw [if_pos hmem, sameMessages_touch_iff,
      entryExists_iff_of_cannotReserve hcannot (Option.isNone_iff_eq_none.mp hmem.1)]
  · rw [if_neg hmem] at h ⊢
    rcases processReceivedChunk_cases r chunk chunkSize now with ⟨e', herr, hres⟩ | ⟨m, e', hm, hres⟩ |
      ⟨m, m', complete, hm, happ, hres⟩
    · obtain ⟨hnone, hcannot⟩ := findOrCreate_error reserves herr
      rw [hres]
      exact sameMessages_touch_iff.trans (entryExists_iff_of_cannotReserve hcannot hnone).symm
    · obtain ⟨hfound, hnew⟩ := findOrCreate_ok hm
      rw [hres]
      refine (sameMessages_put_iff hfound).trans ⟨.inl, ?_⟩
      rintro (hsome | ⟨-, hcannot⟩)
      · exact hsome
      -- the message was created, so its size can be reserved
      · by_contra hn
        have hnone : r.find chunk.senderProcessId chunk.msgId = none := by simpa using hn
        refine hmem ⟨by simp [hnone], hnew hnone, ?_⟩
        have hlt := hnew hnone
        rw [cannotReserve, decide_eq_false (by omega), Bool.false_or] at hcannot
        simpa using hcannot
    · rw [hres] at h
      cases complete <;> cases h

/-- A record with 4064 payload bytes. -/
def sampleRecord (totalSize offset : UInt64) : CoordinatorPayload :=
  ⟨⟨7, 1, totalSize, offset⟩, List.replicate 4064 0, by rw [List.length_replicate]; rfl⟩

/-- Eight bytes at the start of a message of 5000 bytes are appended. -/
theorem reception_in_bounds_eight : ∃ handed, (receiveChunk (fun _ => true) ∅ (sampleRecord 5000 0) 40 0).2 = .ok handed ∧
    AppendedWithin ∅ (sampleRecord 5000 0) 40 (receiveChunk (fun _ => true) ∅ (sampleRecord 5000 0) 40 0).1 handed := by
  rcases reception_in_bounds (fun _ => true) ∅ (sampleRecord 5000 0) 40 0 (by decide) with ⟨e, h⟩ | h
  · have hok : (receiveChunk (fun _ => true) ∅ (sampleRecord 5000 0) 40 0).2 = .ok none := rfl
    rw [hok] at h
    cases h
  · exact h

/-- **A rejected first chunk leaves a message**: the offset is refused after the message was created. -/
theorem rejected_first_chunk_stays : ∃ e, (receiveChunk (fun _ => true) ∅ (sampleRecord 100 50) 40 0).2 = .error e ∧
    ¬ SameMessages ∅ (receiveChunk (fun _ => true) ∅ (sampleRecord 100 50) 40 0).1 := by
  refine ⟨_, rfl, fun h => ?_⟩
  have hmessage := h.messages 7 1
  cases hmessage

/-- A second chunk out of order is rejected and leaves the map as it was. -/
theorem rejection_restores_iff_known : SameMessages (Received.put ∅ 7 1 { totalSize := 100 })
    (receiveChunk (fun _ => true) (Received.put ∅ 7 1 { totalSize := 100 }) (sampleRecord 100 50) 40 0).1 :=
  (rejection_restores_iff _ _ _ _ _ (e := .chunk (.unexpectedOffset 50 0 7 1)) rfl).mpr (.inl rfl)

end OtelDistro.Coordinator

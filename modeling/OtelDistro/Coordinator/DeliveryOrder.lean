import Mathlib.Data.List.Sort
import OtelDistro.Coordinator.ChunkedDelivery

/-!
# OtelDistro.Coordinator.DeliveryOrder — messages of a process are handed on in the order of its calls

Many processes share one queue and a message is many chunks, some of which may be lost.  The calls behind what was handed on
for a process, followed by those behind its chunks in the queue, are one ascending list (`Ordered`); receiving only moves the
border.

* `processed_in_order`: what is handed on for a process is a sublist of the payloads of its calls, and all of them if none of
  its chunks was lost, none of its messages dropped and none of its chunks is left in the queue.
-/

namespace OtelDistro.Coordinator

open OtelDistro.Lib

namespace ChunkedDelivery

/-- The call that a message id belongs to. -/
def callOf (i : UInt64) : ℕ := (i - 1).toNat

theorem callOf_idOf {k : ℕ} (hk : k < 2 ^ 64) : callOf (idOf k) = k := by
  have hsub : idOf k - 1 = UInt64.ofNat k := by
    rw [idOf, UInt64.ofNat_add]
    exact UInt64.add_sub_cancel _ _
  rw [callOf, hsub, UInt64.toNat_ofNat', Nat.mod_eq_of_lt hk]

/-- What was handed on for a process. -/
def System.handled (s : System) (p : Pid) : List Processed := s.processed.filter (·.pid = p)

/-- Its chunks in the queue. -/
def System.underway (s : System) (p : Pid) : Queue := s.queue.filter (·.senderProcessId = p)

/-- The calls behind both, the oldest first. -/
def System.callsSeen (s : System) (p : Pid) : List ℕ :=
  (s.handled p).map (callOf ·.msgId) ++ (s.underway p).map (callOf ·.msgId)

structure Ordered (s : System) : Prop where
  sorted : ∀ p, (s.callsSeen p).Pairwise (· ≤ ·)
  made : ∀ p, ∀ k ∈ s.callsSeen p, k < (s.sender p).calls.length

section Steps

variable {s t : System} {p q : Pid} {c : Call} {w : Sender} {m : QueueMessage} {queue : Queue} {now : ℤ}

theorem ordered_init (buffer : CoordinatorPayload) : Ordered { buffer := buffer } :=
  ⟨fun _ => .nil, fun _ k hk => by cases hk⟩

/-- A step that adds nothing to the list. -/
theorem Ordered.of_sublist (hs : Ordered s) (hsub : ∀ q, (t.callsSeen q).Sublist (s.callsSeen q))
    (hlen : ∀ q, (s.sender q).calls.length ≤ (t.sender q).calls.length) : Ordered t where
  sorted q := (hs.sorted q).sublist (hsub q)
  made q k hk := Nat.lt_of_lt_of_le (hs.made q k ((hsub q).subset hk)) (hlen q)

/-- A step that changes one sender only. -/
theorem Ordered.setSender (hs : Ordered s) (hlen : (s.sender p).calls.length ≤ w.calls.length) :
    Ordered (s.setSender p w s.queue) := by
  refine hs.of_sublist (fun q => List.Sublist.refl _) fun q => ?_
  by_cases hq : q = p
  · subst hq
    rw [sender_setSender_self]
    exact hlen
  · rw [sender_setSender_ne hq]

/-- One more chunk of the current call of a process. -/
theorem Ordered.placed (hI : Inv s) (hs : Ordered s) (hcur : (s.sender p).current = some c)
    (hm : m.senderProcessId = p ∧ m.msgId = (s.sender p).msgId) (hw : w.calls.length = (s.sender p).calls.length) :
    Ordered (s.setSender p w (s.queue ++ [m])) := by
  have hlen : (s.sender p).calls.length = (s.sender p).done.length + 1 := by
    rw [calls_of_some hcur, List.length_append]
    rfl
  have hcall : callOf m.msgId = (s.sender p).done.length := by
    have hb := hI.bound p
    rw [hm.2, hI.msgId_current hcur, callOf_idOf (by omega)]
  have hself : (s.setSender p w (s.queue ++ [m])).callsSeen p = s.callsSeen p ++ [(s.sender p).done.length] := by
    show (s.handled p).map _ ++ ((s.queue ++ [m]).filter _).map _ = _
    rw [List.filter_append, List.map_append, List.filter_cons_of_pos (by simpa using hm.1), System.callsSeen, List.append_assoc]
    simp [System.underway, hcall]
  have hother : ∀ q, q ≠ p → (s.setSender p w (s.queue ++ [m])).callsSeen q = s.callsSeen q := by
    intro q hq
    show (s.handled q).map _ ++ ((s.queue ++ [m]).filter _).map _ = _
    rw [List.filter_append, List.filter_cons_of_neg (by simpa [hm.1] using Ne.symm hq), List.filter_nil, List.append_nil]
    rfl
  constructor
  · intro q
    by_cases hq : q = p
    · subst hq
      rw [hself, List.pairwise_append]
      refine ⟨hs.sorted q, List.pairwise_singleton _ _, fun k hk j hj => ?_⟩
      have hk' := hs.made q k hk
      rw [List.mem_singleton] at hj
      omega
    · rw [hother q hq]
      exact hs.sorted q
  · intro q k hk
    by_cases hq : q = p
    · subst hq
      rw [sender_setSender_self, hw]
      rw [hself, List.mem_append, List.mem_singleton] at hk
      obtain hk | hk := hk
      · exact hs.made q k hk
      · omega
    · rw [hother q hq] at hk
      rw [sender_setSender_ne hq]
      exact hs.made q k hk

/-- Receiving moves the first chunk over the border, or drops it. -/
theorem Ordered.receive (hs : Ordered s) (now : ℤ) : Ordered (s.receive now) := by
  cases hq : s.queue with
  | nil => rwa [System.receive_nil hq]
  | cons m queue =>
    refine hs.of_sublist (fun q => ?_) (fun q => by rw [System.receive_cons hq])
    rw [System.receive_cons hq]
    show (((s.processed ++ _).filter _).map _ ++ (queue.filter _).map _).Sublist
      ((s.processed.filter _).map _ ++ (s.queue.filter _).map _)
    rw [hq, List.filter_append, List.map_append, List.append_assoc]
    refine List.Sublist.append (List.Sublist.refl _) ?_
    by_cases hm : m.senderProcessId = q
    · rw [List.filter_cons_of_pos (by simpa using hm), List.map_cons]
      cases handedOn (receiveMessage s.received m s.buffer now).2 with
      | none => exact List.Sublist.cons _ (List.Sublist.refl _)
      | some d => simp [hm]
    · rw [List.filter_cons_of_neg (by simpa using hm)]
      cases handedOn (receiveMessage s.received m s.buffer now).2 with
      | none => exact List.Sublist.refl _
      | some d => simp [hm]

theorem Ordered.step {a : Action} (hI : Inv s) (hs : Ordered s) (h : step s a = some t) : Ordered t := by
  cases a with
  | call p payload =>
    simp only [ChunkedDelivery.step, Option.ite_none_right_eq_some, Option.some.injEq] at h
    obtain ⟨hcur, rfl⟩ := h
    refine hs.setSender ?_
    rw [calls_of_none (Option.isNone_iff_eq_none.mp hcur), calls_call, List.length_append]
    omega
  | chunk p o =>
    simp only [ChunkedDelivery.step, Option.bind_eq_some_iff, Option.ite_none_right_eq_some] at h
    obtain ⟨c, hcur, hlt, h⟩ := h
    have hlen := congrArg List.length (calls_of_some hcur)
    rw [List.length_append, List.length_singleton] at hlen
    cases o with
    | placed =>
      simp only [System.sendChunk, trySend, Option.map_eq_some_iff, Option.ite_none_right_eq_some, Option.some.injEq] at h
      obtain ⟨queue, ⟨-, rfl⟩, rfl⟩ := h
      refine hs.placed hI hcur ⟨rfl, rfl⟩ ?_
      rw [calls_advance, List.length_append, List.length_singleton, hlen]
    | lost =>
      obtain rfl := Option.some.inj h
      refine hs.setSender ?_
      rw [calls_advance, List.length_append, List.length_singleton, hlen]
    | threw =>
      obtain rfl := Option.some.inj h
      refine hs.setSender ?_
      rw [calls_finish, List.length_append, List.length_singleton, hlen]
  | ret p =>
    simp only [ChunkedDelivery.step, Option.bind_eq_some_iff, Option.ite_none_left_eq_some, Option.some.injEq] at h
    obtain ⟨c, hcur, -, rfl⟩ := h
    refine hs.setSender ?_
    rw [calls_finish, calls_of_some hcur]
  | receive now =>
    obtain rfl := Option.some.inj h
    exact hs.receive now
  | cleanup now maxAge =>
    obtain rfl := Option.some.inj h
    exact hs.of_sublist (fun q => List.Sublist.refl _) (fun q => Nat.le_refl _)

end Steps

/-! ## Main result -/

section Order

variable {s : System} {p : Pid} {k : ℕ}

/-- The calls behind what was handed on. -/
def System.handledCalls (s : System) (p : Pid) : List ℕ := (s.handled p).map (callOf ·.msgId)

/-- The contents of the calls of a process. -/
def System.payloads (s : System) (p : Pid) : List Str := (s.sender p).calls.map (·.payload.bytes)

/-- What was handed on is the payload of the call that its id belongs to. -/
theorem handled_eq (hI : Inv s) {e : Processed} (he : e ∈ s.handled p) :
    callOf e.msgId < (s.sender p).calls.length ∧ e.msgId = idOf (callOf e.msgId) ∧
      (s.payloads p)[callOf e.msgId]? = some e.data := by
  obtain ⟨hmem, hp⟩ := List.mem_filter.mp he
  have hp : e.pid = p := by simpa using hp
  obtain ⟨k, c, hm, hid, hdata⟩ := hI.delivery.identical e hmem
  rw [hp] at hm
  have hk : callOf e.msgId = k := by rw [hid, callOf_idOf (hI.lt hm)]
  rw [hk]
  refine ⟨(List.getElem?_eq_some_iff.mp hm).1, hid, ?_⟩
  rw [System.payloads, List.getElem?_map, hdata, hm]
  rfl

theorem nodup_handledCalls (hI : Inv s) : (s.handledCalls p).Nodup := by
  rw [List.nodup_iff_count_le_one]
  intro k
  by_cases hk : k < (s.sender p).calls.length
  · have honce := hI.delivery.atMostOnce p k _ (List.getElem?_eq_getElem hk)
    rw [System.deliveries, List.length_map, ← List.countP_eq_length_filter] at honce
    refine Nat.le_trans ?_ honce
    rw [System.handledCalls, List.count, List.countP_map, System.handled, List.countP_filter]
    refine List.countP_mono_left fun e he hand => ?_
    simp only [Function.comp, Bool.and_eq_true, beq_iff_eq, decide_eq_true_eq] at hand ⊢
    obtain ⟨hcall, hp⟩ := hand
    obtain ⟨-, hid, -⟩ := handled_eq hI (List.mem_filter.mpr ⟨he, decide_eq_true hp⟩)
    exact ⟨hp, by rw [hid, hcall]⟩
  · rw [List.count_eq_zero_of_not_mem]
    · exact Nat.zero_le _
    · intro hmem
      obtain ⟨e, he, rfl⟩ := List.mem_map.mp hmem
      exact hk (handled_eq hI he).1

theorem handledCalls_sublist (hI : Inv s) (hs : Ordered s) :
    (s.handledCalls p).Sublist (List.range (s.sender p).calls.length) := by
  refine List.sublist_of_subperm_of_pairwise (r := (· ≤ ·)) ?_ ?_ List.pairwise_le_range
  · refine List.subperm_of_subset (nodup_handledCalls hI) fun k hk => ?_
    obtain ⟨e, he, rfl⟩ := List.mem_map.mp hk
    exact List.mem_range.mpr (handled_eq hI he).1
  · exact (hs.sorted p).sublist (List.sublist_append_left _ _)

/-- By their numbers, what was handed on and what was sent are read off one table. -/
theorem data_eq_map (hI : Inv s) : (s.handled p).map Processed.data =
    (s.handledCalls p).map fun k => ((s.payloads p)[k]?).getD [] := by
  rw [System.handledCalls, List.map_map]
  refine List.map_congr_left fun e he => ?_
  show e.data = ((s.payloads p)[callOf e.msgId]?).getD []
  rw [(handled_eq hI he).2.2]
  rfl

theorem payloads_eq_map : s.payloads p =
    (List.range (s.sender p).calls.length).map fun k => ((s.payloads p)[k]?).getD [] := by
  refine List.ext_getElem? fun k => ?_
  have hlen : (s.payloads p).length = (s.sender p).calls.length := List.length_map _
  rw [List.getElem?_map]
  by_cases hk : k < (s.sender p).calls.length
  · rw [List.getElem?_range hk, Option.map_some, List.getElem?_eq_getElem (hlen ▸ hk)]
    rfl
  · rw [List.getElem?_eq_none (by omega), List.getElem?_eq_none (by rw [List.length_range]; omega)]
    rfl

/-- The call reaches the coordinator: every chunk was placed, its message not dropped by a clean-up. -/
def Arrives (s : System) (p : Pid) (k : ℕ) : Prop :=
  ∀ c, Made s p k c → c.payload.bytes ≠ [] ∧ c.Enqueued ∧ s.aged p (idOf k) = false

theorem ordered_of_path {buffer : CoordinatorPayload} {as : List Action} (h : Path step CallOk { buffer := buffer } as s) :
    Inv s ∧ Ordered s :=
  h.invariant (I := fun s => Inv s ∧ Ordered s) (fun _ _ _ hI ho hst => ⟨hI.1.step ho hst, hI.2.step hI.1 hst⟩)
    ⟨inv_init buffer, ordered_init buffer⟩

theorem handled_sublist (hI : Inv s) (hs : Ordered s) : ((s.handled p).map Processed.data).Sublist (s.payloads p) := by
  have hmap := (handledCalls_sublist (p := p) hI hs).map fun k => ((s.payloads p)[k]?).getD []
  rwa [← data_eq_map hI, ← payloads_eq_map] at hmap

theorem handled_all (hI : Inv s) (hs : Ordered s) (harrive : ∀ k, Arrives s p k) (hnone : s.underway p = []) :
    (s.handled p).map Processed.data = s.payloads p := by
  have hall : List.range (s.sender p).calls.length ⊆ s.handledCalls p := by
    intro k hk
    have hm : Made s p k _ := List.getElem?_eq_getElem (List.mem_range.mp hk)
    obtain ⟨hne, henq, haged⟩ := harrive k _ hm
    have hchannel : s.channel p (idOf k) = [] := by
      rw [System.channel, List.map_eq_nil_iff, List.filter_eq_nil_iff]
      intro m hm hand
      have hp : m.senderProcessId = p := (decide_eq_true_eq.mp hand).1
      exact List.filter_eq_nil_iff.mp hnone m hm (decide_eq_true hp)
    have hd := hI.delivery.complete p k _ hm hne henq haged hchannel
    obtain ⟨e, he, -⟩ := List.mem_map.mp (hd ▸ List.mem_singleton_self _ : _ ∈ s.deliveries p (idOf k))
    obtain ⟨hmem, hand⟩ := List.mem_filter.mp he
    obtain ⟨hp, hid⟩ := decide_eq_true_eq.mp hand
    exact List.mem_map.mpr ⟨e, List.mem_filter.mpr ⟨hmem, decide_eq_true hp⟩, by rw [hid, callOf_idOf (hI.lt hm)]⟩
  have hback := List.sublist_of_subperm_of_pairwise (r := (· ≤ ·)) (List.subperm_of_subset List.nodup_range hall)
    List.pairwise_le_range ((hs.sorted p).sublist (List.sublist_append_left _ _))
  rw [data_eq_map hI, (handledCalls_sublist hI hs).antisymm hback, ← payloads_eq_map]

/-- **Order**: in every run in which no process makes more than `2^64` calls, what is handed on for a process comes in the order
of its calls, each at most once; and it is all of them when all arrive and none of its chunks is left in the queue. -/
theorem processed_in_order {buffer : CoordinatorPayload} {as : List Action} (h : Path step CallOk { buffer := buffer } as s)
    (p : Pid) : ((s.handled p).map Processed.data).Sublist (s.payloads p) ∧
      ((∀ k, Arrives s p k) → s.underway p = [] → (s.handled p).map Processed.data = s.payloads p) := by
  obtain ⟨hI, hs⟩ := ordered_of_path h
  exact ⟨handled_sublist hI hs, handled_all hI hs⟩

/-- Two calls of one process; the first is lost, the second handed on. -/
theorem processed_in_order_after_loss : ∃ s, run step { buffer := zeroBuffer }
    [.call 1 oneByte, .chunk 1 .lost, .ret 1, .call 1 oneByte, .chunk 1 .placed, .receive 0] = some s ∧
      s.payloads 1 = [[7], [7]] ∧ ((s.handled 1).map Processed.data).Sublist (s.payloads 1) := by
  have hp : Path step CallOk { buffer := zeroBuffer }
      [.call 1 oneByte, .chunk 1 .lost, .ret 1, .call 1 oneByte, .chunk 1 .placed, .receive 0] _ :=
    .cons (show 0 < 2 ^ 64 by decide) rfl (.cons trivial rfl (.cons trivial rfl (.cons (show 1 < 2 ^ 64 by decide) rfl
      (.cons trivial rfl (.cons trivial rfl (.nil _))))))
  exact ⟨_, hp.run_eq, rfl, (processed_in_order hp 1).1⟩

end Order

end ChunkedDelivery

end OtelDistro.Coordinator

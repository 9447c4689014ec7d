import Mathlib.Data.List.Basic
import Mathlib.Order.Basic
import Mathlib.Order.Nat
import Mathlib.Tactic.Common

/-!
# OtelDistro.Lib.Reassembly — one message in fragments over a lossy first-in first-out channel

A sender cuts a message `P` into consecutive fragments and offers them in order; the channel may lose any of them.
The receiver appends a fragment whose offset is the length of its buffer and rejects any other (`feed`); it may drop
its buffer at any time.

* `Sparse P a fs b`: the fragments `fs` are pieces of `P`, in order, between offsets `a` and `b`; `Dense` is the case
  without gaps.
* `Transfer.Inv`: the buffer is a proper prefix of `P`; what is delivered is `P`, at most once; while nothing is lost
  and nothing dropped, buffer and channel together are what was sent.
* `feed_prefix`: of the pieces of one message only the message can come.
* `Transfer.Inv.step`: every step preserves it.  `delivered_eq`, `delivered_of_complete`: the consequences.
-/

namespace OtelDistro.Lib

variable {α : Type}

/-- Consecutive elements of a message, at an offset. -/
structure Fragment (α : Type) where
  offset : ℕ
  body : List α

/-- The offset after the fragment. -/
def Fragment.stop (f : Fragment α) : ℕ := f.offset + f.body.length

/-- `f` is the non-empty piece of `P` at its offset. -/
structure Fragment.PieceOf (f : Fragment α) (P : List α) : Prop where
  ne_nil : f.body ≠ []
  stop_le : f.stop ≤ P.length
  take_stop : P.take f.stop = P.take f.offset ++ f.body

/-- In-order pieces of `P` between two offsets, with gaps. -/
inductive Sparse (P : List α) : ℕ → List (Fragment α) → ℕ → Prop
  | nil {a b : ℕ} : a ≤ b → Sparse P a [] b
  | cons {a b : ℕ} {f : Fragment α} {fs : List (Fragment α)} : a ≤ f.offset → f.PieceOf P →
      Sparse P f.stop fs b → Sparse P a (f :: fs) b

/-- In-order pieces of `P` between two offsets, without gaps. -/
inductive Dense (P : List α) : ℕ → List (Fragment α) → ℕ → Prop
  | nil (a : ℕ) : Dense P a [] a
  | cons {a b : ℕ} {f : Fragment α} {fs : List (Fragment α)} : f.offset = a → f.PieceOf P →
      Dense P f.stop fs b → Dense P a (f :: fs) b

section Pieces

variable {P : List α} {a b : ℕ} {f : Fragment α} {fs : List (Fragment α)}

theorem Fragment.PieceOf.lt_stop (h : f.PieceOf P) : f.offset < f.stop := by
  have := List.length_pos_of_ne_nil h.ne_nil
  unfold Fragment.stop
  omega

/-- Offering one more piece. -/
theorem Sparse.snoc (h : Sparse P a fs b) (hp : f.PieceOf P) (hb : b ≤ f.offset) :
    Sparse P a (fs ++ [f]) f.stop := by
  induction h with
  | nil h => exact .cons (h.trans hb) hp (.nil le_rfl)
  | cons h hp' _ ih => exact .cons h hp' (ih hb)

/-- Skipping a piece. -/
theorem Sparse.mono (h : Sparse P a fs b) {b' : ℕ} (hb : b ≤ b') : Sparse P a fs b' := by
  induction h with
  | nil h => exact .nil (h.trans hb)
  | cons h hp _ ih => exact .cons h hp (ih hb)

theorem Dense.snoc (h : Dense P a fs b) (hp : f.PieceOf P) (hb : f.offset = b) :
    Dense P a (fs ++ [f]) f.stop := by
  induction h with
  | nil a => exact .cons hb hp (.nil _)
  | cons h hp' _ ih => exact .cons h hp' (ih hb)

theorem Dense.nil_eq (h : Dense P a [] b) : a = b := by
  cases h
  rfl

end Pieces

/-! ## The receiver -/

/-- The buffer after a fragment, and the message it completes: a fragment is accepted at the end of the buffer only;
a rejected first fragment leaves an empty buffer. -/
def feed (total : ℕ) (buffer : Option (List α)) (f : Fragment α) : Option (List α) × Option (List α) :=
  let b := buffer.getD []
  if b.length ≠ f.offset then (some b, none)
  else if (b ++ f.body).length = total then (none, some (b ++ f.body))
  else (some (b ++ f.body), none)

theorem feed_reject {total : ℕ} {buffer : Option (List α)} {f : Fragment α}
    (h : (buffer.getD []).length ≠ f.offset) : feed total buffer f = (some (buffer.getD []), none) := by
  simp [feed, h]

theorem feed_complete {total : ℕ} {buffer : Option (List α)} {f : Fragment α}
    (h : (buffer.getD []).length = f.offset) (ht : f.stop = total) :
    feed total buffer f = (none, some (buffer.getD [] ++ f.body)) := by
  simp only [feed, h, ne_eq, not_true_eq_false, if_false, List.length_append]
  rw [if_pos (show f.offset + f.body.length = total from ht)]

theorem feed_accept {total : ℕ} {buffer : Option (List α)} {f : Fragment α}
    (h : (buffer.getD []).length = f.offset) (ht : f.stop ≠ total) :
    feed total buffer f = (some (buffer.getD [] ++ f.body), none) := by
  simp only [feed, h, ne_eq, not_true_eq_false, if_false, List.length_append]
  rw [if_neg (show ¬ f.offset + f.body.length = total from ht)]

/-- A prefix of the message stays one, and what a piece of the message completes is the message. -/
theorem feed_prefix {P : List α} {buffer : Option (List α)} {f : Fragment α} (hp : f.PieceOf P)
    (hb : buffer.getD [] = P.take (buffer.getD []).length) :
    (∀ b, (feed P.length buffer f).1 = some b → b = P.take b.length) ∧
      ∀ d, (feed P.length buffer f).2 = some d → d = P := by
  by_cases hoff : (buffer.getD []).length = f.offset
  · have htake : buffer.getD [] ++ f.body = P.take f.stop := by
      rw [hp.take_stop, ← hoff, ← hb]
    have hlen : (buffer.getD [] ++ f.body).length = f.stop := by rw [List.length_append, hoff]; rfl
    by_cases htot : f.stop = P.length
    · rw [feed_complete hoff htot]
      refine ⟨(fun b h => by cases h), fun d h => ?_⟩
      rw [← Option.some.inj h, htake, htot, List.take_length]
    · rw [feed_accept hoff htot]
      refine ⟨fun b h => ?_, fun d h => by cases h⟩
      rw [← Option.some.inj h, hlen, htake]
  · rw [feed_reject hoff]
    refine ⟨fun b h => ?_, fun d h => by cases h⟩
    rw [← Option.some.inj h]
    exact hb

/-! ## The transfer of one message -/

/-- One message under way: `sent` is the sender's offset, `lost` that a fragment was lost or the sender gave up,
`aged` that the receiver dropped its buffer. -/
@[ext]
structure Transfer (α : Type) where
  sent : ℕ := 0
  channel : List (Fragment α) := []
  buffer : Option (List α) := none
  delivered : List (List α) := []
  lost : Bool := false
  aged : Bool := false

inductive Transfer.Step (P : List α) : Transfer α → Transfer α → Prop
  | send (t : Transfer α) (f : Fragment α) : f.PieceOf P → f.offset = t.sent →
      Step P t { t with sent := f.stop, channel := t.channel ++ [f] }
  | lose (t : Transfer α) (f : Fragment α) : f.PieceOf P → f.offset = t.sent →
      Step P t { t with sent := f.stop, lost := true }
  | abandon (t : Transfer α) : Step P t { t with lost := true }
  | receive (t : Transfer α) (f : Fragment α) (fs : List (Fragment α)) : t.channel = f :: fs →
      Step P t { t with channel := fs, buffer := (feed P.length t.buffer f).1
                        delivered := t.delivered ++ (feed P.length t.buffer f).2.toList }
  | drop (t : Transfer α) : Step P t { t with buffer := none, aged := true }

/-- `seen` is the offset after the last fragment that left the channel. -/
structure Transfer.Inv (P : List α) (t : Transfer α) : Prop where
  sent_le : t.sent ≤ P.length
  buffer : ∀ b, t.buffer = some b → b = P.take b.length ∧ b.length < P.length
  channel : ∃ seen, Sparse P seen t.channel t.sent ∧ (t.buffer.getD []).length ≤ seen ∧
    (t.delivered ≠ [] → seen = P.length)
  delivered : t.delivered = [] ∨ t.delivered = [P] ∧ t.buffer = none
  complete : t.lost = false → t.aged = false → t.delivered = [] →
    Dense P (t.buffer.getD []).length t.channel t.sent

namespace Transfer

variable {P : List α} {t t' : Transfer α}

theorem inv_init : Inv P ({} : Transfer α) :=
  ⟨Nat.zero_le _, (fun b h => by cases h), ⟨0, .nil le_rfl, le_rfl, fun h => absurd rfl h⟩, Or.inl rfl,
    fun _ _ _ => .nil 0⟩

theorem Inv.congr (h : Inv P t) (e : t' = t) : Inv P t' := e ▸ h

/-- The buffer as a prefix of the message. -/
theorem Inv.getD_eq (h : Inv P t) : t.buffer.getD [] = P.take (t.buffer.getD []).length := by
  cases hb : t.buffer with
  | none => rfl
  | some b => exact (h.buffer b hb).1

/-- A fragment in the channel: nothing is delivered yet. -/
theorem Inv.delivered_nil_of_channel (h : Inv P t) {f : Fragment α} {fs : List (Fragment α)}
    (hc : t.channel = f :: fs) : t.delivered = [] := by
  obtain ⟨seen, hs, -, hd⟩ := h.channel
  by_contra hne
  rw [hc] at hs
  cases hs with
  | cons h1 hp hs' =>
    have := hp.lt_stop
    have := hp.stop_le
    have := hd hne
    omega

/-- The head of the channel. -/
theorem Inv.channel_cons (h : Inv P t) {f : Fragment α} {fs : List (Fragment α)} (hc : t.channel = f :: fs) :
    (t.buffer.getD []).length ≤ f.offset ∧ f.PieceOf P ∧ Sparse P f.stop fs t.sent := by
  obtain ⟨seen, hs, hseen, -⟩ := h.channel
  rw [hc] at hs
  cases hs with
  | cons h1 hp hs' => exact ⟨hseen.trans h1, hp, hs'⟩

/-- A fragment that completes nothing leaves a prefix of the message in the buffer. -/
theorem Inv.receive_partial (h : Inv P t) {f : Fragment α} {fs : List (Fragment α)} (hc : t.channel = f :: fs)
    {b : List α} (hb : b = P.take b.length) (hlt : b.length < P.length) (hstop : b.length ≤ f.stop)
    (hdense : t.lost = false → t.aged = false → Dense P b.length fs t.sent) :
    Inv P { t with channel := fs, buffer := some b, delivered := t.delivered ++ [] } := by
  have hnil := h.delivered_nil_of_channel hc
  obtain ⟨-, -, hs⟩ := h.channel_cons hc
  refine ⟨h.sent_le, ?_, ⟨f.stop, hs, hstop, ?_⟩, Or.inl ?_, fun hl ha _ => hdense hl ha⟩
  · intro b' hb'
    obtain rfl := Option.some.inj hb'
    exact ⟨hb, hlt⟩
  · intro hd
    exact absurd ((List.append_nil _).trans hnil) hd
  · exact (List.append_nil _).trans hnil

theorem Inv.receive (h : Inv P t) {f : Fragment α} {fs : List (Fragment α)} (hc : t.channel = f :: fs) :
    Inv P { t with channel := fs, buffer := (feed P.length t.buffer f).1
                   delivered := t.delivered ++ (feed P.length t.buffer f).2.toList } := by
  have hnil := h.delivered_nil_of_channel hc
  obtain ⟨hseen, hp, hs⟩ := h.channel_cons hc
  have hlt := hp.lt_stop
  have hle := hp.stop_le
  have hdense : t.lost = false → t.aged = false → Dense P (t.buffer.getD []).length (f :: fs) t.sent := by
    intro hl ha
    rw [← hc]
    exact h.complete hl ha hnil
  by_cases hoff : (t.buffer.getD []).length = f.offset
  · have htake : t.buffer.getD [] ++ f.body = P.take f.stop := by
      rw [hp.take_stop, ← hoff, ← h.getD_eq]
    have hlen : (t.buffer.getD [] ++ f.body).length = f.stop := by rw [List.length_append, hoff]; rfl
    by_cases htot : f.stop = P.length
    · rw [feed_complete hoff htot]
      refine ⟨h.sent_le, (fun b hb => by cases hb), ⟨f.stop, hs, Nat.zero_le _, fun _ => htot⟩, Or.inr ⟨?_, rfl⟩, ?_⟩
      · show t.delivered ++ [t.buffer.getD [] ++ f.body] = [P]
        rw [hnil, htake, htot, List.take_length, List.nil_append]
      · intro _ _ hd
        simp at hd
    · rw [feed_accept hoff htot]
      refine h.receive_partial hc (by rw [hlen, htake]) (by omega) hlen.le fun hl ha => ?_
      cases hdense hl ha with
      | cons _ _ hd =>
        rw [hlen]
        exact hd
  · rw [feed_reject hoff]
    refine h.receive_partial hc h.getD_eq (by omega) (by omega) fun hl ha => ?_
    cases hdense hl ha with
    | cons ho _ _ => exact absurd ho.symm hoff

/-- **Every step keeps the invariant.** -/
theorem Inv.step (h : Inv P t) (hs : Step P t t') : Inv P t' := by
  cases hs with
  | send f hp ho =>
    obtain ⟨seen, hs, hseen, hd⟩ := h.channel
    refine ⟨hp.stop_le, h.buffer, ⟨seen, hs.snoc hp ho.ge, hseen, hd⟩, h.delivered, fun hl ha hn => ?_⟩
    exact (h.complete hl ha hn).snoc hp ho
  | lose f hp ho =>
    obtain ⟨seen, hs, hseen, hd⟩ := h.channel
    have := hp.lt_stop
    refine ⟨hp.stop_le, h.buffer, ⟨seen, hs.mono (ho ▸ this.le), hseen, hd⟩, h.delivered, fun hl => ?_⟩
    cases hl
  | abandon => exact ⟨h.sent_le, h.buffer, h.channel, h.delivered, fun hl => by cases hl⟩
  | receive f fs hc => exact h.receive hc
  | drop =>
    obtain ⟨seen, hs, -, hd⟩ := h.channel
    refine ⟨h.sent_le, (fun b hb => by cases hb), ⟨seen, hs, Nat.zero_le _, hd⟩, ?_, fun _ ha => by cases ha⟩
    exact h.delivered.imp id fun hd => ⟨hd.1, rfl⟩

/-- Whatever is delivered is the message. -/
theorem Inv.delivered_eq (h : Inv P t) {m : List α} (hm : m ∈ t.delivered) : m = P := by
  rcases h.delivered with hd | ⟨hd, -⟩ <;> rw [hd] at hm
  · cases hm
  · exact List.mem_singleton.mp hm

theorem Inv.length_delivered_le (h : Inv P t) : t.delivered.length ≤ 1 := by
  rcases h.delivered with hd | ⟨hd, -⟩ <;> rw [hd] <;> simp

/-- A message of which nothing is lost or dropped is delivered once its last fragment has left the channel. -/
theorem Inv.delivered_of_complete (h : Inv P t) (hP : P ≠ []) (hsent : t.sent = P.length) (hc : t.channel = [])
    (hl : t.lost = false) (ha : t.aged = false) : t.delivered = [P] := by
  refine h.delivered.elim (fun hd => ?_) And.left
  have hdense := h.complete hl ha hd
  rw [hc, hsent] at hdense
  have hlen := hdense.nil_eq
  have hpos := List.length_pos_of_ne_nil hP
  cases hb : t.buffer with
  | none =>
    rw [hb] at hlen
    simp only [Option.getD_none, List.length_nil] at hlen
    omega
  | some b =>
    rw [hb] at hlen
    have := (h.buffer b hb).2
    simp only [Option.getD_some] at hlen
    omega

end Transfer

end OtelDistro.Lib

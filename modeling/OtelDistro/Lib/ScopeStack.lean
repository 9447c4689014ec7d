import OtelDistro.Lib.Runs
import Mathlib.Data.List.Perm.Basic

/-!
# OtelDistro.Lib.ScopeStack — scopes attached to a shared stack

* `ScopeStorage`: a stack of scopes that several parties attach to; a scope can be detached from anywhere in it.
* `ScopeStorage.numbered`: an executable one.
* `Client`: one of the parties, with the log of its attach and detach operations.
* `lifoStep`: the discipline "detach in the reverse order of attachment".
* `Client.Holds own others`: the client's scopes on the stack are `own`, innermost first, its log keeps the discipline, and
  `others` are scopes of the other parties.

`Holds.attach`, `Holds.detach`: what the client's operations keep; `Holds.attachOther`, `Holds.detachOther`: those of the
other parties.
-/

namespace OtelDistro.Lib

/-- A stack of scopes of type `X` for contexts of type `C`. -/
structure ScopeStorage (C X : Type) [DecidableEq X] where
  St : Type
  /-- The scopes attached, innermost first. -/
  attached : St → List X
  /-- The scopes handed out so far. -/
  issued : St → List X
  contextOf : X → C
  attach : St → C → St × X
  /-- Detach a scope; the flag says that it was not attached. -/
  detach : St → X → St × Bool
  attached_attach : ∀ s c, attached (attach s c).1 = (attach s c).2 :: attached s
  issued_attach : ∀ s c, issued (attach s c).1 = (attach s c).2 :: issued s
  attach_fresh : ∀ s c, (attach s c).2 ∉ issued s
  contextOf_attach : ∀ s c, contextOf (attach s c).2 = c
  attached_detach : ∀ s x, attached (detach s x).1 = (attached s).erase x
  issued_detach : ∀ s x, issued (detach s x).1 = issued s
  detach_flag : ∀ s x, (detach s x).2 = true ↔ x ∉ attached s
  attached_subset : ∀ s, ∀ x ∈ attached s, x ∈ issued s

structure NumberedScope (C : Type) where
  number : ℕ
  context : C
  deriving DecidableEq

/-- A state of a storage whose scopes are numbered. -/
structure NumberedScopes (C : Type) where
  attached : List (NumberedScope C)
  issued : List (NumberedScope C)
  number_lt : ∀ x ∈ issued, x.number < issued.length
  attached_subset : ∀ x ∈ attached, x ∈ issued

/-- The storage that keeps its scopes in a list and numbers them. -/
def ScopeStorage.numbered (C : Type) [DecidableEq C] : ScopeStorage C (NumberedScope C) where
  St := NumberedScopes C
  attached s := s.attached
  issued s := s.issued
  contextOf := NumberedScope.context
  attach s c :=
    (⟨⟨s.issued.length, c⟩ :: s.attached, ⟨s.issued.length, c⟩ :: s.issued,
      fun x hx => by
        rcases List.mem_cons.mp hx with rfl | hx
        · exact Nat.lt_succ_self _
        · exact Nat.lt_succ_of_lt (s.number_lt x hx),
      fun x hx => by
        rcases List.mem_cons.mp hx with rfl | hx
        · exact List.mem_cons_self
        · exact List.mem_cons_of_mem _ (s.attached_subset x hx)⟩, ⟨s.issued.length, c⟩)
  detach s x :=
    (⟨s.attached.erase x, s.issued, s.number_lt, fun y hy => s.attached_subset y (List.mem_of_mem_erase hy)⟩,
      decide (x ∉ s.attached))
  attached_attach _ _ := rfl
  issued_attach _ _ := rfl
  attach_fresh s c h := Nat.lt_irrefl _ (s.number_lt _ h)
  contextOf_attach _ _ := rfl
  attached_detach _ _ := rfl
  issued_detach _ _ := rfl
  detach_flag s x := decide_eq_true_iff
  attached_subset s := s.attached_subset

inductive ScopeEvent (X : Type)
  | attach (x : X)
  | detach (x : X)
  deriving DecidableEq

/-- The scopes attached by a log and the discipline: only the innermost of them may be detached. -/
def lifoStep {X : Type} [DecidableEq X] (own : List X) : ScopeEvent X → Option (List X)
  | .attach x => some (x :: own)
  | .detach x => if own.head? = some x then some own.tail else none

/-- A party of the storage. -/
structure Client {C X : Type} [DecidableEq X] (S : ScopeStorage C X) where
  st : S.St
  log : List (ScopeEvent X)

namespace Client

variable {C X : Type} [DecidableEq X] {S : ScopeStorage C X}

/-- The scopes the client has attached so far. -/
def owned (c : Client S) : List X := c.log.filterMap fun e => match e with | .attach x => some x | .detach _ => none

def attach (c : Client S) (ctx : C) : Client S × X :=
  (⟨(S.attach c.st ctx).1, c.log ++ [.attach (S.attach c.st ctx).2]⟩, (S.attach c.st ctx).2)

def detach (c : Client S) (x : X) : Client S × Bool :=
  (⟨(S.detach c.st x).1, c.log ++ [.detach x]⟩, (S.detach c.st x).2)

/-- An operation of another party. -/
def attachOther (c : Client S) (ctx : C) : Client S × X := (⟨(S.attach c.st ctx).1, c.log⟩, (S.attach c.st ctx).2)

def detachOther (c : Client S) (x : X) : Client S := ⟨(S.detach c.st x).1, c.log⟩

/-- The client's scopes that are attached, innermost first. -/
def attachedOwned (c : Client S) : List X := (S.attached c.st).filter (fun x => x ∈ c.owned)

theorem owned_attach (c : Client S) (ctx : C) : (c.attach ctx).1.owned = c.owned ++ [(c.attach ctx).2] := by
  rw [owned, attach, List.filterMap_append]
  rfl

theorem owned_detach (c : Client S) (x : X) : (c.detach x).1.owned = c.owned := by
  rw [owned, detach, List.filterMap_append]
  exact List.append_nil _

/-- The client's scopes on the stack are `own`; `others` have been handed out to the other parties. -/
structure Holds (c : Client S) (own others : List X) : Prop where
  attached : c.attachedOwned = own
  lifo : run lifoStep [] c.log = some own
  issued : ∀ x ∈ c.owned, x ∈ S.issued c.st
  others : ∀ x ∈ others, x ∈ S.issued c.st ∧ x ∉ c.owned

variable {c : Client S} {own others : List X}

theorem Holds.subset (h : c.Holds own others) {x : X} (hx : x ∈ own) : x ∈ c.owned := by
  rw [← h.attached, attachedOwned, List.mem_filter, decide_eq_true_eq] at hx
  exact hx.2

/-- The client attaches a scope. -/
theorem Holds.attach (h : c.Holds own others) (ctx : C) :
    (c.attach ctx).1.Holds ((c.attach ctx).2 :: own) others where
  attached := by
    have hfresh : (c.attach ctx).2 ∉ S.attached c.st := fun hm =>
      S.attach_fresh c.st ctx (S.attached_subset _ _ hm)
    have hhead : (S.attached (c.attach ctx).1.st) = (c.attach ctx).2 :: S.attached c.st := S.attached_attach c.st ctx
    rw [attachedOwned, hhead, owned_attach, List.filter_cons_of_pos (by simp), ← h.attached, attachedOwned]
    congr 1
    refine List.filter_congr fun x hx => ?_
    have hne : x ≠ (c.attach ctx).2 := fun e => hfresh (e ▸ hx)
    simp [hne]
  lifo := by
    show run lifoStep [] (c.log ++ [.attach (c.attach ctx).2]) = _
    rw [run_append_of h.lifo]
    rfl
  issued x hx := by
    rw [owned_attach, List.mem_append, List.mem_singleton] at hx
    show x ∈ S.issued (S.attach c.st ctx).1
    rw [S.issued_attach, List.mem_cons]
    rcases hx with hx | rfl
    · exact .inr (h.issued x hx)
    · exact .inl rfl
  others x hx := by
    obtain ⟨hissued, howned⟩ := h.others x hx
    refine ⟨?_, ?_⟩
    · show x ∈ S.issued (S.attach c.st ctx).1
      rw [S.issued_attach]
      exact List.mem_cons_of_mem _ hissued
    · intro hm
      rw [owned_attach, List.mem_append, List.mem_singleton] at hm
      rcases hm with hm | rfl
      · exact howned hm
      · exact S.attach_fresh c.st ctx hissued

/-- The client detaches its innermost scope. -/
theorem Holds.detach {x : X} (h : c.Holds (x :: own) others) : (c.detach x).1.Holds own others where
  attached := by
    have herase : S.attached (c.detach x).1.st = (S.attached c.st).erase x := S.attached_detach c.st x
    have hown := h.attached
    rw [attachedOwned] at hown
    rw [attachedOwned, owned_detach, herase, ← List.erase_filter, hown, List.erase_cons_head]
  lifo := by
    show run lifoStep [] (c.log ++ [.detach x]) = _
    rw [run_append_of h.lifo, run_cons, lifoStep, List.head?_cons, if_pos rfl]
    rfl
  issued y hy := by
    rw [owned_detach] at hy
    show y ∈ S.issued (S.detach c.st x).1
    rw [S.issued_detach]
    exact h.issued y hy
  others y hy := by
    rw [owned_detach]
    show y ∈ S.issued (S.detach c.st x).1 ∧ y ∉ c.owned
    rw [S.issued_detach]
    exact h.others y hy

/-- Another party attaches a scope. -/
theorem Holds.attachOther (h : c.Holds own others) (ctx : C) :
    (c.attachOther ctx).1.Holds own ((c.attachOther ctx).2 :: others) where
  attached := by
    have hfresh : (c.attachOther ctx).2 ∉ c.owned := fun hm => S.attach_fresh c.st ctx (h.issued _ hm)
    have hhead : S.attached (c.attachOther ctx).1.st = (c.attachOther ctx).2 :: S.attached c.st :=
      S.attached_attach c.st ctx
    have howned : (c.attachOther ctx).1.owned = c.owned := rfl
    rw [attachedOwned, hhead, howned, List.filter_cons_of_neg (by simpa using hfresh), ← h.attached]
    rfl
  lifo := h.lifo
  issued x hx := by
    show x ∈ S.issued (S.attach c.st ctx).1
    rw [S.issued_attach]
    exact List.mem_cons_of_mem _ (h.issued x hx)
  others x hx := by
    show x ∈ S.issued (S.attach c.st ctx).1 ∧ x ∉ c.owned
    rw [S.issued_attach, List.mem_cons]
    rcases List.mem_cons.mp hx with rfl | hx
    · exact ⟨.inl rfl, fun hm => S.attach_fresh c.st ctx (h.issued _ hm)⟩
    · exact ⟨.inr (h.others x hx).1, (h.others x hx).2⟩

/-- Another party detaches one of its scopes. -/
theorem Holds.detachOther (h : c.Holds own others) {x : X} (hx : x ∈ others) :
    (c.detachOther x).Holds own others where
  attached := by
    have herase : S.attached (c.detachOther x).st = (S.attached c.st).erase x := S.attached_detach c.st x
    have howned : (c.detachOther x).owned = c.owned := rfl
    have hown := h.attached
    rw [attachedOwned] at hown
    rw [attachedOwned, herase, howned, ← List.erase_filter, hown,
      List.erase_of_not_mem fun hm => (h.others x hx).2 (h.subset hm)]
  lifo := h.lifo
  issued y hy := by
    show y ∈ S.issued (S.detach c.st x).1
    rw [S.issued_detach]
    exact h.issued y hy
  others y hy := by
    show y ∈ S.issued (S.detach c.st x).1 ∧ y ∉ c.owned
    rw [S.issued_detach]
    exact h.others y hy

end Client

end OtelDistro.Lib

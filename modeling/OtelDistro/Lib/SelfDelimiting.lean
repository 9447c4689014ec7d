import Mathlib.Data.List.Basic

/-!
# OtelDistro.Lib.SelfDelimiting — codes whose end can be seen

* `SelfDelimiting`: no code is the beginning of the code of another value, whatever follows.
* `cons_inj_of_notMem`: a text up to its first terminator; `flatMap_inj`: a list of known length.
* `Stops`: a text that does not go on with the letters of a class; `append_inj_of_stops`: the letters up to there.
* `SelfDelimiting.separated_inj`: two codes with a separator between them.
-/

namespace OtelDistro.Lib

variable {α β γ : Type}

/-- Whoever reads a code knows the value when the code ends. -/
def SelfDelimiting (code : α → List β) : Prop := ∀ a b t u, code a ++ t = code b ++ u → a = b

/-- A text that ends at the first `c`. -/
theorem cons_inj_of_notMem {c : β} {s s' t t' : List β} (hs : c ∉ s) (hs' : c ∉ s')
    (h : s ++ c :: t = s' ++ c :: t') : s = s' ∧ t = t' := by
  induction s generalizing s' with
  | nil =>
    cases s' with
    | nil => exact ⟨rfl, (List.cons.inj h).2⟩
    | cons b s' => exact absurd ((List.cons.inj h).1 ▸ List.mem_cons_self) hs'
  | cons a s ih =>
    cases s' with
    | nil => exact absurd ((List.cons.inj h).1 ▸ List.mem_cons_self) hs
    | cons b s' =>
      obtain ⟨rfl, htail⟩ := List.cons.inj h
      obtain ⟨rfl, ht⟩ := ih (fun hm => hs (List.mem_cons_of_mem _ hm)) (fun hm => hs' (List.mem_cons_of_mem _ hm)) htail
      exact ⟨rfl, ht⟩

/-- `t` does not begin with a letter of the class `p`. -/
def Stops (p : β → Bool) (t : List β) : Prop := ∀ b ∈ t.head?, p b = false

theorem stops_nil (p : β → Bool) : Stops p [] := fun _ h => (by cases h)

theorem stops_cons {p : β → Bool} {b : β} {t : List β} (h : p b = false) : Stops p (b :: t) := by
  intro c hc
  cases hc
  exact h

section Stops

variable {p : β → Bool} {s s' t t' : List β}

theorem takeWhile_of_stops (hs : ∀ b ∈ s, p b = true) (ht : Stops p t) : (s ++ t).takeWhile p = s := by
  rw [List.takeWhile_append_of_pos hs]
  cases t with
  | nil => rw [List.takeWhile_nil, List.append_nil]
  | cons b t => rw [List.takeWhile_cons_of_neg (by simp [ht b rfl]), List.append_nil]

theorem dropWhile_of_stops (hs : ∀ b ∈ s, p b = true) (ht : Stops p t) : (s ++ t).dropWhile p = t := by
  rw [List.dropWhile_append_of_pos hs]
  cases t with
  | nil => rfl
  | cons b t => exact List.dropWhile_cons_of_neg (by simp [ht b rfl])

/-- The letters of a class up to where they stop. -/
theorem append_inj_of_stops (hs : ∀ b ∈ s, p b = true) (hs' : ∀ b ∈ s', p b = true) (ht : Stops p t)
    (ht' : Stops p t') (h : s ++ t = s' ++ t') : s = s' ∧ t = t' := by
  have htake := congrArg (List.takeWhile p) h
  have hdrop := congrArg (List.dropWhile p) h
  rw [takeWhile_of_stops hs ht, takeWhile_of_stops hs' ht'] at htake
  rw [dropWhile_of_stops hs ht, dropWhile_of_stops hs' ht'] at hdrop
  exact ⟨htake, hdrop⟩

end Stops

/-- The codes of two lists of one length; the codes of the elements of `l` need not be those of a self-delimiting code. -/
theorem flatMap_inj {code : α → List β} {l l' : List α}
    (hcode : ∀ a ∈ l, ∀ b t u, code a ++ t = code b ++ u → a = b ∧ t = u) (hlen : l.length = l'.length) {t u : List β}
    (h : l.flatMap code ++ t = l'.flatMap code ++ u) : l = l' ∧ t = u := by
  induction l generalizing l' with
  | nil =>
    obtain rfl := List.eq_nil_of_length_eq_zero hlen.symm
    exact ⟨rfl, h⟩
  | cons a l ih =>
    cases l' with
    | nil => exact absurd hlen (Nat.succ_ne_zero _)
    | cons b l' =>
      rw [List.flatMap_cons, List.flatMap_cons, List.append_assoc, List.append_assoc] at h
      obtain ⟨rfl, htail⟩ := hcode a List.mem_cons_self b _ _ h
      obtain ⟨rfl, ht⟩ := ih (fun b hb => hcode b (List.mem_cons_of_mem a hb)) (Nat.succ.inj hlen) htail
      exact ⟨rfl, ht⟩

namespace SelfDelimiting

variable {code : α → List β}

theorem injective (h : SelfDelimiting code) : Function.Injective code := by
  intro a b hab
  exact h a b [] [] (by rw [hab])

theorem append_inj (h : SelfDelimiting code) {a b : α} {t u : List β} (heq : code a ++ t = code b ++ u) :
    a = b ∧ t = u := by
  obtain rfl := h a b t u heq
  exact ⟨rfl, List.append_cancel_left heq⟩

/-- Two codes with a separator. -/
theorem separated_inj (h : SelfDelimiting code) {a a' : α} {sep : List β} {t t' : List β}
    (heq : code a ++ sep ++ t = code a' ++ sep ++ t') : a = a' ∧ t = t' := by
  rw [List.append_assoc, List.append_assoc] at heq
  obtain ⟨rfl, h⟩ := h.append_inj heq
  exact ⟨rfl, List.append_cancel_left h⟩

end SelfDelimiting

end OtelDistro.Lib

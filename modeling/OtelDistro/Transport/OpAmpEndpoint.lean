import OtelDistro.Transport.ConnectionDetails
import OtelDistro.Util.KeyValueString

/-!
# OtelDistro.Transport.OpAmpEndpoint — the URL of the OpAMP server

`parseUrl` of `CommonUtils.cpp` and the connection that `OpAmp::startCommunication` asks for.

* `ParsedURL.text`, `ParsedURL.WellFormed`: the texts the expression matches.  `parseUrl_eq_some_iff`: it matches these and
  no others.
* `Recognised`: the authority is a host name with an optional port.
* `EndpointRule`: no path or `/` becomes `/v1/opamp`, another path is kept, and a second rewriting changes nothing.

`endpointRule_iff`: exactly which URLs are treated this way.
-/

namespace OtelDistro.Transport

open OtelDistro.Lib OtelDistro.Util
open OtelDistro.Config (isDigit)

/-! ## `parseUrl` -/

/-- `query` is what follows the first `/` behind the authority. -/
structure ParsedURL where
  protocol : Str
  host : Str
  port : Option Str := none
  query : Option Str := none
deriving DecidableEq

/-- `[\w.-]` -/
def isNameByte (c : UInt8) : Bool := isAlphanumeric c || c == 95 || c == 46 || c == 45

/-- `.` of the expression. -/
def isAnyByte (c : UInt8) : Bool := c != 10 && c != 13

/-- `(http|https)://` -/
def matchProtocol (s : Str) : Option (Str × Str) :=
  match s.dropPrefix? (lit "http://") with
  | some rest => some (lit "http", rest)
  | none => (s.dropPrefix? (lit "https://")).map fun rest => (lit "https", rest)

/-- `(?:/(.*))?` up to the end. -/
def matchQuery : Str → Option (Option Str)
  | [] => some none
  | c :: query => if c = 47 ∧ query.all isAnyByte = true then some (some query) else none

/-- `(?::(\d+))?` and what follows. -/
def matchPort : Str → Option (Option Str × Option Str)
  | 58 :: rest =>
    if rest.takeWhile isDigit = [] then none
    else (matchQuery (rest.dropWhile isDigit)).map fun query => (some (rest.takeWhile isDigit), query)
  | rest => (matchQuery rest).map fun query => (none, query)

def parseUrl (url : Str) : Option ParsedURL :=
  match matchProtocol url with
  | none => none
  | some (protocol, rest) =>
    if rest.takeWhile isNameByte = [] then none
    else (matchPort (rest.dropWhile isNameByte)).map fun p => ⟨protocol, rest.takeWhile isNameByte, p.1, p.2⟩

/-! ## `startCommunication` -/

/-- The options that are read; times are in milliseconds. -/
structure OpAmpOptions where
  opamp_endpoint : Str := []
  opamp_headers : Str := []
  opamp_send_timeout : ℤ := 10000
  opamp_send_max_retries : UInt64 := 3
  opamp_send_retry_delay : ℤ := 10000
  opamp_insecure : Bool := false
  opamp_certificate : Str := []
  opamp_client_certificate : Str := []
  opamp_client_key : Str := []
  opamp_client_keypass : Str := []

def endpointUrlFor (opamp_endpoint : Str) : Str :=
  match parseUrl opamp_endpoint with
  | some url =>
    match url.query with
    | none => opamp_endpoint ++ lit "/v1/opamp"
    | some query => if query = lit "/" ∨ query = [] then opamp_endpoint ++ lit "v1/opamp" else opamp_endpoint
  | none => if lit "/v1/opamp" <:+ opamp_endpoint then opamp_endpoint else opamp_endpoint ++ lit "/v1/opamp"

/-- The arguments of `initializeConnection`, which hands them to `add`; without endpoint there is no communication. -/
def startCommunication (stdHash : Str → UInt64) (cfg : OpAmpOptions) : Option AddCall :=
  if cfg.opamp_endpoint = [] then none
  else
    let endpointUrl := endpointUrlFor cfg.opamp_endpoint
    some {
      endpointUrl
      endpointHash := stdHash endpointUrl
      contentType := lit "application/x-protobuf"
      headers := (parseUrlEncodedKeyValueString cfg.opamp_headers).pairs
      timeout := cfg.opamp_send_timeout
      maxRetries := cfg.opamp_send_max_retries
      retryDelay := cfg.opamp_send_retry_delay
      sslOptions := {
        insecureSkipVerify := cfg.opamp_insecure
        caInfo := cfg.opamp_certificate
        cert := cfg.opamp_client_certificate
        certKey := cfg.opamp_client_key
        certKeyPassword := cfg.opamp_client_keypass } }

/-! ## The rule for paths -/

/-- Scheme and authority. -/
def base (u : Url) : Str := u.scheme ++ lit "://" ++ (u.hostPart ++ u.portPart)

def path (u : Url) : Str := u.rest.takeWhile beforeQuery

/-- Query and fragment. -/
def afterPath (u : Url) : Str := u.rest.dropWhile beforeQuery

/-- The endpoint's URL when `u` is the option. -/
def usedUrl (stdHash : Str → UInt64) (cfg : OpAmpOptions) (url : Str) : Option Str :=
  (startCommunication stdHash { cfg with opamp_endpoint := url }).map AddCall.endpointUrl

/-- Query and fragment of a URL without path may be kept or dropped. -/
structure EndpointRule (stdHash : Str → UInt64) (cfg : OpAmpOptions) (u : Url) : Prop where
  default : path u = [] ∨ path u = lit "/" → ∃ t, (t = [] ∨ t = afterPath u) ∧
    usedUrl stdHash cfg u.text = some (base u ++ lit "/v1/opamp" ++ t)
  kept : ¬ (path u = [] ∨ path u = lit "/") → usedUrl stdHash cfg u.text = some u.text
  idempotent : ∀ url, usedUrl stdHash cfg u.text = some url → usedUrl stdHash cfg url = some url

/-- A host name and perhaps a port, as `parseUrl` knows them. -/
def Recognised (u : Url) : Prop :=
  u.userInfo = none ∧ (∃ name, u.host = .name name ∧ ∀ c ∈ name, isNameByte c = true) ∧ u.port ≠ some []

/-! ## What `parseUrl` matches -/

namespace ParsedURL

def portText : Option Str → Str
  | none => []
  | some port => 58 :: port

def queryText : Option Str → Str
  | none => []
  | some query => 47 :: query

def text (url : ParsedURL) : Str :=
  url.protocol ++ lit "://" ++ (url.host ++ (portText url.port ++ queryText url.query))

structure WellFormed (url : ParsedURL) : Prop where
  protocol : url.protocol = lit "http" ∨ url.protocol = lit "https"
  host : url.host ≠ [] ∧ ∀ c ∈ url.host, isNameByte c = true
  port : ∀ port ∈ url.port, port ≠ [] ∧ ∀ c ∈ port, isDigit c = true
  query : ∀ query ∈ url.query, ∀ c ∈ query, isAnyByte c = true

end ParsedURL

section ParseUrl

open ParsedURL

variable {s : Str}

theorem dropPrefix_iff {before rest : Str} : s.dropPrefix? before = some rest ↔ s = before ++ rest := by
  rw [List.dropPrefix?_eq_some_iff]
  constructor
  · rintro ⟨p, hs, hp⟩
    rw [hs, eq_of_beq hp]
  · intro hs
    exact ⟨before, hs, beq_self_eq_true before⟩

theorem matchProtocol_iff {protocol rest : Str} : matchProtocol s = some (protocol, rest) ↔
    (protocol = lit "http" ∨ protocol = lit "https") ∧ s = protocol ++ lit "://" ++ rest := by
  have hhttp : lit "http" = [104, 116, 116, 112] := by decide
  have hhttps : lit "https" = [104, 116, 116, 112, 115] := by decide
  have hsep : lit "://" = [58, 47, 47] := by decide
  have hplain : lit "http://" = lit "http" ++ lit "://" := by decide
  have hsecure : lit "https://" = lit "https" ++ lit "://" := by decide
  unfold matchProtocol
  constructor
  · intro h
    split at h
    · next rest' hdrop =>
      cases h
      exact ⟨.inl rfl, hplain ▸ dropPrefix_iff.mp hdrop⟩
    · obtain ⟨rest', hdrop, heq⟩ := Option.map_eq_some_iff.mp h
      cases heq
      exact ⟨.inr rfl, hsecure ▸ dropPrefix_iff.mp hdrop⟩
  · rintro ⟨rfl | rfl, hs⟩
    · rw [dropPrefix_iff.mpr (hplain ▸ hs)]
    · have hno : s.dropPrefix? (lit "http://") = none := by
        refine Option.eq_none_iff_forall_not_mem.mpr fun t ht => ?_
        have hs' := dropPrefix_iff.mp ht
        rw [hs, hplain, hhttp, hhttps, hsep] at hs'
        simp at hs'
      rw [hno, dropPrefix_iff.mpr (hsecure ▸ hs)]
      rfl

theorem matchQuery_iff {query : Option Str} : matchQuery s = some query ↔
    (∀ q ∈ query, ∀ c ∈ q, isAnyByte c = true) ∧ s = queryText query := by
  cases s with
  | nil =>
    cases query with
    | none => simp [matchQuery, queryText]
    | some q => simp [matchQuery, queryText]
  | cons c s =>
    rw [matchQuery]
    cases query with
    | none => simp [queryText]
    | some q =>
      simp only [queryText, List.cons.injEq, Option.mem_def, Option.some.injEq, forall_eq']
      constructor
      · intro h
        split at h
        · next hc =>
          cases h
          exact ⟨List.all_eq_true.mp hc.2, hc.1, rfl⟩
        · cases h
      · rintro ⟨hall, rfl, rfl⟩
        rw [if_pos ⟨rfl, List.all_eq_true.mpr hall⟩]

theorem queryText_stops (p : UInt8 → Bool) (hp : p 47 = false) (query : Option Str) : Stops p (queryText query) := by
  cases query with
  | none => exact stops_nil _
  | some q => exact stops_cons hp

theorem matchPort_iff {port query : Option Str} : matchPort s = some (port, query) ↔
    ((∀ p ∈ port, p ≠ [] ∧ ∀ c ∈ p, isDigit c = true) ∧ ∀ q ∈ query, ∀ c ∈ q, isAnyByte c = true) ∧
      s = portText port ++ queryText query := by
  constructor
  · intro h
    unfold matchPort at h
    split at h
    · next rest =>
      split at h
      · cases h
      · next hne =>
        obtain ⟨q, hq, heq⟩ := Option.map_eq_some_iff.mp h
        cases heq
        obtain ⟨hany, htext⟩ := matchQuery_iff.mp hq
        refine ⟨⟨?_, hany⟩, ?_⟩
        · rintro p ⟨⟩
          exact ⟨hne, fun c hc => List.mem_takeWhile_imp hc⟩
        · rw [← htext, portText, List.cons_append, List.takeWhile_append_dropWhile]
    · obtain ⟨q, hq, heq⟩ := Option.map_eq_some_iff.mp h
      cases heq
      obtain ⟨hany, htext⟩ := matchQuery_iff.mp hq
      exact ⟨⟨(by rintro p ⟨⟩), hany⟩, htext⟩
  · rintro ⟨⟨hport, hquery⟩, rfl⟩
    have hmatch := matchQuery_iff.mpr ⟨hquery, rfl⟩
    cases port with
    | none =>
      unfold matchPort
      split
      · next rest heq =>
        cases query with
        | none => cases heq
        | some q => exact absurd (List.cons.inj heq).1 (by decide)
      · rw [portText, List.nil_append, hmatch]
        rfl
    | some p =>
      obtain ⟨hne, hdigits⟩ := hport p rfl
      have hstops := queryText_stops isDigit rfl query
      rw [portText, List.cons_append, matchPort, takeWhile_of_stops hdigits hstops, dropWhile_of_stops hdigits hstops,
        if_neg hne, hmatch]
      rfl

/-- **`parseUrl` matches**: the texts of the well-formed URLs, each in one way. -/
theorem parseUrl_eq_some_iff {url : ParsedURL} : parseUrl s = some url ↔ url.WellFormed ∧ url.text = s := by
  constructor
  · intro h
    unfold parseUrl at h
    split at h
    · cases h
    · next protocol rest hprotocol =>
      obtain ⟨hp, hs⟩ := matchProtocol_iff.mp hprotocol
      split at h
      · cases h
      · next hne =>
        obtain ⟨⟨port, query⟩, hport, heq⟩ := Option.map_eq_some_iff.mp h
        cases heq
        obtain ⟨⟨hp', hq⟩, htext⟩ := matchPort_iff.mp hport
        refine ⟨⟨hp, ⟨hne, fun c hc => List.mem_takeWhile_imp hc⟩, hp', hq⟩, ?_⟩
        rw [hs, text, ← htext, List.takeWhile_append_dropWhile]
  · rintro ⟨⟨hprotocol, ⟨hne, hhost⟩, hport, hquery⟩, rfl⟩
    have hstops : Stops isNameByte (portText url.port ++ queryText url.query) := by
      cases url.port with
      | none => exact queryText_stops isNameByte rfl url.query
      | some port => exact stops_cons rfl
    unfold parseUrl
    rw [text, matchProtocol_iff.mpr ⟨hprotocol, rfl⟩]
    dsimp only
    rw [takeWhile_of_stops hhost hstops, dropWhile_of_stops hhost hstops, if_neg hne,
      matchPort_iff.mpr ⟨⟨hport, hquery⟩, rfl⟩]
    rfl

end ParseUrl

/-! ## URLs -/

section Recognised

open ParsedURL

variable {u : Url}

theorem isNameByte_iff {c : UInt8} :
    isNameByte c = true ↔ isDigit c = true ∨ (97 ≤ toLower c ∧ toLower c ≤ 122) ∨ c = 95 ∨ c = 46 ∨ c = 45 := by
  simp [isNameByte, isAlphanumeric, or_assoc]

theorem isNameByte_ne {c : UInt8} (h : isNameByte c = true) :
    c ≠ 47 ∧ c ≠ 63 ∧ c ≠ 35 ∧ c ≠ 58 ∧ c ≠ 64 ∧ c ≠ 91 := by
  refine ⟨?_, ?_, ?_, ?_, ?_, ?_⟩ <;> (rintro rfl; exact absurd h (by decide))

theorem isNameByte_of_isDigit {c : UInt8} (h : isDigit c = true) : isNameByte c = true := isNameByte_iff.mpr (.inl h)

/-- Not a delimiter of the authority. -/
def inAuthority (c : UInt8) : Bool := c != 47 && c != 63 && c != 35

theorem inAuthority_iff {c : UInt8} : inAuthority c = true ↔ c ≠ 47 ∧ c ≠ 63 ∧ c ≠ 35 := by
  simp [inAuthority, and_assoc]

theorem inAuthority_of_mem {c : UInt8} (hc : c ∈ u.hostPart ++ u.portPart) : inAuthority c = true := by
  rw [inAuthority_iff]
  rcases List.mem_append.mp hc with hc | hc
  · exact (Url.mem_hostPart_ne hc).2
  · have hport := u.port_ok
    unfold Url.portPart at hc
    cases hp : u.port with
    | none => simp [hp] at hc
    | some port =>
      rw [hp] at hc hport
      rcases List.mem_cons.mp hc with rfl | hc
      · decide
      · obtain ⟨h1, h2, h3, -⟩ := isNameByte_ne (isNameByte_of_isDigit (hport c hc))
        exact ⟨h1, h2, h3⟩

/-- Host and port of a URL that `parseUrl` matches. -/
theorem mem_host_port {url : ParsedURL} (h : url.WellFormed) {c : UInt8} (hc : c ∈ url.host ++ portText url.port) :
    isNameByte c = true ∨ c = 58 := by
  rcases List.mem_append.mp hc with hc | hc
  · exact .inl (h.host.2 c hc)
  · cases hp : url.port with
    | none => simp [hp, portText] at hc
    | some port =>
      rw [hp] at hc
      rcases List.mem_cons.mp hc with rfl | hc
      · exact .inr rfl
      · exact .inl (isNameByte_of_isDigit ((h.port port hp).2 c hc))

theorem colon_notMem_scheme : (58 : UInt8) ∉ u.scheme := by
  unfold Url.scheme
  cases u.secure <;> decide

theorem text_eq_base (u : Url) : u.text = base u ++ u.rest := by
  rw [Url.text, base]
  simp only [List.append_assoc]

theorem portPart_eq (u : Url) : u.portPart = portText u.port := by
  unfold Url.portPart
  cases u.port <;> rfl

/-- The schemes end at their colon, the authorities at the first delimiter. -/
theorem parts_of_text {url : ParsedURL} (h : url.WellFormed) (htext : url.text = u.text) :
    url.protocol = u.scheme ∧ url.host ++ portText url.port = u.hostPart ++ portText u.port ∧
      queryText url.query = u.rest := by
  have hsep : lit "://" = 58 :: [47, 47] := by decide
  have hcolon : (58 : UInt8) ∉ url.protocol := by rcases h.protocol with h | h <;> rw [h] <;> decide
  rw [text, Url.text, hsep, List.append_assoc, List.append_assoc] at htext
  obtain ⟨hscheme, hafter⟩ := cons_inj_of_notMem hcolon colon_notMem_scheme htext
  have hafter := List.append_cancel_left hafter
  rw [← List.append_assoc, ← List.append_assoc] at hafter
  have hname : ∀ c ∈ url.host ++ portText url.port, inAuthority c = true := fun c hc => by
    rw [inAuthority_iff]
    rcases mem_host_port h hc with h | rfl
    · obtain ⟨h1, h2, h3, -⟩ := isNameByte_ne h
      exact ⟨h1, h2, h3⟩
    · decide
  obtain ⟨hauthority, hrest⟩ := append_inj_of_stops hname (fun c hc => inAuthority_of_mem hc)
    (queryText_stops inAuthority rfl url.query) u.rest_ok.2 hafter
  exact ⟨hscheme, portPart_eq u ▸ hauthority, hrest⟩

/-- An authority without `@` and `[` is a name and a port. -/
theorem name_of_hostPart (h : ∀ c ∈ u.hostPart, c ≠ 64 ∧ c ≠ 91) :
    u.userInfo = none ∧ ∃ name, u.host = .name name ∧ u.hostPart = name := by
  have huser : u.userInfo = none := by
    cases hu : u.userInfo with
    | none => rfl
    | some userInfo => exact absurd rfl (h 64 (by rw [Url.hostPart, hu]; simp)).1
  have hpart : u.hostPart = u.host.text := by rw [Url.hostPart, huser]
  cases hh : u.host with
  | literal address => exact absurd rfl (h 91 (by rw [hpart, hh]; exact List.mem_cons_self)).2
  | name name => exact ⟨huser, name, rfl, by rw [hpart, hh]; rfl⟩

/-- What the parser has read is the parts of the URL. -/
theorem recognised_of_text {url : ParsedURL} (h : url.WellFormed) (htext : url.text = u.text) :
    Recognised u ∧ url.protocol = u.scheme ∧ u.host = .name url.host ∧ url.port = u.port ∧ queryText url.query = u.rest := by
  obtain ⟨hscheme, hauthority, hrest⟩ := parts_of_text h htext
  have hno : ∀ c ∈ u.hostPart, c ≠ 64 ∧ c ≠ 91 := fun c hc => by
    rcases mem_host_port h (hauthority ▸ List.mem_append_left _ hc) with h | rfl
    · exact (isNameByte_ne h).2.2.2.2
    · decide
  obtain ⟨huser, name, hh, hpart⟩ := name_of_hostPart hno
  have hok := u.host_ok
  rw [hh] at hok
  -- neither name has a colon
  have hnoColon : ∀ c ∈ name, (decide (c ≠ 58)) = true := fun c hc => decide_eq_true (hok.2 c hc).2
  have hnoColon' : ∀ c ∈ url.host, (decide (c ≠ 58)) = true := fun c hc =>
    decide_eq_true (isNameByte_ne (h.host.2 c hc)).2.2.2.1
  have hport (port : Option Str) : Stops (fun c => decide (c ≠ 58)) (portText port) := by
    cases port with
    | none => exact stops_nil _
    | some port => exact stops_cons (by decide)
  rw [hpart] at hauthority
  obtain ⟨rfl, hportText⟩ := append_inj_of_stops hnoColon' hnoColon (hport url.port) (hport u.port) hauthority
  have hports : url.port = u.port := by
    cases hp : url.port <;> cases hp' : u.port <;> simp [hp, hp', portText] at hportText ⊢
    exact hportText
  refine ⟨⟨huser, ⟨url.host, hh, h.host.2⟩, fun hnil => ?_⟩, hscheme, hh, hports, hrest⟩
  exact (h.port [] (hports.trans hnil)).1 rfl

/-- The parts of a recognised URL are what the parser reads. -/
theorem text_of_recognised {url : ParsedURL} (h : Recognised u) (hscheme : url.protocol = u.scheme)
    (hhost : u.host = .name url.host) (hports : url.port = u.port) (hrest : queryText url.query = u.rest) :
    url.WellFormed ∧ url.text = u.text := by
  obtain ⟨huser, ⟨name, hname, hbytes⟩, hport⟩ := h
  cases hhost.symm.trans hname
  have hok := u.host_ok
  rw [hhost] at hok
  refine ⟨⟨?_, ⟨hok.1, hbytes⟩, ?_, ?_⟩, ?_⟩
  · rw [hscheme, Url.scheme]
    cases u.secure
    · exact .inl rfl
    · exact .inr rfl
  · intro port hp
    rw [hports] at hp
    have hdigits := u.port_ok
    rw [hp] at hdigits
    exact ⟨fun hnil => hport (hnil ▸ hp), hdigits⟩
  · intro query hq c hc
    have hmem : c ∈ u.rest := by
      rw [← hrest, hq]
      exact List.mem_cons_of_mem 47 hc
    have hurl := u.rest_ok.1 c hmem
    simp only [isAnyByte, Bool.and_eq_true, bne_iff_ne]
    constructor <;> (rintro rfl; exact absurd hurl (by decide))
  · rw [text, Url.text, Url.hostPart, huser, hhost, portPart_eq, ← hports, hrest, hscheme]
    rfl

/-- The URLs that `parseUrl` matches, and what it reads. -/
theorem parseUrl_text {url : ParsedURL} : parseUrl u.text = some url ↔
    Recognised u ∧ url.protocol = u.scheme ∧ u.host = .name url.host ∧ url.port = u.port ∧
      queryText url.query = u.rest := by
  rw [parseUrl_eq_some_iff]
  constructor
  · rintro ⟨hwf, htext⟩
    exact recognised_of_text hwf htext
  · rintro ⟨hr, hscheme, hhost, hports, hrest⟩
    exact text_of_recognised hr hscheme hhost hports hrest

end Recognised

/-! ## The rewriting -/

section EndpointUrl

open ParsedURL

variable {s : Str} {u : Url}

theorem suffixBytes : lit "/v1/opamp" = [47, 118, 49] ++ 47 :: [111, 112, 97, 109, 112] := by decide

/-- The last slash is the one in front of the authority. -/
theorem not_suffix_of_noSlash {before authority : Str} (h : (47 : UInt8) ∉ authority) :
    ¬ lit "/v1/opamp" <:+ before ++ lit "://" ++ authority := by
  have hsep : lit "://" = [58, 47] ++ [47] := by decide
  rintro ⟨t, ht⟩
  rw [suffixBytes, hsep] at ht
  have hrev := congrArg List.reverse ht
  simp only [List.reverse_append, List.reverse_cons, List.append_assoc, List.cons_append,
    List.nil_append, List.reverse_nil] at hrev
  have hslash := (cons_inj_of_notMem (s := [112, 109, 97, 112, 111]) (by decide) (mt List.mem_reverse.mp h) hrev).2
  cases hslash

theorem not_suffix_of_slash_end {before : Str} : ¬ lit "/v1/opamp" <:+ before ++ [47] := by
  rintro ⟨t, ht⟩
  have hlast := congrArg List.getLast? ht
  rw [suffixBytes] at hlast
  simp at hlast

/-- A URL that ends with `/v1/opamp` is taken as it is. -/
theorem endpointUrlFor_of_suffix (h : lit "/v1/opamp" <:+ s) : endpointUrlFor s = s := by
  unfold endpointUrlFor
  cases hparse : parseUrl s with
  | none => exact if_pos h
  | some url =>
    obtain ⟨hwf, rfl⟩ := parseUrl_eq_some_iff.mp hparse
    dsimp only
    cases hq : url.query with
    | none =>
      rw [text, hq, queryText, List.append_nil] at h
      refine absurd h (not_suffix_of_noSlash fun hslash => ?_)
      rcases mem_host_port hwf hslash with hc | hc
      · exact (isNameByte_ne hc).1 rfl
      · exact absurd hc (by decide)
    | some query =>
      refine if_neg ?_
      rw [text, hq, queryText] at h
      rintro (rfl | rfl)
      · have hslashes : (47 : UInt8) :: lit "/" = [47] ++ [47] := by decide
        rw [hslashes] at h
        simp only [← List.append_assoc] at h
        exact not_suffix_of_slash_end h
      · simp only [← List.append_assoc] at h
        exact not_suffix_of_slash_end h

/-- What is rewritten ends with `/v1/opamp`. -/
theorem endpointUrlFor_cases (s : Str) : endpointUrlFor s = s ∨ lit "/v1/opamp" <:+ endpointUrlFor s := by
  unfold endpointUrlFor
  cases hparse : parseUrl s with
  | none =>
    dsimp only
    split
    · exact .inl rfl
    · exact .inr (List.suffix_append _ _)
  | some url =>
    obtain ⟨hwf, rfl⟩ := parseUrl_eq_some_iff.mp hparse
    dsimp only
    cases hq : url.query with
    | none => exact .inr (List.suffix_append _ _)
    | some query =>
      dsimp only
      split
      · next hslash =>
        have hparts : lit "/v1/opamp" = [47] ++ lit "v1/opamp" := by decide
        refine .inr ?_
        rw [hparts, text, hq, queryText]
        obtain ⟨t, ht⟩ : [47] <:+ (47 :: query : Str) := by
          rcases hslash with rfl | rfl
          · exact ⟨[47], rfl⟩
          · exact List.suffix_refl _
        rw [← ht]
        exact ⟨url.protocol ++ lit "://" ++ (url.host ++ (portText url.port ++ t)), by simp only [List.append_assoc]⟩
      · exact .inl rfl

theorem endpointUrlFor_idem (s : Str) : endpointUrlFor (endpointUrlFor s) = endpointUrlFor s := by
  rcases endpointUrlFor_cases s with h | h
  · rw [h]
    exact h
  · exact endpointUrlFor_of_suffix h

/-- A recognised authority with nothing behind it, or with a path. -/
theorem endpointUrlFor_recognised (h : Recognised u) {query : Option Str} (hrest : u.rest = queryText query) :
    endpointUrlFor u.text = query.elim (u.text ++ lit "/v1/opamp") fun query =>
      if query = lit "/" ∨ query = [] then u.text ++ lit "v1/opamp" else u.text := by
  obtain ⟨name, hname, -⟩ := h.2.1
  have hparse : parseUrl u.text = some ⟨u.scheme, name, u.port, query⟩ :=
    parseUrl_text.mpr ⟨h, rfl, hname, rfl, hrest.symm⟩
  unfold endpointUrlFor
  rw [hparse]
  cases query <;> rfl

/-- Otherwise the end of the text decides. -/
theorem endpointUrlFor_fallback (h : ¬ Recognised u ∨ ∀ query, u.rest ≠ queryText query) :
    endpointUrlFor u.text = if lit "/v1/opamp" <:+ u.text then u.text else u.text ++ lit "/v1/opamp" := by
  have hparse : parseUrl u.text = none := by
    refine Option.eq_none_iff_forall_not_mem.mpr fun url hurl => ?_
    obtain ⟨hr, -, -, -, hrest⟩ := parseUrl_text.mp hurl
    rcases h with h | h
    · exact h hr
    · exact h url.query hrest.symm
  unfold endpointUrlFor
  rw [hparse]

theorem not_suffix_base : ¬ lit "/v1/opamp" <:+ base u :=
  not_suffix_of_noSlash fun hc => (inAuthority_iff.mp (inAuthority_of_mem hc)).1 rfl

/-! ### Which URLs -/

/-- The URLs treated by the rule. -/
def KeepsRule (u : Url) : Prop :=
  u.rest = [] ∨ (Recognised u ∧ u.rest = lit "/") ∨
    (path u ≠ [] ∧ path u ≠ lit "/" ∧
      ((Recognised u ∧ u.rest ≠ lit "//") ∨ (¬ Recognised u ∧ lit "/v1/opamp" <:+ u.text)))

theorem usedUrl_of_ne_nil {stdHash : Str → UInt64} {cfg : OpAmpOptions} (h : s ≠ []) :
    usedUrl stdHash cfg s = some (endpointUrlFor s) := by
  rw [usedUrl, startCommunication, if_neg h]
  rfl

theorem text_ne_nil : u.text ≠ [] := by
  rw [Url.text, Url.scheme]
  cases u.secure <;> simp [show lit "://" = [58, 47, 47] from by decide]

theorem endpointUrlFor_ne_nil (h : s ≠ []) : endpointUrlFor s ≠ [] := by
  rcases endpointUrlFor_cases s with hs | ⟨t, ht⟩
  · rwa [hs]
  · rw [← ht, suffixBytes]
    simp

/-- Behind an authority without path stands `/v1/opamp`. -/
theorem endpointUrlFor_of_rest_nil (h : u.rest = []) : endpointUrlFor u.text = base u ++ lit "/v1/opamp" := by
  have htext : u.text = base u := by rw [text_eq_base, h, List.append_nil]
  by_cases hr : Recognised u
  · rw [endpointUrlFor_recognised hr (show u.rest = queryText none from h), htext]
    rfl
  · rw [endpointUrlFor_fallback (.inl hr), htext, if_neg not_suffix_base]

/-- The three ways a text behind the authority can begin. -/
theorem rest_cases (u : Url) : u.rest = [] ∨ (∃ q, u.rest = 47 :: q ∧ path u = 47 :: q.takeWhile beforeQuery) ∨
    ((∀ query, u.rest ≠ queryText query) ∧ path u = [] ∧ u.rest.head? ≠ some 47) := by
  cases hrest : u.rest with
  | nil => exact .inl rfl
  | cons c q =>
    right
    by_cases hc : c = 47
    · subst hc
      refine .inl ⟨q, rfl, ?_⟩
      rw [path, hrest]
      rfl
    · have hdelim := u.rest_ok.2 c (by rw [hrest]; rfl)
      refine .inr ⟨fun query h => ?_, ?_, by simpa using hc⟩
      · cases query with
        | none => cases h
        | some query => exact hc (List.cons.inj h).1
      · have hquery : beforeQuery c = false := by
          simp only [Bool.and_eq_false_iff, bne_eq_false_iff_eq] at hdelim
          rcases hdelim with (rfl | rfl) | rfl
          · exact absurd rfl hc
          · rfl
          · rfl
        rw [path, hrest, List.takeWhile_cons_of_neg (by simp [hquery])]

/-- Without path, or with `/`, and more behind it: the base is not followed by `/v1/opamp`. -/
theorem not_default {x t : Str} (hrest : u.rest ≠ []) (hpath : path u = [] ∨ path u = lit "/")
    (hx : x = [] ∨ x = lit "/v1/opamp") : base u ++ u.rest ++ x ≠ base u ++ lit "/v1/opamp" ++ t := by
  intro h
  have hbytes : lit "/v1/opamp" = 47 :: 118 :: [49, 47, 111, 112, 97, 109, 112] := by decide
  have hslash : lit "/" = [47] := by decide
  rw [List.append_assoc, List.append_assoc, List.append_right_inj, hbytes] at h
  rw [hbytes] at hx
  rw [hslash] at hpath
  rcases rest_cases u with hnil | ⟨q, hq, hp⟩ | ⟨-, -, hhead⟩
  · exact hrest hnil
  · rw [hq] at h
    rw [hp] at hpath
    have hstop : q.takeWhile beforeQuery = [] := by simpa using hpath
    cases q with
    | nil => rcases hx with rfl | rfl <;> simp at h
    | cons c q =>
      obtain rfl : c = 118 := (List.cons.inj (List.cons.inj h).2).1
      rw [List.takeWhile_cons_of_pos (by decide)] at hstop
      cases hstop
  · cases hu : u.rest with
    | nil => exact hrest hu
    | cons c q =>
      rw [hu] at h hhead
      exact hhead (congrArg some (List.cons.inj h).1)

/-- With a path the query that `parseUrl` reads is all that follows the slash. -/
theorem endpointUrlFor_of_slash (h : Recognised u) {q : Str} (hrest : u.rest = 47 :: q) :
    endpointUrlFor u.text = if q = lit "/" ∨ q = [] then u.text ++ lit "v1/opamp" else u.text :=
  endpointUrlFor_recognised h (show u.rest = queryText (some q) from hrest)

/-- No path is given, but the URL does not end there. -/
theorem endpointUrlFor_of_default (hrest : u.rest ≠ []) (hpath : path u = [] ∨ path u = lit "/")
    (hslash : ¬ (Recognised u ∧ u.rest = lit "/")) :
    ∃ x, (x = [] ∨ x = lit "/v1/opamp") ∧ endpointUrlFor u.text = base u ++ u.rest ++ x := by
  have hfallback (h : ¬ Recognised u ∨ ∀ query, u.rest ≠ queryText query) :
      ∃ x, (x = [] ∨ x = lit "/v1/opamp") ∧ endpointUrlFor u.text = base u ++ u.rest ++ x := by
    rw [endpointUrlFor_fallback h, text_eq_base]
    split
    · exact ⟨[], .inl rfl, (List.append_nil _).symm⟩
    · exact ⟨_, .inr rfl, rfl⟩
  rcases rest_cases u with hnil | ⟨q, hq, hp⟩ | ⟨hno, -, -⟩
  · exact absurd hnil hrest
  · by_cases hr : Recognised u
    · have hone : lit "/" = [47] := by decide
      rw [endpointUrlFor_of_slash hr hq, if_neg, text_eq_base]
      · exact ⟨[], .inl rfl, (List.append_nil _).symm⟩
      · rintro (rfl | rfl)
        · rw [hp, hone] at hpath
          simp [beforeQuery] at hpath
        · exact hslash ⟨hr, hq⟩
    · exact hfallback (.inl hr)
  · exact hfallback (.inr hno)

/-- With another path the URL is left as it is in these two cases. -/
theorem endpointUrlFor_eq_self_iff (hne : path u ≠ []) (hne' : path u ≠ lit "/") :
    endpointUrlFor u.text = u.text ↔
      (Recognised u ∧ u.rest ≠ lit "//") ∨ (¬ Recognised u ∧ lit "/v1/opamp" <:+ u.text) := by
  by_cases hr : Recognised u
  · rcases rest_cases u with hnil | ⟨q, hq, hp⟩ | ⟨-, hp, -⟩
    · exact absurd (by rw [path, hnil]; rfl) hne
    · have hq' : q ≠ [] := by
        rintro rfl
        exact hne' hp
      have hslashes : q = lit "/" ↔ u.rest = lit "//" := by
        rw [hq, show lit "//" = 47 :: lit "/" from by decide, List.cons_inj_right]
      rw [endpointUrlFor_of_slash hr hq, Ne, ← hslashes]
      by_cases hone : q = lit "/"
      · rw [if_pos (.inl hone), List.append_right_eq_self]
        exact iff_of_false (by decide) (by simp [hr, hone])
      · simp [hr, hone, hq']
    · exact absurd hp hne
  · rw [endpointUrlFor_fallback (.inl hr)]
    split
    · next hsuffix => simp [hr, hsuffix]
    · next hsuffix =>
      rw [List.append_right_eq_self]
      exact iff_of_false (by decide) (by simp [hr, hsuffix])

/-- **The rule holds exactly for these URLs**: nothing follows the authority, or only the slash of one that `parseUrl` knows;
and for a path, the authority is known and the path is not `//`, or the text ends with `/v1/opamp`. -/
theorem endpointRule_iff (stdHash : Str → UInt64) (cfg : OpAmpOptions) (u : Url) :
    EndpointRule stdHash cfg u ↔ KeepsRule u := by
  have hused : usedUrl stdHash cfg u.text = some (endpointUrlFor u.text) := usedUrl_of_ne_nil text_ne_nil
  have hidem : ∀ url, usedUrl stdHash cfg u.text = some url → usedUrl stdHash cfg url = some url := by
    intro url h
    obtain rfl := Option.some.inj (hused.symm.trans h)
    rw [usedUrl_of_ne_nil (endpointUrlFor_ne_nil text_ne_nil), endpointUrlFor_idem]
  have hone : lit "/" = [47] := by decide
  constructor
  · intro rule
    by_cases hrest : u.rest = []
    · exact .inl hrest
    by_cases hslash : Recognised u ∧ u.rest = lit "/"
    · exact .inr (.inl hslash)
    by_cases hpath : path u = [] ∨ path u = lit "/"
    · obtain ⟨t, -, ht⟩ := rule.default hpath
      obtain ⟨x, hx, hx'⟩ := endpointUrlFor_of_default hrest hpath hslash
      rw [hused, hx'] at ht
      exact absurd (Option.some.inj ht) (not_default hrest hpath hx)
    · obtain ⟨hne, hne'⟩ := not_or.mp hpath
      have hkept : endpointUrlFor u.text = u.text := Option.some.inj (hused.symm.trans (rule.kept hpath))
      exact .inr (.inr ⟨hne, hne', (endpointUrlFor_eq_self_iff hne hne').mp hkept⟩)
  · rintro (hrest | ⟨hr, hrest⟩ | ⟨hne, hne', h⟩)
    · have hpath : path u = [] := by rw [path, hrest]; rfl
      refine ⟨fun _ => ⟨[], .inl rfl, ?_⟩, fun h => absurd (.inl hpath) h, hidem⟩
      rw [hused, endpointUrlFor_of_rest_nil hrest, List.append_nil]
    · have hpath : path u = lit "/" := by rw [path, hrest, hone]; rfl
      refine ⟨fun _ => ⟨[], .inl rfl, ?_⟩, fun h => absurd (.inr hpath) h, hidem⟩
      have hparts : lit "/v1/opamp" = lit "/" ++ lit "v1/opamp" := by decide
      rw [hused, endpointUrlFor_of_slash hr (q := []) (hrest.trans hone), if_pos (.inr rfl), text_eq_base, hrest, hparts,
        List.append_nil, List.append_assoc]
    · refine ⟨fun hpath => absurd hpath (not_or.mpr ⟨hne, hne'⟩), fun _ => ?_, hidem⟩
      rw [hused, (endpointUrlFor_eq_self_iff hne hne').mpr h]

/-- An IPv6 server given with the slash behind its port. -/
def ipv6Server : Url where
  host := .literal (lit "::1")
  host_ok := by decide
  port := some (lit "4320")
  rest := lit "/"
  rest_ok := by
    refine ⟨List.all_eq_true.mp rfl, ?_⟩
    rintro c hc
    cases hc
    rfl

/-- The path of that server is written with two slashes. -/
theorem ipv6_slash_doubled :
    usedUrl (fun _ => 0) {} ipv6Server.text = some (lit "http://[::1]:4320//v1/opamp") ∧
      ¬ EndpointRule (fun _ => 0) {} ipv6Server := by
  have hused : usedUrl (fun _ => 0) {} ipv6Server.text = some (lit "http://[::1]:4320//v1/opamp") := by decide +kernel
  refine ⟨hused, fun rule => ?_⟩
  have hpath : path ipv6Server = lit "/" := by decide
  obtain ⟨t, ht, heq⟩ := rule.default (.inr hpath)
  rw [hused] at heq
  rcases ht with rfl | rfl <;> exact absurd heq (by decide)

end EndpointUrl

end OtelDistro.Transport

import Mathlib.Data.List.DropRight
import Overacp.Agent.Tunnel
import Overacp.Server.Api.Tokens
import Overacp.Server.Routes

/-!
# Opening a tunnel

The supervisor's request meets the server's routes and its gate. Which tunnel it gets to is decided by the two URLs,
and who may open it by the token as it arrives; a token that was minted opens the tunnel of its agent as soon as
the server can be reached.
-/

namespace Overacp

namespace Handshake

open Supervisor (Crates PlainAuthority)

/-! ### On the way -/

def isBlank (c : Char) : Bool := c = ' ' || c = '\t'

/-- A header's value arrives without the blanks at its end. -/
def trimmed (text : String) : String := String.ofList (text.toList.rdropWhile isBlank)

def received (headers : List (String × String)) : Routes.HeaderMap :=
  headers.map fun h => (h.1, Utf8.encode (trimmed h.2).toList)

/-! ### The server's side -/

inductive Refusal where
  | unserved (outcome : Routes.Outcome)
  | noUpgrade
  | rejected (resp : Routes.Response)
  deriving DecidableEq, Repr

/-- `tunnel_upgrade` behind its route: an upgrade is looked for in the request, and then the token. -/
def accept (web : Routes.Web) (upgrades : Routes.Request → Bool) (validate : Validate) (req : Routes.Request)
    (queryToken : Option String) : Except Refusal Claims :=
  match Routes.serve web validate req with
  | .runs .tunnelUpgrade (some agentId) =>
      if upgrades req then
        (Routes.tunnelUpgrade web validate agentId queryToken req.headers).mapError .rejected
      else .error .noUpgrade
  | outcome => .error (.unserved outcome)

/-- Everything an attempt meets, apart from the network. -/
structure Deployment where
  crates : Crates
  web : Routes.Web
  upgrades : Routes.Request → Bool
  jwt : Jwt
  auth : StaticJwtAuthenticator

/-- What the network makes of an attempt: how long it takes, the server's clock when the request is read, if it
gets there and the response back, and the key that is drawn for it. -/
structure Passage where
  took : Nat
  reached : Option Nat
  key : String

variable (D : Deployment)

def Deployment.accept (clock : Nat) (req : Supervisor.Request) : Except Refusal Claims :=
  Handshake.accept D.web D.upgrades (D.auth.validate D.jwt clock) ⟨.get, req.path, received req.headers⟩ req.queryToken

/-- `connect`: a socket, at whose other end the server has these claims. -/
def connect (passages : Nat → Passage) (url token : String) : Retry.Attempt String Claims := fun now =>
  (match Supervisor.buildRequest D.crates url token (passages now).key with
    | .error e => .error e
    | .ok req =>
        match (passages now).reached with
        | none => .error "WebSocket connect failed"
        | some clock => (D.accept clock req).mapError fun _ => "WebSocket connect failed",
    (passages now).took)

/-! ### What is known of the crates -/

def isVisible (c : Char) : Bool := '!' ≤ c ∧ c ≤ '~'

/-- Characters of a path that stand for themselves. -/
def isPathChar (c : Char) : Bool := c.isAlphanum || "-._~/:@".toList.contains c

def upgradeHeaders : List (String × String) :=
  [("connection", "Upgrade"), ("upgrade", "websocket"), ("sec-websocket-version", "13")]

/-- A tunnel's URL is taken apart as it was put together. -/
structure Understands (crates : Crates) (authority : String) : Prop where
  parse : ∀ scheme ∈ ["ws", "wss"], ∀ path : String, path.toList.head? = some '/' →
    (∀ c ∈ path.toList, isPathChar c = true) →
    ∃ host port, crates.parse (scheme ++ "://" ++ authority ++ path) = some (some host, port) ∧
      Supervisor.isHeaderValue (Supervisor.hostHeader host port) = true
  uri : ∀ scheme ∈ ["ws", "wss"], ∀ path : String, path.toList.head? = some '/' →
    (∀ c ∈ path.toList, isPathChar c = true) →
    crates.uri (scheme ++ "://" ++ authority ++ path) = some (path, none)

structure Deployment.Documented : Prop where
  toStr : ∀ text : String, (∀ c ∈ text.toList, c = ' ' ∨ isVisible c = true) →
    D.web.toStr (Utf8.encode text.toList) = some text
  toStr_only : ∀ bytes text, D.web.toStr bytes = some text → bytes = Utf8.encode text.toList
  decode : ∀ text, '%' ∉ text.toList → D.web.decode text = some text
  parseUuid : ∀ id : Uuid, D.web.parseUuid id.render = some id
  upgrades : ∀ req : Routes.Request, req.method = .get →
    (∀ h ∈ upgradeHeaders, req.headers.lookup h.1 = some (Utf8.encode h.2.toList)) →
    (∃ key, req.headers.lookup "sec-websocket-key" = some key) → D.upgrades req = true
  /-- A token that can be decoded is base64 with dots. -/
  visible : ∀ key issuer now token claims, D.jwt.decode key issuer now token = .ok claims →
    token ≠ "" ∧ ∀ c ∈ token.toList, isVisible c = true
  insecureDecode : ∀ key issuer now token claims, D.jwt.decode key issuer now token = .ok claims →
    D.crates.insecureDecode token = .ok claims

/-! ### The path -/

theorem digitChar_plain : ∀ d < 16, isPathChar d.digitChar = true ∧ d.digitChar ≠ '/' ∧ d.digitChar ≠ '%' := by
  decide +kernel

/-- An id is written with digits and hyphens. -/
theorem render_plain (id : Uuid) : ∀ c ∈ id.render.toList, isPathChar c = true ∧ c ≠ '/' ∧ c ≠ '%' := by
  intro c hc
  rcases @Pieces.eq_or_mem_of_mem Char _ '-' c _ hc with rfl | hmem
  · decide
  · rw [Uuid.splitOn_render, Uuid.flatten_groups] at hmem
    obtain ⟨i, -, rfl⟩ := List.mem_map.mp hmem
    exact digitChar_plain _ (Nat.mod_lt _ (by decide))

/-- The path of the tunnel, behind what the server's URL has there. -/
def tunnelPath (base : List Char) (id : Uuid) : List Char := base ++ "/tunnel/".toList ++ id.render.toList

theorem splitOn_tunnel (id : Uuid) :
    ("tunnel/".toList ++ id.render.toList).splitOn '/' = ["tunnel".toList, id.render.toList] := by
  have hid : '/' ∉ id.render.toList := fun hmem => (render_plain id '/' hmem).2.1 rfl
  have hsplit : ("tunnel".toList ++ '/' :: id.render.toList).splitOn '/' =
      "tunnel".toList :: id.render.toList.splitOn '/' :=
    List.splitOn_append_cons_self_of_not_mem (by decide) _
  rw [List.splitOn_eq_singleton hid] at hsplit
  exact hsplit

theorem captures_tunnel (id : Uuid) :
    PathPattern.captures [Routes.lit "tunnel", .capture "agent_id"] (tunnelPath [] id) = some [id.render.toList] := by
  have hne : id.render.toList ≠ [] := List.ne_nil_of_length_pos (by rw [Uuid.length_render]; decide)
  show PathPattern.captureAll _ (("tunnel/".toList ++ id.render.toList).splitOn '/') = _
  rw [splitOn_tunnel]
  simp [PathPattern.captureAll, Routes.lit, PathPattern.Segment.accepts, PathPattern.Segment.captured, hne]

/-- What the longer routes end in. -/
def lastSegments : List PathPattern.Segment := [Routes.lit "messages", Routes.lit "stream", Routes.lit "cancel"]

theorem getLast_router : ∀ e ∈ Routes.router, e.1.length ≤ 2 ∨ ∃ last ∈ lastSegments, e.1.getLast? = some last := by
  decide +kernel

theorem not_accepts_render (id : Uuid) : ∀ last ∈ lastSegments, last.accepts id.render.toList = false := by
  have hliteral (text : String) (hlength : text.toList.length ≠ 36) :
      (Routes.lit text).accepts id.render.toList = false := by
    by_contra haccepts
    rw [Bool.not_eq_false] at haccepts
    exact hlength ((PathPattern.Segment.length_of_accepts haccepts).symm.trans (Uuid.length_render id))
  simp only [lastSegments, List.forall_mem_cons]
  exact ⟨hliteral _ (by decide), hliteral _ (by decide), hliteral _ (by decide), fun _ h => absurd h List.not_mem_nil⟩

/-- Behind anything else there is no tunnel, and no other route ends in an id that far down. -/
theorem lookup_behind {rest : List Char} (id : Uuid) :
    PathPattern.lookup Routes.router (tunnelPath ('/' :: rest) id) = none := by
  refine List.findSome?_eq_none_iff.mpr fun e he => Option.map_eq_none_iff.mpr ?_
  refine Option.eq_none_iff_forall_ne_some.mpr fun captured hcaptures => ?_
  have hpath : tunnelPath ('/' :: rest) id = '/' :: (rest ++ '/' :: ("tunnel/".toList ++ id.render.toList)) := by
    simp [tunnelPath]
  rw [hpath, PathPattern.captures, List.splitOn_append_cons_self, splitOn_tunnel] at hcaptures
  have haccepts := PathPattern.accepts_of_captureAll hcaptures
  have hlength := haccepts.length_eq
  have hmore := List.length_pos_iff.mpr (List.splitOn_ne_nil '/' rest)
  rw [List.length_append, List.length_cons, List.length_singleton] at hlength
  have hends := List.forall₂_drop_append _ _ _ haccepts
  have hlast := @List.getLast?_drop _ (rest.splitOn '/').length e.1
  rw [if_neg (by omega)] at hlast
  obtain ⟨segment, ends, -, hend, hdrop⟩ := List.forall₂_cons_right_iff.mp hends
  obtain ⟨last, ends', hid, hnil, rfl⟩ := List.forall₂_cons_right_iff.mp hend
  rw [List.forall₂_nil_right_iff.mp hnil] at hdrop
  rw [hdrop, List.getLast?_cons_cons, List.getLast?_singleton] at hlast
  rcases getLast_router e he with hshort | ⟨last', hmem, hlast'⟩
  · omega
  · rw [← hlast, Option.some.injEq] at hlast'
    rw [hlast', not_accepts_render id last' hmem] at hid
    cases hid

/-! ### What the server makes of the request -/

variable {D}

theorem serve_tunnel (h : D.Documented) {validate : Validate} {headers : Routes.HeaderMap} (id : Uuid) :
    Routes.serve D.web validate ⟨.get, String.ofList (tunnelPath [] id), headers⟩ = .runs .tunnelUpgrade (some id) := by
  refine Routes.serve_eq_runs.mpr
    ⟨Routes.route [Routes.lit "tunnel", .capture "agent_id"] (Routes.onGet .tunnelUpgrade), [id.render.toList],
      ?_, ?_, ?_, rfl, ?_⟩
  · simp [Routes.router]
  · rw [String.toList_ofList]
    exact captures_tunnel id
  · exact fun layer hlayer => absurd hlayer (by simp [Routes.route])
  · have hdecode := h.decode id.render fun hmem => (render_plain id '%' hmem).2.2 rfl
    rw [Routes.pathId, String.ofList_toList, hdecode, Option.bind_some, h.parseUuid, Option.map_some]

theorem serve_behind {web : Routes.Web} {validate : Validate} {headers : Routes.HeaderMap} {rest : List Char}
    (id : Uuid) :
    Routes.serve web validate ⟨.get, String.ofList (tunnelPath ('/' :: rest) id), headers⟩ = .notFound := by
  rw [Routes.serve, String.toList_ofList, lookup_behind]

theorem upgrades_received (h : D.Documented) (path hostHeader token key : String) :
    D.upgrades ⟨.get, path, received (Supervisor.requestHeaders hostHeader token key)⟩ = true := by
  refine h.upgrades _ rfl ?_ ⟨_, rfl⟩
  simp only [upgradeHeaders, List.forall_mem_cons]
  exact ⟨rfl, rfl, rfl, fun _ hmem => absurd hmem List.not_mem_nil⟩

/-! ### The token on its way -/

theorem toNat_of_visible {c : Char} (h : isVisible c = true) : 33 ≤ c.toNat ∧ c.toNat ≤ 126 := by
  simp only [isVisible, decide_eq_true_eq] at h
  exact h

theorem isBlank_of_visible {c : Char} (h : isVisible c = true) : isBlank c = false := by
  simp only [isVisible, decide_eq_true_eq] at h
  simp only [isBlank, Bool.or_eq_false_iff, decide_eq_false_iff_not]
  constructor
  · rintro rfl
    exact absurd h (by decide)
  · rintro rfl
    exact absurd h (by decide)

theorem lookup_authorization (hostHeader token key : String) :
    (received (Supervisor.requestHeaders hostHeader token key)).lookup "authorization" =
      some (Utf8.encode (trimmed ("Bearer " ++ token)).toList) := by
  rfl

theorem rdropWhile_append {α : Type} (p : α → Bool) (xs ys : List α) :
    (xs ++ ys).rdropWhile p = if ys.rdropWhile p = [] then xs.rdropWhile p else xs ++ ys.rdropWhile p := by
  simp only [List.rdropWhile, List.reverse_append, List.dropWhile_append, List.isEmpty_iff, List.reverse_eq_nil_iff]
  split_ifs with h
  · rfl
  · rw [List.reverse_append, List.reverse_reverse]

theorem toList_trimmed (text : String) : (trimmed text).toList = text.toList.rdropWhile isBlank := String.toList_ofList

theorem toList_trimmed_bearer (token : String) : (trimmed ("Bearer " ++ token)).toList =
    if (trimmed token).toList = [] then "Bearer".toList else "Bearer ".toList ++ (trimmed token).toList := by
  rw [toList_trimmed, toList_trimmed, String.toList_append, rdropWhile_append]
  rfl

/-- The gate reads no other token than the one that was sent, without the blanks behind it. -/
theorem trimmed_of_bearer (h : D.Documented) {hostHeader token key text : String}
    (hbearer : Routes.bearer D.web (received (Supervisor.requestHeaders hostHeader token key)) = some text) :
    text = trimmed token := by
  rw [Routes.bearer, lookup_authorization, Option.bind_some] at hbearer
  obtain ⟨value, hvalue, hrest⟩ := Option.bind_eq_some_iff.mp hbearer
  obtain ⟨rest, hprefix, rfl⟩ := Option.map_eq_some_iff.mp hrest
  rw [List.isPrefixOf?_eq_some_iff_append_eq, ← Utf8.encode_injective (h.toStr_only _ _ hvalue),
    toList_trimmed_bearer] at hprefix
  split_ifs at hprefix with hempty
  · have hlength := congrArg List.length hprefix
    rw [List.length_append] at hlength
    change 7 + rest.length = 6 at hlength
    omega
  · rw [List.append_cancel_left hprefix, String.ofList_toList]

theorem bearer_received (h : D.Documented) {token : String} (hne : trimmed token ≠ "")
    (hvisible : ∀ c ∈ (trimmed token).toList, isVisible c = true) (hostHeader key : String) :
    Routes.bearer D.web (received (Supervisor.requestHeaders hostHeader token key)) = some (trimmed token) := by
  have hvalue : (trimmed ("Bearer " ++ token)).toList = "Bearer ".toList ++ (trimmed token).toList := by
    rw [toList_trimmed_bearer, if_neg (by simpa using hne)]
  have hletters : ("Bearer ".toList.all fun c => c = ' ' ∨ isVisible c = true) = true := by decide
  have hstr : D.web.toStr (Utf8.encode (trimmed ("Bearer " ++ token)).toList) =
      some (trimmed ("Bearer " ++ token)) := by
    refine h.toStr _ fun c hc => ?_
    rw [hvalue] at hc
    rcases List.mem_append.mp hc with hletter | hmem
    · exact of_decide_eq_true (List.all_eq_true.mp hletters c hletter)
    · exact .inr (hvisible c hmem)
  rw [Routes.bearer, lookup_authorization, Option.bind_some, hstr, Option.bind_some, hvalue, Pieces.isPrefixOf?_append,
    Option.map_some, String.ofList_toList]

theorem headerByte : ∀ n < 128, 32 ≤ n ∧ n ≠ 127 ∨ n = 9 →
    (decide (32 ≤ UInt8.ofNat n ∧ UInt8.ofNat n ≠ 127) || UInt8.ofNat n == 9) = true := by
  decide +kernel

theorem isHeaderValue_of_forall {text : String} (h : ∀ c ∈ text.toList, isBlank c = true ∨ isVisible c = true) :
    Supervisor.isHeaderValue text = true := by
  rw [Supervisor.isHeaderValue, List.all_eq_true]
  intro b hb
  obtain ⟨c, hc, hb⟩ := List.mem_flatMap.mp hb
  have hrange : c.toNat < 128 ∧ (32 ≤ c.toNat ∧ c.toNat ≠ 127 ∨ c.toNat = 9) := by
    rcases h c hc with hblank | hvisible
    · simp only [isBlank, Bool.or_eq_true, decide_eq_true_eq] at hblank
      rcases hblank with rfl | rfl
      · decide
      · decide
    · have hrange := toNat_of_visible hvisible
      omega
  rw [Utf8.encodeChar_ascii hrange.1, List.mem_singleton] at hb
  rw [hb]
  exact headerByte _ hrange.1 hrange.2

/-! ### The request that is built -/

/-- The server's URL is a scheme, an authority that the crates understand, and a path. -/
structure Addressed (crates : Crates) (config : Supervisor.Config) (path : String) : Prop where
  url : ∃ schemes authority, schemes ∈ Supervisor.schemes ∧ PlainAuthority authority.toList ∧
    Understands crates authority ∧ config.serverUrl = schemes.1 ++ "://" ++ authority ++ path
  rooted : ∀ c ∈ path.toList.head?, c = '/'
  plain : ∀ c ∈ path.toList, isPathChar c = true

theorem tunnelPath_plain {path : String} (hplain : ∀ c ∈ path.toList, isPathChar c = true) (id : Uuid) :
    ∀ c ∈ tunnelPath (Supervisor.tunnelBase path.toList) id, isPathChar c = true := by
  have hscheme := List.all_eq_true.mp (by decide : "wss://".toList.all isPathChar = true)
  have hroute := List.all_eq_true.mp (by decide : "/tunnel/".toList.all isPathChar = true)
  intro c hc
  rcases List.mem_append.mp hc with hfront | hid
  · rcases List.mem_append.mp hfront with hbase | hmem
    · exact (Supervisor.mem_tunnelBase hbase).elim (hscheme c) (hplain c)
    · exact hroute c hmem
  · exact (render_plain id c hid).1

theorem tunnelPath_rooted {path : String} (hrooted : ∀ c ∈ path.toList.head?, c = '/') (id : Uuid) :
    (tunnelPath (Supervisor.tunnelBase path.toList) id).head? = some '/' := by
  rcases Supervisor.tunnelBase_cases hrooted with ⟨-, hbase⟩ | ⟨rest, -, hbase⟩
  · rw [hbase]
    rfl
  · rw [hbase]
    rfl

/-- The request that is built asks for the path behind that of the server's URL. -/
theorem buildRequest_eq {crates : Crates} {config : Supervisor.Config} {path key : String}
    (h : Addressed crates config path) (hkey : Supervisor.isHeaderValue key = true) (id : Uuid) (token : String) :
    ∃ hostHeader, Supervisor.buildRequest crates (config.tunnelUrl id.render) token key =
      if Supervisor.isHeaderValue ("Bearer " ++ token) = true then
        .ok ⟨String.ofList (tunnelPath (Supervisor.tunnelBase path.toList) id), none,
          Supervisor.requestHeaders hostHeader token key⟩
      else .error "build WebSocket request" := by
  obtain ⟨⟨scheme, scheme'⟩, authority, hscheme, hauthority, hunderstands, hurl⟩ := h.url
  have htunnel : config.tunnelUrl id.render =
      scheme' ++ "://" ++ authority ++ String.ofList (tunnelPath (Supervisor.tunnelBase path.toList) id) := by
    refine String.toList_injective ?_
    have hbase := Supervisor.tunnelBase_url hscheme hauthority h.rooted
    rw [Supervisor.toList_tunnelUrl, hurl]
    simp only [String.toList_append, String.toList_ofList, tunnelPath] at hbase ⊢
    rw [hbase]
    simp only [List.append_assoc]
  have hmem : scheme' ∈ ["ws", "wss"] := by
    simp only [Supervisor.schemes, List.mem_cons, Prod.mk.injEq, List.not_mem_nil, or_false] at hscheme
    rcases hscheme with ⟨-, rfl⟩ | ⟨-, rfl⟩ | ⟨-, rfl⟩ | ⟨-, rfl⟩ <;> decide
  have hhead := tunnelPath_rooted h.rooted id
  have hplain := tunnelPath_plain h.plain id
  rw [← String.toList_ofList (l := tunnelPath _ _)] at hhead hplain
  obtain ⟨host, port, hparse, hhost⟩ := hunderstands.parse scheme' hmem _ hhead hplain
  refine ⟨Supervisor.hostHeader host port, ?_⟩
  rw [htunnel, Supervisor.buildRequest, hparse, hunderstands.uri scheme' hmem _ hhead hplain]
  have hfixed : ∀ text ∈ ["Upgrade", "websocket", "13"], Supervisor.isHeaderValue text = true := by decide +kernel
  simp only [List.forall_mem_cons] at hfixed
  simp only [Supervisor.requestHeaders, List.all_cons, List.all_nil, hhost, hkey, hfixed, Bool.true_and, Bool.and_true]
  rfl

/-! ### One attempt -/

theorem mapError_eq_ok {ε ε' α : Type} {f : ε → ε'} {x : Except ε α} {a : α} : x.mapError f = .ok a ↔ x = .ok a := by
  cases x with
  | error e => simp [Except.mapError]
  | ok b => simp [Except.mapError]

theorem decode_of_validate {jwt : Jwt} {auth : StaticJwtAuthenticator} {clock : Nat} {token : String} {claims : Claims}
    (h : auth.validate jwt clock token = .ok claims) :
    jwt.decode auth.signingKey auth.issuer clock token = .ok claims := by
  unfold StaticJwtAuthenticator.validate at h
  split at h
  · cases h
  · rename_i hdecode
    split at h
    · rw [← Except.ok.inj h]
      exact hdecode
    · cases h

theorem accept_eq_ok (h : D.Documented) {hostHeader token key : String} {clock : Nat} {id : Uuid} {claims : Claims} :
    D.accept clock ⟨String.ofList (tunnelPath [] id), none, Supervisor.requestHeaders hostHeader token key⟩ =
        .ok claims ↔
      D.auth.validate D.jwt clock (trimmed token) = .ok claims ∧ claims.isAgent = true ∧ claims.sub = id := by
  rw [Deployment.accept, accept, serve_tunnel h id]
  dsimp only
  rw [if_pos (upgrades_received h _ _ _ _), mapError_eq_ok, Routes.tunnelUpgrade_eq_ok]
  refine and_congr_left fun _ => ⟨?_, fun hvalid => ?_⟩
  · rintro ⟨text, hbearer, hvalid⟩
    rw [Routes.extractBearerToken, Option.or_none] at hbearer
    rwa [trimmed_of_bearer h hbearer] at hvalid
  · obtain ⟨hne, hvisible⟩ := h.visible _ _ _ _ _ (decode_of_validate hvalid)
    refine ⟨trimmed token, ?_, hvalid⟩
    rw [Routes.extractBearerToken, Option.or_none, bearer_received h hne hvisible]

/-- What stands behind a token that can be decoded is blank. -/
theorem isHeaderValue_bearer {token : String} (hvisible : ∀ c ∈ (trimmed token).toList, isVisible c = true) :
    Supervisor.isHeaderValue ("Bearer " ++ token) = true := by
  have hletters : ("Bearer ".toList.all fun c => isBlank c = true ∨ isVisible c = true) = true := by decide
  refine isHeaderValue_of_forall fun c hc => ?_
  rw [String.toList_append] at hc
  rcases List.mem_append.mp hc with hletter | hmem
  · exact of_decide_eq_true (List.all_eq_true.mp hletters c hletter)
  · rw [← @List.rdropWhile_append_rtakeWhile Char isBlank token.toList] at hmem
    rcases List.mem_append.mp hmem with hfront | hblank
    · rw [← toList_trimmed] at hfront
      exact .inr (hvisible c hfront)
    · exact .inl (List.mem_rtakeWhile_imp hblank)

theorem accept_behind {hostHeader token key : String} {rest : List Char} {clock : Nat} {id : Uuid} :
    D.accept clock ⟨String.ofList (tunnelPath ('/' :: rest) id), none, Supervisor.requestHeaders hostHeader token key⟩ =
      .error (.unserved .notFound) := by
  rw [Deployment.accept, accept, serve_behind id]

/-! ### A deployment -/

def behindScheme (url : List Char) : Option (List Char) :=
  ("ws://".toList.isPrefixOf? url).or ("wss://".toList.isPrefixOf? url)

def mintedClaims : Claims := ⟨7, Claims.roleAgent, some 9, 1700000120, "overacp"⟩

/-- A server behind a plain name, and one token. -/
def sample : Deployment where
  crates :=
    { parse := fun url =>
        (behindScheme url.toList).map fun rest => (some (String.ofList (rest.takeWhile (· ≠ '/'))), none)
      uri := fun url => (behindScheme url.toList).map fun rest => (String.ofList (rest.dropWhile (· ≠ '/')), none)
      insecureDecode := fun token =>
        if token = "header.claims.signature" then .ok mintedClaims else .error "InvalidToken" }
  web := Routes.Web.crates
  upgrades req :=
    decide (req.method = .get) &&
      (upgradeHeaders.all fun h => req.headers.lookup h.1 = some (Utf8.encode h.2.toList)) &&
      (req.headers.lookup "sec-websocket-key").isSome
  jwt :=
    { encode := fun key claims =>
        if key = "test-key" ∧ claims = mintedClaims then .ok "header.claims.signature" else .error "other"
      decode := fun key issuer now token =>
        if key = "test-key" ∧ token = "header.claims.signature" ∧ issuer = "overacp" ∧ now ≤ 1700000120 then
          .ok mintedClaims
        else .error "InvalidToken" }
  auth := ⟨"test-key", "overacp"⟩

theorem lawful_sample : sample.jwt.Lawful where
  decode_encode := by
    intro key issuer now claims token hencode hiss hnow hexp
    simp only [sample] at hencode
    split at hencode
    · rename_i hsame
      obtain ⟨rfl, rfl⟩ := hsame
      cases hencode
      have hnow' : now ≤ 1700000120 := Int.ofNat_le.mp hnow
      exact if_pos ⟨rfl, rfl, hiss.symm, hnow'⟩
    · cases hencode

theorem decode_sample {key issuer token : String} {now : Nat} {claims : Claims}
    (h : sample.jwt.decode key issuer now token = .ok claims) :
    token = "header.claims.signature" ∧ claims = mintedClaims := by
  simp only [sample] at h
  split at h
  · rename_i hsame
    exact ⟨hsame.2.1, (Except.ok.inj h).symm⟩
  · cases h

theorem behindScheme_tunnel {scheme : String} (hscheme : scheme ∈ ["ws", "wss"]) (rest : List Char) :
    behindScheme (scheme.toList ++ "://".toList ++ rest) = some rest := by
  simp only [List.mem_cons, List.not_mem_nil, or_false] at hscheme
  rcases hscheme with rfl | rfl
  · have hfound := Pieces.isPrefixOf?_append "ws://".toList rest
    exact congrArg (Option.or · _) hfound
  · have hfound := Pieces.isPrefixOf?_append "wss://".toList rest
    have hother : "ws://".toList.isPrefixOf? ("wss://".toList ++ rest) = none := rfl
    show ("ws://".toList.isPrefixOf? ("wss://".toList ++ rest)).or _ = _
    rw [hother]
    exact hfound

theorem understands_sample : Understands sample.crates "acp.example.com" := by
  have hname := List.all_eq_true.mp (by decide : ("acp.example.com".toList.all fun c => decide (c ≠ '/')) = true)
  have hbehind (scheme : String) (hscheme : scheme ∈ ["ws", "wss"]) (path : String) :
      behindScheme (scheme ++ "://" ++ "acp.example.com" ++ path).toList =
        some ("acp.example.com".toList ++ path.toList) := by
    have h := behindScheme_tunnel hscheme ("acp.example.com".toList ++ path.toList)
    rwa [← List.append_assoc, ← String.toList_append, ← String.toList_append, ← String.toList_append] at h
  constructor
  · intro scheme hscheme path hhead _
    refine ⟨"acp.example.com", none, ?_, by decide +kernel⟩
    obtain ⟨rest, hrest⟩ := List.head?_eq_some_iff.mp hhead
    simp only [sample]
    rw [hbehind scheme hscheme path, Option.map_some, List.takeWhile_append_of_pos hname, hrest,
      List.takeWhile_cons_of_neg (by decide), List.append_nil, String.ofList_toList]
  · intro scheme hscheme path hhead _
    obtain ⟨rest, hrest⟩ := List.head?_eq_some_iff.mp hhead
    simp only [sample]
    rw [hbehind scheme hscheme path, Option.map_some, List.dropWhile_append_of_pos hname, hrest,
      List.dropWhile_cons_of_neg (by decide), ← hrest, String.ofList_toList]

theorem visibleByte : ∀ n < 128, 32 ≤ n ∧ n ≠ 127 →
    (decide (32 ≤ UInt8.ofNat n ∧ UInt8.ofNat n < 127) || UInt8.ofNat n == 9) = true := by
  decide +kernel

theorem encodeChar_byte : ∀ n < 128, Utf8.encodeChar (Char.ofNat n) = [UInt8.ofNat n] := by decide +kernel

theorem toStr_crates {text : List Char} (h : ∀ c ∈ text, c = ' ' ∨ isVisible c = true) :
    Utf8.encode text = text.map (fun c => UInt8.ofNat c.toNat) ∧
      ((text.map fun c => UInt8.ofNat c.toNat).all fun b => decide (32 ≤ b ∧ b < 127) || b == 9) = true ∧
      (text.map fun c => UInt8.ofNat c.toNat).map (fun b => Char.ofNat b.toNat) = text := by
  induction text with
  | nil => exact ⟨rfl, rfl, rfl⟩
  | cons c cs ih =>
      obtain ⟨hencode, hall, hback⟩ := ih fun c' hc' => h c' (List.mem_cons_of_mem c hc')
      have hrange : c.toNat < 128 ∧ 32 ≤ c.toNat ∧ c.toNat ≠ 127 := by
        rcases h c List.mem_cons_self with rfl | hvisible
        · decide
        · have hrange := toNat_of_visible hvisible
          omega
      refine ⟨?_, ?_, ?_⟩
      · rw [Utf8.encode, List.flatMap_cons, Utf8.encodeChar_ascii hrange.1, List.map_cons]
        exact congrArg _ hencode
      · rw [List.map_cons, List.all_cons, hall, visibleByte _ hrange.1 hrange.2, Bool.and_true]
      · rw [List.map_cons, List.map_cons, hback, Utf8.toNat_ofNat (by omega), Char.ofNat_toNat]

theorem encode_crates {bytes : List UInt8}
    (h : (bytes.all fun b => decide (32 ≤ b ∧ b < 127) || b == 9) = true) :
    Utf8.encode (bytes.map fun b => Char.ofNat b.toNat) = bytes := by
  induction bytes with
  | nil => rfl
  | cons b bs ih =>
      rw [List.all_cons, Bool.and_eq_true] at h
      have hrange : b.toNat < 128 := by
        have hb := h.1
        simp only [Bool.or_eq_true, decide_eq_true_eq, beq_iff_eq] at hb
        rcases hb with ⟨-, hhigh⟩ | rfl
        · have hlt : b.toNat < 127 := hhigh
          omega
        · decide
      rw [List.map_cons, Utf8.encode, List.flatMap_cons, encodeChar_byte _ hrange, UInt8.ofNat_toNat]
      exact congrArg (b :: ·) (ih h.2)

theorem documented_sample : sample.Documented where
  toStr text h := by
    obtain ⟨hencode, hall, hback⟩ := toStr_crates h
    have hsome : sample.web.toStr (text.toList.map fun c => UInt8.ofNat c.toNat) = some (String.ofList
        ((text.toList.map fun c => UInt8.ofNat c.toNat).map fun b => Char.ofNat b.toNat)) := if_pos hall
    rw [hencode, hsome, hback, String.ofList_toList]
  toStr_only bytes text h := by
    by_cases hall : (bytes.all fun b => decide (32 ≤ b ∧ b < 127) || b == 9) = true
    · have hsome : sample.web.toStr bytes = some (String.ofList (bytes.map fun b => Char.ofNat b.toNat)) := if_pos hall
      rw [hsome, Option.some.injEq] at h
      rw [← h, String.toList_ofList, encode_crates hall]
    · have hnone : sample.web.toStr bytes = none := if_neg hall
      rw [hnone] at h
      cases h
  decode := Routes.documented_crates.decode_plain
  parseUuid := by
    have hparse : sample.web.parseUuid = Uuid.parseStr := rfl
    rw [hparse]
    exact Uuid.parseStr_render
  upgrades req hmethod hheaders hkey := by
    obtain ⟨key, hkey⟩ := hkey
    simp only [sample]
    rw [hmethod, hkey, Option.isSome_some, Bool.and_true, decide_eq_true rfl, Bool.true_and, List.all_eq_true]
    exact fun header hheader => decide_eq_true (hheaders header hheader)
  visible _ _ _ _ _ h := by
    rw [(decode_sample h).1]
    exact ⟨by decide, List.all_eq_true.mp (by decide)⟩
  insecureDecode _ _ _ _ _ h := by
    obtain ⟨rfl, rfl⟩ := decode_sample h
    simp [sample]

def sampleConfig : Supervisor.Config := ⟨"header.claims.signature", "https://acp.example.com"⟩

theorem addressed_sample : Addressed sample.crates sampleConfig "" where
  url := ⟨("https", "wss"), "acp.example.com", by decide, ⟨by decide, by decide⟩, understands_sample, rfl⟩
  rooted c hc := by cases hc
  plain c hc := by cases hc

/-- The server is down for ten seconds. -/
def samplePassages (now : Nat) : Passage :=
  ⟨5, if 1700000010 ≤ now then some (now + 1) else none, "dGhlIHNhbXBsZSBub25jZQ=="⟩

/-! ### Who gets a tunnel -/

theorem connect_eq_ok (h : D.Documented) {config : Supervisor.Config} {path : String}
    (haddressed : Addressed D.crates config path) {passages : Nat → Passage} {now : Nat}
    (hkey : Supervisor.isHeaderValue (passages now).key = true) (id : Uuid) (claims : Claims) :
    (connect D passages (config.tunnelUrl id.render) config.token now).1 = .ok claims ↔
      path = "" ∧ (∃ clock, (passages now).reached = some clock ∧
        D.auth.validate D.jwt clock (trimmed config.token) = .ok claims) ∧
        claims.isAgent = true ∧ claims.sub = id := by
  obtain ⟨hostHeader, hbuild⟩ := buildRequest_eq haddressed hkey id config.token
  rw [connect, hbuild]
  by_cases hheader : Supervisor.isHeaderValue ("Bearer " ++ config.token) = true
  · rw [if_pos hheader]
    dsimp only
    cases hreached : (passages now).reached with
    | none => exact iff_of_false (fun heq => by cases heq) fun ⟨_, ⟨_, hsome, _⟩, _⟩ => by cases hsome
    | some clock =>
        dsimp only
        rw [mapError_eq_ok]
        rcases Supervisor.tunnelBase_cases haddressed.rooted with ⟨hempty, hbase⟩ | ⟨rest, hne, hbase⟩
        · rw [hbase, accept_eq_ok h, and_iff_right (String.toList_eq_nil_iff.mp hempty)]
          simp only [Option.some.injEq, exists_eq_left']
        · rw [hbase, accept_behind]
          refine iff_of_false (fun heq => by cases heq) fun hopens => hne ?_
          rw [hopens.1, String.toList_empty]
  · rw [if_neg hheader]
    refine iff_of_false (fun heq => by cases heq) ?_
    rintro ⟨-, ⟨clock, -, hvalid⟩, -⟩
    exact hheader (isHeaderValue_bearer (h.visible _ _ _ _ _ (decode_of_validate hvalid)).2)

/-- A tunnel is opened just where the server's URL ends with its authority, and the token, as it arrives, is a valid
one of the agent's. Where the URL goes on, the server has no such route, whatever the gate would say. -/
theorem tunnel_opens_iff (h : D.Documented) {config : Supervisor.Config} {path : String}
    (haddressed : Addressed D.crates config path) {passages : Nat → Passage} {now : Nat}
    (hkey : Supervisor.isHeaderValue (passages now).key = true) (id : Uuid) :
    (∀ claims, (connect D passages (config.tunnelUrl id.render) config.token now).1 = .ok claims ↔
      path = "" ∧ (∃ clock, (passages now).reached = some clock ∧
        D.auth.validate D.jwt clock (trimmed config.token) = .ok claims) ∧
        claims.isAgent = true ∧ claims.sub = id) ∧
      (path ≠ "" → ∀ req, Supervisor.buildRequest D.crates (config.tunnelUrl id.render) config.token
        (passages now).key = .ok req →
          ∀ validate, Routes.serve D.web validate ⟨.get, req.path, received req.headers⟩ = .notFound) := by
  refine ⟨connect_eq_ok h haddressed hkey id, fun hpath req hreq validate => ?_⟩
  obtain ⟨hostHeader, hbuild⟩ := buildRequest_eq haddressed hkey id config.token
  rw [hbuild] at hreq
  split_ifs at hreq
  cases hreq
  rcases Supervisor.tunnelBase_cases haddressed.rooted with ⟨hempty, -⟩ | ⟨rest, -, hbase⟩
  · exact absurd (String.toList_eq_nil_iff.mp hempty) hpath
  · rw [hbase, serve_behind]

/-- A slash behind the authority. -/
def slashConfig : Supervisor.Config := ⟨"header.claims.signature", "https://acp.example.com/"⟩

theorem addressed_slash : Addressed sample.crates slashConfig "/" where
  url := ⟨("https", "wss"), "acp.example.com", by decide, ⟨by decide, by decide⟩, understands_sample, rfl⟩
  rooted c hc := by
    cases hc
    rfl
  plain c hc := by
    obtain rfl := List.mem_singleton.mp hc
    decide

/-- Twenty seconds on the tunnel is opened, but not where the server's URL ends with a slash. -/
theorem tunnel_opens_iff_sample :
    (connect sample samplePassages (sampleConfig.tunnelUrl (7 : Uuid).render) sampleConfig.token 1700000020).1 =
        .ok mintedClaims ∧
      ∃ req, Supervisor.buildRequest sample.crates (slashConfig.tunnelUrl (7 : Uuid).render) slashConfig.token
          (samplePassages 1700000020).key = .ok req ∧
        ∀ validate, Routes.serve sample.web validate ⟨.get, req.path, received req.headers⟩ = .notFound := by
  have hvalid : sample.auth.validate sample.jwt 1700000021 (trimmed sampleConfig.token) = .ok mintedClaims := by
    decide +kernel
  have hkey : Supervisor.isHeaderValue (samplePassages 1700000020).key = true := by decide +kernel
  obtain ⟨hostHeader, hbuild⟩ := buildRequest_eq addressed_slash hkey 7 slashConfig.token
  rw [if_pos (by decide +kernel)] at hbuild
  exact ⟨((tunnel_opens_iff documented_sample addressed_sample hkey 7).1 mintedClaims).mpr
      ⟨rfl, ⟨1700000021, by decide, hvalid⟩, by decide, rfl⟩,
    _, hbuild, (tunnel_opens_iff documented_sample addressed_slash hkey 7).2 (by decide) _ hbuild⟩

/-! ### A minted token -/

/-- From some time on until another the server is reached within so many seconds. -/
structure Reachable (passages : Nat → Passage) (since longest until_ : Nat) : Prop where
  key : ∀ now, Supervisor.isHeaderValue (passages now).key = true
  took : ∀ now, (passages now).took ≤ longest
  reached : ∀ now, since ≤ now → now ≤ until_ → ∃ clock, (passages now).reached = some clock ∧ clock ≤ now + longest

theorem trimmed_of_visible {token : String} (h : ∀ c ∈ token.toList, isVisible c = true) : trimmed token = token := by
  have hself : token.toList.rdropWhile isBlank = token.toList := by
    refine List.rdropWhile_eq_self_iff.mpr fun hne hblank => ?_
    rw [isBlank_of_visible (h _ (List.getLast_mem hne))] at hblank
    cases hblank
  rw [trimmed, hself, String.ofList_toList]

/-- A token that was minted opens the tunnel of the agent it was minted for. -/
theorem minted_token_opens (h : D.Documented) (hlawful : D.jwt.Lawful) {checks : Bool} {mintedAt : Nat}
    {req : Tokens.MintRequest} {response : Tokens.MintResponse}
    (hminted : Tokens.mintToken D.jwt D.auth checks mintedAt req = some (.ok response))
    (hfits : mintedAt + req.ttl < 2 ^ 63) {config : Supervisor.Config} (haddressed : Addressed D.crates config "")
    (htoken : config.token = response.token) {passages : Nat → Passage} {since longest start fuel : Nat}
    (hreachable : Reachable passages since longest (max start (since + longest + 30)))
    (hexp : ((max start (since + longest + 30) + longest : Nat) : Int) ≤ mintedAt + req.ttl)
    (hfuel : since - start < fuel) :
    ∃ begun, Supervisor.openTunnel D.crates (connect D passages) config fuel start =
        some (.ok (response.claims, begun)) ∧
      response.claims.sub = req.agentId ∧ start ≤ begun ∧ begun ≤ max start (since + longest + 30) := by
  obtain ⟨hpos, hadd, hclaims, hmint⟩ := Tokens.mintToken_created hminted
  have hexpiry : response.claims.exp = mintedAt + req.ttl := (Claims.i64Add_eq_sum_iff hadd).mpr ⟨by omega, hfits⟩
  have hvalid (clock : Nat) (hclock : (clock : Int) ≤ mintedAt + req.ttl) :
      D.auth.validate D.jwt clock response.token = .ok response.claims := by
    refine StaticJwtAuthenticator.validate_of_mint hlawful hmint ?_ ?_ ?_ ?_
    · rw [hclaims]
    · exact .inr (by rw [hclaims])
    · omega
    · omega
  have hdecode := decode_of_validate (hvalid mintedAt (by omega))
  have hread : D.crates.insecureDecode response.token = .ok response.claims := h.insecureDecode _ _ _ _ _ hdecode
  have htrimmed : trimmed config.token = response.token := by
    rw [htoken]
    exact trimmed_of_visible (h.visible _ _ _ _ _ hdecode).2
  have hagent : response.claims.isAgent = true := by
    rw [hclaims]
    rfl
  have hopens (now : Nat) (claims : Claims) :=
    connect_eq_ok h haddressed (hreachable.key now) response.claims.sub claims
  have hok (now : Nat) (hsince : since ≤ now) (huntil : now ≤ max start (since + longest + 30)) :
      ∃ a, (connect D passages (config.tunnelUrl response.claims.sub.render) config.token now).1 = .ok a := by
    obtain ⟨clock, hclock, hle⟩ := hreachable.reached now hsince huntil
    refine ⟨response.claims, (hopens now _).mpr ⟨rfl, ⟨clock, hclock, ?_⟩, hagent, rfl⟩⟩
    rw [htrimmed]
    exact hvalid clock (by omega)
  have hruns : ∃ a begun, Supervisor.connectWithRetry
        (connect D passages (config.tunnelUrl response.claims.sub.render) config.token) fuel start = some (a, begun) ∧
      begun ≤ max start (since + longest + 30) :=
    Retry.run_succeeds Supervisor.backoffSecs_bounds hreachable.took hok (Nat.le_refl _) hfuel
  obtain ⟨a, begun, hrun, hbegun⟩ := hruns
  obtain ⟨hstart, took, hattempt⟩ := Retry.run_returns hrun
  -- Whoever let it in, at whatever time, has read the same claims off the token.
  obtain ⟨-, ⟨clock, -, haccepted⟩, -⟩ := (hopens begun a).mp (congrArg Prod.fst hattempt)
  rw [htrimmed] at haccepted
  have hsame := h.insecureDecode _ _ _ _ _ (decode_of_validate haccepted)
  rw [hread] at hsame
  obtain rfl := Except.ok.inj hsame
  refine ⟨begun, ?_, by rw [hclaims], hstart, hbegun⟩
  rw [Supervisor.openTunnel, htoken, hread]
  dsimp only
  rw [← htoken, hrun, Option.map_some]

/-- The server is down for the first ten seconds. -/
theorem minted_token_opens_sample :
    ∃ begun, Supervisor.openTunnel sample.crates (connect sample samplePassages) sampleConfig 11 1700000000 =
        some (.ok (mintedClaims, begun)) ∧
      mintedClaims.sub = 7 ∧ 1700000000 ≤ begun ∧ begun ≤ max 1700000000 (1700000010 + 5 + 30) := by
  have hreachable : Reachable samplePassages 1700000010 5 (max 1700000000 (1700000010 + 5 + 30)) := by
    have hkey : Supervisor.isHeaderValue "dGhlIHNhbXBsZSBub25jZQ==" = true := by decide +kernel
    exact ⟨fun _ => hkey, fun _ => Nat.le_refl 5, fun now hsince _ => ⟨now + 1, if_pos hsince, by omega⟩⟩
  have hminted : Tokens.mintToken sample.jwt sample.auth true 1700000000 ⟨7, some 9, some 120⟩ =
      some (.ok ⟨"header.claims.signature", mintedClaims⟩) := rfl
  exact minted_token_opens documented_sample lawful_sample hminted (by decide) addressed_sample rfl hreachable
    (by decide) (by decide)

end Handshake

end Overacp

import Overacp.Lib.PathPattern
import Overacp.Lib.Percent
import Overacp.Server.Auth
import Overacp.Server.Registry.UuidText

/-!
# Routes and who may use them

The routing table with its two layers, and the gate of the tunnel. A layer looks for the agent's id in the path as
it was sent; the handler is given the id that was captured there, decoded and parsed.
-/

namespace Overacp

namespace Routes

/-! ### Requests -/

inductive Method where
  | get
  | head
  | post
  | put
  | delete
  | connect
  | options
  | trace
  | patch
  | extension (name : String)
  deriving DecidableEq, Repr

/-- Names in lower case and values as bytes, in the order they came. -/
abbrev HeaderMap := List (String × List UInt8)

structure Request where
  method : Method
  path : String
  headers : HeaderMap

structure Response where
  status : Nat
  text : String
  deriving DecidableEq, Repr

/-- What is left to other crates: a header's value as text, a captured piece of a path percent-decoded, and an id
parsed. -/
structure Web where
  toStr : List UInt8 → Option String
  decode : String → Option String
  parseUuid : String → Option Uuid

/-- Nothing is decoded in a text without a percent sign, and an id is not written with one. -/
structure Web.Documented (web : Web) : Prop where
  decode_plain : ∀ text, '%' ∉ text.toList → web.decode text = some text
  parse_plain : ∀ text id, web.parseUuid text = some id → '%' ∉ text.toList

variable (web : Web) (validate : Validate)

/-! ### Layers -/

/-- The token of the `authorization` header. -/
def bearer (headers : HeaderMap) : Option String :=
  ((headers.lookup "authorization").bind web.toStr).bind fun value =>
    ("Bearer ".toList.isPrefixOf? value.toList).map String.ofList

def validateBearer (headers : HeaderMap) : Except Response Claims :=
  match bearer web headers with
  | none => .error ⟨401, "missing bearer token"⟩
  | some token =>
      match validate token with
      | .ok claims => .ok claims
      | .error _ => .error ⟨401, "invalid token"⟩

/-- The id as the path has it: what stands between `/agents/` and the next slash. -/
def pathAgentId (path : String) : Option Uuid :=
  ("/agents/".toList.isPrefixOf? path.toList).bind fun rest =>
    (rest.splitOn '/').head?.bind fun idPart => web.parseUuid (String.ofList idPart)

/-- A request goes on, or is answered. -/
def requireAdmin (req : Request) : Except Response Unit :=
  match validateBearer web validate req.headers with
  | .error resp => .error resp
  | .ok claims => if claims.isAdmin then .ok () else .error ⟨403, "admin role required"⟩

def requireAgentOrAdmin (req : Request) : Except Response Unit :=
  match validateBearer web validate req.headers with
  | .error resp => .error resp
  | .ok claims =>
      if claims.isAdmin then .ok ()
      else if !claims.isAgent then .error ⟨403, "admin or agent role required"⟩
      else match pathAgentId web req.path with
        | some id => if id = claims.sub then .ok () else .error ⟨403, "token agent mismatch"⟩
        | none => .error ⟨403, "admin role required for this route"⟩

/-! ### Routers -/

inductive Handler where
  | healthz
  | tunnelUpgrade
  | listAgents
  | describeAgent
  | disconnectAgent
  | sendMessage
  | streamEvents
  | cancelTurn
  | mintToken
  deriving DecidableEq, Repr

inductive Layer where
  | requireAdmin
  | requireAgentOrAdmin
  deriving DecidableEq, Repr

structure Endpoint where
  methods : List (Method × Handler)
  layer : Option Layer

abbrev Router := List (PathPattern.Pattern × Endpoint)

/-- A handler for `GET` is one for `HEAD`. -/
def onGet (handler : Handler) : List (Method × Handler) := [(.get, handler), (.head, handler)]

def onPost (handler : Handler) : List (Method × Handler) := [(.post, handler)]

def onDelete (handler : Handler) : List (Method × Handler) := [(.delete, handler)]

def route (pattern : PathPattern.Pattern) (methods : List (Method × Handler)) : PathPattern.Pattern × Endpoint :=
  (pattern, ⟨methods, none⟩)

/-- The layer is put around the routes there are. -/
def Router.routeLayer (router : Router) (layer : Layer) : Router :=
  router.map fun e => (e.1, { e.2 with layer := some layer })

def lit (text : String) : PathPattern.Segment := .literal text.toList

def agentsAdminRouter : Router :=
  [route [lit "agents"] (onGet .listAgents),
    route [lit "agents", .capture "id"] (onGet .describeAgent ++ onDelete .disconnectAgent)]

def agentScopedRouter : Router :=
  [route [lit "agents", .capture "id", lit "messages"] (onPost .sendMessage),
    route [lit "agents", .capture "id", lit "stream"] (onGet .streamEvents),
    route [lit "agents", .capture "id", lit "cancel"] (onPost .cancelTurn)]

def tokensRouter : Router := [route [lit "tokens"] (onPost .mintToken)]

def router : Router :=
  [route [lit "healthz"] (onGet .healthz), route [lit "tunnel", .capture "agent_id"] (onGet .tunnelUpgrade)] ++
    Router.routeLayer (agentsAdminRouter ++ tokensRouter) .requireAdmin ++
    Router.routeLayer agentScopedRouter .requireAgentOrAdmin

def Router.handlers (router : Router) : List Handler := router.flatMap fun e => e.2.methods.map Prod.snd

/-! ### A request served -/

inductive Outcome where
  | response (resp : Response)
  | notFound
  | methodNotAllowed
  /-- What was captured is not the id of an agent. -/
  | badPath
  /-- The handler runs, on the id it takes from the path if it takes one. -/
  | runs (handler : Handler) (id : Option Uuid)
  deriving DecidableEq, Repr

def Layer.check : Layer → Request → Except Response Unit
  | .requireAdmin => Routes.requireAdmin web validate
  | .requireAgentOrAdmin => Routes.requireAgentOrAdmin web validate

/-- `Path<Uuid>`, where a route captures a piece of the path. -/
def pathId : List (List Char) → Option (Option Uuid)
  | [] => some none
  | [piece] => ((web.decode (String.ofList piece)).bind web.parseUuid).map some
  | _ => none

def Endpoint.call (endpoint : Endpoint) (method : Method) (captured : List (List Char)) : Outcome :=
  match endpoint.methods.lookup method with
  | none => .methodNotAllowed
  | some handler =>
      match pathId web captured with
      | none => .badPath
      | some id => .runs handler id

/-- The route is found by the path alone, and its layer is asked before the method is looked at. -/
def serve (req : Request) : Outcome :=
  match PathPattern.lookup router req.path.toList with
  | none => .notFound
  | some (endpoint, captured) =>
      match endpoint.layer.elim (.ok ()) fun layer => layer.check web validate req with
      | .error resp => .response resp
      | .ok () => endpoint.call web req.method captured

/-! ### The tunnel -/

/-- The header wins over the query. -/
def extractBearerToken (headers : HeaderMap) (queryToken : Option String) : Option String :=
  (bearer web headers).or queryToken

inductive TunnelAuthRejection where
  | missingToken
  | invalidToken
  | wrongRole
  | agentMismatch
  deriving DecidableEq, Repr

def TunnelAuthRejection.intoResponse : TunnelAuthRejection → Response
  | .missingToken => ⟨401, "missing token"⟩
  | .invalidToken => ⟨401, "invalid token"⟩
  | .wrongRole => ⟨403, "agent role required"⟩
  | .agentMismatch => ⟨403, "token agent mismatch"⟩

def authorizeTunnel (agentId : Uuid) (token : Option String) : Except TunnelAuthRejection Claims :=
  match token with
  | none => .error .missingToken
  | some token =>
      match validate token with
      | .error _ => .error .invalidToken
      | .ok claims =>
          if !claims.isAgent then .error .wrongRole
          else if claims.sub ≠ agentId then .error .agentMismatch
          else .ok claims

/-- What the handler does before the upgrade. -/
def tunnelUpgrade (agentId : Uuid) (queryToken : Option String) (headers : HeaderMap) : Except Response Claims :=
  (authorizeTunnel validate agentId (extractBearerToken web headers queryToken)).mapError
    TunnelAuthRejection.intoResponse

/-! ### What the layers let through -/

variable {web validate}

/-- The request's token is valid and has these claims. -/
def Bears (web : Web) (validate : Validate) (req : Request) (claims : Claims) : Prop :=
  ∃ token, bearer web req.headers = some token ∧ validate token = .ok claims

/-- An admin may act on any agent, and an agent on itself. -/
def MayActOn (claims : Claims) (id : Uuid) : Prop :=
  claims.isAdmin = true ∨ claims.isAgent = true ∧ claims.sub = id

theorem validateBearer_eq_ok {req : Request} {claims : Claims} :
    validateBearer web validate req.headers = .ok claims ↔ Bears web validate req claims := by
  rw [validateBearer, Bears]
  cases bearer web req.headers with
  | none => exact iff_of_false (fun h => by cases h) (fun ⟨_, h, _⟩ => by cases h)
  | some token =>
      simp only [Option.some.injEq, exists_eq_left']
      cases validate token with
      | error e => exact iff_of_false (fun h => by cases h) (fun h => by cases h)
      | ok claims' => simp only [Except.ok.injEq]

theorem requireAdmin_eq_ok {req : Request} :
    requireAdmin web validate req = .ok () ↔ ∃ claims, Bears web validate req claims ∧ claims.isAdmin = true := by
  simp only [← validateBearer_eq_ok]
  rw [requireAdmin]
  cases validateBearer web validate req.headers with
  | error resp => exact iff_of_false (fun h => by cases h) (fun ⟨_, h, _⟩ => by cases h)
  | ok claims =>
      simp only [Except.ok.injEq, exists_eq_left']
      by_cases hadmin : claims.isAdmin = true
      · rw [if_pos hadmin]
        exact iff_of_true rfl hadmin
      · rw [if_neg hadmin]
        exact iff_of_false (fun h => by cases h) hadmin

theorem requireAgentOrAdmin_eq_ok {req : Request} :
    requireAgentOrAdmin web validate req = .ok () ↔ ∃ claims, Bears web validate req claims ∧
      (claims.isAdmin = true ∨ claims.isAgent = true ∧ pathAgentId web req.path = some claims.sub) := by
  simp only [← validateBearer_eq_ok]
  rw [requireAgentOrAdmin]
  cases validateBearer web validate req.headers with
  | error resp => exact iff_of_false (fun h => by cases h) (fun ⟨_, h, _⟩ => by cases h)
  | ok claims =>
      simp only [Except.ok.injEq, exists_eq_left']
      by_cases hadmin : claims.isAdmin = true
      · rw [if_pos hadmin]
        exact iff_of_true rfl (.inl hadmin)
      · rw [if_neg hadmin, or_iff_right hadmin]
        by_cases hagent : claims.isAgent = true
        · rw [if_neg (by rw [hagent]; exact Bool.false_ne_true), and_iff_right hagent]
          cases pathAgentId web req.path with
          | none => exact iff_of_false (fun h => by cases h) (fun h => by cases h)
          | some id =>
              rw [Option.some.injEq]
              by_cases hid : id = claims.sub
              · exact iff_of_true (if_pos hid) hid
              · refine iff_of_false (fun h => ?_) hid
                have hmismatch := (if_neg hid).symm.trans h
                cases hmismatch
        · rw [if_pos (by rw [Bool.not_eq_true] at hagent; rw [hagent]; rfl)]
          exact iff_of_false (fun h => by cases h) (fun h => hagent h.1)

/-! ### Routes served -/

/-- Where a handler runs, its route was found, its layer let the request through, and its id was read. -/
structure Reached (web : Web) (validate : Validate) (req : Request) (handler : Handler) (id : Option Uuid)
    (e : PathPattern.Pattern × Endpoint) (captured : List (List Char)) : Prop where
  mem : e ∈ router
  captures : PathPattern.captures e.1 req.path.toList = some captured
  allowed : ∀ layer ∈ e.2.layer, layer.check web validate req = .ok ()
  method : e.2.methods.lookup req.method = some handler
  id : pathId web captured = some id

theorem apart_router : router.Pairwise fun e e' => PathPattern.apart e'.1 e.1 = true := by decide +kernel

theorem serve_eq_runs {req : Request} {handler : Handler} {id : Option Uuid} :
    serve web validate req = .runs handler id ↔ ∃ e captured, Reached web validate req handler id e captured := by
  constructor
  · intro h
    rw [serve] at h
    split at h
    · cases h
    · rename_i endpoint captured hlookup
      obtain ⟨pattern, hmem, hcaptures⟩ := PathPattern.mem_of_lookup hlookup
      split at h
      · cases h
      · rename_i hallowed
        rw [Endpoint.call] at h
        split at h
        · cases h
        · rename_i handler' hmethod
          split at h
          · cases h
          · rename_i id' hid
            cases h
            refine ⟨(pattern, endpoint), captured, hmem, hcaptures, fun layer hlayer => ?_, hmethod, hid⟩
            rw [Option.mem_def.mp hlayer] at hallowed
            exact hallowed
  · rintro ⟨e, captured, h⟩
    have hallowed : (e.2.layer.elim (.ok ()) fun layer => layer.check web validate req) = .ok () := by
      cases hlayer : e.2.layer with
      | none => rfl
      | some layer => exact h.allowed layer hlayer
    rw [serve, PathPattern.lookup_of_mem apart_router h.mem h.captures]
    simp only [hallowed, Endpoint.call, h.method, h.id]

theorem pathAgentId_of_captures {pattern : PathPattern.Pattern} {path : String} {captured : List (List Char)}
    (hpattern : pattern.take 2 = [lit "agents", .capture "id"])
    (h : PathPattern.captures pattern path.toList = some captured) :
    ∃ piece more, captured = piece :: more ∧ pathAgentId web path = web.parseUuid (String.ofList piece) := by
  rw [← List.take_append_drop 2 pattern, hpattern] at h
  obtain ⟨rest, piece, more, hpath, hpiece, rfl⟩ := PathPattern.captures_literal_capture h
  have hprefix : path.toList = "/agents/".toList ++ rest := by
    rw [hpath]
    rfl
  refine ⟨piece, more, rfl, ?_⟩
  rw [pathAgentId, hprefix, Pieces.isPrefixOf?_append, Option.bind_some, hpiece, Option.bind_some]

theorem pathId_plain (hweb : web.Documented) {piece : List Char} {agentId : Uuid} (hplain : '%' ∉ piece)
    (hparse : web.parseUuid (String.ofList piece) = some agentId) : pathId web [piece] = some (some agentId) := by
  have hdecode := hweb.decode_plain (String.ofList piece) (by rwa [String.toList_ofList])
  rw [pathId, hdecode, Option.bind_some, hparse, Option.map_some]

/-- An id that can be read in the path as it was sent is the one that the handler gets. -/
theorem pathId_eq (hweb : web.Documented) {piece : List Char} {more : List (List Char)} {id : Option Uuid}
    (h : pathId web (piece :: more) = some id) :
    ∃ agentId, id = some agentId ∧
      ∀ written, web.parseUuid (String.ofList piece) = some written → agentId = written := by
  cases more with
  | nil =>
      obtain ⟨agentId, hagent, rfl⟩ := Option.map_eq_some_iff.mp h
      refine ⟨agentId, rfl, fun written hwritten => ?_⟩
      have hplain := hweb.parse_plain _ _ hwritten
      rw [String.toList_ofList] at hplain
      have hread := pathId_plain hweb hplain hwritten
      rw [h] at hread
      exact Option.some.inj (Option.some.inj hread)
  | cons other more => cases h

theorem mem_of_lookup {methods : List (Method × Handler)} {method : Method} {handler : Handler}
    (h : methods.lookup method = some handler) : (method, handler) ∈ methods := by
  obtain ⟨before, after, rfl, -⟩ := List.lookup_eq_some_iff.mp h
  exact List.mem_append_right before List.mem_cons_self

theorem layer_of_agentScoped : ∀ e ∈ router, ∀ m ∈ e.2.methods, m.2 ∈ agentScopedRouter.handlers →
    e.2.layer = some .requireAgentOrAdmin ∧ e.1.take 2 = [lit "agents", .capture "id"] := by
  decide +kernel

theorem layer_of_admin : ∀ e ∈ router, ∀ m ∈ e.2.methods,
    m.2 ∈ Router.handlers (agentsAdminRouter ++ tokensRouter) → e.2.layer = some .requireAdmin := by
  decide +kernel

theorem authorizeTunnel_eq_ok {agentId : Uuid} {token : Option String} {claims : Claims} :
    authorizeTunnel validate agentId token = .ok claims ↔
      (∃ text, token = some text ∧ validate text = .ok claims) ∧ claims.isAgent = true ∧ claims.sub = agentId := by
  cases token with
  | none => exact iff_of_false (fun h => by cases h) (fun ⟨⟨_, h, _⟩, _⟩ => by cases h)
  | some text =>
      simp only [authorizeTunnel, Option.some.injEq, exists_eq_left']
      cases validate text with
      | error e => exact iff_of_false (fun h => by cases h) (fun h => by cases h.1)
      | ok valid =>
          simp only [Except.ok.injEq]
          by_cases hagent : valid.isAgent = true
          · rw [if_neg (by rw [hagent]; exact Bool.false_ne_true)]
            by_cases hsub : valid.sub = agentId
            · rw [if_neg (not_not.mpr hsub), Except.ok.injEq]
              refine ⟨?_, And.left⟩
              rintro rfl
              exact ⟨rfl, hagent, hsub⟩
            · rw [if_pos hsub]
              refine iff_of_false (fun h => by cases h) ?_
              rintro ⟨rfl, -, hsame⟩
              exact hsub hsame
          · rw [Bool.not_eq_true] at hagent
            rw [if_pos (by rw [hagent]; rfl)]
            refine iff_of_false (fun h => by cases h) ?_
            rintro ⟨rfl, hrole, -⟩
            rw [hagent] at hrole
            cases hrole

theorem tunnelUpgrade_eq_ok {agentId : Uuid} {queryToken : Option String} {headers : HeaderMap} {claims : Claims} :
    tunnelUpgrade web validate agentId queryToken headers = .ok claims ↔
      (∃ text, extractBearerToken web headers queryToken = some text ∧ validate text = .ok claims) ∧
        claims.isAgent = true ∧ claims.sub = agentId := by
  rw [← authorizeTunnel_eq_ok, tunnelUpgrade]
  cases authorizeTunnel validate agentId (extractBearerToken web headers queryToken) with
  | error rejection => exact iff_of_false (fun h => by cases h) (fun h => by cases h)
  | ok valid => simp only [Except.mapError, Except.ok.injEq]

/-! ### Who gets through -/

/-- The agent-scoped handlers run for admins and for the agent whose id they get, and for all of these if the id is
written plainly. The admin-only handlers run for admins. The tunnel is for the agent of its path. -/
structure Guarded (web : Web) (validate : Validate) : Prop where
  agentScoped : ∀ req handler id, handler ∈ agentScopedRouter.handlers → serve web validate req = .runs handler id →
    ∃ agentId claims, id = some agentId ∧ Bears web validate req claims ∧ MayActOn claims agentId
  letThrough : ∀ req handler piece agentId claims e, e ∈ agentScopedRouter →
    PathPattern.captures e.1 req.path.toList = some [piece] → e.2.methods.lookup req.method = some handler →
    '%' ∉ piece → web.parseUuid (String.ofList piece) = some agentId → Bears web validate req claims →
    MayActOn claims agentId → serve web validate req = .runs handler (some agentId)
  adminOnly : ∀ req handler id, handler ∈ Router.handlers (agentsAdminRouter ++ tokensRouter) →
    serve web validate req = .runs handler id → ∃ claims, Bears web validate req claims ∧ claims.isAdmin = true
  tunnel : ∀ agentId token claims, authorizeTunnel validate agentId token = .ok claims →
    (∃ text, token = some text ∧ validate text = .ok claims) ∧ claims.isAgent = true ∧ claims.sub = agentId

theorem agentScoped_guarded (hweb : web.Documented) {req : Request} {handler : Handler} {id : Option Uuid}
    (hscoped : handler ∈ agentScopedRouter.handlers) (hruns : serve web validate req = .runs handler id) :
    ∃ agentId claims, id = some agentId ∧ Bears web validate req claims ∧ MayActOn claims agentId := by
  obtain ⟨e, captured, h⟩ := serve_eq_runs.mp hruns
  obtain ⟨hlayer, hpattern⟩ := layer_of_agentScoped e h.mem _ (mem_of_lookup h.method) hscoped
  obtain ⟨piece, more, rfl, hwritten⟩ := @pathAgentId_of_captures web _ _ _ hpattern h.captures
  obtain ⟨agentId, rfl, hsame⟩ := pathId_eq hweb h.id
  obtain ⟨claims, hbears, hrole⟩ := requireAgentOrAdmin_eq_ok.mp (h.allowed _ hlayer)
  refine ⟨agentId, claims, rfl, hbears, ?_⟩
  rcases hrole with hadmin | ⟨hagent, hpath⟩
  · exact .inl hadmin
  · rw [hwritten] at hpath
    exact .inr ⟨hagent, (hsame claims.sub hpath).symm⟩

theorem endpoint_of_agentScoped : ∀ e ∈ agentScopedRouter,
    e.1.take 2 = [lit "agents", .capture "id"] ∧
      (e.1, { e.2 with layer := some .requireAgentOrAdmin }) ∈ router := by
  intro e he
  refine ⟨?_, List.mem_append_right _ (List.mem_map_of_mem he)⟩
  simp only [agentScopedRouter, List.mem_cons, List.not_mem_nil, or_false] at he
  rcases he with rfl | rfl | rfl
  · rfl
  · rfl
  · rfl

theorem agentScoped_letThrough (hweb : web.Documented) {req : Request} {handler : Handler} {piece : List Char}
    {agentId : Uuid} {claims : Claims} {e : PathPattern.Pattern × Endpoint} (he : e ∈ agentScopedRouter)
    (hcaptures : PathPattern.captures e.1 req.path.toList = some [piece])
    (hmethod : e.2.methods.lookup req.method = some handler) (hplain : '%' ∉ piece)
    (hparse : web.parseUuid (String.ofList piece) = some agentId) (hbears : Bears web validate req claims)
    (hmay : MayActOn claims agentId) : serve web validate req = .runs handler (some agentId) := by
  obtain ⟨hpattern, hmem⟩ := endpoint_of_agentScoped e he
  obtain ⟨written, more, heq, hwritten⟩ := @pathAgentId_of_captures web _ _ _ hpattern hcaptures
  obtain ⟨rfl, -⟩ := List.cons_eq_cons.mp heq
  rw [hparse] at hwritten
  refine serve_eq_runs.mpr ⟨_, _, hmem, hcaptures, fun layer hlayer => ?_, hmethod, pathId_plain hweb hplain hparse⟩
  obtain rfl := Option.some.inj hlayer
  refine requireAgentOrAdmin_eq_ok.mpr ⟨claims, hbears, ?_⟩
  rcases hmay with hadmin | ⟨hagent, hsub⟩
  · exact .inl hadmin
  · exact .inr ⟨hagent, by rw [hwritten, hsub]⟩

theorem adminOnly_guarded {req : Request} {handler : Handler} {id : Option Uuid}
    (hadmin : handler ∈ Router.handlers (agentsAdminRouter ++ tokensRouter))
    (hruns : serve web validate req = .runs handler id) :
    ∃ claims, Bears web validate req claims ∧ claims.isAdmin = true := by
  obtain ⟨e, captured, h⟩ := serve_eq_runs.mp hruns
  have hlayer := layer_of_admin e h.mem _ (mem_of_lookup h.method) hadmin
  exact requireAdmin_eq_ok.mp (h.allowed _ hlayer)

/-- Whatever validates the tokens, no path lets a token act on another agent. -/
theorem routes_guarded (hweb : web.Documented) (validate : Validate) : Guarded web validate where
  agentScoped _ _ _ hscoped hruns := agentScoped_guarded hweb hscoped hruns
  letThrough _ _ _ _ _ _ he hcaptures hmethod hplain hparse hbears hmay :=
    agentScoped_letThrough hweb he hcaptures hmethod hplain hparse hbears hmay
  adminOnly _ _ _ hadmin hruns := adminOnly_guarded hadmin hruns
  tunnel _ _ _ hok := authorizeTunnel_eq_ok.mp hok

/-- The crates: a header value is a text if it is visible ASCII, and the percent-decoded bytes are UTF-8. -/
def Web.crates : Web where
  toStr bytes :=
    if bytes.all fun b => decide (32 ≤ b ∧ b < 127) || b == 9 then
      some (String.ofList (bytes.map fun b => Char.ofNat b.toNat))
    else none
  decode text := (Percent.decode text.toList).map String.ofList
  parseUuid := Uuid.parseStr

theorem documented_crates : Web.crates.Documented where
  decode_plain text hplain := by
    show (Percent.decode text.toList).map String.ofList = some text
    rw [Percent.decode_of_notMem hplain, Option.map_some, String.ofList_toList]
  parse_plain _ _ := Uuid.notMem_of_parseStr

/-- An agent posts a message to itself. -/
theorem routes_guarded_message :
    let validate : Validate := fun token => if token = "t" then .ok ⟨7, "agent", none, 60, "overacp"⟩ else .error ⟨"no"⟩
    let req : Request := ⟨.post, "/agents/00000000-0000-0000-0000-000000000007/messages",
      [("authorization", Utf8.encode "Bearer t".toList)]⟩
    serve Web.crates validate req = .runs .sendMessage (some 7) ∧
      ∃ agentId claims, some 7 = some agentId ∧ Bears Web.crates validate req claims ∧ MayActOn claims agentId := by
  intro validate req
  have hruns : serve Web.crates validate req = .runs .sendMessage (some 7) := by decide +kernel
  exact ⟨hruns, (routes_guarded documented_crates validate).agentScoped req .sendMessage (some 7) (by decide +kernel)
    hruns⟩

end Routes

end Overacp

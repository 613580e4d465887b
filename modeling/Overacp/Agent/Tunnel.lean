import Overacp.Lib.Replace
import Overacp.Lib.Retry
import Overacp.Lib.Utf8
import Overacp.Server.Registry.UuidText

/-!
# The supervisor's end of the tunnel

The supervisor reads its id off its token and asks the server for the tunnel of that id until it gets it. The URL
is made from the server's by replacing text: whatever the server's URL has behind its authority stands in front of
the path that is asked for.
-/

namespace Overacp

namespace Supervisor

/-! ### The URL -/

structure Config where
  token : String
  serverUrl : String

def replace (text old new : String) : String := String.ofList (Replace.replace old.toList new.toList text.toList)

def Config.tunnelUrl (config : Config) (agentId : String) : String :=
  let base := replace (replace config.serverUrl "https://" "wss://") "http://" "ws://"
  s!"{base}/tunnel/{agentId}"

/-! ### One attempt -/

/-- What is asked for: the path, the token that the query has, and the headers. -/
structure Request where
  path : String
  queryToken : Option String
  headers : List (String × String)

/-- What is left to the crates: a URL's host and port, what it asks for, and the claims of a token that nobody has
checked. -/
structure Crates where
  parse : String → Option (Option String × Option Nat)
  uri : String → Option (String × Option String)
  insecureDecode : String → Except String Claims

variable (crates : Crates)

/-- No control character but the tab. -/
def isHeaderValue (text : String) : Bool :=
  (Utf8.encode text.toList).all fun b => decide (32 ≤ b ∧ b ≠ 127) || b == 9

def hostHeader (host : String) (port : Option Nat) : String :=
  match port with
  | some p => s!"{host}:{p}"
  | none => host

def requestHeaders (hostHeader token key : String) : List (String × String) :=
  [("host", hostHeader), ("authorization", s!"Bearer {token}"), ("connection", "Upgrade"), ("upgrade", "websocket"),
    ("sec-websocket-version", "13"), ("sec-websocket-key", key)]

/-- The request that `connect` builds, with the key it draws. -/
def buildRequest (url token key : String) : Except String Request :=
  match crates.parse url with
  | none => .error "invalid tunnel URL"
  | some (none, _) => .error "tunnel URL missing host"
  | some (some host, port) =>
      let headers := requestHeaders (hostHeader host port) token key
      match crates.uri url with
      | none => .error "build WebSocket request"
      | some (path, queryToken) =>
          if headers.all fun h => isHeaderValue h.2 then .ok ⟨path, queryToken, headers⟩
          else .error "build WebSocket request"

/-! ### Until one succeeds -/

def maxBackoffSecs : Nat := 30

def backoffSecs (attempt : Nat) : Nat := min (1 <<< min attempt 6) maxBackoffSecs

/-- `saturating_add` of a `u32`. -/
def nextAttempt (attempt : Nat) : Nat := min (attempt + 1) (2 ^ 32 - 1)

/-- The clock is in seconds. -/
def connectWithRetry {α : Type} (connect : Retry.Attempt String α) (fuel now : Nat) : Option (α × Nat) :=
  Retry.run connect backoffSecs nextAttempt fuel 0 now

/-- `run_with`, from the token to the open tunnel; a token that cannot be read ends it. -/
def openTunnel {α : Type} (connect : String → String → Retry.Attempt String α) (config : Config)
    (fuel now : Nat) : Option (Except String (α × Nat)) :=
  match crates.insecureDecode config.token with
  | .error e => some (.error e)
  | .ok claims =>
      (connectWithRetry (connect (config.tunnelUrl claims.sub.render) config.token) fuel now).map .ok

theorem backoffSecs_bounds (attempt : Nat) : 0 < backoffSecs attempt ∧ backoffSecs attempt ≤ maxBackoffSecs := by
  have hpos : 0 < 1 <<< min attempt 6 := by
    rw [Nat.shiftLeft_eq, Nat.one_mul]
    exact Nat.two_pow_pos _
  exact ⟨Nat.lt_min.mpr ⟨hpos, by decide⟩, Nat.min_le_right _ _⟩

/-! ### What the URL asks for -/

/-- An authority with a host and perhaps a port: no slash in it, and no colon at its end. -/
def PlainAuthority (authority : List Char) : Prop := '/' ∉ authority ∧ authority.getLast? ≠ some ':'

/-- The schemes that a server's URL may have, with what becomes of them. -/
def schemes : List (String × String) := [("https", "wss"), ("http", "ws"), ("wss", "wss"), ("ws", "ws")]

def secure (text : List Char) : List Char := Replace.replace "https://".toList "wss://".toList text

def insecure (text : List Char) : List Char := Replace.replace "http://".toList "ws://".toList text

/-- What becomes of the path of the server's URL. -/
def tunnelBase (path : List Char) : List Char := insecure (secure path)

theorem toList_tunnelUrl (config : Config) (agentId : String) :
    (config.tunnelUrl agentId).toList = tunnelBase config.serverUrl.toList ++ "/tunnel/".toList ++ agentId.toList := by
  simp [Config.tunnelUrl, replace, tunnelBase, secure, insecure, toString]

variable {authority path : List Char}

theorem secure_authority (h : PlainAuthority authority) (hpath : ∀ c ∈ path.head?, c = '/') :
    secure (authority ++ path) = authority ++ secure path :=
  Replace.replace_append_of_apart (by decide) h.1 hpath h.2

theorem insecure_authority (h : PlainAuthority authority) (hpath : ∀ c ∈ path.head?, c = '/') :
    insecure (authority ++ path) = authority ++ insecure path :=
  Replace.replace_append_of_apart (by decide) h.1 hpath h.2

theorem secure_slash (rest : List Char) : secure ('/' :: rest) = '/' :: secure rest :=
  Replace.replace_cons_of_not fun h => absurd (List.cons_prefix_cons.mp h).1 (by decide)

theorem insecure_slash (rest : List Char) : insecure ('/' :: rest) = '/' :: insecure rest :=
  Replace.replace_cons_of_not fun h => absurd (List.cons_prefix_cons.mp h).1 (by decide)

theorem secure_of_notMem {text : List Char} (h : 'h' ∉ text) (rest : List Char) :
    secure (text ++ rest) = text ++ secure rest :=
  Replace.replace_append_of_notMem rfl h

theorem insecure_of_notMem {text : List Char} (h : 'h' ∉ text) (rest : List Char) :
    insecure (text ++ rest) = text ++ insecure rest :=
  Replace.replace_append_of_notMem rfl h

theorem secure_https (rest : List Char) : secure ("https://".toList ++ rest) = "wss://".toList ++ secure rest :=
  Replace.replace_append_self (by decide) rest

theorem insecure_http (rest : List Char) : insecure ("http://".toList ++ rest) = "ws://".toList ++ insecure rest :=
  Replace.replace_append_self (by decide) rest

theorem secure_http (rest : List Char) : secure ("http://".toList ++ rest) = "http://".toList ++ secure rest := by
  have hnot : ¬ "https://".toList <+: 'h' :: ("ttp://".toList ++ rest) := by
    simp [List.cons_prefix_cons]
  have hrest := @secure_of_notMem "ttp://".toList (by decide) rest
  show secure ('h' :: ("ttp://".toList ++ rest)) = 'h' :: ("ttp://".toList ++ secure rest)
  rw [← hrest]
  exact Replace.replace_cons_of_not hnot

/-- A path stays empty, or goes on beginning with its slash. -/
theorem tunnelBase_cases (hpath : ∀ c ∈ path.head?, c = '/') :
    (path = [] ∧ tunnelBase path = []) ∨ ∃ rest, path ≠ [] ∧ tunnelBase path = '/' :: rest := by
  cases path with
  | nil => exact .inl ⟨rfl, rfl⟩
  | cons c rest =>
      obtain rfl : c = '/' := hpath c rfl
      exact .inr ⟨_, List.cons_ne_nil _ _, by rw [tunnelBase, secure_slash, insecure_slash]⟩

theorem mem_tunnelBase {c : Char} (h : c ∈ tunnelBase path) : c ∈ "wss://".toList ∨ c ∈ path := by
  rcases Replace.mem_of_mem_replaceFrom h with hnew | hmem
  · refine .inl ?_
    revert hnew
    simp
  · exact Replace.mem_of_mem_replaceFrom hmem

/-- The scheme is turned into that of the tunnel and the authority stays. -/
theorem tunnelBase_url {scheme scheme' : String} (hscheme : (scheme, scheme') ∈ schemes)
    (hauthority : PlainAuthority authority) (hpath : ∀ c ∈ path.head?, c = '/') :
    tunnelBase (scheme.toList ++ "://".toList ++ authority ++ path) =
      scheme'.toList ++ "://".toList ++ authority ++ tunnelBase path := by
  have hsecure := secure_authority hauthority hpath
  have hpath' : ∀ c ∈ (secure path).head?, c = '/' := by
    cases path with
    | nil => exact hpath
    | cons c rest =>
        obtain rfl : c = '/' := hpath c rfl
        rw [secure_slash]
        exact fun _ h => (Option.some.inj h).symm
  have hinsecure := insecure_authority hauthority hpath'
  simp only [schemes, List.mem_cons, Prod.mk.injEq, List.not_mem_nil, or_false] at hscheme
  rw [tunnelBase, tunnelBase, List.append_assoc, List.append_assoc _ authority, ← hinsecure, ← hsecure]
  rcases hscheme with ⟨rfl, rfl⟩ | ⟨rfl, rfl⟩ | ⟨rfl, rfl⟩ | ⟨rfl, rfl⟩
  · exact (congrArg insecure (secure_https _)).trans (insecure_of_notMem (by decide) _)
  · exact (congrArg insecure (secure_http _)).trans (insecure_http _)
  · exact (congrArg insecure (secure_of_notMem (by decide) _)).trans (insecure_of_notMem (by decide) _)
  · exact (congrArg insecure (secure_of_notMem (by decide) _)).trans (insecure_of_notMem (by decide) _)

end Supervisor

end Overacp

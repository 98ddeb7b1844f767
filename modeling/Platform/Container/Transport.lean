import Platform.Container.Broker

/-!
# The WebSocket transport of the broker (`ws_transport.rs`)

A client opens a connection with a token, which says for which challenge it acts, and then sends
requests.  The server checks the challenge that a request names against the one of the connection
and hands the request to the broker.

* Decoding JSON and checking a token belong to the environment (`WsEnv`).
* A connection has a number; messages on a number that is not open do nothing.
-/

namespace Platform.Container
open Platform.Core Lib

structure WsConfig where
  jwtSecret : Option String
  allowUnauthenticated : Bool
  allowedChallenges : List String
  maxConnectionsPerChallenge : Nat

/-- `WsClaims`; its times are looked at when the token is checked -/
structure WsClaims where
  challengeId : String
  ownerId : String

structure WsConnection where
  challengeId : String
  ownerId : String
  authenticated : Bool

structure WsEnv (F : Type) where
  /-- the token of an authentication message -/
  decodeAuth : String → Except String String
  /-- a token checked with the secret -/
  decodeJwt : String → String → Except String WsClaims
  decodeJwtUnverified : String → Except String WsClaims
  decodeRequest : String → Except String (Request F)

structure WsServer (σ : Type) where
  broker : Broker σ
  /-- the open connections -/
  connections : HashMap Nat WsConnection
  /-- how many connections there are for a challenge -/
  counts : HashMap String Nat

section
variable {F σ : Type} [Float64 F]

def authenticate (wenv : WsEnv F) (ws : WsConfig) (text : String) : Except String WsClaims := do
  let token ← wenv.decodeAuth text
  let secret ← match ws.jwtSecret with
    | some secret => .ok secret
    | none => .error "No JWT secret configured"
  let claims ← wenv.decodeJwt secret token
  if !ws.allowedChallenges.isEmpty && !ws.allowedChallenges.contains claims.challengeId then
    .error ("Challenge not allowed: " ++ claims.challengeId)
  return claims

/-- the answer to an authentication message -/
def authError (error : ContainerError) : Response := .error error "auth"

/-- the connection of unauthenticated clients: what the token says, if it can be read -/
def unauthenticated (wenv : WsEnv F) (text : String) : WsConnection :=
  match (wenv.decodeAuth text).bind wenv.decodeJwtUnverified with
  | .ok claims => ⟨claims.challengeId, claims.ownerId, true⟩
  | .error _ => ⟨"", "", true⟩

/-- the start of `handle_ws_connection`, up to its message loop; no message may come in time -/
def openConnection (wenv : WsEnv F) (ws : WsConfig) (addr : Nat) (first : Option String)
    (s : WsServer σ) : Option Response × WsServer σ :=
  if addr ∈ s.connections then (none, s)
  else if !ws.allowUnauthenticated && ws.jwtSecret.isNone then
    (some (authError (.unauthorized
      ("Authentication required but JWT secret not configured. Set BROKER_JWT_SECRET or " ++
        "explicitly enable unauthenticated access."))), s)
  else
    match first with
    | none => (none, s)
    | some text =>
      if ws.jwtSecret.isSome then
        match authenticate wenv ws text with
        | .error msg => (some (authError (.unauthorized msg)), s)
        | .ok claims =>
          let count := (s.counts.lookup claims.challengeId).getD 0
          if ws.maxConnectionsPerChallenge ≤ count then
            (some (authError (.policyViolation "Too many connections")),
              { s with counts := s.counts.insert claims.challengeId count })
          else
            (some (.pong "authenticated" "auth"),
              { s with
                connections :=
                  s.connections.insert addr ⟨claims.challengeId, claims.ownerId, true⟩
                counts := s.counts.insert claims.challengeId (count + 1) })
      else if ws.allowUnauthenticated then
        (some (.pong "unauthenticated" "auth"),
          { s with connections := s.connections.insert addr (unauthenticated wenv text) })
      else (some (authError (.unauthorized "Authentication required")), s)

/-- the end of `handle_ws_connection` -/
def closeConnection (addr : Nat) (s : WsServer σ) : WsServer σ :=
  match s.connections.lookup addr with
  | none => s
  | some conn =>
    { s with
      connections := s.connections.erase addr
      counts :=
        if conn.authenticated ∧ conn.challengeId ≠ "" ∧ conn.challengeId ∈ s.counts then
          s.counts.insert conn.challengeId ((s.counts.lookup conn.challengeId).getD 0 - 1)
        else s.counts }

def processRequest (cfg : BrokerConfig F) (wenv : WsEnv F) (env : DockerEnv σ) (text : String)
    (conn : WsConnection) (b : Broker σ) : Response × Broker σ :=
  match wenv.decodeRequest text with
  | .error msg => (.error (.invalidRequest msg) "unknown", b)
  | .ok request =>
    match request.challengeId with
    | none => handleRequest cfg env request b
    | some requested =>
      if conn.challengeId ≠ "" ∧ requested ≠ conn.challengeId then
        (.error (.unauthorized ("Challenge mismatch: authenticated as " ++ conn.challengeId ++
          ", requested " ++ requested)) request.requestId, b)
      else handleRequest cfg env request b

/-! ## runs -/

inductive WsInput (σ : Type) where
  | connect (addr : Nat) (first : Option String)
  | message (addr : Nat) (text : String) (env : DockerEnv σ)
  | close (addr : Nat)

def wsNext (cfg : BrokerConfig F) (ws : WsConfig) (wenv : WsEnv F) (s : WsServer σ) :
    WsInput σ → Option Response × WsServer σ
  | .connect addr first => openConnection wenv ws addr first s
  | .message addr text env =>
    match s.connections.lookup addr with
    | none => (none, s)
    | some conn =>
      Prod.map some (fun b => { s with broker := b })
        (processRequest cfg wenv env text conn s.broker)
  | .close addr => (none, closeConnection addr s)

abbrev WsCall (σ : Type) := Call (WsServer σ) (WsInput σ) (Option Response)

end

end Platform.Container

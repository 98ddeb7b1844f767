import Platform.Container.Isolation

/-!
# The connection counts of the WebSocket transport

`handle_ws_connection` runs once for every connection, and the handlers interleave at each `await`.
Here a handler is the place at which it waits (`Phase`), and an event lets it go on: a message
comes, the lock of the counts is free, or a message has been sent or could not be sent.

The count of a challenge goes up when a handler passes the limit.  It goes down at the end of the
function, which a failed send leaves early, and only for challenges with a name.
-/

namespace Platform.Container
open Platform.Core Lib HashMap

inductive Phase where
  /-- for the first message -/
  | waiting
  /-- for an error to be sent, which ends it -/
  | failing
  /-- for the lock of the counts, to be counted -/
  | queued (claims : WsClaims)
  /-- with the lock, for the answer that there are too many connections -/
  | refusing
  /-- for the answer to its authentication to be sent -/
  | greeting (conn : WsConnection)
  /-- for a message -/
  | reading (conn : WsConnection)
  /-- for an answer to be sent -/
  | replying (conn : WsConnection)
  /-- for the lock of the counts, after its loop -/
  | closing (conn : WsConnection)

/-- what `read.next` returns in the loop -/
inductive Received (σ : Type) where
  | text (text : String) (env : DockerEnv σ)
  | ping
  | other
  /-- a close frame, an error or the end of the stream -/
  | finished

inductive WsEvent (σ : Type) where
  /-- the first message, if it is a text and comes in time -/
  | first (text : Option String)
  | lock
  | sent (ok : Bool)
  | received (message : Received σ)

inductive HandlerInput (σ : Type) where
  | accept (addr : Nat)
  | event (addr : Nat) (event : WsEvent σ)

structure WsHandlers (σ : Type) where
  broker : Broker σ
  handlers : HashMap Nat Phase
  /-- a handler that waits while it holds the lock -/
  locked : Bool
  /-- `connections`: how many there are for a challenge -/
  counts : HashMap String Nat

namespace WsHandlers
variable {σ : Type}

def count (s : WsHandlers σ) (challenge : String) : Nat := (s.counts.lookup challenge).getD 0

def goTo (s : WsHandlers σ) (addr : Nat) (phase : Phase) : WsHandlers σ :=
  { s with handlers := s.handlers.insert addr phase }

def finish (s : WsHandlers σ) (addr : Nat) : WsHandlers σ :=
  { s with handlers := s.handlers.erase addr }

end WsHandlers

section
variable {F σ : Type} [Float64 F]

/-- the end of the loop: the lock is needed for a challenge with a name only -/
def leaveLoop (addr : Nat) (conn : WsConnection) (s : WsHandlers σ) : WsHandlers σ :=
  if conn.authenticated ∧ conn.challengeId ≠ "" then s.goTo addr (.closing conn) else s.finish addr

/-- `handle_ws_connection` from one `await` to the next -/
def handle (cfg : BrokerConfig F) (ws : WsConfig) (wenv : WsEnv F) (addr : Nat) (s : WsHandlers σ) :
    Phase → WsEvent σ → Option Response × WsHandlers σ
  | .waiting, .first none => (none, s.finish addr)
  | .waiting, .first (some text) =>
    if ws.jwtSecret.isSome then
      match authenticate wenv ws text with
      | .error msg => (some (authError (.unauthorized msg)), s.goTo addr .failing)
      | .ok claims => (none, s.goTo addr (.queued claims))
    else if ws.allowUnauthenticated then
      (some (.pong "unauthenticated" "auth"), s.goTo addr (.greeting (unauthenticated wenv text)))
    else (some (authError (.unauthorized "Authentication required")), s.goTo addr .failing)
  | .failing, .sent _ => (none, s.finish addr)
  | .queued claims, .lock =>
    if s.locked then (none, s)
    else if ws.maxConnectionsPerChallenge ≤ s.count claims.challengeId then
      (some (authError (.policyViolation "Too many connections")),
        { s.goTo addr .refusing with
          locked := true
          counts := s.counts.insert claims.challengeId (s.count claims.challengeId) })
    else
      (some (.pong "authenticated" "auth"),
        { s.goTo addr (.greeting ⟨claims.challengeId, claims.ownerId, true⟩) with
          counts := s.counts.insert claims.challengeId (s.count claims.challengeId + 1) })
  | .refusing, .sent _ => (none, { s.finish addr with locked := false })
  | .greeting conn, .sent true => (none, s.goTo addr (.reading conn))
  | .greeting _, .sent false => (none, s.finish addr)
  | .reading conn, .received (.text text env) =>
    let (response, b) := processRequest cfg wenv env text conn s.broker
    (some response, { s.goTo addr (.replying conn) with broker := b })
  | .reading conn, .received .ping => (none, s.goTo addr (.replying conn))
  | .reading _, .received .other => (none, s)
  | .reading conn, .received .finished => (none, leaveLoop addr conn s)
  | .replying conn, .sent true => (none, s.goTo addr (.reading conn))
  | .replying _, .sent false => (none, s.finish addr)
  | .closing conn, .lock =>
    if s.locked then (none, s)
    else
      (none, { s.finish addr with
        counts :=
          if conn.challengeId ∈ s.counts then
            s.counts.insert conn.challengeId (s.count conn.challengeId - 1)
          else s.counts })
  | _, _ => (none, s)

/-- where a handler starts; without a secret it may have to refuse everybody -/
def firstPhase (ws : WsConfig) : Phase :=
  if !ws.allowUnauthenticated && ws.jwtSecret.isNone then .failing else .waiting

def handlersNext (cfg : BrokerConfig F) (ws : WsConfig) (wenv : WsEnv F) (s : WsHandlers σ) :
    HandlerInput σ → Option Response × WsHandlers σ
  | .accept addr =>
    if addr ∈ s.handlers then (none, s) else (none, s.goTo addr (firstPhase ws))
  | .event addr event =>
    match s.handlers.lookup addr with
    | none => (none, s)
    | some phase => handle cfg ws wenv addr s phase event

abbrev HandlerCall (σ : Type) := Call (WsHandlers σ) (HandlerInput σ) (Option Response)

end

/-! ## handlers past the limit -/

/-- the connection of a handler that has passed the limit -/
def Phase.conn : Phase → Option WsConnection
  | greeting conn | reading conn | replying conn | closing conn => some conn
  | _ => none

def Phase.passed (challenge : String) (phase : Phase) : Bool :=
  phase.conn.any fun conn => conn.challengeId == challenge

section
variable {F σ : Type}

def WsHandlers.live (s : WsHandlers σ) (challenge : String) : Nat :=
  s.handlers.values.countP (Phase.passed challenge)

/-- The event ends the handler past the end of the function: a send has failed, or the challenge has
no name. -/
def Phase.abandons : Phase → WsEvent σ → Bool
  | greeting _, .sent false | replying _, .sent false => true
  | reading conn, .received .finished => conn.challengeId == ""
  | _, _ => false

variable (challenge : String)

def leaks (call : HandlerCall σ) : Bool :=
  match call.input with
  | .accept _ => false
  | .event addr event =>
    (call.before.handlers.lookup addr).any fun phase =>
      phase.passed challenge && phase.abandons event

/-- What holds of a handler when there is a secret. -/
def Phase.Sound : Phase → Prop
  | greeting conn | reading conn | replying conn => conn.authenticated = true
  | closing conn => conn.authenticated = true ∧ conn.challengeId ≠ ""
  | _ => True

def setPhase (addr : Nat) (handlers : HashMap Nat Phase) : Option Phase → HashMap Nat Phase
  | some phase => handlers.insert addr phase
  | none => handlers.erase addr

/-- what a handler adds to the count of a challenge -/
def passedBit (phase : Option Phase) : Nat :=
  (phase.any (Phase.passed challenge)).toNat

theorem live_setPhase {s s' : WsHandlers σ} {addr : Nat} {phase : Phase} {next : Option Phase}
    (hp : s.handlers.lookup addr = some phase)
    (hnx : s'.handlers = setPhase addr s.handlers next) (challenge : String) :
    s'.live challenge + passedBit challenge (some phase) =
      s.live challenge + passedBit challenge next := by
  have hbt : ∀ p : Phase, (if p.passed challenge = true then 1 else 0) =
      passedBit challenge (some p) := by
    intro p
    show _ = (p.passed challenge).toNat
    cases p.passed challenge
    · rfl
    · rfl
  have ho := (values_perm_erase hp).countP_eq (Phase.passed challenge)
  rw [List.countP_cons, hbt] at ho
  unfold WsHandlers.live
  rw [hnx]
  cases next with
  | none =>
    show (values (s.handlers.erase addr)).countP _ + _ = _ + 0
    omega
  | some q =>
    show (values (s.handlers.insert addr q)).countP _ + _ = _
    rw [values_insert, List.countP_cons, hbt]
    omega

theorem passedBit_le_live {s : WsHandlers σ} {addr : Nat} {phase : Phase}
    (hp : s.handlers.lookup addr = some phase) (challenge : String) :
    passedBit challenge (some phase) ≤ s.live challenge := by
  have hen : (s.finish addr).live challenge + passedBit challenge (some phase) =
      s.live challenge + passedBit challenge none := live_setPhase hp rfl challenge
  rw [show passedBit challenge none = 0 from rfl] at hen
  omega

theorem passedBit_of_conn {challenge : String} {phase phase' : Phase}
    (h : phase'.conn = phase.conn) :
    passedBit challenge (some phase') = passedBit challenge (some phase) := by
  show (phase'.passed challenge).toNat = (phase.passed challenge).toNat
  rw [Phase.passed, Phase.passed, h]

theorem getD_lookup_insert (m : HashMap String Nat) (key challenge : String) (n : Nat) :
    ((m.insert key n).lookup challenge).getD 0 =
      if key = challenge then n else (m.lookup challenge).getD 0 := by
  by_cases h : key = challenge
  · rw [if_pos h, h, AList.lookup_insert]
    rfl
  · rw [if_neg h, AList.lookup_insert_ne (Ne.symm h)]

theorem passedBit_some (phase : Phase) {conn : WsConnection} (h : phase.conn = some conn) :
    passedBit challenge (some phase) = if conn.challengeId = challenge then 1 else 0 := by
  show (phase.passed challenge).toNat = _
  rw [Phase.passed, h]
  show (conn.challengeId == challenge).toNat = _
  by_cases hc : conn.challengeId = challenge
  · simp [hc]
  · simp [hc]

theorem passedBit_eq_zero (phase : Phase) (h : phase.conn = none) :
    passedBit challenge (some phase) = 0 := by
  show (phase.passed challenge).toNat = 0
  rw [Phase.passed, h]
  rfl

/-! ## one step -/

structure Balance (s s' : WsHandlers σ) (addr : Nat) (phase : Phase) (event : WsEvent σ)
    (next : Option Phase) : Prop where
  handlers : s'.handlers = setPhase addr s.handlers next ∨
    s'.handlers = s.handlers ∧ next = some phase
  sound : ∀ q, next = some q → q.Sound
  counts : ∀ challenge, s'.count challenge + passedBit challenge (some phase) =
    s.count challenge + passedBit challenge next +
      (phase.passed challenge && phase.abandons event).toNat

variable {s s' : WsHandlers σ} {addr : Nat} {phase : Phase} {ev : WsEvent σ}
  {next : Option Phase}

theorem passed_eq_false {challenge : String} (h : phase.conn = none) :
    phase.passed challenge = false := by
  rw [Phase.passed, h]
  rfl

theorem Balance.idle (hsn : phase.Sound) (ha : phase.abandons ev = false) :
    Balance s s addr phase ev (some phase) where
  handlers := .inr ⟨rfl, rfl⟩
  sound q h := Option.some.inj h ▸ hsn
  counts challenge := by
    rw [ha, Bool.and_false]
    rfl

theorem Balance.goesOn {q : Phase} (hh : s'.handlers = s.handlers.insert addr q)
    (hcn : s'.counts = s.counts) (hsn : q.Sound) (hco : q.conn = phase.conn)
    (ha : phase.abandons ev = false) :
    Balance s s' addr phase ev (some q) where
  handlers := .inl hh
  sound q' h := Option.some.inj h ▸ hsn
  counts challenge := by
    rw [ha, Bool.and_false, passedBit_of_conn hco, WsHandlers.count, hcn]
    rfl

theorem Balance.endsUncounted (hh : s'.handlers = s.handlers.erase addr)
    (hcn : s'.counts = s.counts) (hco : phase.conn = none) :
    Balance s s' addr phase ev none where
  handlers := .inl hh
  sound q h := absurd h (Option.some_ne_none q).symm
  counts challenge := by
    rw [passed_eq_false hco, passedBit_eq_zero challenge phase hco, WsHandlers.count, hcn]
    rfl

theorem Balance.leaves (hh : s'.handlers = s.handlers.erase addr)
    (hcn : s'.counts = s.counts) (ha : phase.abandons ev = true) :
    Balance s s' addr phase ev none where
  handlers := .inl hh
  sound q h := absurd h (Option.some_ne_none q).symm
  counts challenge := by
    rw [ha, Bool.and_true, WsHandlers.count, hcn]
    rfl

theorem balance_leaveLoop {conn : WsConnection} (ha : conn.authenticated = true) :
    ∃ next, Balance s (leaveLoop addr conn s) addr (.reading conn) (.received .finished) next := by
  unfold leaveLoop
  by_cases hnm : conn.challengeId = ""
  · rw [if_neg fun h => h.2 hnm]
    exact ⟨none, .leaves rfl rfl (beq_iff_eq.mpr hnm)⟩
  · rw [if_pos ⟨ha, hnm⟩]
    exact ⟨_, .goesOn rfl rfl ⟨ha, hnm⟩ rfl (beq_eq_false_iff_ne.mpr hnm)⟩

theorem balance_closing {conn : WsConnection}
    (hcn : passedBit conn.challengeId (some (.closing conn)) ≤ s.count conn.challengeId)
    (hh : s'.handlers = s.handlers.erase addr)
    (hct : s'.counts = if conn.challengeId ∈ s.counts then
      s.counts.insert conn.challengeId (s.count conn.challengeId - 1) else s.counts) :
    Balance s s' addr (.closing conn) .lock none where
  handlers := .inl hh
  sound q h := absurd h (Option.some_ne_none q).symm
  counts challenge := by
    have hp : 1 ≤ s.count conn.challengeId := by
      rwa [passedBit_some _ _ rfl, if_pos rfl] at hcn
    have hth : conn.challengeId ∈ s.counts := by
      by_contra hnone
      rw [WsHandlers.count, AList.lookup_eq_none.mpr hnone] at hp
      exact absurd hp (by decide)
    rw [if_pos hth] at hct
    have hcn' : s'.count challenge =
        if conn.challengeId = challenge then s.count conn.challengeId - 1
        else s.count challenge := by
      rw [WsHandlers.count, hct, getD_lookup_insert]
      rfl
    rw [hcn', passedBit_some challenge (.closing conn) rfl]
    show _ = s.count challenge + 0 + (Phase.passed challenge (.closing conn) && false).toNat
    rw [Bool.and_false]
    by_cases hc : conn.challengeId = challenge
    · subst hc
      rw [if_pos rfl, if_pos rfl]
      show _ = _ + 0 + 0
      omega
    · rw [if_neg hc, if_neg hc]
      rfl

variable [Float64 F] {cfg : BrokerConfig F} {ws : WsConfig} {wenv : WsEnv F}

theorem balance_queued {claims : WsClaims} :
    ∃ next, Balance s (handle cfg ws wenv addr s (.queued claims) .lock).2 addr (.queued claims)
      .lock next := by
  rw [handle]
  split
  · exact ⟨_, .idle trivial rfl⟩
  · split
    · refine ⟨some .refusing, .inl rfl, fun q h => Option.some.inj h ▸ trivial, ?_⟩
      intro challenge
      show ((s.counts.insert _ _).lookup challenge).getD 0 + 0 = s.count challenge + 0 + 0
      rw [getD_lookup_insert]
      split
      · next hc =>
        rw [hc]
      · rfl
    · refine ⟨some (.greeting ⟨claims.challengeId, claims.ownerId, true⟩), .inl rfl,
        fun q h => Option.some.inj h ▸ rfl, ?_⟩
      intro challenge
      rw [passedBit_some challenge (.greeting _) rfl]
      show ((s.counts.insert _ _).lookup challenge).getD 0 + 0 = s.count challenge + _ + 0
      rw [getD_lookup_insert]
      split
      · next hc =>
        rw [← hc]
      · rfl

/-- **What an event does**, when there is a secret: the handler adds to its count when it passes the
limit and takes off when it ends, unless it leaves the count behind. -/
theorem event_balance (cfg : BrokerConfig F) (wenv : WsEnv F) (addr : Nat) (ev : WsEvent σ)
    (hsc : ws.jwtSecret.isSome) (hsn : phase.Sound)
    (hcn : ∀ challenge, passedBit challenge (some phase) ≤ s.count challenge) :
    ∃ next, Balance s (handle cfg ws wenv addr s phase ev).2 addr phase ev next := by
  cases phase with
  | waiting =>
    cases ev with
    | first text =>
      cases text with
      | none => exact ⟨none, .endsUncounted rfl rfl rfl⟩
      | some text =>
        rw [handle, if_pos hsc]
        split
        · exact ⟨_, .goesOn rfl rfl trivial rfl rfl⟩
        · exact ⟨_, .goesOn rfl rfl trivial rfl rfl⟩
    | lock | sent ok | received msg => exact ⟨_, .idle trivial rfl⟩
  | failing | refusing =>
    cases ev with
    | sent ok => exact ⟨none, .endsUncounted rfl rfl rfl⟩
    | first text | lock | received msg => exact ⟨_, .idle trivial rfl⟩
  | queued claims =>
    cases ev with
    | lock => exact balance_queued
    | first text | sent ok | received msg => exact ⟨_, .idle trivial rfl⟩
  | greeting conn | replying conn =>
    cases ev with
    | sent ok =>
      cases ok with
      | true => exact ⟨_, .goesOn rfl rfl hsn rfl rfl⟩
      | false => exact ⟨none, .leaves rfl rfl rfl⟩
    | first text | lock | received msg => exact ⟨_, .idle hsn rfl⟩
  | reading conn =>
    cases ev with
    | received msg =>
      cases msg with
      | text text env => exact ⟨some (.replying conn), .goesOn rfl rfl hsn rfl rfl⟩
      | ping => exact ⟨_, .goesOn rfl rfl hsn rfl rfl⟩
      | other => exact ⟨_, .idle hsn rfl⟩
      | finished => exact balance_leaveLoop hsn
    | first text | lock | sent ok => exact ⟨_, .idle hsn rfl⟩
  | closing conn =>
    cases ev with
    | lock =>
      rw [handle]
      split
      · exact ⟨_, .idle hsn rfl⟩
      · exact ⟨none, balance_closing (hcn _) rfl rfl⟩
    | first text | sent ok | received msg => exact ⟨_, .idle hsn rfl⟩

/-! ## runs -/

structure Counted (l : List (HandlerCall σ)) (s : WsHandlers σ) : Prop where
  sound : ∀ addr phase, s.handlers.lookup addr = some phase → phase.Sound
  count : ∀ challenge, s.count challenge = s.live challenge + l.countP (leaks challenge)

variable {s₀ : WsHandlers σ} {log : List (HandlerCall σ)} {call : HandlerCall σ}

theorem countP_leaks_snoc :
    (log ++ [call]).countP (leaks challenge) =
      log.countP (leaks challenge) + (leaks challenge call).toNat := by
  rw [List.countP_append, List.countP_singleton]
  cases leaks challenge call
  · rfl
  · rfl

theorem Counted.same (h : Counted log s) (hh : s'.handlers = s.handlers)
    (hcn : s'.counts = s.counts) (hlk : ∀ challenge, leaks challenge call = false) :
    Counted (log ++ [call]) s' where
  sound addr phase hphase := h.sound addr phase (hh ▸ hphase)
  count challenge := by
    rw [countP_leaks_snoc, hlk, WsHandlers.count, hcn, WsHandlers.live, hh]
    exact h.count challenge

theorem Counted.accept (h : Counted log s) {first : Phase} (hn : addr ∉ s.handlers)
    (hfr : first.conn = none) (hsn : first.Sound)
    (hlk : ∀ challenge, leaks challenge call = false) :
    Counted (log ++ [call]) (s.goTo addr first) where
  sound addr' phase hphase := by
    rcases (lookup_insert_iff _ _ _ _ _).mp hphase with ⟨-, rfl⟩ | ⟨-, ho⟩
    · exact hsn
    · exact h.sound addr' phase ho
  count challenge := by
    have hlv : (s.goTo addr first).live challenge = s.live challenge := by
      show (values (s.handlers.insert addr first)).countP _ = _
      rw [values_insert, erase_of_lookup_none (AList.lookup_eq_none.mpr hn),
        List.countP_cons, passed_eq_false hfr]
      rfl
    rw [countP_leaks_snoc, hlk, hlv]
    exact h.count challenge

theorem Counted.handled (h : Counted log s) (hp : s.handlers.lookup addr = some phase)
    (hlk : ∀ challenge, leaks challenge call = (phase.passed challenge && phase.abandons ev))
    (hbl : Balance s s' addr phase ev next) : Counted (log ++ [call]) s' where
  sound addr' phase' hphase' := by
    rcases hbl.handlers with hse | ⟨hs, -⟩
    · rw [hse] at hphase'
      cases next with
      | none => exact h.sound addr' phase' ((lookup_erase_iff _ _ _ _).mp hphase').2
      | some q =>
        rcases (lookup_insert_iff _ _ _ _ _).mp hphase' with ⟨-, rfl⟩ | ⟨-, ho⟩
        · exact hbl.sound phase' rfl
        · exact h.sound addr' phase' ho
    · exact h.sound addr' phase' (hs ▸ hphase')
  count challenge := by
    have hlv : s'.live challenge + passedBit challenge (some phase) =
        s.live challenge + passedBit challenge next := by
      rcases hbl.handlers with hse | ⟨hs, rfl⟩
      · exact live_setPhase hp hse challenge
      · rw [WsHandlers.live, hs]
        rfl
    have hcn := hbl.counts challenge
    have ho := h.count challenge
    rw [countP_leaks_snoc, hlk]
    omega

theorem counted_step (hsc : ws.jwtSecret.isSome) (h : Counted log s)
    (hstep : CallStep (handlersNext cfg ws wenv) s call s') : Counted (log ++ [call]) s' := by
  have ha := hstep.after_eq
  have hbf := hstep.1
  cases hip : call.input with
  | accept addr =>
    have hlk : ∀ challenge, leaks challenge call = false := by
      intro challenge
      rw [leaks, hip]
    rw [hip, handlersNext] at ha
    split at ha
    · exact h.same (congrArg _ ha) (congrArg _ ha) hlk
    · next hn =>
      have hfr : firstPhase ws = .waiting := by
        rw [firstPhase]
        simp [Option.isNone_eq_false_iff.mpr hsc]
      rw [ha]
      refine h.accept hn ?_ ?_ hlk
      · rw [hfr]
        rfl
      · rw [hfr]
        trivial
  | event addr event =>
    rw [hip, handlersNext] at ha
    split at ha
    · next hnn =>
      refine h.same (congrArg _ ha) (congrArg _ ha) ?_
      intro challenge
      rw [leaks, hip, hbf]
      show (s.handlers.lookup addr).any _ = false
      rw [hnn]
      rfl
    · next phase hp =>
      have hcn : ∀ challenge, passedBit challenge (some phase) ≤ s.count challenge := by
        intro challenge
        have hlv := passedBit_le_live hp challenge
        have ho := h.count challenge
        omega
      obtain ⟨next, hbl⟩ := event_balance cfg wenv addr event hsc (h.sound addr phase hp) hcn
      rw [← ha] at hbl
      refine h.handled hp ?_ hbl
      intro challenge
      rw [leaks, hip, hbf]
      show (s.handlers.lookup addr).any _ = _
      rw [hp]
      rfl

/-- **The count of a challenge**: its handlers past the limit, and those that left it behind. -/
theorem count_eq (hrun : MachineRun (handlersNext cfg ws wenv) s₀ log s)
    (hsc : ws.jwtSecret.isSome) (hh : s₀.handlers = ∅) (hcn : s₀.counts = ∅)
    (challenge : String) :
    s.count challenge = s.live challenge + log.countP (leaks challenge) := by
  have hct : Counted log s := by
    refine Run.logInvariant ⟨?_, ?_⟩ ?_ hrun
    · intro addr phase hp
      rw [hh] at hp
      cases hp
    · intro challenge
      rw [WsHandlers.count, hcn, WsHandlers.live, hh]
      rfl
    · intro l s call s' _ hl hstep
      exact counted_step hsc hl hstep
  exact hct.count challenge

/-- **Connection counts are exact** when there is a secret and no handler leaves its count behind,
and only then; a challenge whose connections have all ended then has a count of zero, and its next
connection is admitted as soon as the lock is free. -/
theorem connection_counts_iff (hrun : MachineRun (handlersNext cfg ws wenv) s₀ log s)
    (hsecret : ws.jwtSecret.isSome) (hhandlers : s₀.handlers = ∅) (hcounts : s₀.counts = ∅) :
    ((∀ challenge, s.count challenge = s.live challenge) ↔
        ∀ call ∈ log, ∀ challenge, leaks challenge call = false) ∧
      ∀ challenge, (∀ call ∈ log, leaks challenge call = false) → s.live challenge = 0 →
        s.count challenge = 0 ∧
          ∀ addr claims, claims.challengeId = challenge → 0 < ws.maxConnectionsPerChallenge →
            s.locked = false →
            (handle cfg ws wenv addr s (.queued claims) .lock).2.handlers.lookup addr =
              some (.greeting ⟨claims.challengeId, claims.ownerId, true⟩) := by
  have hcn := count_eq hrun hsecret hhandlers hcounts
  have hz : ∀ challenge, log.countP (leaks challenge) = 0 ↔
      ∀ call ∈ log, leaks challenge call = false := by
    intro challenge
    rw [List.countP_eq_zero]
    simp only [Bool.not_eq_true]
  constructor
  · constructor
    · intro hex call hcl challenge
      have hcl' := hcn challenge
      rw [hex challenge] at hcl'
      exact (hz challenge).mp (by omega) call hcl
    · intro hlk challenge
      have hn := (hz challenge).mpr fun call hcl => hlk call hcl challenge
      rw [hcn challenge, hn]
      rfl
  · intro challenge hlk hlv
    have hn := (hz challenge).mpr hlk
    have hcn0 : s.count challenge = 0 := by
      rw [hcn challenge, hlv, hn]
    refine ⟨hcn0, ?_⟩
    rintro addr claims rfl hm hlc
    rw [handle, hlc, if_neg Bool.false_ne_true, if_neg (by omega)]
    exact AList.lookup_insert _

end

/-! ## a challenge with room for one connection -/

def oneConnection : WsConfig := ⟨some "secret", false, [], 1⟩

def handlersRun (inputs : List (HandlerInput Nat)) : List (HandlerCall Nat) × WsHandlers Nat :=
  trace (handlersNext strictBroker oneConnection plainWsEnv) ⟨.empty, ∅, false, ∅⟩ inputs

/-- a connection of the challenge `a` is authenticated and counted -/
def connectA (addr : Nat) : List (HandlerInput Nat) :=
  [.accept addr, .event addr (.first (some "a")), .event addr .lock]

def closedInputs : List (HandlerInput Nat) :=
  connectA 0 ++ [.event 0 (.sent true), .event 0 (.received .ping), .event 0 (.sent true),
    .event 0 (.received .finished), .event 0 .lock]

theorem closed_connection_counted :
    (handlersRun (connectA 0)).2.count "a" = 1 ∧ (handlersRun closedInputs).2.count "a" = 0 := by
  have hcn := connection_counts_iff
    (machineRun_trace (handlersNext strictBroker oneConnection plainWsEnv) ⟨.empty, ∅, false, ∅⟩
      closedInputs) rfl rfl rfl
  exact ⟨by decide +kernel, (hcn.2 "a" (by decide +kernel) (by decide +kernel)).1⟩

/-- The greeting cannot be sent: the handler ends, its count stays, and the next connection of the
challenge is refused. -/
theorem failed_greeting_leaks :
    (handlersRun (connectA 0 ++ [.event 0 (.sent false)])).2.count "a" = 1 ∧
      (handlersRun (connectA 0 ++ [.event 0 (.sent false)])).2.live "a" = 0 ∧
      ((handlersRun (connectA 0 ++ [.event 0 (.sent false)] ++ connectA 1)).1.map Call.out)[6]? =
        some (some (authError (.policyViolation "Too many connections"))) := by
  exact ⟨by decide +kernel, by decide +kernel, rfl⟩

end Platform.Container

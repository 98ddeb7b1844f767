import Platform.Container.Reach
import Platform.Container.Transport

/-!
# Connections and the containers they reach

A connection acts for the challenge of its token, and a container belongs to the challenge that its
label names.  The transport compares challenges only for requests that carry one, which are those
that create or list containers; all others name a container, whoever it belongs to.
-/

namespace Platform.Container
open Platform.Core Lib List

section
variable {F σ : Type} {env : DockerEnv σ} {b : Broker σ} {d : Docker σ} {ref : String}
  {kind : AccessKind}

/-! ## whose containers are reached -/

def Own (d : Docker σ) (challenge id : String) : Prop :=
  ∀ c, d.containers.lookup id = some c →
    ∀ other, c.labels.lookup Labels.challengeId = some other → other = challenge

/-- the containers that a call has reached -/
def newAccesses (c : WsCall σ) : List Access :=
  c.after.broker.docker.journal.drop c.before.broker.docker.journal.length

structure KeepsTo (challenge : String) (c : WsCall σ) : Prop where
  reached : ∀ a ∈ newAccesses c, Own c.before.broker.docker challenge a.container
  unchanged : ∀ id ∈ c.before.broker.docker.containers, ¬ Own c.before.broker.docker challenge id →
    c.after.broker.docker.containers.lookup id = c.before.broker.docker.containers.lookup id

def Isolated (log : List (WsCall σ)) : Prop :=
  ∀ c ∈ log, ∀ addr text env, c.input = .message addr text env →
    ∀ conn, c.before.connections.lookup addr = some conn → KeepsTo conn.challengeId c

structure StaysOwn (env : DockerEnv σ) (d : Docker σ) (challenge : String) (request : Request F) :
    Prop where
  target : ∀ kind ref id, request.target env = some (kind, ref) →
    env.find d.containers ref = some id → Own d challenge id
  list : ∀ challengeId ownerId requestId, request = .list challengeId ownerId requestId →
    env.listError = none → challengeId = none ∨ challengeId = some challenge →
    ∀ id c, d.containers.lookup id = some c → matchesFilters challengeId ownerId c = true →
      (challengeId = none → Own d challenge id) ∧
        ∀ id', env.find d.containers (shortId id) = some id' → Own d challenge id'

def Refused (challenge : String) (request : Request F) : Prop :=
  ∃ requested ∈ request.challengeId, challenge ≠ "" ∧ requested ≠ challenge

theorem own_iff_of_label {challenge other id : String}
    (h : (d.containers.lookup id).map (fun c => c.labels.lookup Labels.challengeId) =
      some (some other)) : Own d challenge id ↔ other = challenge := by
  obtain ⟨c, hc, hlb⟩ := Option.map_eq_some_iff.mp h
  constructor
  · intro ho
    exact ho c hc other hlb
  · rintro rfl c' hc' other' hoh'
    rw [hc] at hc'
    cases hc'
    rw [hlb] at hoh'
    exact (Option.some.inj hoh').symm

theorem own_refAccesses_iff {ch : String} :
    (∀ a ∈ refAccesses env d kind ref, Own d ch a.container) ↔
      ∀ id, env.find d.containers ref = some id → Own d ch id := by
  constructor
  · intro h id hid
    exact h ⟨id, kind⟩ (mem_refAccesses.mpr ⟨hid, rfl⟩)
  · intro h a ha
    exact h _ (mem_refAccesses.mp ha).1

theorem own_listAccesses_iff {ch : String} {cid oid : Option String}
    (hch : cid = none ∨ cid = some ch) :
    (∀ a ∈ listAccesses env d (listedIds cid oid d), Own d ch a.container) ↔
      ∀ id c, d.containers.lookup id = some c → matchesFilters cid oid c = true →
        (cid = none → Own d ch id) ∧
          ∀ id', env.find d.containers (shortId id) = some id' → Own d ch id' := by
  constructor
  · intro h id c hc hm
    have hid := mem_listedIds.mpr ⟨c, hc, hm⟩
    refine ⟨fun _ => h ⟨id, .list⟩ (mem_append_left _ (mem_map_of_mem hid)), ?_⟩
    intro id' hid'
    refine h ⟨id', .inspect⟩ (mem_append_right _ ?_)
    exact mem_flatMap.mpr ⟨id, hid, mem_refAccesses.mpr ⟨hid', rfl⟩⟩
  · intro h a ha
    rcases mem_append.mp ha with ha | ha
    · obtain ⟨id, hid, rfl⟩ := mem_map.mp ha
      obtain ⟨c, hc, hm⟩ := mem_listedIds.mp hid
      rcases hch with hnone | hsm
      · exact (h id c hc hm).1 hnone
      · intro c' hc' other hoh
        rw [hc] at hc'
        cases hc'
        rw [hsm, matchesFilters] at hm
        simp only [Bool.and_eq_true, hasLabel, decide_eq_true_eq] at hm
        rw [hm.1.2] at hoh
        cases hoh
        rfl
    · obtain ⟨id, hid, ha⟩ := mem_flatMap.mp ha
      obtain ⟨c, hc, hm⟩ := mem_listedIds.mp hid
      exact own_refAccesses_iff.mpr (h id c hc hm).2 a ha

theorem accesses_of_not_list {request : Request F} (h : ∀ c o r, request ≠ .list c o r) :
    accesses env d request =
      match request.target env with
      | some (kind, ref) => refAccesses env d kind ref
      | none => [] := by
  cases request with
  | list cid oid rid => exact absurd rfl (h _ _ _)
  | _ => rfl

theorem staysOwn_of_target_none {ch : String} {request : Request F}
    (htr : request.target env = none)
    (hls : ∀ cid oid rid, request = .list cid oid rid → cid ≠ none ∧ cid ≠ some ch) :
    StaysOwn env d ch request := by
  refine ⟨?_, ?_⟩
  · intro kind ref id h
    rw [htr] at h
    cases h
  · intro cid oid rid heq _ hs
    obtain ⟨hn, hsm⟩ := hls _ _ _ heq
    exact absurd hs (not_or.mpr ⟨hn, hsm⟩)

theorem own_accesses_iff {challenge : String} {request : Request F} (hch : challenge ≠ "")
    (hac : ¬ Refused challenge request) :
    (∀ a ∈ accesses env d request, Own d challenge a.container) ↔
      StaysOwn env d challenge request := by
  by_cases hls : ∃ c o r, request = .list c o r
  · obtain ⟨cid, oid, rid, rfl⟩ := hls
    have hs : cid = none ∨ cid = some challenge := by
      cases cid with
      | none => exact .inl rfl
      | some rq =>
        refine .inr (congrArg some ?_)
        by_contra hne
        exact hac ⟨rq, rfl, hch, hne⟩
    have htr : ∀ kind ref id,
        (Request.list cid oid rid : Request F).target env = some (kind, ref) →
        env.find d.containers ref = some id → Own d challenge id :=
      fun _ _ _ h => absurd h.symm (Option.some_ne_none _)
    unfold accesses
    cases her : env.listError with
    | some err =>
      refine iff_of_true (fun a ha => absurd ha not_mem_nil) ⟨htr, ?_⟩
      intro _ _ _ _ hn
      rw [her] at hn
      cases hn
    | none =>
      refine (own_listAccesses_iff hs).trans ⟨fun h => ⟨htr, ?_⟩, ?_⟩
      · intro _ _ _ heq _ _
        cases heq
        exact h
      · exact fun h => h.list _ _ _ rfl her hs
  · have hne : ∀ c o r, request ≠ .list c o r := fun c o r heq => hls ⟨c, o, r, heq⟩
    rw [accesses_of_not_list hne]
    cases htr : request.target env with
    | none =>
      refine iff_of_true (fun a ha => absurd ha not_mem_nil) ?_
      exact staysOwn_of_target_none htr fun c o r heq => absurd heq (hne c o r)
    | some tgt =>
      refine own_refAccesses_iff.trans ⟨fun h => ⟨?_, ?_⟩, ?_⟩
      · intro kind ref id heq
        rw [htr] at heq
        cases heq
        exact h id
      · exact fun c o r heq => absurd heq (hne c o r)
      · exact fun h id => h.target _ _ id htr

theorem staysOwn_create {ch rid : String} {cfg : ContainerConfig F} :
    StaysOwn env d ch (.create cfg rid) := by
  refine staysOwn_of_target_none rfl fun _ _ _ h => ?_
  cases h

theorem staysOwn_of_refused {ch : String} {request : Request F}
    (h : Refused ch request) : StaysOwn env d ch request := by
  obtain ⟨rq, hrq, -, hne⟩ := h
  have htr : request.target env = none := by
    cases request with
    | create | list => rfl
    | _ => cases hrq
  refine staysOwn_of_target_none htr ?_
  intro cid oid rid heq
  subst heq
  cases hrq
  exact ⟨Option.some_ne_none _, fun h => hne (Option.some.inj h)⟩

theorem keepsTo_iff_of_reaches {ch : String} {c : WsCall σ} {reached : List Access}
    {created : String → DockerContainer σ → Prop}
    (h : Reaches c.before.broker reached created c.after.broker) :
    KeepsTo ch c ↔ ∀ a ∈ reached, Own c.before.broker.docker ch a.container := by
  have hn : newAccesses c = reached := by
    unfold newAccesses
    rw [h.journal, drop_left]
  constructor
  · intro hk a ha
    exact hk.reached a (by rwa [hn])
  · intro ho
    refine ⟨by rwa [hn], fun id hid hoh => h.containers.frame hid fun a ha heq => hoh ?_⟩
    rw [← heq]
    exact ho a ha

/-! ## the connections -/

variable {ws : WsConfig} {wenv : WsEnv F} {s₀ s s' : WsServer σ} {log : List (WsCall σ)}
  {cfg : BrokerConfig F} {request : Request F}

theorem authenticate_claims {text : String} {claims : WsClaims}
    (h : authenticate wenv ws text = .ok claims) :
    ∃ sec tok, wenv.decodeJwt sec tok = .ok claims := by
  unfold authenticate at h
  cases htk : wenv.decodeAuth text with
  | error msg =>
    rw [htk] at h
    cases h
  | ok tok =>
    rw [htk] at h
    cases hsc : ws.jwtSecret with
    | none =>
      rw [hsc] at h
      cases h
    | some sec =>
      rw [hsc] at h
      change (wenv.decodeJwt sec tok).bind _ = _ at h
      refine ⟨sec, tok, ?_⟩
      cases hr : wenv.decodeJwt sec tok with
      | error msg =>
        rw [hr] at h
        cases h
      | ok read =>
        rw [hr, Except.bind] at h
        split at h
        · cases h
        · cases h
          rfl

theorem broker_openConnection (addr : Nat) (first : Option String) (s : WsServer σ) :
    (openConnection wenv ws addr first s).2.broker = s.broker := by
  unfold openConnection
  split
  · rfl
  · split
    · rfl
    · split
      · rfl
      · split
        · split
          · rfl
          · dsimp only
            split
            · rfl
            · rfl
        · split
          · rfl
          · rfl

variable [Float64 F]

theorem wsNext_named (hsc : ws.jwtSecret.isSome)
    (hcl : ∀ sec tok claims, wenv.decodeJwt sec tok = .ok claims → claims.challengeId ≠ "")
    (hnm : ∀ addr conn, s.connections.lookup addr = some conn → conn.challengeId ≠ "")
    (inp : WsInput σ) :
    ∀ addr conn, (wsNext cfg ws wenv s inp).2.connections.lookup addr = some conn →
      conn.challengeId ≠ "" := by
  cases inp with
  | connect addr first =>
    rw [wsNext]
    unfold openConnection
    rw [hsc]
    split
    · exact hnm
    · split
      · exact hnm
      · split
        · exact hnm
        · dsimp only
          rw [if_pos rfl]
          split
          · exact hnm
          · next claims ha =>
            obtain ⟨sec, tok, hdc⟩ := authenticate_claims ha
            split
            · exact hnm
            · intro addr' conn hcn
              rcases (HashMap.lookup_insert_iff _ _ _ _ _).mp hcn with ⟨_, rfl⟩ | ⟨_, hcn⟩
              · exact hcl sec tok claims hdc
              · exact hnm addr' conn hcn
  | message addr text env =>
    rw [wsNext]
    split
    · exact hnm
    · exact hnm
  | close addr =>
    rw [wsNext, closeConnection]
    split
    · exact hnm
    · intro addr' conn hcn
      exact hnm addr' conn ((HashMap.lookup_erase_iff _ _ _ _).mp hcn).2

/-! ## runs -/

theorem processRequest_cases (cfg : BrokerConfig F) (wenv : WsEnv F) (env : DockerEnv σ)
    (text : String) (conn : WsConnection) (b : Broker σ) :
    ((processRequest cfg wenv env text conn b).2 = b ∧
        ∀ request, wenv.decodeRequest text = .ok request → Refused conn.challengeId request) ∨
      ∃ request, wenv.decodeRequest text = .ok request ∧ ¬ Refused conn.challengeId request ∧
        (processRequest cfg wenv env text conn b).2 = (handleRequest cfg env request b).2 := by
  unfold processRequest
  cases hdc : wenv.decodeRequest text with
  | error msg =>
    refine .inl ⟨rfl, fun request h => ?_⟩
    cases h
  | ok request =>
    by_cases hrf : Refused conn.challengeId request
    · refine .inl ⟨?_, fun req' h => ?_⟩
      · obtain ⟨rq, hrq, ha⟩ := hrf
        dsimp only
        rw [show request.challengeId = some rq from hrq]
        dsimp only
        rw [if_pos ha]
      · cases h
        exact hrf
    · refine .inr ⟨request, rfl, hrf, ?_⟩
      dsimp only
      split
      · rfl
      · next rq hrq =>
        rw [if_neg fun ha => hrf ⟨rq, hrq, ha⟩]

theorem keepsTo_iff {c : WsCall σ} {addr : Nat} {text : String} {conn : WsConnection}
    (hstep : CallStep (wsNext cfg ws wenv) s c s') (hip : c.input = .message addr text env)
    (hcn : s.connections.lookup addr = some conn) (hch : conn.challengeId ≠ "") :
    KeepsTo conn.challengeId c ↔ ∀ request, wenv.decodeRequest text = .ok request →
      StaysOwn env s.broker.docker conn.challengeId request := by
  have hbf : c.before = s := hstep.1
  have haf : c.after.broker = (processRequest cfg wenv env text conn s.broker).2 := by
    rw [hstep.2.1, hstep.after_eq, hip, wsNext, hcn]
    rfl
  rcases processRequest_cases cfg wenv env text conn s.broker with ⟨h, hrf⟩ | ⟨request, hdc, hac, h⟩
  · have hrc : Reaches c.before.broker [] (fun _ _ => False) c.after.broker := by
      rw [haf, h, hbf]
      exact .nothing _
    refine iff_of_true ((keepsTo_iff_of_reaches hrc).mpr fun a ha => ?_) fun request hdc => ?_
    · cases ha
    · exact staysOwn_of_refused (hrf request hdc)
  · have hrc : Reaches c.before.broker (accesses env s.broker.docker request)
        (request.Creates cfg env s.broker) c.after.broker := by
      rw [haf, h, hbf]
      exact reaches_handleRequest
    rw [keepsTo_iff_of_reaches hrc, hbf, own_accesses_iff hch hac]
    constructor
    · intro ho req' hdc'
      rw [hdc] at hdc'
      cases hdc'
      exact ho
    · exact fun ho => ho request hdc

theorem broker_wsNext_cases (cfg : BrokerConfig F) (ws : WsConfig) (wenv : WsEnv F)
    (s : WsServer σ) (inp : WsInput σ) :
    (wsNext cfg ws wenv s inp).2.broker = s.broker ∨
      ∃ addr text env request, inp = .message addr text env ∧
        wenv.decodeRequest text = .ok request ∧
        (wsNext cfg ws wenv s inp).2.broker = (handleRequest cfg env request s.broker).2 := by
  cases inp with
  | connect addr first => exact .inl (broker_openConnection addr first s)
  | message addr text env =>
    rw [wsNext]
    split
    · exact .inl rfl
    · next conn _ =>
      rcases processRequest_cases cfg wenv env text conn s.broker with ⟨h, -⟩ | ⟨request, hdc, -, h⟩
      · exact .inl h
      · exact .inr ⟨addr, text, env, request, rfl, hdc, h⟩
  | close addr =>
    left
    rw [wsNext, closeConnection]
    split
    · rfl
    · rfl

def CreatesFor (wenv : WsEnv F) (c : WsCall σ) (id challenge : String) : Prop :=
  ∃ addr text env config requestId, c.input = .message addr text env ∧
    wenv.decodeRequest text = .ok (.create config requestId) ∧ config.challengeId = challenge ∧
    id ∉ c.before.broker.docker.containers ∧ id ∈ c.after.broker.docker.containers

/-- **The label of a container** is the challenge of the request that created it. -/
theorem created_for (hrun : MachineRun (wsNext cfg ws wenv) s₀ log s)
    (hem : s₀.broker.docker.containers = ∅) {id : String} {c : DockerContainer σ}
    (hc : s.broker.docker.containers.lookup id = some c) :
    ∃ call ∈ log, ∃ challenge, CreatesFor wenv call id challenge ∧
      c.labels.lookup Labels.challengeId = some challenge := by
  refine Run.logInvariant (P := fun l (s : WsServer σ) => ∀ id c,
    s.broker.docker.containers.lookup id = some c → ∃ call ∈ l, ∃ challenge,
      CreatesFor wenv call id challenge ∧ c.labels.lookup Labels.challengeId = some challenge)
    ?_ ?_ hrun id c hc
  · intro id c hc
    rw [hem] at hc
    cases hc
  · intro l s call s' _ ih hstep id c hc
    have ho : ∀ c', s.broker.docker.containers.lookup id = some c' → c'.labels = c.labels →
        ∃ call' ∈ l ++ [call], ∃ challenge, CreatesFor wenv call' id challenge ∧
          c.labels.lookup Labels.challengeId = some challenge := by
      intro c' hc' hlb
      obtain ⟨call', hcl', challenge, hf, hll⟩ := ih id c' hc'
      exact ⟨call', mem_append_left _ hcl', challenge, hf, hlb ▸ hll⟩
    have ha := hstep.after_eq
    rcases broker_wsNext_cases cfg ws wenv s call.input with
      hsame | ⟨addr, text, env, request, hip, hdc, hh⟩
    · rw [ha, hsame] at hc
      exact ho c hc rfl
    · rw [ha, hh] at hc
      rcases reaches_handleRequest.containers.kept_or_created hc with
        ⟨c', hc', heq⟩ | ⟨hnew, config, requestId, rfl, hcr⟩
      · refine ho c' hc' ?_
        rw [heq]
      · refine ⟨call, by simp, config.challengeId, ?_, ?_⟩
        · refine ⟨addr, text, env, config, requestId, hip, hdc, rfl, ?_, ?_⟩
          · rwa [hstep.1]
          · rw [hstep.2.1, ha, hh]
            exact AList.lookup_isSome.mp (by rw [hc]; rfl)
        · rw [(dockerCreate_ok hcr.created).2.2, lookup_containerLabels]

/-- **Isolation**: with a secret, and tokens that name a challenge, a run keeps to the containers of
the challenge of each connection exactly when every request does so by itself. -/
theorem isolated_iff (hrun : MachineRun (wsNext cfg ws wenv) s₀ log s)
    (hsecret : ws.jwtSecret.isSome) (hempty : s₀.connections = ∅)
    (hclaims : ∀ secret token claims, wenv.decodeJwt secret token = .ok claims →
      claims.challengeId ≠ "") :
    Isolated log ↔
      ∀ c ∈ log, ∀ addr text env, c.input = .message addr text env →
        ∀ conn, c.before.connections.lookup addr = some conn →
          ∀ request, wenv.decodeRequest text = .ok request →
            StaysOwn env c.before.broker.docker conn.challengeId request := by
  have hnm : ∀ {l : List (WsCall σ)} {s : WsServer σ}, MachineRun (wsNext cfg ws wenv) s₀ l s →
      ∀ addr conn, s.connections.lookup addr = some conn → conn.challengeId ≠ "" := by
    intro l s hrun
    refine Run.invariant (P := fun s => ∀ addr conn, s.connections.lookup addr = some conn →
      conn.challengeId ≠ "") ?_ (fun s c s' hs hstep => ?_) hrun
    · rw [hempty]
      exact fun _ _ h => absurd h.symm (Option.some_ne_none _)
    · rw [hstep.after_eq]
      exact wsNext_named hsecret hclaims hs c.input
  have hcl : ∀ c ∈ log, ∀ addr text env, c.input = .message addr text env →
      ∀ conn, c.before.connections.lookup addr = some conn →
        (KeepsTo conn.challengeId c ↔ ∀ request, wenv.decodeRequest text = .ok request →
          StaysOwn env c.before.broker.docker conn.challengeId request) := by
    intro c hc addr text env hip conn hcn
    obtain ⟨l₁, l₂, s₁, s₂, -, hrun₁, hstep, -⟩ := Run.mem_split hrun hc
    rw [hstep.1] at hcn ⊢
    exact keepsTo_iff hstep hip hcn (hnm hrun₁ addr conn hcn)
  constructor
  · intro h c hc addr text env hip conn hcn
    exact (hcl c hc addr text env hip conn hcn).mp (h c hc addr text env hip conn hcn)
  · intro h c hc addr text env hip conn hcn
    exact (hcl c hc addr text env hip conn hcn).mpr (h c hc addr text env hip conn hcn)

end

/-! ## two challenges -/

def plainWs : WsConfig := ⟨some "secret", false, [], 10⟩

/-- tokens are the names of challenges, and there are three messages -/
def plainWsEnv : WsEnv Nat where
  decodeAuth text := .ok text
  decodeJwt _ token := if token = "" then .error "empty" else .ok ⟨token, "owner"⟩
  decodeJwtUnverified _ := .error "unused"
  decodeRequest text :=
    if text = "create a" then .ok (.create (plainConfig "a" "a1") "1")
    else if text = "create b" then .ok (.create (plainConfig "b" "b1") "2")
    else if text = "exec a" then .ok (.exec "a1" ["id"] none 10 "3")
    else if text = "exec b" then .ok (.exec "b1" ["id"] none 10 "4")
    else .error "unknown"

def plainNext : WsServer Nat → WsInput Nat → Option Response × WsServer Nat :=
  wsNext strictBroker plainWs plainWsEnv

/-- two connections, each with a container of its own -/
def twoChallenges : List (WsInput Nat) :=
  [.connect 0 (some "a"), .connect 1 (some "b"), .message 0 "create a" plainEnv,
    .message 1 "create b" plainEnv]

def emptyServer : WsServer Nat := ⟨.empty, ∅, ∅⟩

def twoServer : WsServer Nat := (trace plainNext emptyServer twoChallenges).2

theorem twoServer_conn :
    (twoServer.connections.lookup 0).map WsConnection.challengeId = some "a" := by decide +kernel

theorem twoServer_label (ch id : String)
    (h : (ch, id) ∈ [("a", "a1"), ("b", "b1")]) :
    (twoServer.broker.docker.containers.lookup id).map
      (fun c => c.labels.lookup Labels.challengeId) = some (some ch) := by
  have ha : ∀ p ∈ [("a", "a1"), ("b", "b1")],
      (twoServer.broker.docker.containers.lookup p.2).map
        (fun c => c.labels.lookup Labels.challengeId) = some (some p.1) := by decide +kernel
  exact ha _ h

theorem created_for_a :
    ∃ c, twoServer.broker.docker.containers.lookup "a1" = some c ∧
      ∃ call ∈ (trace plainNext emptyServer twoChallenges).1, ∃ challenge,
        CreatesFor plainWsEnv call "a1" challenge ∧
        c.labels.lookup Labels.challengeId = some challenge := by
  obtain ⟨c, hc, -⟩ := Option.map_eq_some_iff.mp (twoServer_label "a" "a1" (by decide))
  exact ⟨c, hc, created_for (machineRun_trace plainNext emptyServer twoChallenges) rfl hc⟩

theorem staysOwn_own_exec {conn : WsConnection}
    (hcn : twoServer.connections.lookup 0 = some conn) :
    StaysOwn plainEnv twoServer.broker.docker conn.challengeId
      (.exec "a1" ["id"] none 10 "3" : Request Nat) := by
  have hch : conn.challengeId = "a" := by
    have h := twoServer_conn
    rw [hcn] at h
    exact Option.some.inj h
  have hfn : plainEnv.find twoServer.broker.docker.containers "a1" = some "a1" := by decide +kernel
  refine ⟨fun kind ref id htr hfd => ?_, fun _ _ _ h => ?_⟩
  · cases htr
    rw [hfn] at hfd
    cases hfd
    exact (own_iff_of_label (twoServer_label "a" "a1" (by decide))).mpr hch.symm
  · cases h

theorem isolated_own_exec :
    Isolated (trace plainNext emptyServer (twoChallenges ++ [.message 0 "exec a" plainEnv])).1 := by
  refine (isolated_iff (machineRun_trace plainNext _ _) rfl rfl ?_).mpr ?_
  · intro sec tok claims h
    change (if tok = "" then _ else _) = _ at h
    split at h
    · cases h
    · next hne =>
      cases h
      exact hne
  intro c hc addr text env hip conn hcn request hdc
  simp only [twoChallenges, cons_append, nil_append, trace_cons, mem_cons] at hc
  rcases hc with rfl | rfl | rfl | rfl | rfl | hnl
  · cases hip
  · cases hip
  · cases hip
    cases hdc
    exact staysOwn_create
  · cases hip
    cases hdc
    exact staysOwn_create
  · cases hip
    cases hdc
    exact staysOwn_own_exec hcn
  · cases hnl

/-- The first connection executes in the container of the second one. -/
theorem exec_in_other_container :
    ¬ Isolated
      (trace plainNext emptyServer (twoChallenges ++ [.message 0 "exec b" plainEnv])).1 := by
  intro h
  obtain ⟨conn, hcn, hch⟩ := Option.map_eq_some_iff.mp twoServer_conn
  have hk := h (record plainNext twoServer (.message 0 "exec b" plainEnv)).1
    (.tail _ (.tail _ (.tail _ (.tail _ (.head _))))) 0 "exec b" plainEnv rfl conn hcn
  have hr : (⟨"b1", .exec⟩ : Access) ∈
      newAccesses (record plainNext twoServer (.message 0 "exec b" plainEnv)).1 := by decide +kernel
  have ho := (own_iff_of_label (twoServer_label "b" "b1" (by decide))).mp
    (hk.reached _ hr)
  rw [hch] at ho
  exact absurd ho (by decide)

end Platform.Container

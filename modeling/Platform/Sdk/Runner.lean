import Platform.Core.F64
import Platform.Lib.Serde

/-!
# The decentralized runner (`crates/challenge-sdk/src/decentralized.rs`)

The runner takes messages off a channel until the channel is closed, evaluates the submissions of
its own challenge and sends a result for each.
-/

namespace Platform.Sdk
open Platform.Core Lib List

structure PendingSubmission where
  submissionHash : String
  minerHotkey : String
  sourceCode : String
  metadata : Json
  submittedAt : Int64

structure ValidatorEvaluationResult (F : Type) where
  validatorHotkey : String
  score : F
  evaluatedAt : Int64

inductive P2PChallengeMessage (F : Type) where
  | evaluationResult (challengeId submissionHash : String) (score : F) (executionTimeMs : UInt64)
      (resultData : Json)
  | requestSubmissions (challengeId : String) (limit : Nat)
  | submissionsResponse (challengeId : String) (submissions : List PendingSubmission)
  | weightVote (challengeId : String) (epoch : UInt64) (weights : List (String × F))
  | requestWeights (challengeId : String) (epoch : UInt64)
  | weightsResponse (challengeId : String) (epoch : UInt64) (weights : List (String × F))
  | storeSubmission (challengeId : String) (submission : PendingSubmission)
  | requestEvaluationStatus (challengeId submissionHash : String)
  | evaluationStatusResponse (challengeId submissionHash : String)
      (evaluations : List (ValidatorEvaluationResult F)) (consensusReached : Bool)
      (finalScore : Option F)

structure EvaluationRequest where
  requestId : String
  submissionId : String
  participantId : String
  data : Json
  metadata : Option Json
  epoch : UInt64
  deadline : Option Int64

/-- What one evaluation brings: the id of its request, what the challenge makes of the request (a
score with details, or the text of an error), how long it takes, and whether the channel takes the
result. -/
structure EvalEnv (F : Type) where
  requestId : String
  evaluate : EvaluationRequest → Except String (F × Json)
  elapsedMs : UInt64
  accepts : Bool

structure RunnerState (F : Type) where
  evaluated : Nat
  sent : List (P2PChallengeMessage F)

section
variable {F : Type} [F64 F] (challengeId : String) (env : Nat → EvalEnv F)

def evaluationRequest (requestId : String) (submission : PendingSubmission) :
    EvaluationRequest where
  requestId := requestId
  submissionId := submission.submissionHash
  participantId := submission.minerHotkey
  data := .obj [("source_code", .str submission.sourceCode), ("metadata", submission.metadata)]
  metadata :=
    some (.obj [("submitted_at", .int submission.submittedAt.toInt), ("p2p_mode", .bool true)])
  epoch := 0
  deadline := none

/-- An error of the channel is logged by the runner, which goes on. -/
def evaluateSubmission (s : RunnerState F) (submission : PendingSubmission) :
    Except String Unit × RunnerState F :=
  let e := env s.evaluated
  let (what, score, data) := match e.evaluate (evaluationRequest e.requestId submission) with
    | .ok (score, results) => ("evaluation", score, results)
    | .error err => ("error", F64.zero, .obj [("error", .str err), ("success", .bool false)])
  let msg := .evaluationResult challengeId submission.submissionHash score e.elapsedMs data
  if e.accepts then (.ok (), ⟨s.evaluated + 1, s.sent ++ [msg]⟩)
  else
    (.error ("Network error: Failed to send " ++ what ++ " result: channel closed"),
      ⟨s.evaluated + 1, s.sent⟩)

def handleMessage (s : RunnerState F) : P2PChallengeMessage F → RunnerState F
  | .submissionsResponse msgChallengeId submissions =>
    if msgChallengeId ≠ challengeId then s
    else submissions.foldl (fun s sub => (evaluateSubmission challengeId env s sub).2) s
  | _ => s

def runDecentralized (incoming : List (P2PChallengeMessage F)) :
    Except String Unit × List (P2PChallengeMessage F) :=
  (.ok (), (incoming.foldl (handleMessage challengeId env) ⟨0, []⟩).sent)

/-- the submissions that a message asks to evaluate -/
def submissionsFor : P2PChallengeMessage F → List PendingSubmission
  | .submissionsResponse msgChallengeId submissions =>
    if msgChallengeId = challengeId then submissions else []
  | _ => []

/-- the score of the `n`-th evaluation -/
def scoreOf (n : Nat) (submission : PendingSubmission) : F :=
  match (env n).evaluate (evaluationRequest (env n).requestId submission) with
  | .ok (score, _) => score
  | .error _ => F64.zero

/-- the answer to a submission -/
def Answers (msg : P2PChallengeMessage F) (p : PendingSubmission × Nat) : Prop :=
  ∃ ms data, msg = .evaluationResult challengeId p.1.submissionHash (scoreOf env p.2 p.1) ms data

/-- what is there after the submissions `subs` -/
structure Answered (subs : List PendingSubmission) (s : RunnerState F) : Prop where
  evaluated : s.evaluated = subs.length
  sent : Forall₂ (Answers challengeId env) s.sent subs.zipIdx

variable {challengeId env} {subs : List PendingSubmission} {s : RunnerState F}

section
variable (h : Answered challengeId env subs s) (ho : ∀ n, (env n).accepts = true)
include h ho

theorem Answered.evaluate (sub : PendingSubmission) :
    Answered challengeId env (subs ++ [sub]) (evaluateSubmission challengeId env s sub).2 := by
  unfold evaluateSubmission
  dsimp only
  rw [if_pos (ho _)]
  constructor
  · rw [length_append, h.evaluated]
    rfl
  · rw [zipIdx_append, zipIdx_singleton, Nat.zero_add, ← h.evaluated]
    refine rel_append h.sent (.cons ?_ .nil)
    rw [Answers, scoreOf]
    cases (env s.evaluated).evaluate (evaluationRequest (env s.evaluated).requestId sub) with
    | error | ok => exact ⟨_, _, rfl⟩

theorem Answered.handle (msg : P2PChallengeMessage F) :
    Answered challengeId env (subs ++ submissionsFor challengeId msg)
      (handleMessage challengeId env s msg) := by
  have hn : Answered challengeId env (subs ++ []) s := by rwa [append_nil]
  cases msg with
  | submissionsResponse id sbs =>
    show Answered _ _ (subs ++ if id = challengeId then sbs else [])
      (if id ≠ challengeId then s else _)
    by_cases hid : id = challengeId
    · rw [if_neg (not_not.mpr hid), if_pos hid]
      -- one submission after the other
      induction sbs generalizing subs s with
      | nil => exact hn
      | cons sub rest ih =>
        have h1 := h.evaluate ho sub
        have h2 := ih h1 (by rwa [append_nil])
        rwa [append_assoc] at h2
    · rw [if_pos hid, if_neg hid]
      exact hn
  | _ => exact hn

end

end

/-- **Every submission is answered once**: with the channel open, the runner ends well and has sent
one result for each submission to its challenge, in the order of arrival, and nothing else. -/
theorem runner_answers_once {F : Type} [F64 F] (challengeId : String) (env : Nat → EvalEnv F)
    (hopen : ∀ n, (env n).accepts = true) (incoming : List (P2PChallengeMessage F)) :
    (runDecentralized challengeId env incoming).1 = .ok () ∧
      Forall₂ (Answers challengeId env) (runDecentralized challengeId env incoming).2
        (incoming.flatMap (submissionsFor challengeId)).zipIdx := by
  have hrun : ∀ (subs : List PendingSubmission) (s : RunnerState F),
      Answered challengeId env subs s →
      Answered challengeId env (subs ++ incoming.flatMap (submissionsFor challengeId))
        (incoming.foldl (handleMessage challengeId env) s) := by
    induction incoming with
    | nil =>
      intro subs s h
      rwa [flatMap_nil, append_nil]
    | cons msg rest ih =>
      intro subs s h
      have h1 := ih _ _ (h.handle hopen msg)
      rwa [append_assoc] at h1
  exact ⟨rfl, (hrun [] ⟨0, []⟩ ⟨rfl, .nil⟩).sent⟩

/-- a challenge that knows the miner `m` only, to which it gives half a point -/
def oneMiner (_ : Nat) : EvalEnv ℚ where
  requestId := "r"
  evaluate request :=
    if request.participantId = "m" then .ok (1 / 2, request.data) else .error "unknown miner"
  elapsedMs := 1
  accepts := true

/-- a message for another challenge, and one with two submissions -/
def twoMessages : List (P2PChallengeMessage ℚ) :=
  [.submissionsResponse "d" [⟨"x", "m", "", .null, 0⟩],
    .submissionsResponse "c" [⟨"x", "m", "", .null, 0⟩, ⟨"y", "n", "", .null, 0⟩]]

theorem runner_answers_two :
    (runDecentralized "c" oneMiner twoMessages).1 = .ok () ∧
      Forall₂ (Answers "c" oneMiner) (runDecentralized "c" oneMiner twoMessages).2
        [(⟨"x", "m", "", .null, 0⟩, 0), (⟨"y", "n", "", .null, 0⟩, 1)] :=
  runner_answers_once "c" oneMiner (fun _ => rfl) twoMessages

end Platform.Sdk

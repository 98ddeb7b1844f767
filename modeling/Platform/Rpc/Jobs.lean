import Platform.Chain.State
import Platform.State.Persist

/-!
# Results of jobs (`crates/rpc-server/src/handlers.rs`, `auth.rs`, `crates/core/src/state.rs`)

A validator claims a job with `claim_job`, which takes it off the list of pending jobs.  The handler
of results verifies the signature of the sender and then looks for the job in that list: it finds
those that nobody has claimed, and does not ask whose they are or whether there is a result.

The timestamp of an answer is left out; what the node uses of `f64` and `uuid` is a parameter.
-/

namespace Platform.Rpc
open Platform.Core Lib Chain List
open State (hexDecode)

inductive AuthError where
  | invalidHotkey
  | invalidSignature
deriving DecidableEq

/-- `Hotkey::from_hex` -/
def hotkeyFromHex (s : String) : Option Hotkey := do
  let bs ← hexDecode s.toList
  if h : bs.length = 32 then some ⟨⟨bs, h⟩⟩ else none

def verifyValidatorSignature (C : Crypto) (hotkeyHex message signatureHex : String) :
    Except AuthError Bool :=
  match hotkeyFromHex hotkeyHex with
  | none => .error .invalidHotkey
  | some hotkey =>
    match hexDecode signatureHex.toList with
    | none => .error .invalidSignature
    | some signature =>
      if signature.length ≠ 64 then .error .invalidSignature
      else .ok (C.verify signature (utf8 message) hotkey)

/-- what is used of `f64` and `uuid`: how a number is written, `clamp(0.0, 1.0)`, and how an id is
read -/
structure JobFormat where
  display : F64Bits → String
  clamp : F64Bits → F64Bits
  parseStr : String → Option Uuid

structure JobResultRequest where
  jobId : String
  hotkey : String
  signature : String
  score : F64Bits

structure JobResultResponse where
  accepted : Bool
  jobId : String
deriving DecidableEq

structure RpcResponse (α : Type) where
  success : Bool
  data : Option α
  error : Option String
deriving DecidableEq

def RpcResponse.ok {α : Type} (data : α) : RpcResponse α := ⟨true, some data, none⟩

def RpcResponse.failed {α : Type} (msg : String) : RpcResponse α := ⟨false, none, some msg⟩

def JobFormat.score (fmt : JobFormat) (score : F64Bits) : Score :=
  ⟨fmt.clamp score, fmt.clamp 0x3FF0000000000000⟩

/-- what is signed -/
def JobResultRequest.message (fmt : JobFormat) (req : JobResultRequest) : String :=
  "result:" ++ req.jobId ++ ":" ++ fmt.display req.score

section
variable {T : Type}

def completed (score : Score) (job : Job T) : Job T :=
  { job with status := .completed, result := some score }

def setResult (id : Uuid) (score : Score) (s : ChainState T) : ChainState T :=
  { s with
    pendingJobs := s.pendingJobs.modify (s.pendingJobs.findIdx fun j => decide (j.id = id))
      (completed score) }

def jobResultHandler (C : Crypto) (fmt : JobFormat) (req : JobResultRequest) (s : ChainState T) :
    RpcResponse JobResultResponse × ChainState T :=
  match verifyValidatorSignature C req.hotkey (req.message fmt) req.signature with
  | .ok true =>
    match fmt.parseStr req.jobId with
    | none => (.failed "Invalid job ID", s)
    | some id =>
      if id ∈ s.pendingJobs.map Job.id then
        (.ok ⟨true, req.jobId⟩, setResult id (fmt.score req.score) s)
      else (.ok ⟨false, req.jobId⟩, s)
  | _ => (.ok ⟨false, req.jobId⟩, s)

def JobResultRequest.From (C : Crypto) (fmt : JobFormat) (req : JobResultRequest) (v : Hotkey)
    (id : Uuid) : Prop :=
  hotkeyFromHex req.hotkey = some v ∧
    verifyValidatorSignature C req.hotkey (req.message fmt) req.signature = .ok true ∧
    fmt.parseStr req.jobId = some id

instance (C : Crypto) (fmt : JobFormat) (req : JobResultRequest) (v : Hotkey) (id : Uuid) :
    Decidable (req.From C fmt v id) :=
  inferInstanceAs (Decidable (_ ∧ _ ∧ _))

/-! ## calls -/

structure JobState (T : Type) where
  chain : ChainState T
  claims : List (Hotkey × Uuid)
  awaited : List (Hotkey × Uuid)

inductive JobInput (T : Type) where
  | add (now : T) (job : Job T)
  | claim (now : T) (validator : Hotkey)
  | result (req : JobResultRequest)

/-- what a call returns -/
inductive JobOut (T : Type) where
  | added
  | claimed (job : Option (Job T))
  | answer (response : RpcResponse JobResultResponse)

def jobNext (C : Crypto) (fmt : JobFormat) (s : JobState T) :
    JobInput T → JobOut T × JobState T
  | .add now job => (.added, { s with chain := s.chain.addJob C now job })
  | .claim now validator =>
    let (job, chain) := s.chain.claimJob C now validator
    let claim := (job.map fun j => (validator, j.id)).toList
    (.claimed job, ⟨chain, s.claims ++ claim, s.awaited ++ claim⟩)
  | .result req =>
    let (response, chain) := jobResultHandler C fmt req s.chain
    (.answer response,
      ⟨chain, s.claims, s.awaited.filter fun p => decide (¬ req.From C fmt p.1 p.2)⟩)

abbrev JobCall (T : Type) := Call (JobState T) (JobInput T) (JobOut T)

def Changes (call : JobCall T) (job : Job T) : Prop :=
  ∃ (i : Nat) (job' : Job T), call.before.chain.pendingJobs[i]? = some job ∧
    call.after.chain.pendingJobs[i]? = some job' ∧
    (job.status, job.result) ≠ (job'.status, job'.result)

def OnlyAssigned (fmt : JobFormat) (signedBy : Hotkey → Bytes → Prop) (call : JobCall T) : Prop :=
  ∀ req job, call.input = .result req → Changes call job →
    ∃ v, (v, job.id) ∈ call.before.claims ∧ hotkeyFromHex req.hotkey = some v ∧
      signedBy v (utf8 (req.message fmt))

def KeepsResults (call : JobCall T) : Prop :=
  ∀ req (i : Nat) (job job' : Job T), call.input = .result req →
    call.before.chain.pendingJobs[i]? = some job →
    call.after.chain.pendingJobs[i]? = some job' → job.result.isSome → job'.result = job.result

def AcceptsFirst (C : Crypto) (fmt : JobFormat) (call : JobCall T) : Prop :=
  ∀ req v id, call.input = .result req → req.From C fmt v id → (v, id) ∈ call.before.awaited →
    call.out = .answer (.ok ⟨true, req.jobId⟩) ∧
      ∃ job ∈ call.after.chain.pendingJobs, job.id = id ∧ job.status = .completed ∧
        job.result = some (fmt.score req.score)

def Finds (C : Crypto) (fmt : JobFormat) (call : JobCall T) (req : JobResultRequest) (v : Hotkey)
    (job : Job T) : Prop :=
  call.input = .result req ∧ req.From C fmt v job.id ∧
    call.before.chain.pendingJobs.find? (fun j => decide (j.id = job.id)) = some job

variable {C : Crypto} {fmt : JobFormat} {req : JobResultRequest} {v : Hotkey} {id : Uuid}
  {call : JobCall T}

theorem jobResultHandler_of_from (h : req.From C fmt v id) (s : ChainState T) :
    jobResultHandler C fmt req s =
      (.ok ⟨decide (id ∈ s.pendingJobs.map Job.id), req.jobId⟩,
        setResult id (fmt.score req.score) s) := by
  simp only [jobResultHandler, h.2.1, h.2.2]
  by_cases hid : id ∈ s.pendingJobs.map Job.id
  · rw [if_pos hid, decide_eq_true hid]
  · have hls : s.pendingJobs.length ≤ s.pendingJobs.findIdx fun j => decide (j.id = id) := by
      refine not_lt.mp fun hlt => hid ?_
      obtain ⟨job, hj, heq⟩ := findIdx_lt_length.mp hlt
      exact mem_map.mpr ⟨job, hj, of_decide_eq_true heq⟩
    rw [if_neg hid, decide_eq_false hid, setResult, modify_eq_self hls]

theorem jobResultHandler_of_not_from (h : ∀ v id, ¬ req.From C fmt v id) (s : ChainState T) :
    (jobResultHandler C fmt req s).2 = s := by
  unfold jobResultHandler
  cases hvr : verifyValidatorSignature C req.hotkey (req.message fmt) req.signature with
  | error e => rfl
  | ok b =>
    cases b with
    | false => rfl
    | true =>
      cases hid : fmt.parseStr req.jobId with
      | none => rfl
      | some id =>
        cases hk : hotkeyFromHex req.hotkey with
        | none => simp [verifyValidatorSignature, hk] at hvr
        | some v => exact absurd ⟨hk, hvr, hid⟩ (h v id)

theorem JobResultRequest.From.verified (h : req.From C fmt v id) :
    ∃ sig, C.verify sig (utf8 (req.message fmt)) v = true := by
  have hvr := h.2.1
  unfold verifyValidatorSignature at hvr
  rw [h.1] at hvr
  cases hs : hexDecode req.signature.toList with
  | none => simp [hs] at hvr
  | some sig =>
    simp only [hs] at hvr
    split at hvr
    · cases hvr
    · exact ⟨sig, Except.ok.inj hvr⟩

theorem getElem?_setResult (id : Uuid) (score : Score) (s : ChainState T) (i : Nat) :
    (setResult id score s).pendingJobs[i]? = (s.pendingJobs[i]?).map fun job =>
      if s.pendingJobs.findIdx (fun j => decide (j.id = id)) = i then completed score job
      else job :=
  getElem?_modify _ _ _ _

variable {s s' : JobState T} {job job' : Job T}

variable (hstep : CallStep (jobNext C fmt) s call s')

section
include hstep

theorem chain_of_result (hip : call.input = .result req) :
    call.out = .answer (jobResultHandler C fmt req call.before.chain).1 ∧
      call.after.chain = (jobResultHandler C fmt req call.before.chain).2 := by
  obtain ⟨rfl, rfl, hnx⟩ := hstep
  rw [hip] at hnx
  exact ⟨(congrArg Prod.fst hnx).symm, (congrArg (fun r => r.2.chain) hnx).symm⟩

theorem Finds.completes (h : Finds C fmt call req v job) :
    ∃ i : Nat, call.before.chain.pendingJobs[i]? = some job ∧
      call.after.chain.pendingJobs[i]? = some (completed (fmt.score req.score) job) := by
  obtain ⟨hip, hfr, hfn⟩ := h
  rw [find?_eq_getElem?_findIdx] at hfn
  refine ⟨_, hfn, ?_⟩
  rw [(chain_of_result hstep hip).2, jobResultHandler_of_from hfr, getElem?_setResult, hfn,
    Option.map_some, if_pos rfl]

theorem entry_of_result (hip : call.input = .result req) {i : Nat}
    (hj : call.before.chain.pendingJobs[i]? = some job)
    (hj' : call.after.chain.pendingJobs[i]? = some job') :
    job' = job ∨
      (∃ v, Finds C fmt call req v job) ∧ job' = completed (fmt.score req.score) job := by
  rw [(chain_of_result hstep hip).2] at hj'
  by_cases hfr : ∃ v id, req.From C fmt v id
  · obtain ⟨v, id, hfr⟩ := hfr
    rw [jobResultHandler_of_from hfr, getElem?_setResult, hj, Option.map_some,
      Option.some.injEq] at hj'
    split at hj'
    next hi =>
      subst hi
      rw [← find?_eq_getElem?_findIdx] at hj
      obtain rfl : job.id = id := by simpa using find?_some hj
      exact .inr ⟨⟨v, hip, hfr, hj⟩, hj'.symm⟩
    next => exact .inl hj'.symm
  · rw [jobResultHandler_of_not_from fun v id h => hfr ⟨v, id, h⟩, hj] at hj'
    exact .inl (Option.some.inj hj').symm

end

theorem onlyAssigned_iff {signedBy : Hotkey → Bytes → Prop}
    (hfr : ∀ sig msg v, C.verify sig msg v = true → signedBy v msg)
    (hstep : CallStep (jobNext C fmt) s call s') :
    OnlyAssigned fmt signedBy call ↔ ∀ req v job, Finds C fmt call req v job →
      (job.status, job.result) ≠ (.completed, some (fmt.score req.score)) →
        (v, job.id) ∈ call.before.claims := by
  constructor
  · intro h req v job hfn hn
    obtain ⟨i, hbf, ha⟩ := hfn.completes hstep
    obtain ⟨v', hcl, hk, -⟩ := h req job hfn.1 ⟨i, _, hbf, ha, hn⟩
    obtain rfl : v' = v := Option.some.inj (hk.symm.trans hfn.2.1.1)
    exact hcl
  · rintro h req job hip ⟨i, job', hbf, ha, hch⟩
    rcases entry_of_result hstep hip hbf ha with rfl | ⟨⟨v, hfn⟩, rfl⟩
    · exact absurd rfl hch
    · obtain ⟨sig, hvr⟩ := hfn.2.1.verified
      exact ⟨v, h req v job hfn hch, hfn.2.1.1, hfr _ _ _ hvr⟩

include hstep in
theorem keepsResults_iff :
    KeepsResults call ↔ ∀ req v job, Finds C fmt call req v job → job.result.isSome →
      job.result = some (fmt.score req.score) := by
  constructor
  · intro h req v job hfn hsm
    obtain ⟨i, hbf, ha⟩ := hfn.completes hstep
    exact (h req i job _ hfn.1 hbf ha hsm).symm
  · intro h req i job job' hip hbf ha hsm
    rcases entry_of_result hstep hip hbf ha with rfl | ⟨⟨v, hfn⟩, rfl⟩
    · rfl
    · exact (h req v job hfn hsm).symm

include hstep in
theorem acceptsFirst_iff :
    AcceptsFirst C fmt call ↔ ∀ req v id, call.input = .result req → req.From C fmt v id →
      (v, id) ∈ call.before.awaited → id ∈ call.before.chain.pendingJobs.map Job.id := by
  refine forall_congr' fun req => forall_congr' fun v => forall_congr' fun id =>
    forall_congr' fun hip => forall_congr' fun hfr => forall_congr' fun _ => ?_
  rw [(chain_of_result hstep hip).1, jobResultHandler_of_from hfr]
  constructor
  · rintro ⟨ho, -⟩
    injection ho with ho
    injection ho with _ hdt
    injection hdt with hdt
    injection hdt with hdt
    exact of_decide_eq_true hdt
  · intro hid
    obtain ⟨job, hj, rfl⟩ := mem_map.mp hid
    have hfn : (call.before.chain.pendingJobs.find? fun j => decide (j.id = job.id)).isSome :=
      find?_isSome.mpr ⟨job, hj, decide_eq_true rfl⟩
    obtain ⟨first, hfd⟩ := Option.isSome_iff_exists.mp hfn
    have hs : first.id = job.id := by simpa using find?_some hfd
    obtain ⟨i, -, ha⟩ := Finds.completes hstep ⟨hip, hs ▸ hfr, hs ▸ hfd⟩
    rw [decide_eq_true hid]
    exact ⟨rfl, _, mem_of_getElem? ha, hs, rfl, rfl⟩

/-- **Job results come from the assigned validator** exactly when the job that a result finds was
claimed by its sender before, unless nothing changes; when a job with a result is only found by
equal results; and when the first result for a claimed job still finds one with its id.  Signatures
cannot be forged. -/
theorem job_results_iff (signedBy : Hotkey → Bytes → Prop)
    (hforge : ∀ signature message v, C.verify signature message v = true → signedBy v message)
    {log : List (JobCall T)} (hrun : MachineRun (jobNext C fmt) s log s') :
    ((∀ call ∈ log, OnlyAssigned fmt signedBy call) ↔
      ∀ call ∈ log, ∀ req v job, Finds C fmt call req v job →
        (job.status, job.result) ≠ (.completed, some (fmt.score req.score)) →
          (v, job.id) ∈ call.before.claims) ∧
    ((∀ call ∈ log, KeepsResults call) ↔
      ∀ call ∈ log, ∀ req v job, Finds C fmt call req v job → job.result.isSome →
        job.result = some (fmt.score req.score)) ∧
    ((∀ call ∈ log, AcceptsFirst C fmt call) ↔
      ∀ call ∈ log, ∀ req v id, call.input = .result req → req.From C fmt v id →
        (v, id) ∈ call.before.awaited → id ∈ call.before.chain.pendingJobs.map Job.id) := by
  have hstep : ∀ call ∈ log, ∃ s s', CallStep (jobNext C fmt) s call s' := by
    intro call hcl
    obtain ⟨_, _, s₁, s₂, _, _, hstep, _⟩ := Run.mem_split hrun hcl
    exact ⟨s₁, s₂, hstep⟩
  refine ⟨forall₂_congr fun call hcl => ?_, forall₂_congr fun call hcl => ?_,
    forall₂_congr fun call hcl => ?_⟩
  · obtain ⟨_, _, h⟩ := hstep call hcl
    exact onlyAssigned_iff hforge h
  · obtain ⟨_, _, h⟩ := hstep call hcl
    exact keepsResults_iff h
  · obtain ⟨_, _, h⟩ := hstep call hcl
    exact acceptsFirst_iff h

end

/-! ## a job and two validators -/

def sampleFormat : JobFormat := ⟨fun bits => bits.toNat.repr, fun bits => bits, fun _ =>
  some ⟨replicate 16 1, length_replicate⟩⟩

def sampleJob : Job Nat where
  id := ⟨replicate 16 1, length_replicate⟩
  challengeId := ⟨replicate 16 2, length_replicate⟩
  agentHash := "agent"
  status := .pending
  createdAt := 0
  assignedValidator := none
  result := none

/-- the scores `0.5` and `0.25` -/
def half : F64Bits := 0x3FE0000000000000

def quarter : F64Bits := 0x3FD0000000000000

/-- a result with the signature of the validator -/
def sampleResult (v : UInt8) (score : F64Bits) : JobInput Nat :=
  let message := "result:1:" ++ sampleFormat.display score
  .result ⟨"1", (Hotkey.ofByte v).toHex, hexEncode (sampleCrypto.sign ⟨.ofByte v⟩ 0 (utf8 message)),
    score⟩

def jobRun (inputs : List (JobInput Nat)) : List (JobCall Nat) × JobState Nat :=
  trace (jobNext sampleCrypto sampleFormat)
    ⟨.new sampleCrypto (.ofByte 7) .default 0, [], []⟩ inputs

def accepted (call : JobCall Nat) : Option Bool :=
  match call.out with
  | .answer response => response.data.map JobResultResponse.accepted
  | _ => none

/-- A job that is added a second time takes the result of the validator that has claimed it. -/
theorem result_of_claimed :
    (jobRun [.add 0 sampleJob, .claim 1 (.ofByte 1), .add 2 sampleJob,
      sampleResult 1 half]).1.filterMap accepted = [true] ∧
    ∀ call ∈ (jobRun [.add 0 sampleJob, .claim 1 (.ofByte 1), .add 2 sampleJob,
      sampleResult 1 half]).1, AcceptsFirst sampleCrypto sampleFormat call := by
  refine ⟨by decide +kernel, ?_⟩
  refine (job_results_iff (fun v m => ∃ s, sampleCrypto.verify s m v = true)
    (fun s _ _ h => ⟨s, h⟩) (machineRun_trace _ _ _)).2.2.mpr ?_
  intro call hcl req v id hip hfr _
  simp only [trace_cons, mem_cons] at hcl
  rcases hcl with rfl | rfl | rfl | rfl | hcl
  · cases hip
  · cases hip
  · cases hip
  · obtain rfl := Option.some.inj hfr.2.2
    exact mem_cons_self
  · cases hcl

/-- Anyone may set the result of a job that nobody has claimed, and set it again; the validator that
claims it afterwards is turned away. -/
theorem result_of_anyone :
    (jobRun [.add 0 sampleJob, sampleResult 3 half, sampleResult 4 quarter, .claim 1 (.ofByte 1),
      sampleResult 1 half]).1.map
        (fun call => (accepted call, call.after.chain.pendingJobs.map Job.result)) =
      [(none, [none]), (some true, [some ⟨half, 0x3FF0000000000000⟩]),
        (some true, [some ⟨quarter, 0x3FF0000000000000⟩]), (none, []), (some false, [])] := by
  decide +kernel

end Platform.Rpc

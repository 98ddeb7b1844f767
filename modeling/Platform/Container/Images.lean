import Platform.Container.Reach

/-!
# The images that containers run

The policy admits the image of a container by its name, and so it does for a pull.  A build is
admitted by the start of its tag alone, and an image that is there is not pulled again: a container
runs what was stored last under its tag.
-/

namespace Platform.Container
open Platform.Core Lib

section
variable {F σ : Type}

abbrev BrokerCall (F σ : Type) := Call (Broker σ) (DockerEnv σ × Request F) Response

variable (lower : String → String)

def Trusted (name : String) : Prop :=
  startsWith (lower name) (lower "ghcr.io/platformnetwork/") = true

def Image.FromRegistry (image : Image) : Prop :=
  ∃ name, image = .pulled name ∧ Trusted lower name

def NewIn (call : BrokerCall F σ) (id : String) (c : DockerContainer σ) : Prop :=
  id ∉ call.before.docker.containers ∧ call.after.docker.containers.lookup id = some c

/-- Every container that is created runs an image of the trusted path. -/
def OnlyTrusted (log : List (BrokerCall F σ)) : Prop :=
  ∀ call ∈ log, ∀ id c, NewIn call id c → c.runs.FromRegistry lower

def Builds (tag : String) (call : BrokerCall F σ) : Prop :=
  ∃ ref dockerfile context requestId imageId logs,
    call.input.2 = .build ref dockerfile context requestId ∧ call.input.1.tagOf ref = tag ∧
      call.out = .built imageId logs requestId

def Pulls (tag : String) (call : BrokerCall F σ) : Prop :=
  ∃ image requestId, call.input.2 = .pull image requestId ∧ call.input.1.tagOf image = tag ∧
    call.out = .pulled image requestId

def BuiltAt (images : HashMap String Image) (tag : String) : Prop :=
  ∃ context, images.lookup tag = some (.built context)

inductive ImageStep (cfg : BrokerConfig F) (env : DockerEnv σ) (images : HashMap String Image)
    (request : Request F) (out : Response) : HashMap String Image → Prop
  | same (hpull : ∀ image r, request = .pull image r → out ≠ .pulled image r)
      (hbuild : ∀ ref d c r, request = .build ref d c r → ∀ i l, out ≠ .built i l r) :
      ImageStep cfg env images request out images
  | pull {image r : String} (hrequest : request = .pull image r) (hout : out = .pulled image r)
      (hvalid : cfg.policy.validateImage cfg.lower image = .ok ()) :
      ImageStep cfg env images request out (images.insert (env.tagOf image) (.pulled image))
  | ensure {config : ContainerConfig F} {r : String} (hrequest : request = .create config r)
      (hvalid : cfg.policy.validateImage cfg.lower config.image = .ok ())
      (hnone : images.lookup (env.tagOf config.image) = none) :
      ImageStep cfg env images request out
        (images.insert (env.tagOf config.image) (.pulled config.image))
  | build {ref d r i l : String} {c : Option String} (context : Bytes)
      (hrequest : request = .build ref d c r) (hout : out = .built i l r) :
      ImageStep cfg env images request out (images.insert (env.tagOf ref) (.built context))

variable {cfg : BrokerConfig F} {env : DockerEnv σ} {b b₀ : Broker σ} {req : Request F}
  {images images' : HashMap String Image} {out : Response} {tag : String}
  {log : List (BrokerCall F σ)} {call : BrokerCall F σ}

/-! ## what a request stores -/

theorem ImageStep.of_other (hp : ∀ img r, req ≠ .pull img r)
    (hb : ∀ ref d c r, req ≠ .build ref d c r) (hs : images' = images) :
    ImageStep cfg env images req out images' := by
  rw [hs]
  exact .same (fun img r h => absurd h (hp img r)) fun ref d c r h => absurd h (hb ref d c r)

/-- The images and the lists of ids stay. -/
def Keeps (b b' : Broker σ) : Prop :=
  b'.docker.images = b.docker.images ∧ b'.containersByChallenge = b.containersByChallenge ∧
    b'.containersByOwner = b.containersByOwner

variable {id ref : String} {c : DockerContainer σ} {config : ContainerConfig F}
  {kind : AccessKind}

theorem keeps_onContainer (mis : Response) (act : DockerContainer σ → Response × σ) :
    Keeps b (onContainer env kind ref mis act b).2 := by
  unfold onContainer
  split
  · exact ⟨rfl, rfl, rfl⟩
  · exact ⟨rfl, rfl, rfl⟩

theorem keeps_readContainer (mis : Response) (act : DockerContainer σ → Response) :
    Keeps b (readContainer env kind ref mis act b).2 := by
  unfold readContainer
  split
  · exact ⟨rfl, rfl, rfl⟩
  · exact ⟨rfl, rfl, rfl⟩

theorem keeps_inspectAll (ids : List String) : Keeps b (inspectAll env ids b).2 := by
  induction ids generalizing b with
  | nil => exact ⟨rfl, rfl, rfl⟩
  | cons id ids ih =>
    rw [inspectAll_cons]
    exact ⟨ih.1.trans (keeps_readContainer _ _).1, ih.2.1.trans (keeps_readContainer _ _).2.1,
      ih.2.2.trans (keeps_readContainer _ _).2.2⟩

theorem keeps_listContainers (cid oid : Option String) (rid : String) :
    Keeps b (listContainers env cid oid rid b).2 := by
  unfold listContainers
  split
  · exact ⟨rfl, rfl, rfl⟩
  · exact keeps_inspectAll _

theorem keeps_copyToContainer (ctr path data rid : String) :
    Keeps b (copyToContainer env ctr path data rid b).2 := by
  unfold copyToContainer
  split
  · exact ⟨rfl, rfl, rfl⟩
  · exact keeps_onContainer _ _

theorem imageStep_pullImage (img rid : String) :
    ImageStep cfg env b.docker.images (.pull img rid)
      (pullImage cfg env img rid b).1
      (pullImage cfg env img rid b).2.docker.images := by
  have her : ∀ err, ImageStep cfg env b.docker.images (.pull img rid)
      (.error err rid) b.docker.images := by
    intro err
    refine .same (fun _ _ _ h => ?_) fun _ _ _ _ h => ?_
    · cases h
    · cases h
  unfold pullImage
  split
  · exact her _
  · next hv =>
    split
    · exact her _
    · exact .pull rfl rfl hv

theorem builtAt_insert_pulled {name : String} :
    BuiltAt (images.insert ref (.pulled name)) tag ↔ tag ≠ ref ∧ BuiltAt images tag := by
  unfold BuiltAt
  by_cases h : tag = ref
  · subst h
    simp
  · simp [h]

theorem builtAt_insert_built {ctx : Bytes} :
    BuiltAt (images.insert ref (.built ctx)) tag ↔ tag = ref ∨ BuiltAt images tag := by
  unfold BuiltAt
  by_cases h : tag = ref
  · subst h
    simp
  · simp [h]

theorem builtAt_iff_of_imageStep
    (h : ImageStep cfg call.input.1 images call.input.2 call.out images') :
    BuiltAt images' tag ↔ Builds tag call ∨ (BuiltAt images tag ∧ ¬ Pulls tag call) := by
  unfold Builds Pulls
  cases h with
  | same hp hb =>
    have hnb : ∀ ref d c r i l, ¬ (call.input.2 = .build ref d c r ∧
        call.input.1.tagOf ref = tag ∧ call.out = .built i l r) :=
      fun ref d c r i l h => hb ref d c r h.1 i l h.2.2
    have hnp : ∀ img r, ¬ (call.input.2 = .pull img r ∧
        call.input.1.tagOf img = tag ∧ call.out = .pulled img r) :=
      fun img r h => hp img r h.1 h.2.2
    simp [hnb, hnp]
  | pull hr ho hv =>
    rw [builtAt_insert_pulled, hr, ho]
    simp [eq_comm, and_comm]
  | @ensure config r hr hv hn =>
    rw [builtAt_insert_pulled, hr]
    have hne : BuiltAt images tag → tag ≠ call.input.1.tagOf config.image := by
      rintro ⟨ctx, hbl⟩ rfl
      rw [hn] at hbl
      cases hbl
    simp [and_iff_right_of_imp hne]
  | build ctx hr ho =>
    rw [builtAt_insert_built, hr, ho]
    simp [eq_comm]

variable [Float64 F]

theorem validateImage_of_validate (h : cfg.policy.validate cfg.lower config = .ok ()) :
    cfg.policy.validateImage cfg.lower config.image = .ok () := by
  unfold SecurityPolicy.validate at h
  cases hv : cfg.policy.validateImage cfg.lower config.image with
  | error err =>
    rw [hv] at h
    cases h
  | ok _ => rfl

theorem imageStep_createContainer (config : ContainerConfig F) (rid : String) :
    ImageStep cfg env b.docker.images (.create config rid)
      (createContainer cfg env config rid b).1
      (createContainer cfg env config rid b).2.docker.images := by
  have hs : ∀ out, ImageStep cfg env b.docker.images (.create config rid) out
      b.docker.images := by
    intro out
    refine .same (fun _ _ h => ?_) fun _ _ _ _ h => ?_
    · cases h
    · cases h
  have hen : cfg.policy.validate cfg.lower config = .ok () → ∀ out,
      ImageStep cfg env b.docker.images (.create config rid) out
        (ensureImage env config.image b).2.docker.images := by
    intro hv out
    rcases ensureImage_cases env config.image b with h | ⟨hn, h⟩
    · rw [h]
      exact hs out
    · rw [h]
      exact .ensure rfl (validateImage_of_validate hv) hn
  rcases createContainer_cases cfg env config rid b with h | ⟨hv, h | ⟨id, c, -, h⟩⟩
  · rw [h]
    exact hs _
  · rw [h]
    exact hen hv _
  · rw [h]
    exact hen hv _

/-- **What a request stores**: a pull an image that the policy admits, a build the client's. -/
theorem imageStep_handleRequest (cfg : BrokerConfig F) (env : DockerEnv σ) (req : Request F)
    (b : Broker σ) :
    ImageStep cfg env b.docker.images req (handleRequest cfg env req b).1
      (handleRequest cfg env req b).2.docker.images := by
  cases req with
  | create config rid => exact imageStep_createContainer config rid
  | pull img rid => exact imageStep_pullImage img rid
  | build ref df ctx rid =>
    have her : ∀ err, ImageStep cfg env b.docker.images
        (.build ref df ctx rid) (.error err rid) b.docker.images := by
      intro err
      refine .same (fun _ _ h => ?_) fun _ _ _ _ _ _ _ h => ?_
      · cases h
      · cases h
    rw [handleRequest]
    unfold buildImage
    split
    · split
      · exact her _
      · split
        · exact her _
        · exact .build _ rfl rfl
    · exact her _
  | start ctr rid | stop ctr ts rid
  | exec ctr command wd ts rid => exact .of_other nofun nofun (keeps_onContainer _ _).1
  | remove ctr force rid =>
    refine .of_other nofun nofun ?_
    rw [handleRequest]
    unfold removeContainer
    split
    · rfl
    · split
      · rfl
      · split
        · rfl
        · rfl
  | inspect ctr rid | logs ctr tail rid
  | copyFrom ctr path rid => exact .of_other nofun nofun (keeps_readContainer _ _).1
  | list cid oid rid => exact .of_other nofun nofun (keeps_listContainers _ _ _).1
  | ping rid => exact .of_other nofun nofun rfl
  | copyTo ctr path data rid => exact .of_other nofun nofun (keeps_copyToContainer _ _ _ _).1

/-! ## runs -/

def brokerNext (cfg : BrokerConfig F) (b : Broker σ) (input : DockerEnv σ × Request F) :
    Response × Broker σ :=
  handleRequest cfg input.1 input.2 b

/-- **The image of a tag** is a client's exactly when it was built and has not been pulled since. -/
theorem built_iff_since (hrun : MachineRun (brokerNext cfg) b₀ log b)
    (hem : b₀.docker.images = ∅) :
    BuiltAt b.docker.images tag ↔ Since (Builds tag) (Pulls tag) log := by
  refine Run.since_iff (P := fun b => BuiltAt b.docker.images tag) ?_ ?_ hrun
  · rw [hem]
    rintro ⟨ctx, h⟩
    cases h
  · intro s call s' hstep
    have him : ImageStep cfg call.input.1 s.docker.images call.input.2 call.out
        s'.docker.images := by
      rw [hstep.out_eq, hstep.after_eq]
      exact imageStep_handleRequest cfg call.input.1 call.input.2 s
    exact builtAt_iff_of_imageStep him

/-! ## the strict policy -/

theorem trusted_of_validateImage (hsr : cfg.policy = .strict) {image : String}
    (h : cfg.policy.validateImage cfg.lower image = .ok ()) : Trusted cfg.lower image := by
  rw [hsr, SecurityPolicy.validateImage] at h
  split at h
  · next hem => cases hem
  · split at h
    · next ha => simpa [SecurityPolicy.strict, Trusted] using ha
    · cases h

def PulledTrusted (images : HashMap String Image) : Prop :=
  ∀ tag name, images.lookup tag = some (.pulled name) → Trusted lower name

theorem PulledTrusted.insert_pulled {lower : String → String} {name : String}
    (h : PulledTrusted lower images) (hnm : Trusted lower name) :
    PulledTrusted lower (images.insert ref (.pulled name)) := by
  intro tag' name' hlk
  rcases (HashMap.lookup_insert_iff _ _ _ _ _).mp hlk with ⟨_, heq⟩ | ⟨_, hlk⟩
  · cases heq
    exact hnm
  · exact h tag' name' hlk

theorem pulledTrusted_of_imageStep (hsr : cfg.policy = .strict)
    (h : ImageStep cfg env images req out images') (hpl : PulledTrusted cfg.lower images) :
    PulledTrusted cfg.lower images' := by
  cases h with
  | same => exact hpl
  | pull _ _ hv | ensure _ hv _ =>
    exact hpl.insert_pulled (trusted_of_validateImage hsr hv)
  | build ctx _ _ =>
    intro tag' name' hlk
    rcases (HashMap.lookup_insert_iff _ _ _ _ _).mp hlk with ⟨_, heq⟩ | ⟨_, hlk⟩
    · cases heq
    · exact hpl tag' name' hlk

theorem pulledTrusted_of_run (hsr : cfg.policy = .strict)
    (hrun : MachineRun (brokerNext cfg) b₀ log b) (hem : b₀.docker.images = ∅) :
    PulledTrusted cfg.lower b.docker.images := by
  refine Run.invariant (P := fun b => PulledTrusted cfg.lower b.docker.images) ?_ ?_ hrun
  · rw [hem]
    intro tag name h
    cases h
  · intro s call s' hs hstep
    rw [hstep.after_eq]
    exact pulledTrusted_of_imageStep hsr
      (imageStep_handleRequest cfg call.input.1 call.input.2 s) hs

theorem fromRegistry_iff (hsr : cfg.policy = .strict)
    (hpl : PulledTrusted cfg.lower b.docker.images) (hcr : Creates cfg env b config id c) :
    c.runs.FromRegistry cfg.lower ↔ ¬ BuiltAt b.docker.images (env.tagOf config.image) := by
  obtain ⟨-, hrn, -⟩ := dockerCreate_ok hcr.created
  rcases ensureImage_cases env config.image b with h | ⟨hn, h⟩
  · rw [h] at hrn
    cases him : c.runs with
    | pulled name =>
      rw [him] at hrn
      refine iff_of_true ⟨name, rfl, hpl _ _ hrn⟩ ?_
      rintro ⟨ctx, hbl⟩
      rw [hrn] at hbl
      cases hbl
    | built ctx =>
      rw [him] at hrn
      refine iff_of_false ?_ fun hnt => hnt ⟨ctx, hrn⟩
      rintro ⟨name, heq, -⟩
      cases heq
  · rw [h] at hrn
    have him : some (Image.pulled config.image) = some c.runs :=
      (AList.lookup_insert _).symm.trans hrn
    refine iff_of_true ⟨config.image, (Option.some.inj him).symm, ?_⟩ ?_
    · exact trusted_of_validateImage hsr (validateImage_of_validate hcr.accepted)
    · rintro ⟨ctx, hbl⟩
      rw [hn] at hbl
      cases hbl

theorem creates_of_newIn {b' : Broker σ} (hstep : CallStep (brokerNext cfg) b call b')
    (hn : NewIn call id c) :
    call.input.2.Creates cfg call.input.1 b id c := by
  obtain ⟨hfr, hc⟩ := hn
  rw [hstep.1] at hfr
  rw [hstep.2.1, hstep.after_eq] at hc
  rcases reaches_handleRequest.containers.kept_or_created hc with ⟨c', hc', -⟩ | ⟨-, hcr⟩
  · exact absurd (AList.lookup_isSome.mp (by rw [hc']; rfl)) hfr
  · exact hcr

/-- **Only trusted images run**, under the strict policy and from no images, exactly when no
container is created from a tag that was built and not pulled since. -/
theorem only_trusted_iff (hrun : MachineRun (brokerNext cfg) b₀ log b)
    (hstrict : cfg.policy = .strict) (hempty : b₀.docker.images = ∅) :
    OnlyTrusted cfg.lower log ↔
      ∀ l₁ call l₂, log = l₁ ++ call :: l₂ → ∀ config requestId,
        call.input.2 = .create config requestId → (∃ id c, NewIn call id c) →
          ¬ Since (Builds (call.input.1.tagOf config.image))
            (Pulls (call.input.1.tagOf config.image)) l₁ := by
  have hcl : ∀ l₁ call l₂, log = l₁ ++ call :: l₂ → ∀ config requestId id c,
      call.input.2 = .create config requestId → NewIn call id c →
        (c.runs.FromRegistry cfg.lower ↔ ¬ Since (Builds (call.input.1.tagOf config.image))
          (Pulls (call.input.1.tagOf config.image)) l₁) := by
    intro l₁ call l₂ hlg config requestId id c hr hn
    rw [hlg] at hrun
    obtain ⟨s, hrun₁, hrs⟩ := Run.split hrun
    obtain ⟨s', hstep, -⟩ := Run.head hrs
    obtain ⟨cfg', rid', hr', hcr⟩ := creates_of_newIn hstep hn
    rw [hr] at hr'
    cases hr'
    rw [fromRegistry_iff hstrict (pulledTrusted_of_run hstrict hrun₁ hempty) hcr,
      built_iff_since hrun₁ hempty]
  constructor
  · rintro hon l₁ call l₂ hlg config requestId hr ⟨id, c, hn⟩
    refine (hcl l₁ call l₂ hlg config requestId id c hr hn).mp (hon call ?_ id c hn)
    rw [hlg]
    simp
  · intro h call hm id c hn
    obtain ⟨l₁, l₂, s, s', hlg, -, hstep, -⟩ := Run.mem_split hrun hm
    obtain ⟨config, requestId, hr, -⟩ := creates_of_newIn hstep hn
    exact (hcl l₁ call l₂ hlg config requestId id c hr hn).mpr
      (h l₁ call l₂ hlg config requestId hr ⟨id, c, hn⟩)

end

/-! ## an image of the platform -/

/-- the requests, answered by the small daemon -/
def plainRun (requests : List (Request Nat)) : List (BrokerCall Nat Nat) × Broker Nat :=
  trace (brokerNext strictBroker) .empty (requests.map fun request => (plainEnv, request))

def pullThenCreate : List (Request Nat) :=
  [.pull "ghcr.io/platformnetwork/agent" "1", .create (plainConfig "a" "a1") "2"]

def buildThenCreate : List (Request Nat) :=
  [.build "ghcr.io/platformnetwork/agent" "" none "1", .create (plainConfig "a" "a1") "2"]

theorem only_trusted_pulled :
    OnlyTrusted strictBroker.lower (plainRun pullThenCreate).1 ∧
      ((plainRun pullThenCreate).2.docker.containers.lookup "a1").map DockerContainer.runs =
        some (.pulled "ghcr.io/platformnetwork/agent") := by
  refine ⟨(only_trusted_iff (machineRun_trace _ _ _) rfl rfl).mpr ?_, by decide +kernel⟩
  rintro l₁ call l₂ hlg config rid _ _
    ⟨l, built, l', rfl, ⟨ref, dockerfile, context, r, imageId, logs, hbuild, -⟩, -⟩
  have hm : built ∈ (plainRun pullThenCreate).1 := by
    rw [plainRun, hlg]
    simp
  have hip : built.input ∈ pullThenCreate.map fun request => (plainEnv, request) := by
    have hiu := List.mem_map_of_mem (f := Call.input) hm
    rwa [plainRun, map_input_trace] at hiu
  obtain ⟨request, hr, heq⟩ := List.mem_map.mp hip
  rw [← heq] at hbuild
  simp only [pullThenCreate, List.mem_cons, List.not_mem_nil, or_false] at hr
  rcases hr with rfl | rfl
  · cases hbuild
  · cases hbuild

/-- A client's image runs under a trusted name. -/
theorem built_image_runs : ¬ OnlyTrusted strictBroker.lower (plainRun buildThenCreate).1 := by
  intro h
  have hrn : ((plainRun buildThenCreate).2.docker.containers.lookup "a1").map
      DockerContainer.runs = some (.built []) := by decide +kernel
  obtain ⟨c, hc, hbl⟩ := Option.map_eq_some_iff.mp hrn
  obtain ⟨name, hpl, -⟩ := h _ (.tail _ (.head _)) "a1" c ⟨by decide +kernel, hc⟩
  rw [hbl] at hpl
  cases hpl

end Platform.Container

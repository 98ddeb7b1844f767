import Platform.Container.Policy
import Platform.Core.Crypto
import Platform.Lib.Machine

/-!
# The container broker (`protocol.rs` and `broker.rs` of `secure-container-runtime`)

The broker turns requests into calls of the Docker daemon.  The daemon is modelled as its containers
and its images: a reference names at most one container, and a tag at most one image.  What happens
inside a container, and what else the daemon decides, is an argument of each call (`DockerEnv`).

* A container is looked up once for a request; its ports are read from the container it found.
* Archives (`tar`), base64 and the registry belong to the environment, and so do the texts of the
  daemon's errors.
* The audit log, which no result depends on, is left out.
-/

namespace Platform.Container
open Platform.Core Lib

/-! ## requests and responses -/

inductive Request (F : Type) where
  | create (config : ContainerConfig F) (requestId : String)
  | start (containerId requestId : String)
  | stop (containerId : String) (timeoutSecs : UInt32) (requestId : String)
  | remove (containerId : String) (force : Bool) (requestId : String)
  | exec (containerId : String) (command : List String) (workingDir : Option String)
      (timeoutSecs : UInt32) (requestId : String)
  | inspect (containerId requestId : String)
  | list (challengeId ownerId : Option String) (requestId : String)
  | logs (containerId : String) (tail : Nat) (requestId : String)
  | pull (image requestId : String)
  | build (tag dockerfile : String) (context : Option String) (requestId : String)
  | ping (requestId : String)
  | copyFrom (containerId path requestId : String)
  | copyTo (containerId path data requestId : String)

namespace Request
variable {F : Type}

def requestId : Request F → String
  | create _ r | start _ r | stop _ _ r | remove _ _ r | exec _ _ _ _ r | inspect _ r | list _ _ r
  | logs _ _ r | pull _ r | build _ _ _ r | ping r | copyFrom _ _ r | copyTo _ _ _ r => r

def challengeId : Request F → Option String
  | create config _ => some config.challengeId
  | list challengeId _ _ => challengeId
  | _ => none

end Request

inductive ContainerState where
  | running
  | paused
  | stopped
  | dead
  | unknown
deriving DecidableEq

structure ContainerInfo where
  id : String
  name : String
  challengeId : String
  ownerId : String
  image : String
  state : ContainerState
  createdAt : Int
  ports : HashMap UInt16 UInt16
  endpoint : Option String
  labels : HashMap String String

structure ExecResult where
  stdout : String
  stderr : String
  exitCode : Int32
  durationMs : UInt64
  timedOut : Bool
deriving DecidableEq

inductive Response where
  | created (containerId containerName requestId : String)
  | started (containerId : String) (ports : HashMap UInt16 UInt16) (endpoint : Option String)
      (requestId : String)
  | stopped (containerId requestId : String)
  | removed (containerId requestId : String)
  | execResult (result : ExecResult) (requestId : String)
  | info (info : ContainerInfo) (requestId : String)
  | containerList (containers : List ContainerInfo) (requestId : String)
  | logsResult (logs requestId : String)
  | pulled (image requestId : String)
  | built (imageId logs requestId : String)
  | pong (version requestId : String)
  | copyFromResult (data : String) (size : Nat) (requestId : String)
  | copyToResult (requestId : String)
  | error (error : ContainerError) (requestId : String)

/-! ## the daemon -/

inductive Image where
  | pulled (name : String)
  | built (context : Bytes)
deriving DecidableEq

structure DockerContainer (σ : Type) where
  name : String
  image : String
  runs : Image
  labels : HashMap String String
  content : σ

structure HostConfig where
  memory : Int64
  nanoCpus : Int64
  pidsLimit : Int64
  networkMode : String
  /-- the port of the container, the address and the port of the host -/
  portBindings : HashMap String (String × String)
  mounts : List MountConfig
  privileged : Bool
  autoRemove : Bool

structure DockerConfig where
  image : String
  hostname : String
  cmd : Option (List String)
  workingDir : Option String
  env : List String
  user : Option String
  labels : HashMap String String
  hostConfig : HostConfig

structure DockerError where
  status : Option Nat
  message : String

inductive AccessKind where
  | start
  | stop
  | remove
  | exec
  | inspect
  | list
  | logs
  | copyFrom
  | copyTo
deriving DecidableEq

/-- a call of the daemon that reached a container -/
structure Access where
  container : String
  kind : AccessKind
deriving DecidableEq

structure Docker (σ : Type) where
  containers : HashMap String (DockerContainer σ)
  images : HashMap String Image
  journal : List Access

/-- what the daemon decides during a call -/
structure DockerEnv (σ : Type) where
  /-- the id of the container that a reference names: an id, a name or the start of an id -/
  find : HashMap String (DockerContainer σ) → String → Option String
  find_mem : ∀ {containers ref id}, find containers ref = some id → id ∈ containers
  /-- the tag that a reference to an image stands for -/
  tagOf : String → String
  create : HashMap String (DockerContainer σ) → String → DockerConfig →
    Except DockerError (String × σ)
  create_new : ∀ {containers name config id content},
    create containers name config = .ok (id, content) → id ∉ containers
  start : σ → Except DockerError Unit × σ
  stop : UInt32 → σ → Except DockerError Unit × σ
  remove : Bool → σ → Except DockerError Unit
  exec : List String → Option String → UInt32 → σ → Except DockerError ExecResult × σ
  /-- the state, and the time of the creation if it can be read -/
  inspect : σ → ContainerState × Option Int
  ports : σ → HashMap UInt16 UInt16
  logs : Nat → σ → String
  download : String → σ → Except String Bytes
  upload : String → Bytes → σ → Except String Unit × σ
  /-- why containers cannot be listed -/
  listError : Option DockerError
  /-- why an image cannot be looked up, when it is not for want of it -/
  inspectImageError : Option DockerError
  pull : String → Except DockerError Unit
  /-- the id of the image and the log, or the error -/
  build : String → Bytes → Except String (String × String)
  decode64 : String → Except String Bytes
  encode64 : Bytes → String
  /-- an archive with one Dockerfile -/
  tar : Bytes → Bytes
  /-- the start of a new UUID -/
  uuid : String
  now : Int

/-! ## the broker -/

namespace Labels

def challengeId : String := "platform.challenge.id"
def ownerId : String := "platform.owner.id"
def createdBy : String := "platform.created-by"
def brokerVersion : String := "platform.broker.version"
def managed : String := "platform.managed"

end Labels

structure BrokerConfig (F : Type) where
  policy : SecurityPolicy F
  networkName : String
  version : String
  lower : String → String

structure Broker (σ : Type) where
  docker : Docker σ
  containersByChallenge : HashMap String (List String)
  containersByOwner : HashMap String (List String)

section
variable {F σ : Type} [Float64 F]

variable (cfg : BrokerConfig F) (env : DockerEnv σ) (ref : String) (containerId : String)
  (config : ContainerConfig F)

def lookupRef (d : Docker σ) (ref : String) : Option (String × DockerContainer σ) :=
  (env.find d.containers ref).bind fun id => (d.containers.lookup id).map fun c => (id, c)

/-- the daemon with one more call that reached a container -/
def Docker.reached (d : Docker σ) (id : String) (kind : AccessKind) : Docker σ :=
  { d with journal := d.journal ++ [⟨id, kind⟩] }

/-- a call of the daemon for one container: what it returns, and what it leaves in the container -/
def onContainer (kind : AccessKind) (ref : String) (missing : Response)
    (act : DockerContainer σ → Response × σ) (b : Broker σ) : Response × Broker σ :=
  match lookupRef env b.docker ref with
  | none => (missing, b)
  | some (id, c) =>
    ((act c).1, { b with docker := { b.docker.reached id kind with
      containers := b.docker.containers.insert id { c with content := (act c).2 } } })

/-- a call of the daemon that only reads a container -/
def readContainer (kind : AccessKind) (ref : String) (missing : Response)
    (act : DockerContainer σ → Response) (b : Broker σ) : Response × Broker σ :=
  match lookupRef env b.docker ref with
  | none => (missing, b)
  | some (id, c) => (act c, { b with docker := b.docker.reached id kind })

def noSuchContainer : ContainerError :=
  .dockerError ("No such container: " ++ ref)

def startContainer (containerId requestId : String) : Broker σ → Response × Broker σ :=
  onContainer env .start containerId (.error (noSuchContainer containerId) requestId) fun c =>
    match env.start c.content with
    | (.ok _, content) =>
      let ports := env.ports content
      let endpoint := (ports.lookup 8080).map fun p => "http://localhost:" ++ p.toNat.repr
      (.started containerId ports endpoint requestId, content)
    | (.error err, content) => (.error (.dockerError err.message) requestId, content)

def stopContainer (timeoutSecs : UInt32) (requestId : String) : Broker σ → Response × Broker σ :=
  onContainer env .stop containerId (.error (noSuchContainer containerId) requestId) fun c =>
    match env.stop timeoutSecs c.content with
    | (.ok _, content) => (.stopped containerId requestId, content)
    | (.error err, content) =>
      if err.status = some 304 then (.stopped containerId requestId, content)
      else (.error (.dockerError err.message) requestId, content)

def untrack (tracked : HashMap String (List String)) (containerId : String) :
    HashMap String (List String) :=
  tracked.mapValues fun ids => ids.filter fun id => id ≠ containerId

def removeContainer (force : Bool) (requestId : String) (b : Broker σ) : Response × Broker σ :=
  match lookupRef env b.docker containerId with
  | none => (.removed containerId requestId, b)
  | some (id, c) =>
    let reached := { b with docker := b.docker.reached id .remove }
    match env.remove force c.content with
    | .ok _ =>
      (.removed containerId requestId,
        { docker := { reached.docker with containers := b.docker.containers.erase id }
          containersByChallenge := untrack b.containersByChallenge containerId
          containersByOwner := untrack b.containersByOwner containerId })
    | .error err =>
      if err.status = some 404 then (.removed containerId requestId, reached)
      else (.error (.dockerError err.message) requestId, reached)

def execInContainer (command : List String) (workingDir : Option String) (timeoutSecs : UInt32)
    (requestId : String) : Broker σ → Response × Broker σ :=
  onContainer env .exec containerId (.error (noSuchContainer containerId) requestId) fun c =>
    match env.exec command workingDir timeoutSecs c.content with
    | (.ok result, content) => (.execResult result requestId, content)
    | (.error err, content) => (.error (.dockerError err.message) requestId, content)

/-- the information about a container, under the id it was asked for -/
def containerInfo (c : DockerContainer σ) : ContainerInfo where
  id := containerId
  name := c.name
  challengeId := (c.labels.lookup Labels.challengeId).getD ""
  ownerId := (c.labels.lookup Labels.ownerId).getD ""
  image := c.image
  state := (env.inspect c.content).1
  createdAt := (env.inspect c.content).2.getD env.now
  ports := env.ports c.content
  endpoint := none
  labels := c.labels

def inspectContainer (containerId requestId : String) : Broker σ → Response × Broker σ :=
  readContainer env .inspect containerId (.error (.containerNotFound containerId) requestId)
    fun c => .info (containerInfo env containerId c) requestId

def hasLabel (c : DockerContainer σ) (label : String) (value : Option String) : Bool :=
  match value with
  | some v => decide (c.labels.lookup label = some v)
  | none => true

/-- The container passes the filters of `list_containers`. -/
def matchesFilters (challengeId ownerId : Option String) (c : DockerContainer σ) : Bool :=
  hasLabel c Labels.managed (some "true") && hasLabel c Labels.challengeId challengeId &&
    hasLabel c Labels.ownerId ownerId

/-- the first 12 characters of an id -/
def shortId (id : String) : String := .ofList (id.toList.take 12)

/-- the loop of `list_containers` over the ids that the daemon has listed -/
def inspectAll (env : DockerEnv σ) : List String → Broker σ → List ContainerInfo × Broker σ
  | [], b => ([], b)
  | id :: ids, b =>
    match inspectContainer env (shortId id) "" b with
    | (.info info _, b) => Prod.map (info :: ·) (fun b => b) (inspectAll env ids b)
    | (_, b) => inspectAll env ids b

def listedIds (challengeId ownerId : Option String) (d : Docker σ) : List String :=
  ((d.containers.pairs fun c => c).filter fun p => matchesFilters challengeId ownerId p.2).map
    Prod.fst

def listContainers (challengeId ownerId : Option String) (requestId : String) (b : Broker σ) :
    Response × Broker σ :=
  match env.listError with
  | some err => (.error (.dockerError err.message) requestId, b)
  | none =>
    let ids := listedIds challengeId ownerId b.docker
    let listed := { b with docker := { b.docker with
      journal := b.docker.journal ++ ids.map fun id => ⟨id, .list⟩ } }
    Prod.map (fun infos => .containerList infos requestId) (fun b => b) (inspectAll env ids listed)

def getLogs (tail : Nat) (requestId : String) : Broker σ → Response × Broker σ :=
  readContainer env .logs containerId (.logsResult "" requestId) fun c =>
    .logsResult (env.logs tail c.content) requestId

def storeImage (image : Image) (b : Broker σ) : Broker σ :=
  { b with docker := { b.docker with images := b.docker.images.insert (env.tagOf ref) image } }

def pullImage (image requestId : String) (b : Broker σ) : Response × Broker σ :=
  match cfg.policy.validateImage cfg.lower image with
  | .error err => (.error err requestId, b)
  | .ok _ =>
    match env.pull image with
    | .error err => (.error (.dockerError err.message) requestId, b)
    | .ok _ => (.pulled image requestId, storeImage env image (.pulled image) b)

def buildContext (dockerfile : String) (context : Option String) :
    ContainerResult Bytes := do
  let tarBuffer ← match context with
    | some data => (env.decode64 data).mapError fun e =>
        .invalidConfig ("Invalid base64 context: " ++ e)
    | none => .ok []
  let content ← (env.decode64 dockerfile).mapError fun e =>
    ContainerError.invalidConfig ("Invalid base64 dockerfile: " ++ e)
  return if tarBuffer.isEmpty then env.tar content else tarBuffer

/-- The tags that `build_image` allows. -/
def buildable (tag : String) : Bool := startsWith tag "term-compiler:" || startsWith tag "ghcr.io/"

def buildImage (tag dockerfile : String) (context : Option String) (requestId : String)
    (b : Broker σ) : Response × Broker σ :=
  if buildable tag then
    match buildContext env dockerfile context with
    | .error err => (.error err requestId, b)
    | .ok data =>
      match env.build tag data with
      | .error msg => (.error (.dockerError msg) requestId, b)
      | .ok (imageId, logs) => (.built imageId logs requestId, storeImage env tag (.built data) b)
  else (.error (.policyViolation ("Image tag not allowed: " ++ tag)) requestId, b)

def copyFromContainer (containerId path requestId : String) : Broker σ → Response × Broker σ :=
  readContainer env .copyFrom containerId
    (.error (.dockerError ("Failed to download from container: No such container: " ++
      containerId)) requestId) fun c =>
    match env.download path c.content with
    | .error msg => .error (.dockerError msg) requestId
    | .ok data => .copyFromResult (env.encode64 data) data.length requestId

def copyToContainer (containerId path data requestId : String) (b : Broker σ) :
    Response × Broker σ :=
  match env.decode64 data with
  | .error e => (.error (.invalidConfig ("Invalid base64 data: " ++ e)) requestId, b)
  | .ok bytes =>
    onContainer env .copyTo containerId
      (.error (.dockerError ("Failed to upload to container: No such container: " ++
        containerId)) requestId) (fun c =>
      match env.upload path bytes c.content with
      | (.ok _, content) => (.copyToResult requestId, content)
      | (.error msg, content) => (.error (.dockerError msg) requestId, content)) b

def ensureImage (image : String) (b : Broker σ) : Except String Unit × Broker σ :=
  match env.inspectImageError with
  | some err => (.error ("Failed to inspect image: " ++ err.message), b)
  | none =>
    match b.docker.images.lookup (env.tagOf image) with
    | some _ => (.ok (), b)
    | none =>
      match env.pull image with
      | .error err => (.error ("Failed to pull image: " ++ err.message), b)
      | .ok _ => (.ok (), storeImage env image (.pulled image) b)

def containerName : String :=
  config.name.getD ("platform-" ++
    .ofList ((cfg.lower config.challengeId).toList.map fun ch => if ch = ' ' then '-' else ch) ++
    "-" ++ env.uuid)

def containerLabels : HashMap String String :=
  ((((config.labels.insert Labels.challengeId config.challengeId).insert
    Labels.ownerId config.ownerId).insert
    Labels.createdBy "secure-container-runtime").insert
    Labels.brokerVersion cfg.version).insert Labels.managed "true"

/-- what the daemon is asked to create -/
def dockerConfig : DockerConfig where
  image := config.image
  hostname := containerName cfg env config
  cmd := config.cmd
  workingDir := config.workingDir
  env := (config.env.pairs fun v => v).map fun p => p.1 ++ "=" ++ p.2
  user := config.user
  labels := containerLabels cfg config
  hostConfig :=
    { memory := config.resources.memoryBytes
      nanoCpus := Float64.nanos config.resources.cpuCores
      pidsLimit := config.resources.pidsLimit
      networkMode := match config.network.mode with
        | .none => "none"
        | .bridge => "bridge"
        | .isolated => cfg.networkName
      portBindings := HashMap.collect ((config.network.ports.pairs fun p => p).map fun p =>
        (p.1.toNat.repr ++ "/tcp", "127.0.0.1", p.2.toNat.repr))
      mounts := config.mounts
      privileged := false
      autoRemove := false }

def track (tracked : HashMap String (List String)) (key containerId : String) :
    HashMap String (List String) :=
  tracked.insert key ((tracked.lookup key).getD [] ++ [containerId])

def trackedCount (tracked : HashMap String (List String)) (key : String) : Nat :=
  ((tracked.lookup key).getD []).length

/-- the daemon's call at the end of `create_container`: the image must be there -/
def dockerCreate (b : Broker σ) : Except DockerError (String × DockerContainer σ) :=
  match b.docker.images.lookup (env.tagOf config.image) with
  | none => .error ⟨some 404, "No such image: " ++ config.image⟩
  | some image =>
    (env.create b.docker.containers (containerName cfg env config)
      (dockerConfig cfg env config)).map fun created =>
        (created.1, ⟨containerName cfg env config, config.image, image, containerLabels cfg config,
          created.2⟩)

def createContainer (requestId : String) (b : Broker σ) : Response × Broker σ :=
  match cfg.policy.validate cfg.lower config with
  | .error err => (.error err requestId, b)
  | .ok _ =>
    match ensureImage env config.image b with
    | (.error msg, b) => (.error (.dockerError msg) requestId, b)
    | (.ok _, b) =>
      match cfg.policy.checkContainerLimit config.challengeId
          (trackedCount b.containersByChallenge config.challengeId) with
      | .error err => (.error err requestId, b)
      | .ok _ =>
        match cfg.policy.checkOwnerLimit config.ownerId
            (trackedCount b.containersByOwner config.ownerId) with
        | .error err => (.error err requestId, b)
        | .ok _ =>
          match dockerCreate cfg env config b with
          | .error err => (.error (.dockerError err.message) requestId, b)
          | .ok (id, c) =>
            (.created (shortId id) (containerName cfg env config) requestId,
              { docker := { b.docker with containers := b.docker.containers.insert id c }
                containersByChallenge :=
                  track b.containersByChallenge config.challengeId (shortId id)
                containersByOwner := track b.containersByOwner config.ownerId (shortId id) })

def handleRequest (request : Request F) (b : Broker σ) : Response × Broker σ :=
  match request with
  | .ping requestId => (.pong cfg.version requestId, b)
  | .create config requestId => createContainer cfg env config requestId b
  | .start containerId requestId => startContainer env containerId requestId b
  | .stop containerId timeoutSecs requestId => stopContainer env containerId timeoutSecs requestId b
  | .remove containerId force requestId => removeContainer env containerId force requestId b
  | .exec containerId command workingDir timeoutSecs requestId =>
    execInContainer env containerId command workingDir timeoutSecs requestId b
  | .inspect containerId requestId => inspectContainer env containerId requestId b
  | .list challengeId ownerId requestId => listContainers env challengeId ownerId requestId b
  | .logs containerId tail requestId => getLogs env containerId tail requestId b
  | .pull image requestId => pullImage cfg env image requestId b
  | .build tag dockerfile context requestId => buildImage env tag dockerfile context requestId b
  | .copyFrom containerId path requestId => copyFromContainer env containerId path requestId b
  | .copyTo containerId path data requestId => copyToContainer env containerId path data requestId b

end

/-! ## a small daemon -/

def plainEnv : DockerEnv Nat where
  find containers ref := if ref ∈ containers then some ref else none
  find_mem := by
    intro containers ref id h
    split at h
    · next hmem =>
      cases h
      exact hmem
    · cases h
  tagOf ref := ref
  create containers name _ :=
    if name ∈ containers then .error ⟨some 409, "name in use"⟩ else .ok (name, 0)
  create_new := by
    intro containers name config id content h
    split at h
    · cases h
    · next hnew =>
      cases h
      exact hnew
  start n := (.ok (), n + 1)
  stop _ n := (.ok (), n + 1)
  remove _ _ := .ok ()
  exec _ _ _ n := (.ok ⟨"", "", 0, 0, false⟩, n + 1)
  inspect _ := (.running, some 0)
  ports _ := ∅
  logs _ _ := ""
  download _ _ := .ok []
  upload _ _ n := (.ok (), n + 1)
  listError := none
  inspectImageError := none
  pull _ := .ok ()
  build _ _ := .ok ("image", "")
  decode64 _ := .ok []
  encode64 _ := ""
  tar data := data
  uuid := "0"
  now := 0

def plainConfig (challengeId name : String) : ContainerConfig Nat where
  image := "ghcr.io/platformnetwork/agent"
  challengeId := challengeId
  ownerId := "owner"
  name := some name
  cmd := none
  env := ∅
  workingDir := none
  resources := ⟨0, 0, 0, 0⟩
  network := ⟨.none, ∅, false⟩
  mounts := []
  labels := ∅
  user := none

def strictBroker : BrokerConfig Nat := ⟨.strict, "platform-network", "0.1.0", fun s => s⟩

/-- nothing is there yet -/
def Broker.empty : Broker Nat := ⟨⟨∅, ∅, []⟩, ∅, ∅⟩

end Platform.Container

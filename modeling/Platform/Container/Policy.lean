import Platform.Lib.Paths

/-!
# The security policy of the container broker

The source is `types.rs` and `policy.rs` of `secure-container-runtime`.

* An `f64` is a type with the operations that are used of it (`Float64`); what a number is compared
  with may be no number, so its order is arbitrary.
* The set of forbidden paths is the list of its elements: the check gives one error for all of them.
-/

namespace Platform.Container
open Lib

/-! ## types -/

/-- what is used of `f64` -/
class Float64 (F : Type) where
  ofNat : Nat → F
  lt : F → F → Bool
  display : F → String
  /-- `(x * 1_000_000_000.0) as i64` -/
  nanos : F → Int64

/-- numbers of cores without a fraction -/
instance : Float64 Nat where
  ofNat n := n
  lt a b := decide (a < b)
  display n := n.repr
  nanos n := .ofNat (n * 10 ^ 9)

inductive ContainerError where
  | imageNotWhitelisted (image : String)
  | policyViolation (msg : String)
  | containerNotFound (containerId : String)
  | resourceLimitExceeded (msg : String)
  | invalidConfig (msg : String)
  | dockerError (msg : String)
  | unauthorized (msg : String)
  | invalidRequest (msg : String)
deriving DecidableEq

abbrev ContainerResult (α : Type) := Except ContainerError α

structure MountConfig where
  source : String
  target : String
  readOnly : Bool
deriving DecidableEq

structure ResourceLimits (F : Type) where
  memoryBytes : Int64
  cpuCores : F
  pidsLimit : Int64
  diskQuotaBytes : UInt64

inductive NetworkMode where
  | none
  | bridge
  | isolated
deriving DecidableEq

structure NetworkConfig where
  mode : NetworkMode
  ports : HashMap UInt16 UInt16
  allowInternet : Bool

structure ContainerConfig (F : Type) where
  image : String
  challengeId : String
  ownerId : String
  name : Option String
  cmd : Option (List String)
  env : HashMap String String
  workingDir : Option String
  resources : ResourceLimits F
  network : NetworkConfig
  mounts : List MountConfig
  labels : HashMap String String
  user : Option String

/-! ## texts -/

def startsWith (s start : String) : Bool := start.toList.isPrefixOf s.toList

/-- `str::contains` -/
def containsText (s part : String) : Bool := decide (part.toList <:+: s.toList)

theorem startsWith_iff {s start : String} :
    startsWith s start = true ↔ start.toList <+: s.toList := List.isPrefixOf_iff_prefix

/-! ## the policy -/

structure SecurityPolicy (F : Type) where
  allowedImagePrefixes : List String
  maxMemoryBytes : Int64
  maxCpuCores : F
  maxPids : Int64
  maxContainersPerChallenge : Nat
  maxContainersPerOwner : Nat
  allowedMountPrefixes : List String
  forbiddenMountPaths : List String
  allowDockerSocket : Bool

namespace SecurityPolicy
variable {F : Type} [Float64 F]

def default : SecurityPolicy F where
  allowedImagePrefixes := ["ghcr.io/platformnetwork/", "platform-"]
  maxMemoryBytes := 8 * 1024 * 1024 * 1024
  maxCpuCores := Float64.ofNat 4
  maxPids := 512
  maxContainersPerChallenge := 100
  maxContainersPerOwner := 200
  allowedMountPrefixes := ["/tmp/", "/var/lib/platform/", "/var/lib/docker/volumes/"]
  forbiddenMountPaths := ["/var/run/docker.sock", "/run/docker.sock", "/etc/passwd", "/etc/shadow",
    "/etc/sudoers", "/root", "/home", "/proc", "/sys", "/dev"]
  allowDockerSocket := false

def strict : SecurityPolicy F :=
  { (default : SecurityPolicy F) with allowedImagePrefixes := ["ghcr.io/platformnetwork/"] }

def development : SecurityPolicy F :=
  { (default : SecurityPolicy F) with
    allowedMountPrefixes := (default : SecurityPolicy F).allowedMountPrefixes ++
      ["/workspace/", "/var/lib/docker/volumes/"] }

def validateImage (lower : String → String) (p : SecurityPolicy F) (image : String) :
    ContainerResult Unit :=
  if p.allowedImagePrefixes.isEmpty then .ok ()
  else if p.allowedImagePrefixes.any fun start => startsWith (lower image) (lower start) then
    .ok ()
  else .error (.imageNotWhitelisted image)

/-- one of the checks of `validate_resources` -/
def exceeds (what asked max : String) : ContainerError :=
  .resourceLimitExceeded (what ++ " limit " ++ asked ++ " exceeds maximum " ++ max)

def validateResources (p : SecurityPolicy F) (r : ResourceLimits F) : ContainerResult Unit :=
  if p.maxMemoryBytes < r.memoryBytes then
    .error (exceeds "Memory" (toString r.memoryBytes) (toString p.maxMemoryBytes))
  else if Float64.lt p.maxCpuCores r.cpuCores then
    .error (exceeds "CPU" (Float64.display r.cpuCores) (Float64.display p.maxCpuCores))
  else if p.maxPids < r.pidsLimit then
    .error (exceeds "PID" (toString r.pidsLimit) (toString p.maxPids))
  else .ok ()

/-- one step of the fold over the components of a mount source -/
def normalizeStep (acc : List Char) : PathComponent → List Char
  | .parentDir => popPath acc
  | .normal name => pushPath acc name
  -- pushing an absolute path replaces what is there
  | .rootDir => ['/']
  | .curDir => acc

/-- the normalised source of a mount -/
def normalized (source : String) : String :=
  .ofList ((pathComponents source.toList).foldl normalizeStep [])

def validateMount (p : SecurityPolicy F) (m : MountConfig) : ContainerResult Unit :=
  if containsText m.source ".." then
    .error (.policyViolation ("Path traversal not allowed: " ++ m.source))
  else if p.forbiddenMountPaths.any fun forbidden =>
      startsWith (normalized m.source) forbidden || normalized m.source == forbidden then
    .error (.policyViolation ("Mount path '" ++ m.source ++ "' is forbidden"))
  else if (containsText m.source "docker.sock" ||
      containsText (normalized m.source) "docker.sock") && !p.allowDockerSocket then
    .error (.policyViolation "Docker socket mounting is not allowed")
  else if p.allowedMountPrefixes.any fun start => startsWith (normalized m.source) start then
    .ok ()
  else .error (.policyViolation ("Mount source '" ++ m.source ++ "' is not in allowed paths"))

def validateMounts (p : SecurityPolicy F) : List MountConfig → ContainerResult Unit
  | [] => .ok ()
  | m :: rest =>
    match p.validateMount m with
    | .error err => .error err
    | .ok _ => p.validateMounts rest

/-- `validate`; `validate_network` accepts everything -/
def validate (lower : String → String) (p : SecurityPolicy F) (c : ContainerConfig F) :
    ContainerResult Unit := do
  p.validateImage lower c.image
  p.validateResources c.resources
  p.validateMounts c.mounts
  if c.challengeId.isEmpty then throw (.invalidConfig "challenge_id is required")
  if c.ownerId.isEmpty then throw (.invalidConfig "owner_id is required")

def limitReached (who id : String) (limit : Nat) : ContainerError :=
  .resourceLimitExceeded
    (who ++ " '" ++ id ++ "' has reached maximum container limit (" ++ limit.repr ++ ")")

def checkContainerLimit (p : SecurityPolicy F) (challengeId : String) (currentCount : Nat) :
    ContainerResult Unit :=
  if p.maxContainersPerChallenge ≤ currentCount then
    .error (limitReached "Challenge" challengeId p.maxContainersPerChallenge)
  else .ok ()

def checkOwnerLimit (p : SecurityPolicy F) (ownerId : String) (currentCount : Nat) :
    ContainerResult Unit :=
  if p.maxContainersPerOwner ≤ currentCount then
    .error (limitReached "Owner" ownerId p.maxContainersPerOwner)
  else .ok ()

end SecurityPolicy

end Platform.Container

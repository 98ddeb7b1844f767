import Platform.Container.Images

/-!
# The quotas of challenges and owners

The broker keeps the short ids of the containers it has created, one list for each challenge and one
for each owner, and refuses a container when the list is full.  An id leaves the lists only when a
request removes a container under just that text.  Containers also go in other ways: under their
name, their full id or another start of it, and without the broker.
-/

namespace Platform.Container
open Platform.Core Lib List AList

/-- what the containers are counted by -/
inductive QuotaKind where
  | challenge
  | owner

def QuotaKind.label : QuotaKind → String
  | challenge => Labels.challengeId
  | owner => Labels.ownerId

def QuotaKind.keyOf {F : Type} (config : ContainerConfig F) : QuotaKind → String
  | challenge => config.challengeId
  | owner => config.ownerId

section
variable {F σ : Type}

variable (b : Broker σ) (kind : QuotaKind) (key : String)

def Broker.tracked : QuotaKind → HashMap String (List String)
  | .challenge => b.containersByChallenge
  | .owner => b.containersByOwner

/-- the short ids that are listed for a challenge or an owner -/
def Broker.listed : List String :=
  ((b.tracked kind).lookup key).getD []

/-- the containers that are there for a challenge or an owner -/
def Broker.liveIds : List String :=
  ((b.docker.containers.pairs fun c => c).filter fun p =>
    decide (p.2.labels.lookup kind.label = some key)).map Prod.fst

def NoDead : Prop :=
  ∀ kind key, ∀ short ∈ b.listed kind key, ∃ id ∈ b.liveIds kind key, shortId id = short

/-! ## runs -/

/-- a request, or a container that goes without the broker -/
inductive DaemonInput (F σ : Type) where
  | request (env : DockerEnv σ) (request : Request F)
  | vanish (id : String)

abbrev QuotaCall (F σ : Type) := Call (Broker σ) (DaemonInput F σ) (Option Response)

def Starts (config : ContainerConfig F) (id : String) (call : QuotaCall F σ) : Prop :=
  (∃ env requestId, call.input = .request env (.create config requestId)) ∧
    id ∉ call.before.docker.containers ∧ id ∈ call.after.docker.containers

def StartsFor (key id : String) (call : QuotaCall F σ) : Prop :=
  ∃ config, Starts config id call ∧ kind.keyOf config = key

def Unlists (ref : String) (call : QuotaCall F σ) : Prop :=
  (∃ env force requestId, call.input = .request env (.remove ref force requestId)) ∧
    ∃ id, id ∈ call.before.docker.containers ∧ id ∉ call.after.docker.containers

def IsRemoved (call : QuotaCall F σ) : Prop :=
  ∃ containerId requestId, call.out = some (.removed containerId requestId)

/-- The daemon gives no id twice. -/
def FreshIds (log : List (QuotaCall F σ)) : Prop :=
  log.Pairwise fun call later => ∀ config config' id, Starts config id call →
    ¬ Starts config' id later

/-- Every container of the challenge or owner is there, or its short id has been removed since; a
container with the same short id may stand for it. -/
def Cleared (l : List (QuotaCall F σ)) (b : Broker σ) : Prop :=
  ∀ l₁ call l₂ id, l = l₁ ++ call :: l₂ → StartsFor kind key id call →
    (∃ id' ∈ b.liveIds kind key, shortId id' = shortId id) ∨
      ∃ later ∈ l₂, Unlists (shortId id) later

/-- Every container of the challenge or owner is there itself, or its short id has been removed
since. -/
def AllCleared (l : List (QuotaCall F σ)) (b : Broker σ) : Prop :=
  ∀ l₁ call l₂ id, l = l₁ ++ call :: l₂ → StartsFor kind key id call →
    id ∈ b.docker.containers ∨ ∃ later ∈ l₂, Unlists (shortId id) later

inductive TrackStep (s : Broker σ) (call : QuotaCall F σ) (s' : Broker σ) : Prop
  | same (hstarts : ∀ config id, ¬ Starts config id call) (hunlists : ∀ ref, ¬ Unlists ref call)
      (htracked : ∀ kind, s'.tracked kind = s.tracked kind) : TrackStep s call s'
  | create {config : ContainerConfig F} {id : String}
      (hstarts : ∀ config' id', Starts config' id' call ↔ config' = config ∧ id' = id)
      (hunlists : ∀ ref, ¬ Unlists ref call)
      (htracked : ∀ kind,
        s'.tracked kind = track (s.tracked kind) (kind.keyOf config) (shortId id)) :
      TrackStep s call s'
  | remove {ref : String} (hstarts : ∀ config id, ¬ Starts config id call)
      (hunlists : ∀ ref', Unlists ref' call ↔ ref' = ref)
      (htracked : ∀ kind, s'.tracked kind = untrack (s.tracked kind) ref) : TrackStep s call s'

variable {env : DockerEnv σ} {b : Broker σ} {kind : QuotaKind} {key : String}

/-! ## the lists -/

theorem mem_liveIds {id : String} :
    id ∈ b.liveIds kind key ↔
      ∃ c, b.docker.containers.lookup id = some c ∧ c.labels.lookup kind.label = some key := by
  unfold Broker.liveIds
  rw [mem_map]
  constructor
  · rintro ⟨⟨_, c⟩, hmem, rfl⟩
    obtain ⟨hpr, hlb⟩ := mem_filter.mp hmem
    obtain ⟨c', hc', rfl⟩ := (HashMap.mem_pairs _ _ _ _).mp hpr
    exact ⟨c', hc', of_decide_eq_true hlb⟩
  · rintro ⟨c, hc, hlb⟩
    exact ⟨(id, c), mem_filter.mpr ⟨(HashMap.mem_pairs _ _ _ _).mpr ⟨c, hc, rfl⟩,
      decide_eq_true hlb⟩, rfl⟩

/-! ## the functions of the broker -/

theorem Keeps.tracked {b' : Broker σ} (h : Keeps b b') : b'.tracked kind = b.tracked kind := by
  cases kind with
  | challenge => exact h.2.1
  | owner => exact h.2.2

theorem tracked_storeImage {ref : String} (img : Image) :
    (storeImage env ref img b).tracked kind = b.tracked kind := by
  cases kind
  · rfl
  · rfl

variable {cfg : BrokerConfig F}

theorem tracked_ensureImage (img : String) :
    (ensureImage env img b).2.tracked kind = b.tracked kind := by
  rcases ensureImage_cases env img b with h | ⟨-, h⟩
  · rw [h]
  · rw [h]
    exact tracked_storeImage _

theorem removeContainer_tracked {ref rid : String} {force : Bool} {b b' : Broker σ}
    (h : b' = (removeContainer env ref force rid b).2) :
    (b'.docker.containers = b.docker.containers ∧ ∀ kind, b'.tracked kind = b.tracked kind) ∨
      ∃ id ∈ b.docker.containers, b'.docker.containers = b.docker.containers.erase id ∧
        ∀ kind, b'.tracked kind = untrack (b.tracked kind) ref := by
  subst h
  unfold removeContainer
  rcases lookupRef_cases env b.docker ref with ⟨-, hrf⟩ | ⟨id, c, hfn, hc, hrf⟩
  · rw [hrf]
    exact .inl ⟨rfl, fun _ => rfl⟩
  · rw [hrf]
    dsimp only
    have hs : ∀ kind,
        ({ b with docker := b.docker.reached id .remove } : Broker σ).tracked kind =
          b.tracked kind := by
      intro kind
      cases kind
      · rfl
      · rfl
    split
    · refine .inr ⟨id, env.find_mem hfn, rfl, fun kind => ?_⟩
      cases kind
      · rfl
      · rfl
    · split
      · exact .inl ⟨rfl, hs⟩
      · exact .inl ⟨rfl, hs⟩

theorem lookup_label_containerLabels (config : ContainerConfig F) :
    (containerLabels cfg config).lookup kind.label = some (kind.keyOf config) := by
  cases kind with
  | challenge => exact lookup_containerLabels cfg config
  | owner =>
    exact (lookup_insert_ne (by decide)).trans ((lookup_insert_ne (by decide)).trans
      ((lookup_insert_ne (by decide)).trans (lookup_insert _)))

variable {s s' b₀ : Broker σ} {call : QuotaCall F σ} {log : List (QuotaCall F σ)}

theorem not_starts
    (h : ∀ env cfg rid, call.input ≠ .request env (.create cfg rid))
    (cfg : ContainerConfig F) (id : String) : ¬ Starts cfg id call :=
  fun ⟨⟨env, rid, hip⟩, _⟩ => h env cfg rid hip

theorem not_unlists
    (h : ∀ env ref force rid, call.input ≠ .request env (.remove ref force rid))
    (ref : String) : ¬ Unlists ref call :=
  fun ⟨⟨env, force, rid, hip⟩, _⟩ => h env ref force rid hip

theorem TrackStep.of_same
    (hs : call.after.docker.containers = call.before.docker.containers)
    (ht : ∀ kind, call.after.tracked kind = call.before.tracked kind) :
    TrackStep call.before call call.after := by
  refine .same ?_ ?_ ht
  · rintro cfg id ⟨-, hnew, hth⟩
    exact hnew (hs ▸ hth)
  · rintro ref ⟨-, id, hth, hg⟩
    exact hg (hs ▸ hth)

theorem trackStep_remove {ref rid : String} {force : Bool}
    (hip : call.input = .request env (.remove ref force rid))
    (ha : call.after = (removeContainer env ref force rid call.before).2) :
    TrackStep call.before call call.after := by
  rcases removeContainer_tracked ha with ⟨hs, ht⟩ | ⟨id, hid, hcn, ht⟩
  · exact .of_same hs ht
  · refine .remove (not_starts ?_) ?_ ht
    · simp [hip]
    · intro ref'
      constructor
      · rintro ⟨⟨env', force', requestId', h⟩, -⟩
        rw [hip] at h
        cases h
        rfl
      · rintro rfl
        refine ⟨⟨env, force, rid, hip⟩, id, hid, ?_⟩
        simp [hcn, hid]

structure Lists (log : List (QuotaCall F σ)) (b : Broker σ) (kind : QuotaKind) (key : String)
    (ids : List String) : Prop where
  short : b.listed kind key = ids.map shortId
  since : ∀ id, id ∈ ids ↔ Since (StartsFor kind key id) (Unlists (shortId id)) log
  nodup : FreshIds log → ids.Nodup

theorem lists_step {ids : List String} (h : Lists log s kind key ids)
    (hstep : TrackStep s call s') : ∃ ids', Lists (log ++ [call]) s' kind key ids' := by
  have ho : FreshIds (log ++ [call]) → ids.Nodup := fun hfr => h.nodup (pairwise_append.mp hfr).1
  cases hstep with
  | same hs hu ht =>
    refine ⟨ids, ?_, ?_, ho⟩
    · rw [Broker.listed, ht]
      exact h.short
    · intro id
      rw [since_snoc, ← h.since]
      have hnt : ¬ StartsFor kind key id call := by
        rintro ⟨cfg, hsr, -⟩
        exact hs cfg id hsr
      simp [hnt, hu]
  | @create cfg id hs hu ht =>
    have hls : s'.listed kind key =
        if kind.keyOf cfg = key then s.listed kind key ++ [shortId id]
        else s.listed kind key := by
      rw [Broker.listed, ht, track]
      by_cases hk : kind.keyOf cfg = key
      · rw [hk, lookup_insert, if_pos rfl]
        rfl
      · rw [lookup_insert_ne (Ne.symm hk), if_neg hk]
        rfl
    have hf : ∀ id', StartsFor kind key id' call ↔ kind.keyOf cfg = key ∧ id' = id := by
      intro id'
      constructor
      · rintro ⟨cfg', hsr, hk⟩
        obtain ⟨rfl, rfl⟩ := (hs cfg' id').mp hsr
        exact ⟨hk, rfl⟩
      · rintro ⟨hk, rfl⟩
        exact ⟨cfg, (hs cfg id').mpr ⟨rfl, rfl⟩, hk⟩
    by_cases hk : kind.keyOf cfg = key
    · refine ⟨ids ++ [id], ?_, ?_, ?_⟩
      · rw [hls, if_pos hk, h.short, map_append]
        rfl
      · intro id'
        rw [since_snoc, ← h.since, hf]
        simp [hu, hk, or_comm]
      · intro hfr
        have hn : id ∉ ids := by
          intro hm
          obtain ⟨l₁, start, l₂, hlg, ⟨cfg', hsr, -⟩, -⟩ := (h.since id).mp hm
          refine (pairwise_append.mp hfr).2.2 start ?_ call mem_cons_self cfg'
            cfg id hsr ((hs cfg id).mpr ⟨rfl, rfl⟩)
          rw [hlg]
          simp
        refine nodup_append.mpr ⟨ho hfr, nodup_singleton id, ?_⟩
        intro id' hid' id'' hid''
        rw [mem_singleton.mp hid'']
        intro heq
        exact hn (heq ▸ hid')
    · refine ⟨ids, ?_, ?_, ho⟩
      · rw [hls, if_neg hk]
        exact h.short
      · intro id'
        rw [since_snoc, ← h.since, hf]
        simp [hu, hk]
  | @remove ref hs hu ht =>
    refine ⟨ids.filter fun id => shortId id ≠ ref, ?_, ?_, fun hfr => (ho hfr).filter _⟩
    · have hls : s'.listed kind key = (s.listed kind key).filter fun short => short ≠ ref := by
        rw [Broker.listed, ht, untrack, HashMap.lookup_mapValues, Broker.listed]
        cases (s.tracked kind).lookup key <;> rfl
      rw [hls, h.short, filter_map]
      rfl
    · intro id
      have hnt : ¬ StartsFor kind key id call := by
        rintro ⟨cfg, hsr, -⟩
        exact hs cfg id hsr
      rw [since_snoc, ← h.since, hu]
      simp [hnt]

variable [Float64 F]

theorem createContainer_tracked {config : ContainerConfig F} {rid : String}
    {b b' : Broker σ} (h : b' = (createContainer cfg env config rid b).2) :
    (b'.docker.containers = b.docker.containers ∧ ∀ kind, b'.tracked kind = b.tracked kind) ∨
      ∃ id c, id ∉ b.docker.containers ∧ b'.docker.containers = b.docker.containers.insert id c ∧
        ∀ kind, b'.tracked kind = track (b.tracked kind) (kind.keyOf config) (shortId id) := by
  subst h
  have hcn := (docker_ensureImage env config.image b).2
  have ht : ∀ kind, (ensureImage env config.image b).2.tracked kind = b.tracked kind :=
    fun kind => tracked_ensureImage config.image
  unfold createContainer
  split
  · exact .inl ⟨rfl, fun _ => rfl⟩
  · split
    · next hen =>
      rw [hen] at hcn ht
      exact .inl ⟨hcn, ht⟩
    · next hen =>
      rw [hen] at hcn ht
      split
      · exact .inl ⟨hcn, ht⟩
      · split
        · exact .inl ⟨hcn, ht⟩
        · split
          · exact .inl ⟨hcn, ht⟩
          · next id c hcr =>
            refine .inr ⟨id, c, ?_, ?_, ?_⟩
            · rw [← hcn]
              exact (dockerCreate_ok hcr).1
            · rw [← hcn]
            · intro kind
              rw [← ht kind]
              cases kind
              · rfl
              · rfl

theorem tracked_handleRequest {req : Request F}
    (hcr : ∀ config r, req ≠ .create config r)
    (hrm : ∀ ref force r, req ≠ .remove ref force r) :
    (handleRequest cfg env req b).2.tracked kind = b.tracked kind := by
  cases req with
  | create config rid => exact absurd rfl (hcr _ _)
  | remove ctr force rid => exact absurd rfl (hrm _ _ _)
  | pull img rid =>
    rw [handleRequest, pullImage]
    split
    · rfl
    · split
      · rfl
      · exact tracked_storeImage _
  | build tag df ctx rid =>
    rw [handleRequest, buildImage]
    split
    · split
      · rfl
      · split
        · rfl
        · exact tracked_storeImage _
    · rfl
  | start ctr rid | stop ctr ts rid
  | exec ctr command wd ts rid => exact (keeps_onContainer _ _).tracked
  | inspect ctr rid | logs ctr tail rid
  | copyFrom ctr path rid => exact (keeps_readContainer _ _).tracked
  | list cid oid rid => exact (keeps_listContainers _ _ _).tracked
  | ping rid => rfl
  | copyTo ctr path data rid => exact (keeps_copyToContainer _ _ _ _).tracked

/-! ## one step -/

def quotaNext (cfg : BrokerConfig F) (b : Broker σ) :
    DaemonInput F σ → Option Response × Broker σ
  | .request env request => Prod.map some (fun b => b) (handleRequest cfg env request b)
  | .vanish id =>
    (none, { b with docker := { b.docker with containers := b.docker.containers.erase id } })

theorem trackStep_create {config : ContainerConfig F} {rid : String}
    (hip : call.input = .request env (.create config rid))
    (ha : call.after = (createContainer cfg env config rid call.before).2) :
    TrackStep call.before call call.after := by
  rcases createContainer_tracked ha with ⟨hs, ht⟩ | ⟨id, c, hn, hcn, ht⟩
  · exact .of_same hs ht
  · refine .create ?_ (not_unlists ?_) ht
    · intro cfg' id'
      constructor
      · rintro ⟨⟨env', requestId', h⟩, hn', hth⟩
        rw [hip] at h
        cases h
        rw [hcn, mem_insert] at hth
        exact ⟨rfl, hth.resolve_right hn'⟩
      · rintro ⟨rfl, rfl⟩
        refine ⟨⟨env, rid, hip⟩, hn, ?_⟩
        rw [hcn, mem_insert]
        exact .inl rfl
    · simp [hip]

/-- **What a step does to the lists.** -/
theorem trackStep_quotaNext (hstep : CallStep (quotaNext cfg) s call s') : TrackStep s call s' := by
  obtain ⟨rfl, rfl, -⟩ := id hstep
  have ha := hstep.after_eq
  cases hip : call.input with
  | vanish id =>
    rw [hip] at ha
    refine .same (not_starts (by simp [hip])) (not_unlists (by simp [hip])) fun kind => ?_
    rw [ha]
    cases kind
    · rfl
    · rfl
  | request env request =>
    rw [hip] at ha
    by_cases hcr : ∃ config requestId, request = .create config requestId
    · obtain ⟨config, requestId, rfl⟩ := hcr
      exact trackStep_create hip ha
    · by_cases hrm : ∃ ref force requestId, request = .remove ref force requestId
      · obtain ⟨ref, force, requestId, rfl⟩ := hrm
        exact trackStep_remove hip ha
      · push Not at hcr hrm
        refine .same (not_starts ?_) (not_unlists ?_) fun kind => ?_
        · simp [hip, hcr]
        · simp [hip, hrm]
        · rw [ha]
          exact tracked_handleRequest hcr hrm

variable (hrun : MachineRun (quotaNext cfg) b₀ log b)

include hrun in
/-- **The lists, read off the calls.** -/
theorem listed_of_run (hem : ∀ kind, b₀.tracked kind = ∅) (kind : QuotaKind) (key : String) :
    ∃ ids, Lists log b kind key ids := by
  refine Run.logInvariant (P := fun l b => ∃ ids, Lists l b kind key ids) ?_ ?_ hrun
  · refine ⟨[], ?_, ?_, fun _ => nodup_nil⟩
    · rw [Broker.listed, hem]
      rfl
    · intro id
      exact iff_of_false not_mem_nil not_since_nil
  · rintro l s call s' - ⟨ids, his⟩ hstep
    exact lists_step his (trackStep_quotaNext hstep)

include hrun in
theorem noDead_iff
    (hem : ∀ kind, b₀.tracked kind = ∅) : NoDead b ↔ ∀ kind key, Cleared kind key log b := by
  constructor
  · intro hlv kind key l₁ call l₂ id hlg hsr
    obtain ⟨ids, his⟩ := listed_of_run hrun hem kind key
    by_cases hu : ∃ later ∈ l₂, Unlists (shortId id) later
    · exact .inr hu
    · refine .inl (hlv kind key (shortId id) ?_)
      rw [his.short]
      refine mem_map_of_mem ((his.since id).mpr ⟨l₁, call, l₂, hlg, hsr, ?_⟩)
      intro later hlt hun
      exact hu ⟨later, hlt, hun⟩
  · intro hcl kind key short hsh
    obtain ⟨ids, his⟩ := listed_of_run hrun hem kind key
    rw [his.short] at hsh
    obtain ⟨id, hid, rfl⟩ := mem_map.mp hsh
    obtain ⟨l₁, call, l₂, hlg, hsr, hk⟩ := (his.since id).mp hid
    rcases hcl kind key l₁ call l₂ id hlg hsr with hlv | ⟨later, hlt, hun⟩
    · exact hlv
    · exact absurd hun (hk later hlt)

/-! ## the labels and the count -/

theorem labels_step (hstep : CallStep (quotaNext cfg) s call s') {id : String}
    {c' : DockerContainer σ} (hc' : s'.docker.containers.lookup id = some c') :
    (∃ c, s.docker.containers.lookup id = some c ∧ c'.labels = c.labels) ∨
      ∃ config, Starts config id call ∧ c'.labels = containerLabels cfg config := by
  have ha := hstep.after_eq
  cases hip : call.input with
  | vanish gone =>
    rw [ha, hip] at hc'
    exact .inl ⟨c', ((HashMap.lookup_erase_iff _ _ _ _).mp hc').2, rfl⟩
  | request env request =>
    have hth := HashMap.mem_of_lookup hc'
    rw [ha, hip] at hc'
    have hh : (handleRequest cfg env request s).2.docker.containers.lookup id = some c' := hc'
    rcases reaches_handleRequest.containers.kept_or_created hh with
      ⟨c, hc, heq⟩ | ⟨hnew, config, requestId, rfl, hcr⟩
    · refine .inl ⟨c, hc, ?_⟩
      rw [heq]
    · refine .inr ⟨config, ⟨⟨env, requestId, hip⟩, ?_, ?_⟩, (dockerCreate_ok hcr.created).2.2⟩
      · rwa [hstep.1]
      · rwa [hstep.2.1]

include hrun in
theorem label_of_run (hfr : FreshIds log) {l₁ l₂ : List (QuotaCall F σ)} {id : String}
    (hlg : log = l₁ ++ call :: l₂) (hsr : StartsFor kind key id call)
    (hth : id ∈ b.docker.containers) :
    id ∈ b.liveIds kind key := by
  obtain ⟨cfg, hs, hk⟩ := hsr
  rw [hlg] at hrun hfr
  obtain ⟨s, -, hr⟩ := Run.split hrun
  obtain ⟨s', hstep, hrun₂⟩ := Run.head hr
  have hlt : ∀ later ∈ l₂, ∀ cfg', ¬ Starts cfg' id later := by
    intro later hm cfg'
    exact rel_of_pairwise_cons (pairwise_append.mp hfr).2.1 hm cfg cfg' id hs
  -- the label is right after the call, and no later call starts the id again
  have hlb : ∀ c, b.docker.containers.lookup id = some c →
      c.labels.lookup kind.label = some key := by
    refine Run.guarded (P := fun b => ∀ c, b.docker.containers.lookup id = some c →
      c.labels.lookup kind.label = some key) ?_ ?_ hrun₂ hlt
    · intro c hc
      rcases labels_step hstep hc with ⟨c₀, hc₀, -⟩ | ⟨cfg', hs', hlb⟩
      · rw [← hstep.1] at hc₀
        exact absurd (HashMap.mem_of_lookup hc₀) hs.2.1
      · obtain ⟨env, rid, hip⟩ := hs.1
        obtain ⟨env', rid', hip'⟩ := hs'.1
        rw [hip] at hip'
        cases hip'
        rw [hlb, lookup_label_containerLabels, hk]
    · intro t later t' hll hno hstep' c hc
      rcases labels_step hstep' hc with ⟨c₀, hc₀, heq⟩ | ⟨cfg', hs', -⟩
      · rw [heq]
        exact hll c₀ hc₀
      · exact absurd hs' (hno cfg')
  obtain ⟨c, hc⟩ := Option.isSome_iff_exists.mp (lookup_isSome.mpr hth)
  exact mem_liveIds.mpr ⟨c, hc, hlb c hc⟩

include hrun in
theorem length_listed_le (hem : ∀ kind, b₀.tracked kind = ∅) (hfr : FreshIds log)
    (hcl : AllCleared kind key log b) :
    (b.listed kind key).length ≤ (b.liveIds kind key).length := by
  obtain ⟨ids, his⟩ := listed_of_run hrun hem kind key
  rw [his.short, length_map]
  refine ((his.nodup hfr).subperm ?_).length_le
  intro id hid
  obtain ⟨l₁, call, l₂, hlg, hsr, hk⟩ := (his.since id).mp hid
  rcases hcl l₁ call l₂ id hlg hsr with hth | ⟨later, hlt, hu⟩
  · exact label_of_run hrun hfr hlg hsr hth
  · exact absurd hu (hk later hlt)

/-- **Quotas count live containers.**  After a container is reported as removed the lists have no
dead ids exactly when every container that is gone has been removed under its short id; and a
challenge that has cleared its containers in this way is not refused while it has fewer than its
quota. -/
theorem quotas_count_live (hrun : MachineRun (quotaNext cfg) b₀ log b)
    (hempty : ∀ kind, b₀.tracked kind = ∅) (hfresh : FreshIds log) :
    ((∀ l₁ call l₂, log = l₁ ++ call :: l₂ → IsRemoved call → NoDead call.after) ↔
        ∀ l₁ call l₂, log = l₁ ++ call :: l₂ → IsRemoved call →
          ∀ kind key, Cleared kind key (l₁ ++ [call]) call.after) ∧
      ∀ l₁ call l₂ env config requestId, log = l₁ ++ call :: l₂ →
        call.input = .request env (.create config requestId) →
        AllCleared .challenge config.challengeId l₁ call.before →
        (call.before.liveIds .challenge config.challengeId).length <
          cfg.policy.maxContainersPerChallenge →
        cfg.policy.checkContainerLimit config.challengeId
          (trackedCount call.before.containersByChallenge config.challengeId) = .ok () := by
  constructor
  · refine forall_congr' fun l₁ => forall_congr' fun call => forall_congr' fun l₂ =>
      forall_congr' fun hlg => forall_congr' fun _ => ?_
    rw [hlg] at hrun
    obtain ⟨s, hrun₁, hr⟩ := Run.split hrun
    obtain ⟨s', hstep, -⟩ := Run.head hr
    rw [hstep.2.1]
    exact noDead_iff (.snoc hrun₁ hstep) hempty
  · intro l₁ call l₂ env config requestId hlg hip hcl hlv
    rw [hlg] at hrun hfresh
    obtain ⟨s, hrun₁, hr⟩ := Run.split hrun
    obtain ⟨s', hstep, -⟩ := Run.head hr
    rw [hstep.1] at hcl hlv ⊢
    have hle := length_listed_le hrun₁ hempty (pairwise_append.mp hfresh).1 hcl
    have hcn : trackedCount s.containersByChallenge config.challengeId =
        (s.listed .challenge config.challengeId).length := rfl
    rw [SecurityPolicy.checkContainerLimit, if_neg (by omega)]

end

/-! ## a container that is removed under its name -/

section
variable {σ : Type}

def resolve (containers : HashMap String (DockerContainer σ)) (ref : String) : Option String :=
  if ref ∈ containers then some ref
  else
    match (containers.pairs fun c => c.name).find? fun p => p.2 == ref with
    | some p => some p.1
    | none =>
      match containers.keys.filter fun id => startsWith id ref with
      | [id] => some id
      | _ => none

theorem resolve_mem {containers : HashMap String (DockerContainer σ)} {ref id : String}
    (h : resolve containers ref = some id) : id ∈ containers := by
  unfold resolve at h
  split at h
  · next hm =>
    cases h
    exact hm
  · split at h
    · next p hfn =>
      cases h
      obtain ⟨c, hc, -⟩ := (HashMap.mem_pairs _ _ _ _).mp (mem_of_find?_eq_some hfn)
      exact HashMap.mem_of_lookup hc
    · split at h
      · next id' hfl =>
        cases h
        have hm : id ∈ containers.keys.filter fun id => startsWith id ref := by
          rw [hfl]
          exact mem_cons_self
        exact (mem_filter.mp hm).1
      · cases h

end

def namedEnv : DockerEnv Nat :=
  { plainEnv with
    find := resolve
    find_mem := resolve_mem
    create := fun containers name _ =>
      if name ++ "0123456789abcdef" ∈ containers then .error ⟨some 409, "name in use"⟩
      else .ok (name ++ "0123456789abcdef", 0)
    create_new := by
      intro containers name config id content h
      split at h
      · cases h
      · next hnew =>
        cases h
        exact hnew }

def oneEach : BrokerConfig Nat :=
  ⟨{ SecurityPolicy.strict with maxContainersPerChallenge := 1 }, "platform-network", "0.1.0",
    fun s => s⟩

def firstCreated : QuotaCall Nat Nat :=
  (record (quotaNext oneEach) .empty (.request namedEnv (.create (plainConfig "a" "a1") "1"))).1

/-- it is removed under a reference -/
def thenRemoved (ref : String) : QuotaCall Nat Nat :=
  (record (quotaNext oneEach) firstCreated.after (.request namedEnv (.remove ref false "2"))).1

/-- and another one is created for the same challenge -/
def thenCreated (ref : String) : QuotaCall Nat Nat :=
  (record (quotaNext oneEach) (thenRemoved ref).after
    (.request namedEnv (.create (plainConfig "a" "a2") "3"))).1

def replaceRun (ref : String) : List (QuotaCall Nat Nat) :=
  [firstCreated, thenRemoved ref, thenCreated ref]

theorem tracked_empty (kind : QuotaKind) : Broker.empty.tracked kind = ∅ := by
  cases kind
  · rfl
  · rfl

theorem starts_firstCreated {cfg : ContainerConfig Nat} {id : String}
    (h : Starts cfg id firstCreated) : id = "a10123456789abcdef" := by
  obtain ⟨-, -, hth⟩ := h
  have hk : id ∈ ["a10123456789abcdef"] := hth
  exact mem_singleton.mp hk

theorem not_starts_thenRemoved {ref id : String} {cfg : ContainerConfig Nat} :
    ¬ Starts cfg id (thenRemoved ref) := by
  rintro ⟨⟨env, requestId, hip⟩, -⟩
  cases hip

/-- The container that was created is removed under its short id, and its list is empty again. -/
theorem removed_by_short_id :
    NoDead (thenRemoved "a10123456789").after ∧
      (thenRemoved "a10123456789").out = some (.removed "a10123456789" "2") := by
  have hrun : MachineRun (quotaNext oneEach) .empty [firstCreated, thenRemoved "a10123456789"] _ :=
    machineRun_trace (quotaNext oneEach) .empty
      [.request namedEnv (.create (plainConfig "a" "a1") "1"),
        .request namedEnv (.remove "a10123456789" false "2")]
  have hfr : FreshIds [firstCreated, thenRemoved "a10123456789"] :=
    pairwise_pair.mpr fun _ _ _ _ => not_starts_thenRemoved
  have hu : Unlists "a10123456789" (thenRemoved "a10123456789") :=
    ⟨⟨namedEnv, false, "2", rfl⟩, "a10123456789abcdef", by decide +kernel, by decide +kernel⟩
  refine ⟨(quotas_count_live hrun tracked_empty hfr).1.mpr ?_ [_] _ [] rfl ⟨_, _, rfl⟩, rfl⟩
  intro l₁ call l₂ hlg hrm kind key
  rcases l₁ with _ | ⟨first, _ | ⟨second, l₁⟩⟩
  · obtain ⟨rfl, -⟩ := cons.inj hlg
    obtain ⟨ctr, rid, ho⟩ := hrm
    cases ho
  · obtain ⟨rfl, rfl, -⟩ := hlg
    rintro l₁ call l₂ id hsp ⟨cfg, hstarts, -⟩
    rcases l₁ with _ | ⟨first, _ | ⟨second, l₁⟩⟩
    · obtain ⟨rfl, rfl⟩ := hsp
      rw [starts_firstCreated hstarts]
      exact .inr ⟨_, mem_cons_self, hu⟩
    · obtain ⟨-, rfl, -⟩ := hsp
      exact absurd hstarts not_starts_thenRemoved
    · simp at hsp
  · simp at hlg

/-- A container that is removed under its name stays listed, and the next one is refused although
none is there. -/
theorem removed_by_name_leaks :
    (¬ ∀ l₁ call l₂, replaceRun "a1" = l₁ ++ call :: l₂ → IsRemoved call → NoDead call.after) ∧
      (thenCreated "a1").before.liveIds .challenge "a" = [] ∧
      (replaceRun "a1").map Call.out =
        [some (.created "a10123456789" "a1" "1"), some (.removed "a1" "2"),
          some (.error (SecurityPolicy.limitReached "Challenge" "a" 1) "3")] := by
  refine ⟨?_, by decide +kernel, rfl⟩
  intro h
  have hls : "a10123456789" ∈ (thenRemoved "a1").after.listed .challenge "a" := by decide +kernel
  obtain ⟨id, hid, -⟩ := h [_] _ [_] rfl ⟨"a1", "2", rfl⟩ .challenge "a" _ hls
  have hn : (thenRemoved "a1").after.liveIds .challenge "a" = [] := by decide +kernel
  rw [hn] at hid
  cases hid

end Platform.Container

import Platform.Container.Broker

/-!
# The containers that a request reaches

A request reaches the containers that its references name, and those that it lists (`accesses`); it
changes none but these, and creates one when it is a request to create it.
-/

namespace Platform.Container
open Platform.Core Lib List AList

section
variable {F σ : Type}

variable (ids : List String) (env : DockerEnv σ)

def Request.target : Request F → Option (AccessKind × String)
  | .start containerId _ => some (.start, containerId)
  | .stop containerId _ _ => some (.stop, containerId)
  | .remove containerId _ _ => some (.remove, containerId)
  | .exec containerId _ _ _ _ => some (.exec, containerId)
  | .inspect containerId _ => some (.inspect, containerId)
  | .logs containerId _ _ => some (.logs, containerId)
  | .copyFrom containerId _ _ => some (.copyFrom, containerId)
  | .copyTo containerId _ data _ =>
    match env.decode64 data with
    | .ok _ => some (.copyTo, containerId)
    | .error _ => none
  | _ => none

def refAccesses (d : Docker σ) (kind : AccessKind) (ref : String) : List Access :=
  ((env.find d.containers ref).map fun id => ⟨id, kind⟩).toList

def listAccesses (d : Docker σ) (ids : List String) : List Access :=
  ids.map (fun id => ⟨id, .list⟩) ++ ids.flatMap fun id => refAccesses env d .inspect (shortId id)

/-- the containers that a request reaches -/
def accesses (d : Docker σ) (request : Request F) : List Access :=
  match request with
  | .list challengeId ownerId _ =>
    if env.listError.isSome then [] else listAccesses env d (listedIds challengeId ownerId d)
  | request =>
    match request.target env with
    | some (kind, ref) => refAccesses env d kind ref
    | none => []

inductive Change (reached : List Access) (created : String → DockerContainer σ → Prop)
    (m : HashMap String (DockerContainer σ)) : HashMap String (DockerContainer σ) → Prop
  | same : Change reached created m m
  | update {id : String} {c : DockerContainer σ} {kind : AccessKind} (content : σ)
      (hc : m.lookup id = some c) (hreached : ⟨id, kind⟩ ∈ reached) :
      Change reached created m (m.insert id { c with content := content })
  | erase {id : String} {kind : AccessKind} (hreached : ⟨id, kind⟩ ∈ reached) :
      Change reached created m (m.erase id)
  | create {id : String} {c : DockerContainer σ} (hnew : id ∉ m) (hcreated : created id c) :
      Change reached created m (m.insert id c)

structure Reaches (b : Broker σ) (reached : List Access)
    (created : String → DockerContainer σ → Prop) (b' : Broker σ) : Prop where
  journal : b'.docker.journal = b.docker.journal ++ reached
  containers : Change reached created b.docker.containers b'.docker.containers

structure Creates [Float64 F] (cfg : BrokerConfig F) (env : DockerEnv σ) (b : Broker σ)
    (config : ContainerConfig F) (id : String) (c : DockerContainer σ) : Prop where
  accepted : cfg.policy.validate cfg.lower config = .ok ()
  created : dockerCreate cfg env config (ensureImage env config.image b).2 = .ok (id, c)

variable {env : DockerEnv σ} {b b' : Broker σ} {d : Docker σ} {ref : String} {kind : AccessKind}
  {reached : List Access} {created : String → DockerContainer σ → Prop}
  {m m' : HashMap String (DockerContainer σ)}

theorem Change.frame (h : Change reached created m m') {id : String} (hid : id ∈ m)
    (hnt : ∀ a ∈ reached, a.container ≠ id) : m'.lookup id = m.lookup id := by
  cases h with
  | same => rfl
  | update txt hc hr => exact lookup_insert_ne (hnt _ hr).symm
  | erase hr => exact lookup_erase_ne (hnt _ hr).symm
  | create hn hcr =>
    refine lookup_insert_ne fun heq => hn ?_
    rwa [← heq]

theorem Change.kept_or_created (h : Change reached created m m') {id : String}
    {c' : DockerContainer σ} (hc' : m'.lookup id = some c') :
    (∃ c, m.lookup id = some c ∧ c' = { c with content := c'.content }) ∨
      (id ∉ m ∧ created id c') := by
  cases h with
  | same => exact .inl ⟨c', hc', rfl⟩
  | @update id₀ c _ content hc _ =>
    by_cases heq : id = id₀
    · subst heq
      rw [lookup_insert] at hc'
      cases hc'
      exact .inl ⟨c, hc, rfl⟩
    · rw [lookup_insert_ne heq] at hc'
      exact .inl ⟨c', hc', rfl⟩
  | erase _ => exact .inl ⟨c', ((HashMap.lookup_erase_iff _ _ _ _).mp hc').2, rfl⟩
  | @create id₀ c hn hcr =>
    by_cases heq : id = id₀
    · subst heq
      rw [lookup_insert] at hc'
      cases hc'
      exact .inr ⟨hn, hcr⟩
    · rw [lookup_insert_ne heq] at hc'
      exact .inl ⟨c', hc', rfl⟩

theorem mem_refAccesses {a : Access} :
    a ∈ refAccesses env d kind ref ↔
      env.find d.containers ref = some a.container ∧ a.kind = kind := by
  unfold refAccesses
  cases env.find d.containers ref with
  | none => simp
  | some id =>
    simp only [Option.map_some, Option.toList_some, mem_singleton, Option.some.injEq]
    constructor
    · rintro rfl
      exact ⟨rfl, rfl⟩
    · rintro ⟨rfl, rfl⟩
      rfl

theorem mem_listedIds {cid oid : Option String} {id : String} :
    id ∈ listedIds cid oid d ↔
      ∃ c, d.containers.lookup id = some c ∧ matchesFilters cid oid c = true := by
  unfold listedIds
  rw [mem_map]
  constructor
  · rintro ⟨⟨_, c⟩, hmem, rfl⟩
    obtain ⟨hpr, hm⟩ := mem_filter.mp hmem
    obtain ⟨c', hc', rfl⟩ := (HashMap.mem_pairs _ _ _ _).mp hpr
    exact ⟨c', hc', hm⟩
  · rintro ⟨c, hc, hm⟩
    exact ⟨(id, c), mem_filter.mpr ⟨(HashMap.mem_pairs _ _ _ _).mpr ⟨c, hc, rfl⟩, hm⟩, rfl⟩

/-! ## the functions of the broker -/

theorem Reaches.nothing (b : Broker σ) : Reaches b [] created b := ⟨(append_nil _).symm, .same⟩

theorem lookupRef_cases (env : DockerEnv σ) (d : Docker σ) (ref : String) :
    (env.find d.containers ref = none ∧ lookupRef env d ref = none) ∨
      ∃ id c, env.find d.containers ref = some id ∧ d.containers.lookup id = some c ∧
        lookupRef env d ref = some (id, c) := by
  unfold lookupRef
  cases hfn : env.find d.containers ref with
  | none => exact .inl ⟨rfl, rfl⟩
  | some id =>
    obtain ⟨c, hc⟩ := Option.isSome_iff_exists.mp (lookup_isSome.mpr (env.find_mem hfn))
    refine .inr ⟨id, c, rfl, hc, ?_⟩
    rw [Option.bind_some, hc]
    rfl

theorem reaches_of_find {id : String} (hfn : env.find b.docker.containers ref = some id)
    (hj : b'.docker.journal = b.docker.journal ++ [⟨id, kind⟩])
    (hch : Change [⟨id, kind⟩] created b.docker.containers b'.docker.containers) :
    Reaches b (refAccesses env b.docker kind ref) created b' := by
  have ha : refAccesses env b.docker kind ref = [⟨id, kind⟩] := by
    rw [refAccesses, hfn]
    rfl
  rw [ha]
  exact ⟨hj, hch⟩

theorem reaches_of_notFound (hfn : env.find b.docker.containers ref = none) :
    Reaches b (refAccesses env b.docker kind ref) created b := by
  have ha : refAccesses env b.docker kind ref = [] := by
    rw [refAccesses, hfn]
    rfl
  rw [ha]
  exact .nothing b

theorem reaches_onContainer (mis : Response) (act : DockerContainer σ → Response × σ) :
    Reaches b (refAccesses env b.docker kind ref) created
      (onContainer env kind ref mis act b).2 := by
  unfold onContainer
  rcases lookupRef_cases env b.docker ref with ⟨hfn, hrf⟩ | ⟨id, c, hfn, hc, hrf⟩
  · rw [hrf]
    exact reaches_of_notFound hfn
  · rw [hrf]
    exact reaches_of_find hfn rfl (.update _ hc mem_cons_self)

theorem reaches_readContainer (mis : Response) (act : DockerContainer σ → Response) :
    Reaches b (refAccesses env b.docker kind ref) created
      (readContainer env kind ref mis act b).2 := by
  unfold readContainer
  rcases lookupRef_cases env b.docker ref with ⟨hfn, hrf⟩ | ⟨id, c, hfn, hc, hrf⟩
  · rw [hrf]
    exact reaches_of_notFound hfn
  · rw [hrf]
    exact reaches_of_find hfn rfl .same

theorem reaches_removeContainer (force : Bool) (rid : String) :
    Reaches b (refAccesses env b.docker .remove ref) created
      (removeContainer env ref force rid b).2 := by
  unfold removeContainer
  rcases lookupRef_cases env b.docker ref with ⟨hfn, hrf⟩ | ⟨id, c, hfn, hc, hrf⟩
  · rw [hrf]
    exact reaches_of_notFound hfn
  · rw [hrf]
    dsimp only
    split
    · exact reaches_of_find hfn rfl (.erase mem_cons_self)
    · split
      · exact reaches_of_find hfn rfl .same
      · exact reaches_of_find hfn rfl .same

theorem containers_readContainer (mis : Response) (act : DockerContainer σ → Response) :
    (readContainer env kind ref mis act b).2.docker.containers = b.docker.containers := by
  unfold readContainer
  split
  · rfl
  · rfl

theorem inspectAll_cons (id : String) (ids : List String) :
    (inspectAll env (id :: ids) b).2 =
      (inspectAll env ids (inspectContainer env (shortId id) "" b).2).2 := by
  rw [inspectAll]
  split
  · next his =>
    rw [his]
    rfl
  · next his =>
    rw [his]

theorem containers_inspectAll :
    (inspectAll env ids b).2.docker.containers = b.docker.containers := by
  induction ids generalizing b with
  | nil => rfl
  | cons id ids ih =>
    rw [inspectAll_cons, ih]
    exact containers_readContainer _ _

theorem journal_inspectAll :
    (inspectAll env ids b).2.docker.journal =
      b.docker.journal ++ ids.flatMap fun id => refAccesses env b.docker .inspect (shortId id) := by
  induction ids generalizing b with
  | nil => exact (append_nil _).symm
  | cons id ids ih =>
    have hs : (inspectContainer env (shortId id) "" b).2.docker.containers =
        b.docker.containers := containers_readContainer _ _
    have hfr : Reaches b (refAccesses env b.docker .inspect (shortId id)) (fun _ _ => False)
        (inspectContainer env (shortId id) "" b).2 := reaches_readContainer _ _
    rw [inspectAll_cons, ih, hfr.journal, flatMap_cons, append_assoc]
    simp only [refAccesses, hs]

theorem reaches_listContainers (cid oid : Option String) (rid : String) :
    Reaches b
      (if env.listError.isSome then []
        else listAccesses env b.docker (listedIds cid oid b.docker)) created
      (listContainers env cid oid rid b).2 := by
  unfold listContainers
  cases env.listError with
  | some err => exact .nothing b
  | none =>
    refine ⟨?_, ?_⟩
    · show (inspectAll env _ _).2.docker.journal = _
      rw [journal_inspectAll]
      exact append_assoc _ _ _
    · show Change _ _ _ (inspectAll env _ _).2.docker.containers
      rw [containers_inspectAll]
      exact .same

variable {cfg : BrokerConfig F} {request : Request F}

theorem reaches_storeImage (img : Image) : Reaches b [] created (storeImage env ref img b) :=
  ⟨(append_nil _).symm, .same⟩

theorem reaches_pullImage (img rid : String) :
    Reaches b [] created (pullImage cfg env img rid b).2 := by
  unfold pullImage
  split
  · exact .nothing b
  · split
    · exact .nothing b
    · exact reaches_storeImage _

theorem reaches_buildImage (tag df : String) (ctx : Option String)
    (rid : String) :
    Reaches b [] created (buildImage env tag df ctx rid b).2 := by
  unfold buildImage
  split
  · split
    · exact .nothing b
    · split
      · exact .nothing b
      · exact reaches_storeImage _
  · exact .nothing b

theorem ensureImage_cases (env : DockerEnv σ) (img : String) (b : Broker σ) :
    (ensureImage env img b).2 = b ∨
      (b.docker.images.lookup (env.tagOf img) = none ∧
        (ensureImage env img b).2 = storeImage env img (.pulled img) b) := by
  unfold ensureImage
  split
  · exact .inl rfl
  · split
    · exact .inl rfl
    · next hlk =>
      split
      · exact .inl rfl
      · exact .inr ⟨hlk, rfl⟩

theorem docker_ensureImage (env : DockerEnv σ) (img : String) (b : Broker σ) :
    (ensureImage env img b).2.docker.journal = b.docker.journal ∧
      (ensureImage env img b).2.docker.containers = b.docker.containers := by
  rcases ensureImage_cases env img b with h | ⟨_, h⟩
  · rw [h]
    exact ⟨rfl, rfl⟩
  · rw [h]
    exact ⟨rfl, rfl⟩

theorem lookup_containerLabels (cfg : BrokerConfig F) (config : ContainerConfig F) :
    (containerLabels cfg config).lookup Labels.challengeId = some config.challengeId := by
  unfold containerLabels
  rw [lookup_insert_ne (by decide), lookup_insert_ne (by decide),
    lookup_insert_ne (by decide), lookup_insert_ne (by decide), lookup_insert]

variable [Float64 F]

theorem dockerCreate_ok {config : ContainerConfig F} {id : String} {c : DockerContainer σ}
    (h : dockerCreate cfg env config b = .ok (id, c)) :
    id ∉ b.docker.containers ∧ b.docker.images.lookup (env.tagOf config.image) = some c.runs ∧
      c.labels = containerLabels cfg config := by
  unfold dockerCreate at h
  split at h
  · cases h
  · next him =>
    cases hcr : env.create b.docker.containers (containerName cfg env config)
        (dockerConfig cfg env config) with
    | error err =>
      rw [hcr] at h
      cases h
    | ok new =>
      rw [hcr] at h
      cases h
      exact ⟨env.create_new hcr, him, rfl⟩

theorem createContainer_cases (cfg : BrokerConfig F) (env : DockerEnv σ)
    (config : ContainerConfig F) (rid : String) (b : Broker σ) :
    (createContainer cfg env config rid b).2 = b ∨
      (cfg.policy.validate cfg.lower config = .ok () ∧
        ((createContainer cfg env config rid b).2 = (ensureImage env config.image b).2 ∨
          ∃ id c, Creates cfg env b config id c ∧
            (createContainer cfg env config rid b).2.docker =
              { (ensureImage env config.image b).2.docker with
                containers := b.docker.containers.insert id c })) := by
  unfold createContainer
  split
  · exact .inl rfl
  · next ha =>
    refine .inr ⟨ha, ?_⟩
    split
    · next hen =>
      rw [hen]
      exact .inl rfl
    · next hen =>
      split
      · rw [hen]
        exact .inl rfl
      · split
        · rw [hen]
          exact .inl rfl
        · split
          · rw [hen]
            exact .inl rfl
          · next id c hcr =>
            refine .inr ⟨id, c, ⟨ha, ?_⟩, ?_⟩
            · rw [hen]
              exact hcr
            · rw [← (docker_ensureImage env config.image b).2, hen]

theorem reaches_createContainer (config : ContainerConfig F) (rid : String)
    (hc : ∀ id c, Creates cfg env b config id c → created id c) :
    Reaches b [] created (createContainer cfg env config rid b).2 := by
  obtain ⟨hj, hcn⟩ := docker_ensureImage env config.image b
  rcases createContainer_cases cfg env config rid b with h | ⟨_, h | ⟨id, c, hcr, h⟩⟩
  · rw [h]
    exact .nothing b
  · rw [h]
    refine ⟨hj.trans (append_nil _).symm, ?_⟩
    rw [hcn]
    exact .same
  · refine ⟨?_, ?_⟩
    · rw [h]
      exact hj.trans (append_nil _).symm
    · rw [h]
      refine .create ?_ (hc id c hcr)
      rw [← hcn]
      exact (dockerCreate_ok hcr.created).1

def Request.Creates (cfg : BrokerConfig F) (env : DockerEnv σ) (b : Broker σ) (request : Request F)
    (id : String) (c : DockerContainer σ) : Prop :=
  ∃ config requestId, request = .create config requestId ∧
    Container.Creates cfg env b config id c

/-- **What a request reaches**, and that it changes nothing else. -/
theorem reaches_handleRequest :
    Reaches b (accesses env b.docker request) (request.Creates cfg env b)
      (handleRequest cfg env request b).2 := by
  cases request with
  | create config rid => exact reaches_createContainer config rid fun _ _ h => ⟨config, rid, rfl, h⟩
  | start ctr rid | stop ctr ts rid
  | exec ctr command wd ts rid => exact reaches_onContainer _ _
  | remove ctr force rid => exact reaches_removeContainer force rid
  | inspect ctr rid | logs ctr tail rid
  | copyFrom ctr path rid => exact reaches_readContainer _ _
  | list cid oid rid => exact reaches_listContainers cid oid rid
  | pull img rid => exact reaches_pullImage img rid
  | build tag df ctx rid => exact reaches_buildImage tag df ctx rid
  | ping rid => exact .nothing b
  | copyTo ctr path data rid =>
    unfold accesses Request.target handleRequest copyToContainer
    dsimp only
    cases env.decode64 data with
    | error msg => exact .nothing b
    | ok bytes => exact reaches_onContainer _ _

end

end Platform.Container

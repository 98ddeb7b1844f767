import Platform.Lib.Runs

/-!
# Machines and their calls

A machine takes a state and an input to an output and the next state.  `Call` is one call with all
that it read and wrote, `MachineRun next s₀ l s` the run of the calls `l`.

* `CallStep.after_eq`    what a call returned and wrote, from the machine;
* `machineRun_trace`    the calls of a machine fed with a list of inputs are a run;
* `map_out_trace_eq`    two machines that answer alike, step by step.
-/

namespace Platform.Lib

section
variable {σ α β : Type*}

structure Call (σ α β : Type*) where
  before : σ
  input : α
  out : β
  after : σ

/-- the calls of a machine as a transition relation -/
def CallStep (next : σ → α → β × σ) (s : σ) (c : Call σ α β) (s' : σ) : Prop :=
  c.before = s ∧ c.after = s' ∧ next s c.input = (c.out, s')

def MachineRun (next : σ → α → β × σ) (s₀ : σ) (l : List (Call σ α β)) (s : σ) : Prop :=
  Run (CallStep next) s₀ l s

variable {next : σ → α → β × σ} {s₀ s s' : σ} {l : List (Call σ α β)} {c : Call σ α β}

theorem CallStep.out_eq (h : CallStep next s c s') : c.out = (next s c.input).1 := by
  rw [h.2.2]

theorem CallStep.after_eq (h : CallStep next s c s') : s' = (next s c.input).2 := by
  rw [h.2.2]

/-- the input `a` fed to the machine, as a call -/
def record (next : σ → α → β × σ) (s : σ) (a : α) : Call σ α β × σ :=
  (⟨s, a, (next s a).1, (next s a).2⟩, (next s a).2)

/-- the calls made by feeding the inputs `as`, and the last state -/
def trace (next : σ → α → β × σ) (s : σ) (as : List α) : List (Call σ α β) × σ :=
  exec (record next) s as

theorem trace_cons (next : σ → α → β × σ) (s : σ) (a : α) (as : List α) :
    trace next s (a :: as) =
      (⟨s, a, (next s a).1, (next s a).2⟩ :: (trace next (next s a).2 as).1,
        (trace next (next s a).2 as).2) := rfl

theorem machineRun_trace (next : σ → α → β × σ) (s : σ) (as : List α) :
    MachineRun next s (trace next s as).1 (trace next s as).2 := by
  refine Run.of_exec (record next) (fun _ _ => True) (fun s a _ => ⟨rfl, rfl, rfl⟩) as s ?_
  induction as generalizing s with
  | nil => exact trivial
  | cons a as ih => exact ⟨trivial, ih _⟩

theorem machineRun_record (hrun : MachineRun next s₀ l s) (a : α) :
    MachineRun next s₀ (l ++ [(record next s a).1]) (record next s a).1.after :=
  .snoc hrun ⟨rfl, rfl, rfl⟩

theorem map_out_trace_eq {τ : Type*} {next' : τ → α → β × τ} {R : σ → τ → Prop}
    {good : Call σ α β → Prop} {as : List α}
    (hstep : ∀ s t a, R s t → a ∈ as → good (record next s a).1 →
      (next s a).1 = (next' t a).1 ∧ R (next s a).2 (next' t a).2)
    {t : τ} (hR : R s t) (hg : ∀ c ∈ (trace next s as).1, good c) :
    (trace next s as).1.map Call.out = (trace next' t as).1.map Call.out := by
  induction as generalizing s t with
  | nil => rfl
  | cons a as ih =>
    rw [trace_cons, trace_cons, List.map_cons, List.map_cons]
    obtain ⟨ho, hnx⟩ := hstep s t a hR List.mem_cons_self (hg _ List.mem_cons_self)
    have htl := ih (fun s t b hR hb => hstep s t b hR (List.mem_cons_of_mem a hb)) hnx
      fun c hc => hg c (List.mem_cons_of_mem _ hc)
    rw [htl, ho]

theorem map_input_trace (next : σ → α → β × σ) (s : σ) (as : List α) :
    (trace next s as).1.map Call.input = as := by
  induction as generalizing s with
  | nil => rfl
  | cons a as ih => exact congrArg (a :: ·) (ih (next s a).2)

end

end Platform.Lib

import Mathlib.Data.List.Basic
import Mathlib.Data.List.Induction

/-!
# Finite runs of a labelled transition system

`Run step s₀ l s`: from the state `s₀` the labels `l` (oldest first) lead to `s`.

* `Run.invariant`      a state property that holds first and survives every step;
* `Run.guarded`        one that survives every step with a good label, in runs of such labels;
* `Run.append`, `Run.mem_split`   runs glued together and cut at one of their labels;
* `Run.split`, `Run.head`         a run cut after some of its labels, or after the first one;
* `Run.project`        what a run looks like to one of its components;
* `Run.since_iff`      a state that labels turn on and off, read off the labels;
* `Run.of_exec`        the run of an executable machine, checked along the list of its inputs.
-/

namespace Platform.Lib
open List

section
variable {σ ε : Type*}

/-- A run: the list holds the labels in the order they were taken. -/
inductive Run (step : σ → ε → σ → Prop) (s₀ : σ) : List ε → σ → Prop
  | nil : Run step s₀ [] s₀
  | snoc {l : List ε} {s s' : σ} {a : ε} :
      Run step s₀ l s → step s a s' → Run step s₀ (l ++ [a]) s'

variable {step step' : σ → ε → σ → Prop} {s₀ s s' : σ} {l l' : List ε}

/-- **The induction rule of runs**, with the labels taken so far in view. -/
theorem Run.logInvariant {P : List ε → σ → Prop} (h0 : P [] s₀)
    (hs : ∀ l s a s', Run step s₀ l s → P l s → step s a s' → P (l ++ [a]) s')
    (h : Run step s₀ l s) : P l s := by
  induction h with
  | nil => exact h0
  | snoc hr hst ih => exact hs _ _ _ _ hr ih hst

variable {a : ε} {P : σ → Prop} {off on : ε → Prop} {δ : Type*}

theorem Run.invariant (h0 : P s₀) (hs : ∀ s a s', P s → step s a s' → P s')
    (h : Run step s₀ l s) : P s :=
  Run.logInvariant (P := fun _ s => P s) h0 (fun _ s a s' _ hP hst => hs s a s' hP hst) h

theorem Run.labels {Q : ε → Prop} (h0 : P s₀) (hs : ∀ s a s', P s → step s a s' → Q a ∧ P s')
    (h : Run step s₀ l s) : ∀ a ∈ l, Q a := by
  have hbt : (∀ a ∈ l, Q a) ∧ P s := by
    induction h with
    | nil => exact ⟨fun a ha => absurd ha not_mem_nil, h0⟩
    | @snoc l s s' b _ hst ih =>
      obtain ⟨hQ, hP⟩ := hs s b s' ih.2 hst
      refine ⟨fun a ha => ?_, hP⟩
      rcases mem_append.mp ha with ha | ha
      · exact ih.1 a ha
      · rw [mem_singleton.mp ha]
        exact hQ
  exact hbt.1

theorem Run.restrict {good : ε → Prop} (h : Run step s₀ l s) (hg : ∀ a ∈ l, good a) :
    Run (fun s a s' => step s a s' ∧ good a) s₀ l s := by
  induction h with
  | nil => exact .nil
  | snoc _ hst ih =>
    exact .snoc (ih fun a ha => hg a (mem_append_left _ ha))
      ⟨hst, hg _ (mem_append_right _ mem_cons_self)⟩

theorem Run.guarded {good : ε → Prop} (h0 : P s₀) (hs : ∀ s a s', P s → good a → step s a s' → P s')
    (h : Run step s₀ l s) (hg : ∀ a ∈ l, good a) : P s := by
  refine Run.invariant h0 ?_ (h.restrict hg)
  rintro s a s' hP ⟨hst, ha⟩
  exact hs s a s' hP ha hst

theorem Run.mono (hm : ∀ s a s', step s a s' → step' s a s') (h : Run step s₀ l s) :
    Run step' s₀ l s := by
  induction h with
  | nil => exact .nil
  | snoc _ hst ih => exact .snoc ih (hm _ _ _ hst)

theorem filterMap_snoc_none {f : ε → Option δ} (h : f a = none) :
    (l ++ [a]).filterMap f = l.filterMap f := by
  rw [filterMap_append, filterMap_cons_none h, filterMap_nil, append_nil]

theorem filterMap_snoc_some {f : ε → Option δ} {d : δ} (h : f a = some d) :
    (l ++ [a]).filterMap f = l.filterMap f ++ [d] := by
  rw [filterMap_append, filterMap_cons_some h, filterMap_nil]

theorem Run.project {τ : Type*} {stepView : τ → δ → τ → Prop} (view : σ → τ) (proj : ε → Option δ)
    (ho : ∀ s a s' d, step s a s' → proj a = some d → stepView (view s) d (view s'))
    (hoh : ∀ s a s', step s a s' → proj a = none → view s' = view s)
    (h : Run step s₀ l s) : Run stepView (view s₀) (l.filterMap proj) (view s) := by
  induction h with
  | nil => exact .nil
  | @snoc l s s' a _ hst ih =>
    cases ha : proj a with
    | none =>
      rw [hoh s a s' hst ha, filterMap_snoc_none ha]
      exact ih
    | some d =>
      rw [filterMap_snoc_some ha]
      exact .snoc ih (ho s a s' d hst ha)

theorem Run.append (h : Run step s₀ l s) (h' : Run step s l' s') : Run step s₀ (l ++ l') s' := by
  induction h' with
  | nil => rwa [append_nil]
  | snoc _ hst ih =>
    rw [← append_assoc]
    exact .snoc ih hst

theorem Run.cons (hst : step s₀ a s) (h : Run step s l s') : Run step s₀ (a :: l) s' := by
  have h1 : Run step s₀ ([] ++ [a]) s := .snoc .nil hst
  exact h1.append h

theorem Run.nil_inv (h : Run step s₀ [] s) : s = s₀ := by
  generalize hl : ([] : List ε) = l at h
  cases h with
  | nil => rfl
  | snoc _ _ => simp at hl

theorem Run.snoc_inv (h : Run step s₀ (l ++ [a]) s) : ∃ m, Run step s₀ l m ∧ step m a s := by
  generalize hl : l ++ [a] = l' at h
  cases h with
  | nil => simp at hl
  | snoc hr hst =>
    obtain ⟨rfl, hb⟩ := append_inj' hl rfl
    obtain rfl := singleton_inj.mp hb
    exact ⟨_, hr, hst⟩

theorem Run.split (h : Run step s₀ (l ++ l') s) : ∃ m, Run step s₀ l m ∧ Run step m l' s := by
  induction l' using reverseRecOn generalizing s with
  | nil => exact ⟨s, by rwa [append_nil] at h, .nil⟩
  | append_singleton l' a ih =>
    rw [← append_assoc] at h
    obtain ⟨m, hr, hst⟩ := h.snoc_inv
    obtain ⟨m', h1, h2⟩ := ih hr
    exact ⟨m', h1, .snoc h2 hst⟩

theorem Run.head (h : Run step s₀ (a :: l) s) : ∃ m, step s₀ a m ∧ Run step m l s := by
  have hsp : Run step s₀ ([a] ++ l) s := h
  obtain ⟨m, h1, h2⟩ := hsp.split
  obtain ⟨m', hnl, hst⟩ := Run.snoc_inv (l := []) h1
  obtain rfl := hnl.nil_inv
  exact ⟨m, hst, h2⟩

theorem Run.mem_split (h : Run step s₀ l s) (ha : a ∈ l) :
    ∃ l₁ l₂ s₁ s₂, l = l₁ ++ a :: l₂ ∧ Run step s₀ l₁ s₁ ∧ step s₁ a s₂ ∧ Run step s₂ l₂ s := by
  induction h with
  | nil => cases ha
  | @snoc l s s' b hr hst ih =>
    rcases mem_append.mp ha with ha | ha
    · obtain ⟨l₁, l₂, s₁, s₂, rfl, h1, h2, h3⟩ := ih ha
      exact ⟨l₁, l₂ ++ [b], s₁, s₂, by simp, h1, h2, .snoc h3 hst⟩
    · obtain rfl : a = b := mem_singleton.mp ha
      exact ⟨l, [], s, s', rfl, hr, hst, .nil⟩

/-! ## what labels turn on and off -/

/-- A label has turned it on, and none has turned it off since. -/
def Since (on off : ε → Prop) (l : List ε) : Prop :=
  ∃ l₁ a l₂, l = l₁ ++ a :: l₂ ∧ on a ∧ ∀ b ∈ l₂, ¬ off b

theorem not_since_nil : ¬ Since on off [] := by
  rintro ⟨l₁, a, l₂, h, -⟩
  exact cons_ne_nil _ _ (append_eq_nil_iff.mp h.symm).2

theorem since_snoc : Since on off (l ++ [a]) ↔ on a ∨ (Since on off l ∧ ¬ off a) := by
  constructor
  · rintro ⟨l₁, b, l₂, h, hon, hof⟩
    rcases eq_nil_or_concat l₂ with rfl | ⟨l₃, c, rfl⟩
    · obtain ⟨-, hab⟩ := append_inj' h rfl
      rw [singleton_inj] at hab
      exact .inl (hab ▸ hon)
    · rw [concat_eq_append, ← cons_append, ← append_assoc] at h
      obtain ⟨hl, hac⟩ := append_inj' h rfl
      rw [singleton_inj] at hac
      refine .inr ⟨⟨l₁, b, l₃, hl, hon, fun d hd => hof d (by simp [hd])⟩, ?_⟩
      rw [hac]
      exact hof c (by simp)
  · rintro (hon | ⟨⟨l₁, b, l₂, rfl, hon, hof⟩, ha⟩)
    · exact ⟨l, a, [], rfl, hon, fun b hb => absurd hb not_mem_nil⟩
    · refine ⟨l₁, b, l₂ ++ [a], by simp, hon, fun d hd => ?_⟩
      rcases mem_append.mp hd with hd | hd
      · exact hof d hd
      · rw [mem_singleton.mp hd]
        exact ha

theorem Run.since_iff (h0 : ¬ P s₀) (hs : ∀ s a s', step s a s' → (P s' ↔ on a ∨ (P s ∧ ¬ off a)))
    (h : Run step s₀ l s) :
    P s ↔ Since on off l := by
  induction h with
  | nil => exact iff_of_false h0 not_since_nil
  | snoc _ hst ih => rw [hs _ _ _ hst, since_snoc, ih]

end

/-! ## executable machines -/

section
variable {σ ε α : Type*}

/-- the labels and the last state of a machine fed with a list of inputs -/
def exec (next : σ → α → ε × σ) : σ → List α → List ε × σ
  | s, [] => ([], s)
  | s, a :: l => ((next s a).1 :: (exec next (next s a).2 l).1, (exec next (next s a).2 l).2)

/-- every input is admissible in the state in which it is fed -/
def Admits (next : σ → α → ε × σ) (ok : σ → α → Prop) : σ → List α → Prop
  | _, [] => True
  | s, a :: l => ok s a ∧ Admits next ok (next s a).2 l

instance decidableAdmits (next : σ → α → ε × σ) (ok : σ → α → Prop) [∀ s a, Decidable (ok s a)] :
    ∀ (l : List α) (s : σ), Decidable (Admits next ok s l)
  | [], _ => isTrue trivial
  | _ :: l, _ => @instDecidableAnd _ _ _ (decidableAdmits next ok l _)

theorem Run.of_exec {step : σ → ε → σ → Prop} (next : σ → α → ε × σ) (ok : σ → α → Prop)
    (hok : ∀ s a, ok s a → step s (next s a).1 (next s a).2) (l : List α) (s : σ)
    (h : Admits next ok s l) : Run step s (exec next s l).1 (exec next s l).2 := by
  induction l generalizing s with
  | nil => exact .nil
  | cons a l ih => exact Run.cons (hok s a h.1) (ih (next s a).2 h.2)

end

end Platform.Lib

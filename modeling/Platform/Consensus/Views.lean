import Platform.Consensus.Steps

/-!
# The views of an engine

`handle_view_change` and `handle_new_view` write the view that their message names, and neither
compares it with the current one (`initiate_view_change` does).  So a view goes back exactly when a
message for an older view is let in.
-/

namespace Platform.Consensus
open Lib Platform.Core

theorem checkViewChange_signed {C : Crypto} {env : Env} {vc : ViewChangeMessage}
    (h : checkViewChange C env vc = .ok ()) :
    env.verifySignature C vc.validator vc.signingBytes vc.signature = .ok true := by
  unfold checkViewChange at h
  cases hc : checkSigned C env vc.validator vc.signingBytes vc.signature vc.validator.toHex with
  | error err =>
    rw [hc] at h
    cases h
  | ok u => exact (checkSigned_ok_iff _ _ _ _ _ _).mp hc

theorem checkNewView_signed {C : Crypto} {env : Env} {m : NewViewMessage}
    (h : checkNewView C env m = .ok ()) :
    env.verifySignature C m.leader m.signingBytes m.signature = .ok true := by
  unfold checkNewView at h
  split at h
  · cases h
  · cases hc : checkSigned C env m.leader m.signingBytes m.signature m.leader.toHex with
    | error err =>
      rw [hc] at h
      cases h
    | ok u => exact (checkSigned_ok_iff _ _ _ _ _ _).mp hc

theorem stateFor_newView (env : Env) (e : Engine) (vc : ViewChangeMessage) :
    (stateFor env e vc).newView = vc.newView := by
  unfold stateFor
  cases e.viewChangeState with
  | none => rfl
  | some st =>
    by_cases h : vc.newView = st.newView
    · simp [h]
    · simp [h]

def signedView (C : Crypto) (env : Env) : Op → Option ViewNumber
  | .handleViewChange vc =>
    if env.verifySignature C vc.validator vc.signingBytes vc.signature = .ok true then
      some vc.newView
    else none
  | .handleNewView m =>
    if env.verifySignature C m.leader m.signingBytes m.signature = .ok true then some m.view
    else none
  | _ => none

theorem newView_of_counted {env : Env} {e : Engine} {vc : ViewChangeMessage}
    {st : ViewChangeState} (h : st = addViewChange (stateFor env e vc) vc) :
    st.newView = vc.newView := by
  rw [h]
  exact stateFor_newView env e vc

def ViewsAhead (R : ViewNumber → ViewNumber → Prop) (C : Crypto) (ev : Event) : Prop :=
  ∀ w ∈ signedView C ev.env ev.op, R ev.before.currentView w

instance (R : ViewNumber → ViewNumber → Prop) [DecidableRel R] (C : Crypto) (ev : Event) :
    Decidable (ViewsAhead R C ev) :=
  -- on the one view there is, not on all of `UInt64`
  Option.decidableForallMem (signedView C ev.env ev.op)

section
variable {C : Crypto} {e e' : Engine} {ev : Event} {R : ViewNumber → ViewNumber → Prop}

/-- **A step keeps the view or enters the view of a validly signed message.** -/
theorem EngineStep.view (hs : EngineStep C e ev e') (hR : ViewsAhead R C ev) :
    e'.currentView = e.currentView ∨ ∃ w, R e.currentView w ∧ e' = enterView e w := by
  have hb := hs.1
  have ht := hs.trans
  obtain ⟨env, pre, op, out, after⟩ := ev
  dsimp only at ht hb
  subst hb
  cases ht with
  | newViewFormed vc st hc hst hsa =>
    refine Or.inr ⟨vc.newView, hR _ (if_pos (checkViewChange_signed hc)), ?_⟩
    rw [newView_of_counted hsa]
  | newViewEntered m hc => exact Or.inr ⟨m.view, hR _ (if_pos (checkNewView_signed hc)), rfl⟩
  | _ => exact Or.inl rfl

end

/-- **Views never go back**, in every run that is fed no validly signed view-change or new-view
message for a view below the current one. -/
theorem views_never_go_back (C : Crypto) (kp : Keypair) (evs : List Event) (e : Engine)
    (h : EngineRun C kp evs e) (hfresh : ∀ ev ∈ evs, ViewsAhead (· ≤ ·) C ev) :
    ∀ ev ∈ evs, ev.before.currentView ≤ ev.after.currentView := by
  refine Run.labels (P := fun _ => True) trivial ?_ (Run.restrict h hfresh)
  rintro s ev s' - ⟨hs, ha⟩
  refine ⟨?_, trivial⟩
  rw [hs.1, hs.2.1]
  rcases hs.view ha with hsame | ⟨w, hw, rfl⟩
  · rw [hsame]
    exact UInt64.le_refl _
  · exact hw

/-- The views `1` and `2` are announced to validator `0`, one after the other. -/
theorem views_never_go_back_sample :
    let run := calls sampleCrypto (sampleKey 0)
      [(sampleEnv 0 0, .handleNewView (sampleNewView 1 1 [1, 2, 3])),
        (sampleEnv 0 0, .handleNewView (sampleNewView 2 2 [1, 2, 3]))]
    run.2.currentView = 2 ∧ ∀ ev ∈ run.1, ev.before.currentView ≤ ev.after.currentView :=
  ⟨by decide +kernel, views_never_go_back sampleCrypto (sampleKey 0) _ _
    (engineRun_calls _ _ _ (by decide +kernel)) (by decide +kernel)⟩

/-- **A replay moves the view back.**  The announcement of view `1` is delivered again after that of
view `2`. -/
theorem views_never_go_back_replayed :
    ¬ ∀ (C : Crypto) (kp : Keypair) (evs : List Event) (e : Engine), EngineRun C kp evs e →
      ∀ ev ∈ evs, ev.before.currentView ≤ ev.after.currentView := by
  intro h
  have hrun := engineRun_calls sampleCrypto (sampleKey 0)
    [(sampleEnv 0 0, .handleNewView (sampleNewView 1 1 [1, 2, 3])),
      (sampleEnv 0 0, .handleNewView (sampleNewView 2 2 [1, 2, 3])),
      (sampleEnv 0 0, .handleNewView (sampleNewView 1 1 [1, 2, 3]))] (by decide +kernel)
  have hle := h _ _ _ _ hrun
  revert hle
  decide +kernel

end Platform.Consensus

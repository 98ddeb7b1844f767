import Platform.Epoch.CommitReveal

/-!
# What `finalize` logs about diverging submissions

The check for a divergence cuts the hotkey that it logs to 16 bytes, and a cut inside a character
stops the program, as the index of the first submission does where there is none.
-/

namespace Platform.Epoch
open Platform.Core Lib Chain List HashMap

/-- `is_char_boundary` -/
def isCharBoundary : Nat → List Char → Bool
  | 0, _ => true
  | _ + 1, [] => false
  | n + 1, c :: cs => c.utf8Size ≤ n + 1 && isCharBoundary (n + 1 - c.utf8Size) cs

/-- `&hotkey[..16.min(hotkey.len())]` is no panic -/
def Cuttable (hotkey : String) : Prop :=
  isCharBoundary (min 16 hotkey.utf8ByteSize) hotkey.toList = true

instance (hotkey : String) : Decidable (Cuttable hotkey) := inferInstanceAs (Decidable (_ = _))

section
variable {F T : Type} [F64Sub F]

/-- the first hotkey of a submission that is not in `first`, or has another weight there -/
def divergingHotkey (first submission : List (WeightAssignment F)) : Option String :=
  let firstWeights := collect (first.map fun w => (w.hotkey, w.weight))
  submission.findSome? fun w =>
    match firstWeights.lookup w.hotkey with
    | none => some w.hotkey
    | some firstWeight =>
      if F64.lt F64Sub.thousandth (F64Sub.abs (F64Sub.sub w.weight firstWeight)) then
        some w.hotkey
      else none

/-- the hotkey that the check logs, if it logs one; it stops at a submission of another length -/
def loggedHotkey (first : List (WeightAssignment F)) :
    List (List (WeightAssignment F)) → Option String
  | [] => none
  | submission :: rest =>
    if submission.length ≠ first.length then none
    else (divergingHotkey first submission).or (loggedHotkey first rest)

/-- `finalize`, with the texts that it logs -/
def CommitRevealState.finalizeLogged (s : CommitRevealState F T)
    (byCommit byReveal : Iteration Hotkey) (smoothing : F) (minValidators : Nat) (now : T) :
    Finalized F T × CommitRevealState F T :=
  match (s.reveals.valuesBy byReveal).map WeightReveal.weights with
  | first :: rest =>
    if minValidators ≤ rest.length + 1 ∧ ∃ h ∈ loggedHotkey first rest, ¬ Cuttable h then
      (.panicked, s.pushMissing byCommit)
    else s.finalize byCommit byReveal smoothing minValidators now
  | [] => s.finalize byCommit byReveal smoothing minValidators now

/-- Any two submissions of one length diverge first at a hotkey that can be cut. -/
def CutsCleanly (reveals : HashMap Hotkey (WeightReveal F T)) : Prop :=
  ∀ v r v' r', v ≠ v' → reveals.lookup v = some r → reveals.lookup v' = some r' →
    r'.weights.length = r.weights.length →
    ∀ h, divergingHotkey r.weights r'.weights = some h → Cuttable h

variable {s : CommitRevealState F T} {byCommit byReveal : Iteration Hotkey} {smoothing : F}
  {minValidators : Nat} {now : T}

theorem of_loggedHotkey {first : List (WeightAssignment F)}
    {rest : List (List (WeightAssignment F))} {h : String}
    (hl : loggedHotkey first rest = some h) :
    ∃ submission ∈ rest, submission.length = first.length ∧
      divergingHotkey first submission = some h := by
  induction rest with
  | nil => cases hl
  | cons submission rest ih =>
    obtain ⟨hlen, hl⟩ := Option.ite_none_left_eq_some.mp hl
    rcases Option.or_eq_some_iff.mp hl with hd | ⟨-, hl⟩
    · exact ⟨submission, mem_cons_self, not_not.mp hlen, hd⟩
    · obtain ⟨sub, hs, hsub⟩ := ih hl
      exact ⟨sub, mem_cons_of_mem _ hs, hsub⟩

theorem finalizeLogged_nil (h : s.reveals.valuesBy byReveal = []) :
    (s.finalizeLogged byCommit byReveal smoothing minValidators now).1 = .panicked ↔
      minValidators = 0 := by
  unfold CommitRevealState.finalizeLogged CommitRevealState.finalize
  dsimp only [CommitRevealState.pushMissing]
  rw [h]
  cases minValidators with
  | zero => simp
  | succ n => simp

theorem finalizeLogged_cons {r : WeightReveal F T} {rest : List (WeightReveal F T)}
    (h : s.reveals.valuesBy byReveal = r :: rest) :
    (s.finalizeLogged byCommit byReveal smoothing minValidators now).1 = .panicked ↔
      minValidators ≤ rest.length + 1 ∧
        ∃ h ∈ loggedHotkey r.weights (rest.map WeightReveal.weights), ¬ Cuttable h := by
  unfold CommitRevealState.finalizeLogged CommitRevealState.finalize
  dsimp only [CommitRevealState.pushMissing]
  rw [h, map_cons]
  dsimp only
  rw [length_map]
  split
  · next hc => exact iff_of_true rfl hc
  · next hc =>
    refine iff_of_false ?_ hc
    split
    · exact nofun
    · exact nofun

end

/-- **When `finalize` cannot panic**, whatever the order of the maps: too few validators revealed,
or one did and no two reveals diverge at a hotkey whose first 16 bytes end inside a character. -/
theorem finalize_safe_iff {F T : Type} [F64Sub F] (s : CommitRevealState F T) (smoothing : F)
    (minValidators : Nat) (now : T) :
    (∀ byCommit byReveal,
      (s.finalizeLogged byCommit byReveal smoothing minValidators now).1 ≠ .panicked) ↔
      s.reveals.size < minValidators ∨ 0 < s.reveals.size ∧ CutsCleanly s.reveals := by
  constructor
  · intro hsafe
    by_contra hno
    obtain ⟨hmin, hno⟩ := not_or.mp hno
    have hlen : (s.reveals.valuesBy .asListed).length = s.reveals.size := length_valuesBy
    by_cases hpos : 0 < s.reveals.size
    · obtain ⟨v, r, v', r', hne, hv, hv', hsub, h, hd, hcut⟩ : ∃ v r v' r', v ≠ v' ∧
          s.reveals.lookup v = some r ∧ s.reveals.lookup v' = some r' ∧
          r'.weights.length = r.weights.length ∧
          ∃ h, divergingHotkey r.weights r'.weights = some h ∧ ¬ Cuttable h := by
        by_contra hall
        refine hno ⟨hpos, fun v r v' r' hne hv hv' hsub h hd => ?_⟩
        by_contra hcut
        exact hall ⟨v, r, v', r', hne, hv, hv', hsub, h, hd, hcut⟩
      obtain ⟨it, rest, hit⟩ := exists_valuesBy_pair hne hv hv'
      refine hsafe .asListed it ((finalizeLogged_cons hit).mpr ⟨?_, h, ?_, hcut⟩)
      · have hl : (s.reveals.valuesBy it).length = s.reveals.size := length_valuesBy
        rw [hit] at hl
        exact (not_lt.mp hmin).trans hl.ge
      · rw [map_cons, loggedHotkey, if_neg (not_not.mpr hsub), hd]
        rfl
    · refine hsafe .asListed .asListed ((finalizeLogged_nil ?_).mpr (by omega))
      exact length_eq_zero_iff.mp (by omega)
  · intro h byCommit byReveal
    have hlen : (s.reveals.valuesBy byReveal).length = s.reveals.size := length_valuesBy
    cases hvals : s.reveals.valuesBy byReveal with
    | nil =>
      rw [hvals] at hlen
      rw [Ne, finalizeLogged_nil hvals]
      rcases h with h | h
      · omega
      · exact absurd hlen h.1.ne
    | cons r rest =>
      rw [hvals, length_cons] at hlen
      rw [Ne, finalizeLogged_cons hvals]
      rintro ⟨hmin, hk, hl, hcut⟩
      obtain ⟨_, hs, hsub, hd⟩ := of_loggedHotkey hl
      obtain ⟨r', hr', rfl⟩ := mem_map.mp hs
      obtain ⟨v, hv, hrest⟩ := valuesBy_eq_cons hvals
      obtain ⟨v', hne, hv'⟩ := hrest r' hr'
      rcases h with h | h
      · omega
      · exact hcut (h.2 v r v' r' hne.symm hv hv' hsub hk hd)

/-- two validators reveal one hotkey each, with a character of two bytes at the sixteenth byte -/
def longCharacterOps : List (CommitRevealOp ℚ Nat) :=
  [.submitCommitment (sampleCommitment (sampleReveal 1 [⟨"aaaaaaaaaaaaaaaé", 1⟩])),
    .submitCommitment (sampleCommitment (sampleReveal 2 [⟨"aaaaaaaaaaaaaaaè", 1⟩])),
    .submitReveal (sampleReveal 1 [⟨"aaaaaaaaaaaaaaaé", 1⟩]),
    .submitReveal (sampleReveal 2 [⟨"aaaaaaaaaaaaaaaè", 1⟩])]

/-- Without a minimum, and with hotkeys that cannot be cut. -/
theorem finalize_panics :
    ((CommitRevealState.new 1 sampleChallenge : CommitRevealState ℚ Nat).finalizeLogged
      .asListed .asListed 0 0 9).1 = .panicked ∧
    ((sampleCalls longCharacterOps).2.finalizeLogged .asListed .asListed 0 2 9).1 = .panicked :=
  ⟨rfl, by decide +kernel⟩

end Platform.Epoch

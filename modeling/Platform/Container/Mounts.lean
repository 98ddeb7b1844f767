import Platform.Container.Policy

/-!
# Mounts that the policy accepts

`validate_mounts` tests texts: it normalises the source of a mount by hand and compares the start of
the text with the forbidden paths and with the allowed directories.  Here it is shown what that
means for paths: the normalised text is that of the resolved path (`normalized_of_absolute`), a path
that is not absolute has no slash at its start, and the tests of texts are tests of names.
-/

namespace Platform.Container
open Lib SecurityPolicy List

/-! ## what normalising does -/

section
variable {s : List Char} {acc : List Char} {names ps : List (List Char)}

theorem normalize_parts (hpr : ∀ p ∈ ps, '/' ∉ p) (hnm : ∀ n ∈ names, IsName n) :
    (ps.filterMap componentOf).foldl normalizeStep (pathText names) =
      pathText (ps.foldl resolveStep names) := by
  induction ps generalizing names with
  | nil => rfl
  | cons part ps ih =>
    have hr : ∀ p ∈ ps, '/' ∉ p := fun p hp => hpr p (mem_cons_of_mem _ hp)
    have hnx := isName_resolveStep hnm (hpr part mem_cons_self)
    rw [foldl_cons, ← ih hr hnx, filterMap_cons]
    unfold resolveStep
    cases hcm : componentOf part with
    | none => rfl
    | some cmpt =>
      cases cmpt with
      | normal name => rw [foldl_cons, normalizeStep, pushPath_text hnm]
      | parentDir => rw [foldl_cons, normalizeStep, popPath_text hnm]
      | rootDir => exact absurd hcm (componentOf_ne_rootDir part)
      | curDir => rfl

theorem normalized_of_absolute {src : String} (h : resolvePath src.toList = some names) :
    (normalized src).toList = pathText names := by
  unfold resolvePath at h
  split at h
  · next ha =>
    cases h
    rw [normalized, String.toList_ofList, pathComponents, if_pos ha]
    exact normalize_parts (fun _ => slash_notMem_of_parts) fun _ hn => absurd hn not_mem_nil
  · cases h

theorem head?_normalize {components : List PathComponent}
    (hrt : .rootDir ∉ components) (hnm : ∀ n, .normal n ∈ components → IsName n)
    (ha : acc.head? ≠ some '/') : (components.foldl normalizeStep acc).head? ≠ some '/' := by
  induction components generalizing acc with
  | nil => exact ha
  | cons cmpt components ih =>
    have hrt' : .rootDir ∉ components := fun h => hrt (mem_cons_of_mem _ h)
    refine ih hrt' (fun n hn => hnm n (mem_cons_of_mem _ hn)) ?_
    cases cmpt with
    | rootDir => exact absurd mem_cons_self hrt
    | curDir => exact ha
    | parentDir => exact head?_popPath ha
    | normal name => exact head?_pushPath ha (hnm name mem_cons_self)

theorem normalized_of_relative {src : String} (h : resolvePath src.toList = none) :
    (normalized src).toList.head? ≠ some '/' := by
  have ha : src.toList.head? ≠ some '/' := by
    intro ha
    rw [resolvePath, if_pos ha] at h
    cases h
  rw [normalized, String.toList_ofList, pathComponents, if_neg ha]
  refine head?_normalize ?_ ?_ (by simp)
  · intro hm
    rcases mem_append.mp hm with hm | hm
    · split at hm
      · simp at hm
      · cases hm
    · obtain ⟨part, _, hpr⟩ := mem_filterMap.mp hm
      exact componentOf_ne_rootDir part hpr
  · intro n hm
    rcases mem_append.mp hm with hm | hm
    · split at hm
      · simp at hm
      · cases hm
    · obtain ⟨part, hpr, hcm⟩ := mem_filterMap.mp hm
      obtain ⟨rfl, hne⟩ := componentOf_eq_normal hcm
      exact ⟨hne, slash_notMem_of_parts hpr⟩

end

/-! ## what is accepted -/

/-- a normalised absolute path: its names, none of them a dot or two dots -/
structure AbsPath where
  names : List (List Char)
  valid : ∀ n ∈ names, IsName n ∧ n ≠ ['.'] ∧ n ≠ ['.', '.']

namespace AbsPath

def text (p : AbsPath) : String := .ofList (pathText p.names)

/-- the text of a directory, followed by a slash -/
def dirText (p : AbsPath) : String := .ofList (pathText p.names ++ ['/'])

theorem isName (p : AbsPath) : ∀ n ∈ p.names, IsName n := fun n hn => (p.valid n hn).1

end AbsPath

structure WellFormed {F : Type} (p : SecurityPolicy F) : Prop where
  forbidden : ∀ t ∈ p.forbiddenMountPaths, ∃ f : AbsPath, t = f.text
  allowed : ∀ t ∈ p.allowedMountPrefixes, ∃ d : AbsPath, t = d.dirText

structure Inside {F : Type} (p : SecurityPolicy F) (names : List (List Char)) : Prop where
  allowed : ∃ d : AbsPath, d.dirText ∈ p.allowedMountPrefixes ∧ d.names <+: names ∧ d.names ≠ names
  forbidden : ∀ f : AbsPath, f.text ∈ p.forbiddenMountPaths → ¬ f.names <+: names

section
variable {F : Type} {p : SecurityPolicy F} {m : MountConfig} {mounts : List MountConfig}

theorem validateMounts_ok (h : p.validateMounts mounts = .ok ()) :
    ∀ m ∈ mounts, p.validateMount m = .ok () := by
  induction mounts with
  | nil => exact fun m hm => absurd hm not_mem_nil
  | cons m mounts ih =>
    unfold validateMounts at h
    split at h
    · cases h
    · next hm =>
      intro m' hm'
      rcases mem_cons.mp hm' with rfl | hm'
      · exact hm
      · exact ih h m' hm'

theorem validateMount_ok (h : p.validateMount m = .ok ()) :
    (∀ t ∈ p.forbiddenMountPaths, startsWith (normalized m.source) t = false) ∧
      ∃ t ∈ p.allowedMountPrefixes, startsWith (normalized m.source) t = true := by
  unfold validateMount at h
  split at h
  · cases h
  · split at h
    · cases h
    · next hfr =>
      split at h
      · cases h
      · split at h
        · next ha =>
          refine ⟨?_, any_eq_true.mp ha⟩
          intro t ht
          rw [Bool.not_eq_true, any_eq_false] at hfr
          have hnt := hfr t ht
          rw [Bool.not_eq_true, Bool.or_eq_false_iff] at hnt
          exact hnt.1
        · cases h

theorem inside_of_validateMount (hp : WellFormed p) (h : p.validateMount m = .ok ()) :
    ∃ names, resolvePath m.source.toList = some names ∧ Inside p names := by
  obtain ⟨hfr, t, ht, hsr⟩ := validateMount_ok h
  obtain ⟨d, rfl⟩ := hp.allowed t ht
  rw [startsWith_iff, AbsPath.dirText, String.toList_ofList] at hsr
  cases hrs : resolvePath m.source.toList with
  | none =>
    -- the text of a directory starts with a slash
    obtain ⟨rest, hr⟩ := hsr
    refine absurd ?_ (normalized_of_relative hrs)
    rw [← hr, append_assoc, head?_append, head?_pathText]
    rfl
  | some names =>
    have hnm := isName_of_resolvePath hrs
    rw [normalized_of_absolute hrs] at hsr
    obtain ⟨hle, hne⟩ := below_of_text d.isName hnm hsr
    refine ⟨names, rfl, ⟨d, ht, hle, hne⟩, ?_⟩
    intro f hf hbl
    have hnt := hfr _ hf
    rw [← Bool.not_eq_true, startsWith_iff, AbsPath.text, String.toList_ofList,
      normalized_of_absolute hrs] at hnt
    exact hnt (text_of_below hbl)

/-! ## the policies of the source -/

def apart (p : SecurityPolicy F) : Bool :=
  p.allowedMountPrefixes.all fun dir => p.forbiddenMountPaths.all fun forbidden =>
    decide (¬ dir.toList.dropLast <+: forbidden.toList)

theorem not_above_of_apart (ha : apart p = true) {names : List (List Char)}
    (h : Inside p names) (f : AbsPath) (hf : f.text ∈ p.forbiddenMountPaths) :
    ¬ names <+: f.names := by
  intro hbl
  obtain ⟨d, hd, hle, _⟩ := h.allowed
  have hnt := all_eq_true.mp (all_eq_true.mp ha _ hd) _ hf
  refine of_decide_eq_true hnt ?_
  rw [AbsPath.dirText, AbsPath.text, String.toList_ofList, String.toList_ofList, dropLast_concat]
  exact text_of_below (hle.trans hbl)

variable [Float64 F]

theorem apart_presets (h : p = .default ∨ p = .strict ∨ p = .development) : apart p = true := by
  rcases h with rfl | rfl | rfl
  · rfl
  · rfl
  · rfl

/-- **Accepted mounts**: the resolved source is absolute and inside, and for the policies of the
source no forbidden path is below it. -/
theorem accepted_mounts_inside (hp : WellFormed p) (h : p.validateMounts mounts = .ok ()) :
    ∀ m ∈ mounts, ∃ names, resolvePath m.source.toList = some names ∧ Inside p names ∧
      (p = .default ∨ p = .strict ∨ p = .development →
        ∀ f : AbsPath, f.text ∈ p.forbiddenMountPaths → ¬ names <+: f.names) := by
  intro m hm
  obtain ⟨names, hrs, his⟩ := inside_of_validateMount hp (validateMounts_ok h m hm)
  exact ⟨names, hrs, his, fun hpr => not_above_of_apart (apart_presets hpr) his⟩

end

def pathNames (t : List Char) : List (List Char) := (resolvePath t).getD []

def isAbsText (t : List Char) : Bool :=
  decide (∀ n ∈ pathNames t, IsName n ∧ n ≠ ['.'] ∧ n ≠ ['.', '.']) &&
    decide (t = pathText (pathNames t))

theorem exists_absPath {t : List Char} (h : isAbsText t = true) :
    ∃ f : AbsPath, t = pathText f.names := by
  rw [isAbsText, Bool.and_eq_true] at h
  exact ⟨⟨pathNames t, of_decide_eq_true h.1⟩, of_decide_eq_true h.2⟩

theorem wellFormed_of_texts {F : Type} {p : SecurityPolicy F}
    (hfr : (p.forbiddenMountPaths.all fun t => isAbsText t.toList) = true)
    (ha : (p.allowedMountPrefixes.all fun t =>
      isAbsText t.toList.dropLast && decide (t.toList.getLast? = some '/')) = true) :
    WellFormed p where
  forbidden t ht := by
    obtain ⟨f, hf⟩ := exists_absPath (all_eq_true.mp hfr t ht)
    exact ⟨f, by rw [AbsPath.text, ← hf, String.ofList_toList]⟩
  allowed t ht := by
    have hbt := all_eq_true.mp ha t ht
    rw [Bool.and_eq_true] at hbt
    obtain ⟨d, hd⟩ := exists_absPath hbt.1
    refine ⟨d, ?_⟩
    rw [AbsPath.dirText, ← hd, dropLast_append_getLast? _ (of_decide_eq_true hbt.2),
      String.ofList_toList]

theorem wellFormed_default {F : Type} [Float64 F] : WellFormed (.default : SecurityPolicy F) :=
  wellFormed_of_texts rfl rfl

/-- repeated slashes and dots -/
def dottedMount : MountConfig := ⟨"//tmp/./jobs//7/", "/data", true⟩

theorem accepted_mounts_dotted :
    resolvePath dottedMount.source.toList = some ["tmp".toList, "jobs".toList, "7".toList] ∧
      Inside (.default : SecurityPolicy Nat) ["tmp".toList, "jobs".toList, "7".toList] := by
  have hrs : resolvePath dottedMount.source.toList =
      some ["tmp".toList, "jobs".toList, "7".toList] := by decide
  have ha : (SecurityPolicy.default : SecurityPolicy Nat).validateMounts [dottedMount] =
      .ok () := rfl
  obtain ⟨names, hnm, his, _⟩ := accepted_mounts_inside wellFormed_default ha
    dottedMount mem_cons_self
  cases hnm
  exact ⟨hrs, his⟩

end Platform.Container

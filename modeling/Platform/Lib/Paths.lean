import Platform.Lib.Fields

/-!
# Paths of Unix, as texts and as lists of names

A path is split at its slashes.  `pathComponents` are the components that a standard library makes
of it, `pushPath` and `popPath` add a name to a path and take the last one away, and `resolvePath`
is the list of names that a path leads through from the root.  `pathText` writes such a list of
names.

* `pushPath_text`, `popPath_text`   adding and taking away names, on the text of a path;
* `below_of_text`                   a path that starts with the text of a directory and a slash is
                                    strictly below the directory;
* `text_of_below`                   a path below another one starts with its text.
-/

namespace Platform.Lib
open List

def pathParts (s : List Char) : List (List Char) := s.splitOn '/'

/-- the name of a file or a directory, or the text of a component in general -/
def IsName (n : List Char) : Prop := n ≠ [] ∧ '/' ∉ n

instance (n : List Char) : Decidable (IsName n) := inferInstanceAs (Decidable (_ ∧ _))

inductive PathComponent where
  | rootDir
  | curDir
  | parentDir
  | normal (name : List Char)
deriving DecidableEq

def componentOf (part : List Char) : Option PathComponent :=
  if part = [] ∨ part = ['.'] then none
  else if part = ['.', '.'] then some .parentDir
  else some (.normal part)

def pathComponents (s : List Char) : List PathComponent :=
  (if s.head? = some '/' then [.rootDir]
    else if (pathParts s).head? = some ['.'] then [.curDir] else []) ++
  (pathParts s).filterMap componentOf

def pushPath (path name : List Char) : List Char :=
  if path = [] ∨ path.getLast? = some '/' then path ++ name else path ++ '/' :: name

/-- the path without its last name; the root has none -/
def popPath (path : List Char) : List Char :=
  match path.reverse.dropWhile (· ≠ '/') with
  | [] => []
  | _ :: rest => if rest = [] then ['/'] else rest.reverse

/-- one part more of a path -/
def resolveStep (names : List (List Char)) (part : List Char) : List (List Char) :=
  match componentOf part with
  | some (.normal name) => names ++ [name]
  | some .parentDir => names.dropLast
  | _ => names

def resolvePath (s : List Char) : Option (List (List Char)) :=
  if s.head? = some '/' then some ((pathParts s).foldl resolveStep []) else none

/-- the names that a path leads through from a directory; an absolute path starts at the root -/
def resolveFrom (base : List (List Char)) (s : List Char) : List (List Char) :=
  (pathParts s).foldl resolveStep (if s.head? = some '/' then [] else base)

def namesText (names : List (List Char)) : List Char := names.flatMap fun n => '/' :: n

def pathText (names : List (List Char)) : List Char :=
  if names = [] then ['/'] else namesText names

section
variable {s n path : List Char} {names ds : List (List Char)}

theorem slash_notMem_of_parts {part : List Char} (h : part ∈ pathParts s) : '/' ∉ part := by
  induction s generalizing part with
  | nil =>
    rw [pathParts, splitOn_nil, mem_singleton] at h
    rw [h]
    exact not_mem_nil
  | cons c s ih =>
    rw [pathParts, splitOn_cons_eq_if_modifyHead] at h
    split at h
    · rcases mem_cons.mp h with rfl | h
      · exact not_mem_nil
      · exact ih h
    · next hc =>
      cases hpr : s.splitOn '/' with
      | nil => exact absurd hpr (splitOn_ne_nil _ _)
      | cons first rest =>
        rw [hpr] at h
        have hm : ∀ p ∈ first :: rest, '/' ∉ p :=
          fun p hp => ih (by rw [pathParts, hpr]; exact hp)
        rcases mem_cons.mp h with rfl | h
        · intro hsl
          rcases mem_cons.mp hsl with heq | hsl
          · exact hc (by rw [← heq]; rfl)
          · exact hm first mem_cons_self hsl
        · exact hm part (mem_cons_of_mem _ h)

theorem resolveFrom_name (base : List (List Char)) (hn : IsName n) (hdt : '.' ∉ n) :
    resolveFrom base n = base ++ [n] := by
  have hpr : pathParts n = [n] := splitOn_eq_singleton hn.2
  have hh : n.head? ≠ some '/' := fun h => hn.2 (mem_of_mem_head? h)
  have hcm : componentOf n = some (.normal n) := by
    unfold componentOf
    rw [if_neg, if_neg]
    · rintro rfl
      exact hdt mem_cons_self
    · rintro (h | rfl)
      · exact hn.1 h
      · exact hdt mem_cons_self
  unfold resolveFrom
  rw [hpr, if_neg hh]
  show resolveStep base n = _
  unfold resolveStep
  rw [hcm]

theorem namesText_append (a b : List (List Char)) :
    namesText (a ++ b) = namesText a ++ namesText b := flatMap_append

theorem namesText_ne_nil (h : names ≠ []) : namesText names ≠ [] := by
  cases names with
  | nil => exact absurd rfl h
  | cons n names => exact cons_ne_nil _ _

theorem pathText_concat (names : List (List Char)) (n : List Char) :
    pathText (names ++ [n]) = namesText names ++ '/' :: n := by
  rw [pathText]
  simp [namesText]

theorem head?_pathText (names : List (List Char)) : (pathText names).head? = some '/' := by
  cases names with
  | nil => rfl
  | cons n names => rfl

theorem getLast?_namesText (hnm : ∀ n ∈ names, IsName n) :
    (namesText names).getLast? ≠ some '/' := by
  induction names using reverseRecOn with
  | nil => simp [namesText]
  | append_singleton names n _ =>
    obtain ⟨hne, hsl⟩ := hnm n (by simp)
    rw [namesText_append]
    intro hls
    have hm : '/' ∈ n := by
      have ht : namesText names ++ namesText [n] = (namesText names ++ ['/']) ++ n := by
        simp [namesText]
      rw [ht, getLast?_append_of_ne_nil _ hne] at hls
      exact mem_of_getLast? hls
    exact hsl hm

theorem pushPath_text (hnm : ∀ n ∈ names, IsName n) :
    pushPath (pathText names) n = pathText (names ++ [n]) := by
  rw [pathText_concat]
  by_cases h : names = []
  · subst h
    rfl
  · rw [pathText, if_neg h, pushPath, if_neg]
    rintro (hnl | hls)
    · exact namesText_ne_nil h hnl
    · exact getLast?_namesText hnm hls

theorem popPath_text (hnm : ∀ n ∈ names, IsName n) :
    popPath (pathText names) = pathText names.dropLast := by
  induction names using reverseRecOn with
  | nil => rfl
  | append_singleton names n _ =>
    obtain ⟨_, hsl⟩ := hnm n (by simp)
    have hdr : (namesText names ++ '/' :: n).reverse.dropWhile (· ≠ '/') =
        '/' :: (namesText names).reverse := by
      rw [reverse_append, reverse_cons, append_assoc, dropWhile_append_of_pos]
      · simp
      · intro c hc
        exact decide_eq_true fun hc' => hsl (by rw [← hc']; exact mem_reverse.mp hc)
    rw [pathText_concat, popPath, hdr, dropLast_concat]
    dsimp only
    by_cases h : names = []
    · subst h
      rfl
    · rw [if_neg (by simpa using namesText_ne_nil h), reverse_reverse, pathText, if_neg h]

theorem head?_pushPath (h : path.head? ≠ some '/') (hn : IsName n) :
    (pushPath path n).head? ≠ some '/' := by
  obtain ⟨hne, hsl⟩ := hn
  have hh : n.head? ≠ some '/' := fun hh => hsl (mem_of_head? hh)
  cases path with
  | nil => exact hh
  | cons c path =>
    unfold pushPath
    split
    · exact h
    · exact h

theorem head?_popPath (h : path.head? ≠ some '/') : (popPath path).head? ≠ some '/' := by
  unfold popPath
  split
  · simp
  · next c rest hdr =>
    have hsp := takeWhile_append_dropWhile (p := (· ≠ '/')) (l := path.reverse)
    rw [hdr] at hsp
    have hpt : path = rest.reverse ++ c :: (path.reverse.takeWhile (· ≠ '/')).reverse := by
      have hrv := congrArg reverse hsp
      simp only [reverse_append, reverse_cons, reverse_reverse,
        append_assoc, singleton_append] at hrv
      exact hrv.symm
    have hc : c = '/' := by
      have hh := head?_dropWhile_not (· ≠ '/') path.reverse
      rw [hdr] at hh
      simpa using hh
    rw [hpt] at h
    by_cases hr : rest = []
    · subst hr
      exact absurd (by rw [hc]; rfl) h
    · rw [if_neg hr]
      rwa [head?_append_of_ne_nil _ (by simpa using hr)] at h

theorem componentOf_eq_normal {part name : List Char} (h : componentOf part = some (.normal name)) :
    name = part ∧ part ≠ [] := by
  unfold componentOf at h
  split at h
  · cases h
  · next hpr =>
    split at h
    · cases h
    · cases h
      exact ⟨rfl, fun hnl => hpr (.inl hnl)⟩

theorem componentOf_ne_rootDir (part : List Char) : componentOf part ≠ some .rootDir := by
  unfold componentOf
  intro h
  split at h
  · cases h
  · split at h
    · cases h
    · cases h

theorem isName_resolveStep {part : List Char} (hnm : ∀ n ∈ names, IsName n)
    (hpr : '/' ∉ part) : ∀ n ∈ resolveStep names part, IsName n := by
  unfold resolveStep
  split
  · next name hcm =>
    obtain ⟨rfl, hne⟩ := componentOf_eq_normal hcm
    intro n hn
    rcases mem_append.mp hn with hn | hn
    · exact hnm n hn
    · rw [mem_singleton.mp hn]
      exact ⟨hne, hpr⟩
  · exact fun n hn => hnm n (mem_of_mem_dropLast hn)
  · exact hnm

theorem isName_foldl {ps : List (List Char)} (hpr : ∀ p ∈ ps, '/' ∉ p)
    (hnm : ∀ n ∈ names, IsName n) : ∀ n ∈ ps.foldl resolveStep names, IsName n := by
  induction ps generalizing names with
  | nil => exact hnm
  | cons part ps ih =>
    exact ih (fun p hp => hpr p (mem_cons_of_mem _ hp))
      (isName_resolveStep hnm (hpr part mem_cons_self))

theorem isName_of_resolvePath (h : resolvePath s = some names) : ∀ n ∈ names, IsName n := by
  unfold resolvePath at h
  split at h
  · cases h
    exact isName_foldl (fun _ => slash_notMem_of_parts) fun _ hn => absurd hn not_mem_nil
  · cases h

/-! ## paths below others -/

theorem namesText_cons (n : List Char) (names : List (List Char)) :
    namesText (n :: names) = '/' :: (n ++ namesText names) := rfl

theorem strictly_of_namesText (hds : ∀ d ∈ ds, IsName d) (hnm : ∀ n ∈ names, IsName n)
    (h : namesText ds ++ ['/'] <+: namesText names) : ds <+: names ∧ ds ≠ names := by
  induction ds generalizing names with
  | nil =>
    constructor
    · exact nil_prefix
    · rintro rfl
      cases h.length_le
  | cons d ds ih =>
    cases names with
    | nil => exact absurd h.length_le (by simp [namesText])
    | cons n names =>
      obtain ⟨_, hd⟩ := hds d mem_cons_self
      obtain ⟨_, hn⟩ := hnm n mem_cons_self
      -- both texts go on with a slash, so the first names are equal
      rw [namesText_cons, namesText_cons, cons_append, cons_prefix_cons] at h
      obtain ⟨rest, hr⟩ := h.2
      rw [append_assoc, append_assoc] at hr
      have hsr : ∃ a, namesText ds ++ (['/'] ++ rest) = '/' :: a := by
        cases ds with
        | nil => exact ⟨rest, rfl⟩
        | cons d' ds => exact ⟨_, rfl⟩
      obtain ⟨a, ha⟩ := hsr
      cases names with
      | nil =>
        rw [ha] at hr
        have hsl : '/' ∈ n ++ namesText [] := by
          rw [← hr]
          exact mem_append_right _ mem_cons_self
        rw [namesText, flatMap_nil, append_nil] at hsl
        exact absurd hsl hn
      | cons n' names =>
        rw [ha, namesText_cons n' names] at hr
        obtain ⟨rfl, htl⟩ := append_cons_inj hd hn hr
        have hnx : namesText ds ++ ['/'] <+: namesText (n' :: names) := by
          refine ⟨rest, ?_⟩
          rw [append_assoc, ha, htl, namesText_cons]
        obtain ⟨hle, hne⟩ := ih (fun d hd => hds d (mem_cons_of_mem _ hd))
          (fun n hn => hnm n (mem_cons_of_mem _ hn)) hnx
        exact ⟨cons_prefix_cons.mpr ⟨rfl, hle⟩, fun heq => hne (cons.inj heq).2⟩

theorem below_of_text (hds : ∀ d ∈ ds, IsName d) (hnm : ∀ n ∈ names, IsName n)
    (h : pathText ds ++ ['/'] <+: pathText names) : ds <+: names ∧ ds ≠ names := by
  by_cases hnl : names = []
  · subst hnl
    by_cases hds' : ds = []
    · subst hds'
      exact absurd h.length_le (by decide)
    · rw [pathText, if_neg hds'] at h
      have hp := length_pos_iff.mpr (namesText_ne_nil hds')
      have hl : (namesText ds ++ ['/']).length ≤ 1 := h.length_le
      rw [length_append, length_singleton] at hl
      omega
  · rw [pathText, pathText] at h
    split at h
    · -- a second slash after the first is in no text
      cases names with
      | nil => exact absurd rfl hnl
      | cons n names =>
        obtain ⟨hne, hsl⟩ := hnm n mem_cons_self
        cases n with
        | nil => exact absurd rfl hne
        | cons c n =>
          have hc := (cons_prefix_cons.mp (cons_prefix_cons.mp h).2).1
          exact absurd (hc ▸ mem_cons_self) hsl
    · exact strictly_of_namesText hds hnm h

theorem text_of_below (h : ds <+: names) : pathText ds <+: pathText names := by
  obtain ⟨rest, rfl⟩ := h
  by_cases hds : ds = []
  · subst hds
    by_cases hr : rest = []
    · subst hr
      exact prefix_rfl
    · cases rest with
      | nil => exact absurd rfl hr
      | cons n rest => exact ⟨n ++ namesText rest, rfl⟩
  · rw [pathText, if_neg hds, pathText, if_neg (by simp [hds]), namesText_append]
    exact prefix_append _ _

end

end Platform.Lib

import Mathlib.Tactic.Common

/-!
# Listing by pages

A listing is called again and again, each time with the token that it returned, until it says that
there is no more.  `Pages page n t items` is such a sequence from the `n`-th call on, with the token
`t`, and `items` all that it returned.

What a token stands for is the rest of one list that the next call starts at.  If each call returns
the first `limit` items of that rest (`Serves`), then

* `pages_complete`       clean boundaries give the whole list;
* `clean_of_skipping`    tokens that only skip items give it only if the boundaries are clean;
* `clean_of_repeating`   so do tokens that only repeat items.
-/

namespace Platform.Lib
open List

/-- what one call returns -/
structure Page (α τ : Type) where
  items : List α
  hasMore : Bool
  token : Option τ
deriving DecidableEq

section
variable {α τ ε : Type}

inductive Pages (page : Nat → Option τ → Except ε (Page α τ)) :
    Nat → Option τ → List α → Prop
  | last {n : Nat} {t : Option τ} {p : Page α τ} (hpage : page n t = .ok p)
      (hmore : p.hasMore = false) : Pages page n t p.items
  | more {n : Nat} {t : Option τ} {p : Page α τ} {rest : List α} (hpage : page n t = .ok p)
      (hmore : p.hasMore = true) (hrest : Pages page (n + 1) p.token rest) :
      Pages page n t (p.items ++ rest)

variable {page : Nat → Option τ → Except ε (Page α τ)}

variable {t : Option τ} {n : Nat} {items : List α}

theorem Pages.unique {items' : List α} (h : Pages page n t items)
    (h' : Pages page n t items') : items = items' := by
  induction h generalizing items' with
  | last hp hm =>
    cases h' with
    | last hp' _ =>
      rw [hp] at hp'
      cases hp'
      rfl
    | more hp' hm' _ =>
      rw [hp] at hp'
      cases hp'
      rw [hm] at hm'
      cases hm'
  | more hp hm _ ih =>
    cases h' with
    | last hp' hm' =>
      rw [hp] at hp'
      cases hp'
      rw [hm] at hm'
      cases hm'
    | more hp' _ hr' =>
      rw [hp] at hp'
      cases hp'
      rw [ih hr']

theorem Pages.mono {ε' : Type} {page' : Nat → Option τ → Except ε' (Page α τ)}
    (hm : ∀ n t p, page n t = .ok p → page' n t = .ok p)
    (h : Pages page n t items) : Pages page' n t items := by
  induction h with
  | last hp hmr => exact .last (hm _ _ _ hp) hmr
  | more hp hmr _ ih => exact .more (hm _ _ _ hp) hmr ih

theorem not_pages_of_loop {p : Page α τ} (hpg : ∀ n, page n t = .ok p) (hm : p.hasMore = true)
    (htk : p.token = t) :
    ¬ Pages page n t items := by
  intro h
  induction h with
  | last hp hno =>
    rw [hpg] at hp
    cases hp
    rw [hm] at hno
    cases hno
  | more hp _ _ ih =>
    rw [hpg] at hp
    cases hp
    rw [htk] at ih
    exact ih hpg rfl

def Page.map {β : Type} (f : α → β) (p : Page α τ) : Page β τ := ⟨p.items.map f, p.hasMore, p.token⟩

theorem pages_map_iff {β : Type} {f : α → β} {page' : Nat → Option τ → Except ε (Page β τ)}
    (hm : ∀ n t, page' n t = (page n t).map (Page.map f)) {items : List β} :
    Pages page' n t items ↔ ∃ l, Pages page n t l ∧ items = l.map f := by
  constructor
  · intro h
    induction h with
    | @last n t p' hpg hmr =>
      rw [hm] at hpg
      cases hp : page n t with
      | error err =>
        rw [hp] at hpg
        cases hpg
      | ok p =>
        rw [hp] at hpg
        cases hpg
        exact ⟨p.items, .last hp hmr, rfl⟩
    | @more n t p' rest hpg hmr _ ih =>
      rw [hm] at hpg
      cases hp : page n t with
      | error err =>
        rw [hp] at hpg
        cases hpg
      | ok p =>
        rw [hp] at hpg
        cases hpg
        obtain ⟨l, hl, rfl⟩ := ih
        exact ⟨p.items ++ l, .more hp hmr hl, (map_append ..).symm⟩
  · rintro ⟨l, h, rfl⟩
    induction h with
    | @last n t p hp hmr =>
      have hpg : page' n t = .ok (p.map f) := by
        rw [hm, hp]
        rfl
      exact .last hpg hmr
    | @more n t p rest hp hmr _ ih =>
      have hpg : page' n t = .ok (p.map f) := by
        rw [hm, hp]
        rfl
      rw [map_append]
      exact .more hpg hmr ih

theorem exists_last_of_page {limit : Nat} {s : List α} (hlm : 0 < limit)
    (hl : limit ≤ s.length) : ∃ init x, s.take limit = init ++ [x] ∧
      s = init ++ x :: s.drop limit ∧ s[limit - 1]? = some x := by
  rcases eq_nil_or_concat (s.take limit) with hnl | ⟨init, x, hx⟩
  · have hz := congrArg length hnl
    rw [length_take, length_nil] at hz
    omega
  · rw [concat_eq_append] at hx
    have hsp : s = init ++ x :: s.drop limit := by
      conv_lhs => rw [← take_append_drop limit s, hx]
      rw [append_assoc]
      rfl
    have hii := congrArg length hx
    rw [length_take, length_append, length_singleton] at hii
    refine ⟨init, x, hx, hsp, ?_⟩
    rw [hsp, getElem?_append_right (by omega)]
    have hz : limit - 1 - init.length = 0 := by omega
    rw [hz]
    rfl

variable (page) in
/-- Each call returns the first `limit` items of what its token stands for. -/
structure Serves (limit : Nat) (start : Option τ → List α) (more : List α → Bool)
    (token : List α → Option τ) : Prop where
  limit_pos : 0 < limit
  page_eq : ∀ n t, page n t = .ok ⟨(start t).take limit, more (start t), token (start t)⟩
  rest_of_more : ∀ s, more s = true → limit ≤ s.length
  all_of_not_more : ∀ s, more s = false → s.length ≤ limit
  more_mono : ∀ s s', s.length ≤ s'.length → more s = true → more s' = true

/-- The token made from the rest `s` of the list stands for `s` without the page. -/
def CleanAfter (limit : Nat) (start : Option τ → List α) (token : List α → Option τ)
    (s : List α) : Prop := start (token s) = s.drop limit

variable {limit : Nat} {start : Option τ → List α} {more : List α → Bool}
  {tok : List α → Option τ}

variable (hsr : Serves page limit start more tok)

section
include hsr

theorem pages_complete (hcl : ∀ j, more ((start t).drop (j * limit)) = true →
      CleanAfter limit start tok ((start t).drop (j * limit))) :
    Pages page n t (start t) := by
  -- on the length of what is left, which each full page makes smaller
  induction hl : (start t).length using Nat.strongRecOn generalizing t n with
  | ind len ih =>
    cases hm : more (start t) with
    | false =>
      have ha : (start t).take limit = start t :=
        take_of_length_le (hsr.all_of_not_more _ hm)
      have hls := Pages.last (hsr.page_eq n t) hm
      rwa [ha] at hls
    | true =>
      have hnx : start (tok (start t)) = (start t).drop limit := by
        have h := hcl 0
        rw [Nat.zero_mul] at h
        exact h hm
      have hle := hsr.rest_of_more _ hm
      have hp := hsr.limit_pos
      have hr : Pages page (n + 1) (tok (start t)) (start (tok (start t))) := by
        refine ih _ ?_ ?_ rfl
        · rw [hnx, length_drop]
          omega
        · intro j hj
          have hj' := hcl (j + 1)
          rw [hnx, drop_drop] at hj ⊢
          rw [Nat.add_mul, Nat.one_mul, Nat.add_comm] at hj'
          exact hj' hj
      have ha := Pages.more (hsr.page_eq n t) hm hr
      rwa [hnx, take_append_drop] at ha

theorem Pages.length_le
    (hsk : ∀ t, more (start t) = true → start (tok (start t)) <:+ (start t).drop limit)
    (h : Pages page n t items) :
    items.length ≤ (start t).length := by
  induction h with
  | @last n t p hp _ =>
    rw [hsr.page_eq] at hp
    cases hp
    exact length_take_le' limit (start t)
  | @more n t p rest hp hm _ ih =>
    rw [hsr.page_eq] at hp
    cases hp
    have hsf := (hsk _ hm).length_le
    change rest.length ≤ (start (tok (start t))).length at ih
    rw [length_drop] at hsf
    rw [length_append, length_take]
    omega

theorem Pages.le_length
    (hrp : ∀ t, more (start t) = true → (start t).drop limit <:+ start (tok (start t)))
    (h : Pages page n t items) : (start t).length ≤ items.length := by
  induction h with
  | @last n t p hp hm =>
    rw [hsr.page_eq] at hp
    cases hp
    show (start t).length ≤ ((start t).take limit).length
    have ha : (start t).take limit = start t := take_of_length_le (hsr.all_of_not_more _ hm)
    exact Nat.le_of_eq (congrArg length ha.symm)
  | @more n t p rest hp hm _ ih =>
    rw [hsr.page_eq] at hp
    cases hp
    have hsf := (hrp _ hm).length_le
    change (start (tok (start t))).length ≤ rest.length at ih
    rw [length_drop] at hsf
    rw [length_append, length_take]
    omega

end

section
include hsr

theorem not_more_drop {s : List α} (h : more s = false) (m : Nat) : ¬ more (s.drop m) = true := by
  intro hm
  have hs := hsr.more_mono _ s (by rw [length_drop]; omega) hm
  rw [h] at hs
  cases hs

theorem clean_of_length
    (hfr : ∀ n t rest, more (start t) = true → Pages page n (tok (start t)) rest →
      rest.length = ((start t).drop limit).length → start (tok (start t)) = (start t).drop limit)
    (h : Pages page n t items) (hl : items.length = (start t).length) (j : Nat)
    (hj : more ((start t).drop (j * limit)) = true) :
    CleanAfter limit start tok ((start t).drop (j * limit)) := by
  induction h generalizing j with
  | @last n t p hp hm =>
    rw [hsr.page_eq] at hp
    cases hp
    exact absurd hj (not_more_drop hsr hm _)
  | @more n t p rest hp hm hr ih =>
    rw [hsr.page_eq] at hp
    cases hp
    have hle := hsr.rest_of_more _ hm
    rw [length_append, length_take] at hl
    have hl' : rest.length = ((start t).drop limit).length := by
      rw [length_drop]
      omega
    have hnx := hfr _ t rest hm hr hl'
    cases j with
    | zero =>
      rw [Nat.zero_mul]
      exact hnx
    | succ j =>
      have h := ih (hl'.trans (congrArg length hnx).symm) j
      rw [hnx, drop_drop, Nat.add_comm limit, ← Nat.succ_mul] at h
      exact h hj

theorem clean_of_skipping
    (hsk : ∀ t, more (start t) = true → start (tok (start t)) <:+ (start t).drop limit)
    (h : Pages page n t items) (hl : items.length = (start t).length) (j : Nat)
    (hj : more ((start t).drop (j * limit)) = true) :
    CleanAfter limit start tok ((start t).drop (j * limit)) := by
  refine clean_of_length hsr (fun _ t _ hm hr hl => ?_) h hl j hj
  have hsf := hsk t hm
  have hbn := hr.length_le hsr hsk
  exact hsf.eq_of_length (Nat.le_antisymm hsf.length_le (hl ▸ hbn))

theorem clean_of_repeating
    (hrp : ∀ t, more (start t) = true → (start t).drop limit <:+ start (tok (start t)))
    (h : Pages page n t items) (hl : items.length = (start t).length) (j : Nat)
    (hj : more ((start t).drop (j * limit)) = true) :
    CleanAfter limit start tok ((start t).drop (j * limit)) := by
  refine clean_of_length hsr (fun _ t _ hm hr hl => ?_) h hl j hj
  have hsf := hrp t hm
  have hbn := hr.le_length hsr hrp
  exact (hsf.eq_of_length (Nat.le_antisymm hsf.length_le (hl ▸ hbn))).symm

end

end

/-! ## lists of keys with values -/

section
variable {κ υ ε : Type}

theorem listed_of_keys {Q : κ → ε → Prop} {val : ε → υ} {ks : List κ} {f : κ → κ × υ}
    (hks : ks.Nodup) (hQ : ∀ k, k ∈ ks ↔ ∃ e, Q k e) (hf : ∀ k e, Q k e → f k = (k, val e)) :
    ((ks.map f).map Prod.fst).Nodup ∧ ∀ k v, (k, v) ∈ ks.map f ↔ ∃ e, Q k e ∧ val e = v := by
  constructor
  · have hfs : (ks.map f).map Prod.fst = ks := by
      rw [map_map]
      conv_rhs => rw [← map_id ks]
      refine map_congr_left fun k hk => ?_
      obtain ⟨e, he⟩ := (hQ k).mp hk
      exact congrArg Prod.fst (hf k e he)
    rwa [hfs]
  · intro k v
    rw [mem_map]
    constructor
    · rintro ⟨k', hk', heq⟩
      obtain ⟨e, he⟩ := (hQ k').mp hk'
      rw [hf k' e he] at heq
      cases heq
      exact ⟨e, he, rfl⟩
    · rintro ⟨e, he, rfl⟩
      exact ⟨k, (hQ k).mpr ⟨e, he⟩, hf k e he⟩

theorem length_of_listed {Q : κ → ε → Prop} {val : ε → υ} {ks : List κ} {l : List (κ × υ)}
    (hks : ks.Nodup) (hQ : ∀ k, k ∈ ks ↔ ∃ e, Q k e) (hl : (l.map Prod.fst).Nodup)
    (h : ∀ k v, (k, v) ∈ l ↔ ∃ e, Q k e ∧ val e = v) : l.length = ks.length := by
  have hpr : (l.map Prod.fst).Perm ks := by
    rw [perm_ext_iff_of_nodup hl hks]
    intro k
    rw [hQ k, mem_map]
    constructor
    · rintro ⟨⟨k', v⟩, hmem, rfl⟩
      obtain ⟨e, he, -⟩ := (h k' v).mp hmem
      exact ⟨e, he⟩
    · rintro ⟨e, he⟩
      exact ⟨(k, val e), (h k _).mpr ⟨e, he, rfl⟩, rfl⟩
  rw [← hpr.length_eq, length_map]

end

end Platform.Lib

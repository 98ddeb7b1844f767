import Platform.Lib.Assoc
import Platform.Lib.Paths

/-!
# Routes of a challenge (`crates/challenge-sdk/src/routes.rs`)

A pattern is split at its slashes, and the parts that start with a colon are parameters.
-/

namespace Platform.Sdk
open Lib List

inductive HttpMethod where
  | get
  | post
  | put
  | delete
  | patch

def HttpMethod.asStr : HttpMethod → String
  | .get => "GET"
  | .post => "POST"
  | .put => "PUT"
  | .delete => "DELETE"
  | .patch => "PATCH"

structure ChallengeRoute where
  method : HttpMethod
  path : List Char

abbrev Params := HashMap (List Char) (List Char)

/-- the name of a parameter: what follows a colon -/
def paramName : List Char → Option (List Char)
  | ':' :: name => some name
  | _ => none

/-- the loop over the parts of the pattern and of the path -/
def matchParts : List (List Char × List Char) → Params → Option Params
  | [], params => some params
  | (pattern, actual) :: rest, params =>
    match paramName pattern with
    | some name => matchParts rest (params.insert name actual)
    | none => if pattern = actual then matchParts rest params else none

def ChallengeRoute.matches (r : ChallengeRoute) (method : String) (path : List Char) :
    Option Params :=
  if method ≠ r.method.asStr then none
  else if (pathParts r.path).length ≠ (pathParts path).length then none
  else matchParts ((pathParts r.path).zip (pathParts path)) ∅

def findRoute (routes : List ChallengeRoute) (method : String) (path : List Char) :
    Option (ChallengeRoute × Params) :=
  routes.findSome? fun r => (r.matches method path).map fun params => (r, params)

/-! ## substitution -/

def paramNames (pattern : List Char) : List (List Char) := (pathParts pattern).filterMap paramName

/-- a part of a pattern, with the value of its parameter -/
def fill (value : List Char → List Char) (part : List Char) : List Char :=
  ((paramName part).map value).getD part

def substitute (value : List Char → List Char) (pattern : List Char) : List Char :=
  ['/'].intercalate ((pathParts pattern).map (fill value))

section
variable {parts actual : List (List Char)} {params params' : Params}

theorem matchParts_fill (value : List Char → List Char) (parts : List (List Char))
    (params : Params) :
    ∃ params', matchParts (parts.zip (parts.map (fill value))) params = some params' ∧
      ∀ n, params'.lookup n =
        if n ∈ parts.filterMap paramName then some (value n) else params.lookup n := by
  induction parts generalizing params with
  | nil => exact ⟨params, rfl, fun n => (if_neg not_mem_nil).symm⟩
  | cons part parts ih =>
    rw [map_cons, zip_cons_cons, matchParts, filterMap_cons, fill]
    cases paramName part with
    | none => simpa using ih params
    | some name =>
      obtain ⟨params', hm, hl⟩ := ih (params.insert name (value name))
      refine ⟨params', hm, fun n => ?_⟩
      rw [hl]
      by_cases hn : n = name
      · subst hn
        simp
      · simp [hn]

theorem fill_matchParts (hlen : parts.length = actual.length)
    (hn : (parts.filterMap paramName).Nodup)
    (h : matchParts (parts.zip actual) params = some params') :
    parts.map (fill fun n => (params'.lookup n).getD []) = actual ∧
      ∀ n ∉ parts.filterMap paramName, params'.lookup n = params.lookup n := by
  induction parts generalizing actual params with
  | nil =>
    cases h
    exact ⟨(length_eq_zero_iff.mp hlen.symm).symm, fun n _ => rfl⟩
  | cons part parts ih =>
    obtain ⟨a, actual, rfl⟩ := exists_cons_of_length_eq_add_one hlen.symm
    replace hlen := Nat.succ_inj.mp hlen
    rw [zip_cons_cons, matchParts] at h
    rw [filterMap_cons] at hn ⊢
    rw [map_cons, fill]
    cases hp : paramName part with
    | none =>
      rw [hp] at h hn
      obtain ⟨rfl, hr⟩ := Option.ite_none_right_eq_some.mp h
      obtain ⟨hm, hl⟩ := ih hlen hn hr
      exact ⟨by rw [hm]; rfl, hl⟩
    | some name =>
      rw [hp] at h hn
      obtain ⟨hnm, hn⟩ := nodup_cons.mp hn
      obtain ⟨hm, hl⟩ := ih hlen hn h
      refine ⟨?_, fun n hne => ?_⟩
      · rw [hm]
        show (params'.lookup name).getD [] :: actual = _
        rw [hl name hnm, AList.lookup_insert]
        rfl
      · obtain ⟨hne, hin⟩ := not_or.mp (mem_cons.not.mp hne)
        rw [hl n hin, AList.lookup_insert_ne hne]

end

/-- **Matching inverts substitution**, and the first route that matches is found. -/
theorem routes_invert (r : ChallengeRoute) (hn : (paramNames r.path).Nodup) :
    (∀ value : List Char → List Char, (∀ n ∈ paramNames r.path, '/' ∉ value n) →
      ∃ params, r.matches r.method.asStr (substitute value r.path) = some params ∧
        ∀ n, params.lookup n = if n ∈ paramNames r.path then some (value n) else none) ∧
    (∀ method path params, r.matches method path = some params →
      substitute (fun n => (params.lookup n).getD []) r.path = path) ∧
    ∀ (routes : List ChallengeRoute) (method : String) (path : List Char),
      (∀ r params, findRoute routes method path = some (r, params) ↔
        ∃ before after, routes = before ++ r :: after ∧ r.matches method path = some params ∧
          ∀ r' ∈ before, r'.matches method path = none) ∧
      (findRoute routes method path = none ↔ ∀ r ∈ routes, r.matches method path = none) := by
  refine ⟨fun value hv => ?_, fun method path params h => ?_, fun routes method path => ⟨?_, ?_⟩⟩
  · have hpr : pathParts (substitute value r.path) = (pathParts r.path).map (fill value) := by
      refine splitOn_intercalate '/' (forall_mem_map.mpr fun part hp => ?_) ?_
      · unfold fill
        cases hpn : paramName part with
        | none => exact slash_notMem_of_parts hp
        | some name => exact hv name (mem_filterMap.mpr ⟨part, hp, hpn⟩)
      · simp [pathParts, splitOn_ne_nil]
    rw [ChallengeRoute.matches, if_neg (not_not.mpr rfl), hpr, length_map,
      if_neg (not_not.mpr rfl)]
    exact matchParts_fill value (pathParts r.path) ∅
  · unfold ChallengeRoute.matches at h
    obtain ⟨-, h⟩ := Option.ite_none_left_eq_some.mp h
    obtain ⟨hl, h⟩ := Option.ite_none_left_eq_some.mp h
    rw [substitute, (fill_matchParts (not_not.mp hl) hn h).1]
    exact intercalate_splitOn '/'
  · intro r params
    rw [findRoute, findSome?_eq_some_iff]
    simp only [Option.map_eq_some_iff, Option.map_eq_none_iff, Prod.mk.injEq]
    grind
  · rw [findRoute, findSome?_eq_none_iff]
    simp only [Option.map_eq_none_iff]

def agentRoute : ChallengeRoute := ⟨.get, "/agent/:hash".toList⟩

theorem agentRoute_inverts :
    ∃ params, agentRoute.matches "GET" "/agent/5f3a".toList = some params ∧
      params.lookup "hash".toList = some "5f3a".toList ∧
      substitute (fun n => (params.lookup n).getD []) agentRoute.path = "/agent/5f3a".toList := by
  obtain ⟨h1, h2, -⟩ := routes_invert agentRoute (by decide)
  obtain ⟨params, hp, hl⟩ := h1 (fun _ => "5f3a".toList) fun _ _ => by decide
  exact ⟨params, hp, (hl _).trans (if_pos (by decide)), h2 _ _ _ hp⟩

end Platform.Sdk

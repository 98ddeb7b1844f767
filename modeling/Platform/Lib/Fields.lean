import Platform.Lib.Binary

/-!
# Fields written one after the other

A record is often hashed or signed as its fields, written without their lengths.  The bytes then
determine the fields if and only if the lengths are known (`flatten_eq_iff`).  `tagged` are the
fields of a list of texts with a number of eight bytes each.  With a separator between them, the
first or the last field is determined if the separator is not in it (`append_cons_inj`).
-/

namespace Platform.Lib
open List

theorem flatten_eq_iff {α : Type} {x y : List (List α)} (h : x.flatten = y.flatten) :
    x = y ↔ x.map length = y.map length :=
  ⟨congrArg _, fun hln => eq_iff_flatten_eq.mpr ⟨h, hln⟩⟩

theorem flatten_append_inj {α : Type} {x y : List (List α)} {r r' : List α}
    (h : x.flatten ++ r = y.flatten ++ r') (hln : x.map length = y.map length) :
    x = y ∧ r = r' := by
  have htt : x.flatten.length = y.flatten.length := by
    rw [length_flatten, length_flatten, hln]
  obtain ⟨hfl, hr⟩ := append_inj h htt
  exact ⟨(flatten_eq_iff hfl).mpr hln, hr⟩

theorem append_cons_inj {α : Type} {c : α} {a a' l l' : List α} (ha : c ∉ a) (ha' : c ∉ a')
    (h : a ++ c :: l = a' ++ c :: l') : a = a' ∧ l = l' := by
  induction a generalizing a' with
  | nil =>
    cases a' with
    | nil => exact ⟨rfl, (cons.inj h).2⟩
    | cons x a' => exact absurd ((cons.inj h).1 ▸ mem_cons_self) ha'
  | cons x a ih =>
    cases a' with
    | nil => exact absurd ((cons.inj h).1 ▸ mem_cons_self) ha
    | cons x' a' =>
      obtain ⟨rfl, htl⟩ := cons.inj h
      obtain ⟨rfl, rfl⟩ := ih (fun hx => ha (mem_cons_of_mem x hx))
        (fun hx => ha' (mem_cons_of_mem x hx)) htl
      exact ⟨rfl, rfl⟩

theorem append_cons_inj_last {α : Type} {c : α} {a a' l l' : List α} (hl : c ∉ l) (hl' : c ∉ l')
    (h : a ++ c :: l = a' ++ c :: l') : l = l' := by
  have hrv := congrArg reverse h
  simp only [reverse_append, reverse_cons, append_assoc, singleton_append] at hrv
  have hls := (append_cons_inj (by rwa [mem_reverse]) (by rwa [mem_reverse]) hrv).1
  exact reverse_injective hls

/-- a list of texts, each followed by its number -/
def tagged (l : List (String × UInt64)) : List (List UInt8) :=
  l.flatMap fun p => [utf8 p.1, encodeU64 p.2]

def textLengths (l : List (String × UInt64)) : List Nat := l.map fun p => (utf8 p.1).length

theorem tagged_cons (p : String × UInt64) (l : List (String × UInt64)) :
    tagged (p :: l) = utf8 p.1 :: encodeU64 p.2 :: tagged l := rfl

theorem tagged_inj {l l' : List (String × UInt64)} : tagged l = tagged l' ↔ l = l' := by
  refine ⟨fun h => ?_, congrArg tagged⟩
  induction l generalizing l' with
  | nil =>
    cases l' with
    | nil => rfl
    | cons p' l' => cases h
  | cons p l ih =>
    cases l' with
    | nil => cases h
    | cons p' l' =>
      obtain ⟨ht, hr⟩ := cons.inj h
      obtain ⟨hnm, htl⟩ := cons.inj hr
      rw [Prod.ext (utf8_inj ht) (encodeU64_inj hnm), ih htl]

theorem map_length_tagged {l l' : List (String × UInt64)} :
    (tagged l).map length = (tagged l').map length ↔ textLengths l = textLengths l' := by
  induction l generalizing l' with
  | nil =>
    cases l' with
    | nil => exact ⟨fun _ => rfl, fun _ => rfl⟩
    | cons p' l' => exact ⟨nofun, nofun⟩
  | cons p l ih =>
    cases l' with
    | nil => exact ⟨nofun, nofun⟩
    | cons p' l' =>
      rw [tagged_cons, tagged_cons]
      simp only [map_cons, length_encodeU64, textLengths, cons.injEq, true_and]
      exact and_congr_right fun _ => ih

theorem map_length_encodeU16 {l l' : List UInt16} (h : l.length = l'.length) :
    (l.map encodeU16).map length = (l'.map encodeU16).map length := by
  have ha : ∀ l : List UInt16, (l.map encodeU16).map length = replicate l.length 2 := by
    intro l
    rw [map_map]
    exact map_eq_replicate_iff.mpr fun x _ => length_leBytes 2 _
  rw [ha, ha, h]

end Platform.Lib

import Mathlib.Data.List.Forall2
import PieSyntax.Json.Value

/-!
# The order of entries

An object of JSON is a set of entries: two objects are the same value when they have the same keys,
and the same value at each, in whatever order the entries stand.  `Json.Same` is this equality of
values.  It looks at objects by their keys only, as a reader does that looks up one entry after the
other.

Values are printed with their entries in the order of the keys.  Sorting is stable, so that even if a
key occurred twice the entry that is found stays the first one: the printed value is the same value.

## Main results

* `Same.exists_value`, `Same.exists_elements` — the parts of a value that is the same as another.
* `sorted_same` — sorting the entries does not change the value.
-/

namespace PieSyntax.Json

/-- The same value: arrays have the same elements in order, objects the same values at the same
keys. -/
inductive Same : Json → Json → Prop where
  | null : Same .null .null
  | bool (b : Bool) : Same (.bool b) (.bool b)
  | number (n : Int) : Same (.number n) (.number n)
  | string (s : String) : Same (.string s) (.string s)
  | array {vs ws : List Json} (hlength : vs.length = ws.length)
      (helements : ∀ (i : Nat) v w, vs[i]? = some v → ws[i]? = some w → Same v w) :
      Same (.array vs) (.array ws)
  | object {es fs : List (String × Json)}
      (hkeys : ∀ k, (es.lookup k).isSome = (fs.lookup k).isSome)
      (hvalues : ∀ k v w, es.lookup k = some v → fs.lookup k = some w → Same v w) :
      Same (.object es) (.object fs)

/-- The value at a key of an object. -/
def valueAt? (v : Json) (k : String) : Option Json :=
  match v with
  | .object es => es.lookup k
  | _ => none

theorem sizeOf_valueAt? {v w : Json} {k : String} (h : v.valueAt? k = some w) :
    sizeOf w < sizeOf v := by
  cases v with
  | object es =>
      obtain ⟨before, after, hes, -⟩ := List.lookup_eq_some_iff.mp h
      have hmem : (k, w) ∈ es := hes ▸ List.mem_append_cons_self
      have hlt := List.sizeOf_lt_of_mem hmem
      simp only [Prod.mk.sizeOf_spec, object.sizeOf_spec] at hlt ⊢
      omega
  | _ => cases h

namespace Same

variable {v : Json}

theorem refl (v : Json) : Same v v :=
  match v with
  | .null => .null
  | .bool b => .bool b
  | .number n => .number n
  | .string s => .string s
  | .array vs => .array rfl fun i w w' hw hw' => by
      obtain rfl := Option.some.inj (hw.symm.trans hw')
      exact refl w
  | .object es => .object (fun _ => rfl) fun k w w' hw hw' => by
      obtain rfl := Option.some.inj (hw.symm.trans hw')
      exact refl w
termination_by sizeOf v
decreasing_by
  · have hlt := List.sizeOf_lt_of_mem (List.mem_of_getElem? hw)
    simp only [array.sizeOf_spec]
    omega
  · exact sizeOf_valueAt? (v := .object es) hw

theorem eq_number {n : Int} (h : Same v (.number n)) : v = .number n := by
  cases h
  rfl

theorem eq_string {s : String} (h : Same v (.string s)) : v = .string s := by
  cases h
  rfl

/-- At a key of the one value there is the same value in the other. -/
theorem exists_value {fs : List (String × Json)} {k : String} {w : Json}
    (h : Same v (.object fs)) (hk : fs.lookup k = some w) :
    ∃ v', v.valueAt? k = some v' ∧ Same v' w := by
  cases h with
  | @object es fs hkeys hvalues =>
      obtain ⟨v', hv'⟩ := Option.isSome_iff_exists.mp ((hkeys k).trans (by rw [hk]; rfl))
      exact ⟨v', hv', hvalues k v' w hv' hk⟩

/-- The elements of the one array are those of the other. -/
theorem exists_elements {ws : List Json} (h : Same v (.array ws)) :
    ∃ vs, v = .array vs ∧ List.Forall₂ Same vs ws := by
  cases h with
  | @array vs ws hlength helements =>
      refine ⟨vs, rfl, List.forall₂_iff_get.mpr ⟨hlength, fun i hi hi' => ?_⟩⟩
      exact helements i _ _ (List.getElem?_eq_getElem hi) (List.getElem?_eq_getElem hi')

end Same

/-! ## Sorting -/

/-- Entries with one key keep their order. -/
theorem filter_sortEntries {α : Type} (es : List (String × α)) (k : String) :
    (sortEntries es).filter (fun e => k == e.1) = es.filter fun e => k == e.1 := by
  have hsorted : (es.filter fun e => k == e.1).Pairwise fun a b => decide (a.1 ≤ b.1) = true := by
    refine List.pairwise_of_forall_mem_list fun a ha b hb => ?_
    rw [← eq_of_beq (List.mem_filter.mp ha).2, ← eq_of_beq (List.mem_filter.mp hb).2]
    exact decide_eq_true (String.le_refl k)
  -- They are in order already, so that sorting leaves them in place among the others.
  have hsub : (es.filter fun e => k == e.1).Sublist (sortEntries es) := by
    refine List.sublist_mergeSort (fun a b c hab hbc => ?_) (fun a b => ?_) hsorted
      List.filter_sublist
    · exact decide_eq_true (String.le_trans (of_decide_eq_true hab) (of_decide_eq_true hbc))
    · rw [Bool.or_eq_true, decide_eq_true_eq, decide_eq_true_eq]
      exact String.le_total a.1 b.1
  have hfilter := hsub.filter fun e => k == e.1
  simp only [List.filter_filter, Bool.and_self] at hfilter
  have hperm : (sortEntries es).Perm es := List.mergeSort_perm _ _
  exact (hfilter.eq_of_length (hperm.filter _).length_eq.symm).symm

theorem lookup_eq_head?_filter {α : Type} (es : List (String × α)) (k : String) :
    es.lookup k = ((es.filter fun e => k == e.1).map Prod.snd).head? := by
  rw [List.lookup_eq_findSome?, ← List.filterMap_eq_map, List.filterMap_filter,
    List.head?_filterMap]
  rfl

/-- The first entry with a key is the first one after sorting. -/
theorem lookup_sortEntries {α : Type} (es : List (String × α)) (k : String) :
    (sortEntries es).lookup k = es.lookup k := by
  rw [lookup_eq_head?_filter, lookup_eq_head?_filter, filter_sortEntries]

theorem isSome_lookup_sortedEntries (es : List (String × Json)) (k : String) :
    ((sortedEntries es).lookup k).isSome = (es.lookup k).isSome := by
  induction es with
  | nil => rfl
  | cons e es ih =>
      obtain ⟨k', x⟩ := e
      rw [sortedEntries, List.lookup_cons, List.lookup_cons]
      cases h : k == k' with
      | true => rfl
      | false => exact ih

theorem length_sortedElements (vs : List Json) : (sortedElements vs).length = vs.length := by
  induction vs with
  | nil => rfl
  | cons v vs ih => rw [sortedElements, List.length_cons, List.length_cons, ih]

mutual

/-- Sorting entries does not change a value. -/
theorem sorted_same : (v : Json) → Same v.sorted v
  | .null => .null
  | .bool b => .bool b
  | .number n => .number n
  | .string s => .string s
  | .array vs => .array (length_sortedElements vs) (sortedElements_same vs)
  | .object es => by
      rw [sorted]
      refine .object (fun k => ?_) fun k v w hv hw => ?_
      · rw [lookup_sortEntries, isSome_lookup_sortedEntries]
      · rw [lookup_sortEntries] at hv
        exact sortedEntries_same es k v w hv hw

/-- Nor does it change the elements of an array. -/
theorem sortedElements_same : (vs : List Json) → ∀ (i : Nat) v w,
    (sortedElements vs)[i]? = some v → vs[i]? = some w → Same v w
  | [], i, v, w, _, hw => by simp at hw
  | x :: vs, 0, v, w, hv, hw => by
      cases hv
      cases hw
      exact sorted_same x
  | _ :: vs, i + 1, v, w, hv, hw => sortedElements_same vs i v w hv hw

/-- Nor the values at the keys of an object. -/
theorem sortedEntries_same : (es : List (String × Json)) → ∀ k v w,
    (sortedEntries es).lookup k = some v → es.lookup k = some w → Same v w
  | [], k, v, w, _, hw => by cases hw
  | (k', x) :: es, k, v, w, hv, hw => by
      rw [sortedEntries, List.lookup_cons] at hv
      rw [List.lookup_cons] at hw
      cases h : k == k' with
      | true =>
          simp only [h, Option.some.injEq] at hv hw
          rw [← hv, ← hw]
          exact sorted_same x
      | false =>
          simp only [h] at hv hw
          exact sortedEntries_same es k v w hv hw

end

end PieSyntax.Json

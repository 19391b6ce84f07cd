/-
  File:      CoreEx/Lib/OrderedMap.lean
  Subject:   Maps that remember the order in which their keys came in.

  `set` on a key that is there replaces the value in place, on a new key it appends; that is the
  order a JavaScript `Map` iterates in. The keys are pairwise different by construction.

  * `OrderedMap` -- the map, with `get?`, `has`, `set`, `delete`, `filter`, `keys`, `values`;
  * `get?_set`, `get?_delete`, `get?_filter` -- what a lookup sees after each of them;
  * `mem_keys`, `mem_entries` -- lookups and entries tell the same;
  * `sum_values` -- a sum over the values is a sum over any finite set of keys that has them all.
-/
import Mathlib.Algebra.BigOperators.Group.Finset.Basic
import Mathlib.Data.List.DropRight
import Mathlib.Data.List.Nodup

namespace CoreEx

/-- A finite map with its entries in the order of their first insertion. -/
structure OrderedMap (κ ν : Type) where
  entries : List (κ × ν)
  nodup : (entries.map Prod.fst).Nodup

namespace OrderedMap

variable {κ ν μ : Type}

/-! ## 1. Operations -/

/-- The map without entries. -/
def empty : OrderedMap κ ν := ⟨[], List.nodup_nil⟩

/-- The keys in insertion order. -/
def keys (m : OrderedMap κ ν) : List κ := m.entries.map Prod.fst

/-- The values in insertion order. -/
def values (m : OrderedMap κ ν) : List ν := m.entries.map Prod.snd

/-- How many entries there are. -/
def size (m : OrderedMap κ ν) : Nat := m.entries.length

/-- The oldest entry. -/
def first? (m : OrderedMap κ ν) : Option (κ × ν) := m.entries.head?

/-- The newest entry. -/
def last? (m : OrderedMap κ ν) : Option (κ × ν) := m.entries.getLast?

/-- The entries a condition holds of, in their order. -/
def filter (p : κ → ν → Bool) (m : OrderedMap κ ν) : OrderedMap κ ν :=
  ⟨m.entries.filter fun e => p e.1 e.2,
    m.nodup.sublist (List.filter_sublist.map _)⟩

/-- The newest entries, so many of them. -/
def takeLast (m : OrderedMap κ ν) (n : Nat) : OrderedMap κ ν :=
  ⟨m.entries.rtake n, m.nodup.sublist ((List.drop_sublist _ _).map _)⟩

theorem ext_entries {m m' : OrderedMap κ ν} (h : m.entries = m'.entries) : m = m' := by
  cases m
  cases m'
  congr

/-- A condition that holds of all entries leaves the map as it is. -/
theorem filter_eq_self {m : OrderedMap κ ν} {p : κ → ν → Bool}
    (h : ∀ e ∈ m.entries, p e.1 e.2 = true) : m.filter p = m :=
  ext_entries (List.filter_eq_self.2 h)

theorem filter_filter (m : OrderedMap κ ν) (p q : κ → ν → Bool) :
    (m.filter p).filter q = m.filter fun k v => p k v && q k v := by
  refine ext_entries (List.filter_filter.trans ?_)
  exact List.filter_congr fun e _ => Bool.and_comm _ _

theorem eq_empty {m : OrderedMap κ ν} (h : m.size = 0) : m = empty :=
  ext_entries (List.eq_nil_of_length_eq_zero h)

theorem keys_nodup (m : OrderedMap κ ν) : m.keys.Nodup := m.nodup

theorem keys_takeLast (m : OrderedMap κ ν) (n : Nat) : (m.takeLast n).keys = m.keys.rtake n := by
  unfold takeLast keys List.rtake
  rw [List.map_drop, List.length_map]

variable [DecidableEq κ]

/-- The value under a key. -/
def get? (m : OrderedMap κ ν) (k : κ) : Option ν :=
  (m.entries.find? fun e => e.1 = k).map Prod.snd

/-- Whether a key is there. -/
def has (m : OrderedMap κ ν) (k : κ) : Bool := (m.get? k).isSome

/-- The same keys, with `f` of their values. -/
def mapValues (f : ν → μ) (m : OrderedMap κ ν) : OrderedMap κ μ :=
  ⟨m.entries.map fun e => (e.1, f e.2), by
    rw [List.map_map]
    exact m.nodup⟩

/-- The entries with the value under `k` replaced, or with `(k, v)` at the end. -/
def setEntries (k : κ) (v : ν) : List (κ × ν) → List (κ × ν)
  | [] => [(k, v)]
  | e :: es => if e.1 = k then (k, v) :: es else e :: setEntries k v es

theorem fst_setEntries (k : κ) (v : ν) (es : List (κ × ν)) :
    (setEntries k v es).map Prod.fst =
      if k ∈ es.map Prod.fst then es.map Prod.fst else es.map Prod.fst ++ [k] := by
  induction es with
  | nil => simp [setEntries]
  | cons e es ih =>
    simp only [setEntries]
    by_cases h : e.1 = k
    · simp [h]
    · have h' : k ≠ e.1 := fun h'' => h h''.symm
      simp only [h, if_false, List.map_cons, ih, List.mem_cons, h', false_or]
      split <;> simp

theorem nodup_setEntries {k : κ} {v : ν} {es : List (κ × ν)} (h : (es.map Prod.fst).Nodup) :
    ((setEntries k v es).map Prod.fst).Nodup := by
  rw [fst_setEntries]
  split
  · exact h
  · rename_i hk
    exact List.nodup_append.2 ⟨h, List.nodup_singleton k, by
      rintro a ha b hb rfl
      exact hk (List.mem_singleton.1 hb ▸ ha)⟩

/-- A new key comes last. -/
theorem setEntries_of_notMem {k : κ} (v : ν) {es : List (κ × ν)}
    (h : ∀ e ∈ es, e.1 ≠ k) : setEntries k v es = es ++ [(k, v)] := by
  induction es with
  | nil => rfl
  | cons e es ih =>
    have he : e.1 ≠ k := h e List.mem_cons_self
    have ih := ih fun e' he' => h e' (List.mem_cons_of_mem _ he')
    rw [setEntries, if_neg he, ih, List.cons_append]

/-- Put a value under a key. -/
def set (m : OrderedMap κ ν) (k : κ) (v : ν) : OrderedMap κ ν :=
  ⟨setEntries k v m.entries, nodup_setEntries m.nodup⟩

theorem keys_set (m : OrderedMap κ ν) (k : κ) (v : ν) :
    (m.set k v).keys = if k ∈ m.keys then m.keys else m.keys ++ [k] := fst_setEntries k v m.entries

/-- Take a key out. -/
def delete (m : OrderedMap κ ν) (k : κ) : OrderedMap κ ν := m.filter fun k' _ => k' ≠ k

/-! ## 2. Lookups -/

@[simp] theorem get?_empty (k : κ) : (empty : OrderedMap κ ν).get? k = none := rfl

@[simp] theorem has_empty (k : κ) : (empty : OrderedMap κ ν).has k = false := rfl

theorem find?_setEntries (k : κ) (v : ν) (es : List (κ × ν)) (k' : κ) :
    ((setEntries k v es).find? fun e => e.1 = k').map Prod.snd =
      if k' = k then some v else (es.find? fun e => e.1 = k').map Prod.snd := by
  induction es with
  | nil => by_cases h : k' = k <;> simp [setEntries, h, eq_comm]
  | cons e es ih =>
    simp only [setEntries]
    by_cases he : e.1 = k
    · by_cases h : k' = k
      · simp [he, h]
      · have h' : k ≠ k' := fun h'' => h h''.symm
        simp [he, h, h']
    · by_cases h' : e.1 = k'
      · have : k' ≠ k := fun h'' => he (h'.trans h'')
        simp [h', this]
      · simp only [he, if_false, List.find?_cons, h', decide_false]
        exact ih

theorem get?_set (m : OrderedMap κ ν) (k : κ) (v : ν) (k' : κ) :
    (m.set k v).get? k' = if k' = k then some v else m.get? k' :=
  find?_setEntries k v m.entries k'

@[simp] theorem get?_set_self (m : OrderedMap κ ν) (k : κ) (v : ν) :
    (m.set k v).get? k = some v := by
  simp [get?_set]

theorem get?_set_of_ne (m : OrderedMap κ ν) {k k' : κ} (v : ν) (h : k' ≠ k) :
    (m.set k v).get? k' = m.get? k' := by
  simp [get?_set, h]

/-- A lookup finds exactly what the entries hold. -/
theorem mem_entries {m : OrderedMap κ ν} {k : κ} {v : ν} :
    (k, v) ∈ m.entries ↔ m.get? k = some v := by
  obtain ⟨es, hn⟩ := m
  simp only [get?]
  induction es with
  | nil => simp
  | cons e es ih =>
    have hn' := List.nodup_cons.1 hn
    by_cases he : e.1 = k
    · have hk : ∀ w, (k, w) ∉ es := fun w hw => hn'.1 (he ▸ List.mem_map_of_mem hw)
      simp only [List.mem_cons, List.find?_cons, he, decide_true, Option.map_some,
        Option.some.injEq, hk, or_false]
      constructor
      · rintro rfl
        rfl
      · rintro rfl
        exact Prod.ext he.symm rfl
    · have hne : (k, v) ≠ e := fun h => he (h ▸ rfl)
      simp only [List.mem_cons, hne, false_or, List.find?_cons, he, decide_false]
      exact ih hn'.2

theorem mem_keys {m : OrderedMap κ ν} {k : κ} : k ∈ m.keys ↔ m.has k = true := by
  simp only [keys, has, List.mem_map, Option.isSome_iff_exists]
  constructor
  · rintro ⟨⟨k', v⟩, h, rfl⟩
    exact ⟨v, mem_entries.1 h⟩
  · rintro ⟨v, h⟩
    exact ⟨(k, v), mem_entries.2 h, rfl⟩

theorem has_eq_false {m : OrderedMap κ ν} {k : κ} : m.has k = false ↔ m.get? k = none := by
  simp [has]

/-- A value under a new key comes after the others. -/
theorem values_set_of_none (m : OrderedMap κ ν) {k : κ} (h : m.get? k = none) (v : ν) :
    (m.set k v).values = m.values ++ [v] := by
  have hkeys : k ∉ m.keys := fun hmem => by
    rw [mem_keys, has_eq_false.2 h] at hmem
    cases hmem
  have hnew : ∀ e ∈ m.entries, e.1 ≠ k := fun e he heq =>
    hkeys (heq ▸ List.mem_map_of_mem he)
  show (setEntries k v m.entries).map Prod.snd = _
  rw [setEntries_of_notMem v hnew, List.map_append]
  rfl

theorem mem_values_of_get? {m : OrderedMap κ ν} {k : κ} {v : ν} (h : m.get? k = some v) :
    v ∈ m.values := by
  obtain ⟨e, he, rfl⟩ := Option.map_eq_some_iff.1 h
  exact List.mem_map_of_mem (List.mem_of_find?_eq_some he)

theorem delete_of_none {m : OrderedMap κ ν} {k : κ} (h : m.get? k = none) : m.delete k = m := by
  refine filter_eq_self fun e he => decide_eq_true fun hk => ?_
  have hmem := mem_entries.1 he
  rw [hk, h] at hmem
  cases hmem

/-- The values that are left after a deletion. -/
theorem values_delete_sublist (m : OrderedMap κ ν) (k : κ) :
    (m.delete k).values.Sublist m.values := List.filter_sublist.map _

theorem has_eq_false_iff {m : OrderedMap κ ν} {k : κ} :
    m.has k = false ↔ ∀ e ∈ m.entries, e.1 ≠ k := by
  rw [← Bool.not_eq_true, ← mem_keys]
  unfold keys
  rw [List.mem_map]
  exact ⟨fun h e he hk => h ⟨e, he, hk⟩, fun h ⟨e, he, hk⟩ => h e he hk⟩

theorem entries_set_of_new {m : OrderedMap κ ν} {k : κ} (h : m.has k = false) (v : ν) :
    (m.set k v).entries = m.entries ++ [(k, v)] :=
  setEntries_of_notMem v (has_eq_false_iff.1 h)

theorem size_set_of_has {m : OrderedMap κ ν} {k : κ} (h : m.has k = true) (v : ν) :
    (m.set k v).size = m.size := by
  have hkeys := m.keys_set k v
  rw [if_pos (mem_keys.2 h)] at hkeys
  have hlength := congrArg List.length hkeys
  unfold keys at hlength
  rwa [List.length_map, List.length_map] at hlength

theorem mem_entries_set {m : OrderedMap κ ν} {k : κ} {v : ν} {e : κ × ν}
    (h : e ∈ (m.set k v).entries) : e = (k, v) ∨ e ∈ m.entries := by
  have hall : ∀ es : List (κ × ν), e ∈ setEntries k v es → e = (k, v) ∨ e ∈ es := by
    intro es he
    induction es with
    | nil => exact Or.inl (List.mem_singleton.1 he)
    | cons e' es ih =>
      unfold setEntries at he
      split at he
      · exact (List.mem_cons.1 he).imp_right (List.mem_cons_of_mem _)
      · rcases List.mem_cons.1 he with rfl | he
        · exact Or.inr List.mem_cons_self
        · exact (ih he).imp_right (List.mem_cons_of_mem _)
  exact hall _ h

/-- Without its oldest entry. -/
theorem entries_delete_first {m : OrderedMap κ ν} {e : κ × ν} {es : List (κ × ν)}
    (h : m.entries = e :: es) : (m.delete e.1).entries = es := by
  have hnodup := m.nodup
  rw [h, List.map_cons, List.nodup_cons] at hnodup
  unfold delete filter
  dsimp only
  rw [h, List.filter_cons_of_neg (by simp)]
  refine List.filter_eq_self.2 fun e' he' => decide_eq_true fun hsame => ?_
  exact hnodup.1 (hsame ▸ List.mem_map_of_mem he')

theorem get?_filter (m : OrderedMap κ ν) (p : κ → ν → Bool) (k : κ) :
    (m.filter p).get? k = (m.get? k).filter (p k) := by
  ext v
  rw [← mem_entries, Option.filter_eq_some_iff, ← mem_entries]
  simp [filter]

theorem get?_delete (m : OrderedMap κ ν) (k k' : κ) :
    (m.delete k).get? k' = if k' = k then none else m.get? k' := by
  rw [delete, get?_filter]
  by_cases h : k' = k <;> cases m.get? k' <;> simp [h]

theorem get?_mapValues (f : ν → μ) (m : OrderedMap κ ν) (k : κ) :
    (m.mapValues f).get? k = (m.get? k).map f := by
  unfold get? mapValues
  rw [List.find?_map, Option.map_map, Option.map_map]
  rfl

omit [DecidableEq κ] in
theorem keys_mapValues (f : ν → μ) (m : OrderedMap κ ν) : (m.mapValues f).keys = m.keys := by
  unfold keys mapValues
  rw [List.map_map]
  rfl

/-! ## 3. Sums over the values -/

variable {M : Type} [AddCommMonoid M]

/-- The sum over the values, as a sum over any finite set with all the keys in it, when the
    value `d` that stands for a missing key adds nothing. -/
theorem sum_values (m : OrderedMap κ ν) (f : ν → M) {d : ν} (hd : f d = 0) {S : Finset κ}
    (hS : ∀ k, m.has k = true → k ∈ S) :
    (m.values.map f).sum = ∑ k ∈ S, f ((m.get? k).getD d) := by
  have hsub : m.keys.toFinset ⊆ S := fun k hk => hS k (mem_keys.1 (List.mem_toFinset.1 hk))
  rw [← Finset.sum_subset hsub, List.sum_toFinset _ m.keys_nodup]
  · rw [values, keys, List.map_map, List.map_map]
    refine congrArg List.sum (List.map_congr_left ?_)
    rintro ⟨k, v⟩ h
    simp [mem_entries.1 h]
  · intro k _ hk
    have : m.get? k = none := by
      rw [← has_eq_false, ← Bool.not_eq_true, ← mem_keys]
      exact fun h => hk (List.mem_toFinset.2 h)
    simp [this, hd]

end OrderedMap

end CoreEx

/-
  File:      CoreEx/Lib/Storage.lean
  Subject:   Key-value stores that are read in the order of their keys.

  The entries are sorted by key; a key that is there is overwritten. Nothing here names the system
  under verification.

  * `Storage` -- the store, with `get?`, `doesExist`, `put`, `removeFrom`, `last?`;
  * `get?_put` -- lookups after a change;
  * **`last?_eq_some_iff`** -- the last entry is that of the greatest key.
-/
import Mathlib.Order.Lattice
import Mathlib.Data.List.Pairwise

namespace CoreEx

/-- A store with the entries in ascending order of their keys. -/
structure Storage (κ ν : Type) [LinearOrder κ] where
  entries : List (κ × ν)
  sorted : (entries.map Prod.fst).Pairwise (· < ·)

namespace Storage

variable {κ ν : Type} [LinearOrder κ]

/-- The store without entries. -/
def empty : Storage κ ν := ⟨[], List.Pairwise.nil⟩

/-- The value under a key. -/
def get? (s : Storage κ ν) (k : κ) : Option ν :=
  (s.entries.find? fun e => e.1 = k).map Prod.snd

/-- Whether there is one. -/
def doesExist (s : Storage κ ν) (k : κ) : Bool := (s.get? k).isSome

/-- The entries with one more, or with one replaced. -/
def putEntries (k : κ) (v : ν) : List (κ × ν) → List (κ × ν)
  | [] => [(k, v)]
  | e :: es => if k < e.1 then (k, v) :: e :: es
      else if k = e.1 then (k, v) :: es else e :: putEntries k v es

theorem mem_putEntries {k : κ} {v : ν} {es : List (κ × ν)} {e : κ × ν}
    (h : e ∈ putEntries k v es) : e = (k, v) ∨ e ∈ es := by
  induction es with
  | nil => exact Or.inl (List.mem_singleton.1 h)
  | cons e' es ih =>
    unfold putEntries at h
    split at h
    · exact (List.mem_cons.1 h)
    · split at h
      · exact (List.mem_cons.1 h).imp_right (List.mem_cons_of_mem _)
      · rcases List.mem_cons.1 h with rfl | hmem
        · exact Or.inr List.mem_cons_self
        · exact (ih hmem).imp_right (List.mem_cons_of_mem _)

theorem sorted_putEntries {k : κ} {v : ν} {es : List (κ × ν)}
    (h : (es.map Prod.fst).Pairwise (· < ·)) :
    ((putEntries k v es).map Prod.fst).Pairwise (· < ·) := by
  induction es with
  | nil => exact List.pairwise_singleton _ _
  | cons e es ih =>
    obtain ⟨hfirst, hrest⟩ := List.pairwise_cons.1 h
    unfold putEntries
    by_cases hlt : k < e.1
    · rw [if_pos hlt]
      refine List.pairwise_cons.2 ⟨fun k' hk' => ?_, h⟩
      rcases List.mem_cons.1 hk' with rfl | hmem
      · exact hlt
      · exact hlt.trans (hfirst k' hmem)
    · rw [if_neg hlt]
      by_cases heq : k = e.1
      · rw [if_pos heq]
        exact List.pairwise_cons.2 ⟨fun k' hk' => heq ▸ hfirst k' hk', hrest⟩
      · rw [if_neg heq]
        have hgt : e.1 < k := lt_of_le_of_ne (not_lt.1 hlt) fun h => heq h.symm
        refine List.pairwise_cons.2 ⟨fun k' hk' => ?_, ih hrest⟩
        obtain ⟨e', he', rfl⟩ := List.mem_map.1 hk'
        rcases mem_putEntries he' with rfl | hmem
        · exact hgt
        · exact hfirst _ (List.mem_map_of_mem hmem)

/-- `put`. -/
def put (s : Storage κ ν) (k : κ) (v : ν) : Storage κ ν :=
  ⟨putEntries k v s.entries, sorted_putEntries s.sorted⟩

/-- Remove every key that is not below `k`. -/
def removeFrom (s : Storage κ ν) (k : κ) : Storage κ ν :=
  ⟨s.entries.filter fun e => e.1 < k, s.sorted.sublist (List.filter_sublist.map _)⟩

/-- The entry of the greatest key: `getRange({ limit: 1, reverse: true })`. -/
def last? (s : Storage κ ν) : Option (κ × ν) := s.entries.getLast?

/-! ## Lookups -/

/-- A look-up finds what is entered. -/
theorem get?_eq_some_iff {s : Storage κ ν} {k : κ} {v : ν} :
    s.get? k = some v ↔ (k, v) ∈ s.entries := by
  refine ⟨fun h => ?_, fun h => ?_⟩
  · obtain ⟨e, he, rfl⟩ := Option.map_eq_some_iff.1 h
    have hkey : e.1 = k := by simpa using List.find?_some he
    rw [← hkey]
    exact List.mem_of_find?_eq_some he
  · have hunique : ∀ es : List (κ × ν), (es.map Prod.fst).Pairwise (· < ·) → (k, v) ∈ es →
        (es.find? fun e => e.1 = k) = some (k, v) := by
      intro es
      induction es with
      | nil => exact fun _ hmem => absurd hmem List.not_mem_nil
      | cons e es ih =>
        intro hsorted hmem
        obtain ⟨hfirst, hrest⟩ := List.pairwise_cons.1 hsorted
        rcases List.mem_cons.1 hmem with rfl | hmem
        · exact List.find?_cons_of_pos (by simp)
        · have hne : e.1 ≠ k := (hfirst k (List.mem_map_of_mem hmem)).ne
          rw [List.find?_cons_of_neg (by simpa using hne)]
          exact ih hrest hmem
    unfold get?
    rw [hunique s.entries s.sorted h]
    rfl

theorem get?_put (s : Storage κ ν) (k k' : κ) (v : ν) :
    (s.put k v).get? k' = if k' = k then some v else s.get? k' := by
  have hentries : ∀ es : List (κ × ν), (es.map Prod.fst).Pairwise (· < ·) →
      ((putEntries k v es).find? fun e => e.1 = k').map Prod.snd =
        if k' = k then some v else (es.find? fun e => e.1 = k').map Prod.snd := by
    intro es hsorted
    induction es with
    | nil =>
      by_cases hk : k' = k
      · simp [putEntries, hk]
      · have hk' : ¬ k = k' := fun e => hk e.symm
        simp [putEntries, hk, hk']
    | cons e es ih =>
      obtain ⟨hfirst, hrest⟩ := List.pairwise_cons.1 hsorted
      unfold putEntries
      by_cases hlt : k < e.1
      · rw [if_pos hlt]
        by_cases hk : k' = k
        · simp [hk]
        · have hk' : ¬ k = k' := fun e => hk e.symm
          simp [hk, hk']
      · rw [if_neg hlt]
        by_cases heq : k = e.1
        · rw [if_pos heq]
          by_cases hk : k' = k
          · simp [hk]
          · have hk' : ¬ k = k' := fun e => hk e.symm
            have he : ¬ e.1 = k' := fun h => hk' (heq.trans h)
            simp [hk, hk', he]
        · rw [if_neg heq]
          by_cases he : e.1 = k'
          · have hk : ¬ k' = k := fun h => heq (h.symm.trans he.symm)
            simp [he, hk]
          · simpa [he] using ih hrest
  exact hentries s.entries s.sorted

/-! ## The order of reading -/

/-- **The last entry is that of the greatest key.** -/
theorem last?_eq_some_iff {s : Storage κ ν} {k : κ} {v : ν} :
    s.last? = some (k, v) ↔ s.get? k = some v ∧ ∀ k', s.doesExist k' = true → k' ≤ k := by
  have hgreatest : ∀ e, s.last? = some e → s.get? e.1 = some e.2 ∧
      ∀ k', s.doesExist k' = true → k' ≤ e.1 := by
    intro e he
    obtain ⟨es, hes⟩ := List.getLast?_eq_some_iff.1 he
    have hsorted := s.sorted
    rw [hes, List.map_append, List.pairwise_append] at hsorted
    refine ⟨get?_eq_some_iff.2 (by rw [hes]; simp), fun k' hk' => ?_⟩
    obtain ⟨v', hv'⟩ := Option.isSome_iff_exists.1 hk'
    have hmem := get?_eq_some_iff.1 hv'
    rw [hes] at hmem
    rcases List.mem_append.1 hmem with hmem | hmem
    · exact (hsorted.2.2 k' (List.mem_map_of_mem hmem) e.1 (by simp)).le
    · rw [← List.mem_singleton.1 hmem]
  refine ⟨hgreatest (k, v), fun h => ?_⟩
  obtain ⟨hget, habove⟩ := h
  cases hlast : s.last? with
  | none =>
    have hmem := get?_eq_some_iff.1 hget
    rw [List.getLast?_eq_none_iff.1 hlast] at hmem
    exact absurd hmem List.not_mem_nil
  | some e =>
    obtain ⟨he, hmax⟩ := hgreatest e hlast
    have hle : k ≤ e.1 := hmax k (by rw [doesExist, hget]; rfl)
    have hge : e.1 ≤ k := habove e.1 (by rw [doesExist, he]; rfl)
    obtain rfl := le_antisymm hle hge
    rw [hget] at he
    obtain rfl := Option.some.inj he
    rfl

/-- There is none exactly when no key is there. -/
theorem last?_eq_none_iff {s : Storage κ ν} :
    s.last? = none ↔ ∀ k, s.doesExist k = false := by
  refine ⟨fun h k => ?_, fun h => ?_⟩
  · have hempty : s.entries = [] := List.getLast?_eq_none_iff.1 h
    simp [doesExist, get?, hempty]
  · cases hlast : s.last? with
    | none => rfl
    | some e =>
      have hget := (last?_eq_some_iff.1 hlast).1
      have hnone := h e.1
      rw [doesExist, hget] at hnone
      cases hnone

end Storage

end CoreEx

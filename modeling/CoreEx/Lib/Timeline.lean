/-
  File:      CoreEx/Lib/Timeline.lean
  Subject:   Lists of settings, each in force from a start on until the next one begins.

  The entries stand in the order of their starts; several may have the same. In force at a point is
  the last entry that has begun. A search for the next change takes the first entry that begins
  later and is different.

  * `InForce` -- the entry in force, `InForce.unique`;
  * `not_of_between` -- what the search for the next change has passed over;
  * **`InForce.congr`** -- between two changes the setting stays the same.
-/
import Mathlib.Data.List.Sort

namespace CoreEx

namespace Timeline

variable {α : Type} {start : α → Nat} {l : List α} {a b : α} {x y : Nat}

/-- The last entry of the list that has begun. -/
def InForce (start : α → Nat) (l : List α) (x : Nat) (a : α) : Prop :=
  ∃ before later, l = before ++ a :: later ∧ start a ≤ x ∧ ∀ b ∈ later, x < start b

theorem InForce.mem (h : InForce start l x a) : a ∈ l := by
  obtain ⟨before, later, rfl, -, -⟩ := h
  exact List.mem_append_right _ List.mem_cons_self

theorem InForce.begun (h : InForce start l x a) : start a ≤ x := by
  obtain ⟨_, _, -, hbegun, -⟩ := h
  exact hbegun

/-- The entry in force stands in every end of the list that holds an entry that has begun. -/
theorem InForce.mem_append {before rest : List α} (h : InForce start l x a)
    (hl : l = before ++ rest) (hb : b ∈ rest) (hx : start b ≤ x) : a ∈ rest := by
  obtain ⟨before', later, rfl, -, hlater⟩ := h
  rcases List.append_eq_append_iff.1 hl with ⟨p, -, hend⟩ | ⟨p, -, hend⟩
  · rcases List.cons_eq_append_iff.1 hend with ⟨-, rfl⟩ | ⟨p', -, rfl⟩
    · exact List.mem_cons_self
    · have := hlater b (List.mem_append_right _ hb)
      omega
  · rw [hend]
    exact List.mem_append_right _ List.mem_cons_self

/-- **Between two changes the setting stays the same.** -/
theorem InForce.congr {β : Type} {f : α → β} (ha : InForce start l x a) (hb : InForce start l y b)
    (hxy : x ≤ y) (hsame : ∀ c ∈ l, x < start c → start c ≤ y → f c = f a) : f b = f a := by
  by_cases hx : x < start b
  · exact hsame b hb.mem hx hb.begun
  · obtain ⟨before, later, hl, hbegun, hlater⟩ := ha
    obtain ⟨before', later', hl', -, hlater'⟩ := hb
    -- both are the last entry that has begun at `x`
    have hlen : ∀ {p q p' q' : List α} {u v : α}, l = p ++ u :: q → l = p' ++ v :: q' →
        start v ≤ x → (∀ c ∈ q, x < start c) → p'.length ≤ p.length := by
      intro p q p' q' u v hp hp' hv hq
      by_contra hlt
      have hpre : p ++ [u] <+: p' := by
        have hu : p ++ [u] <+: l := ⟨q, by rw [hp]; simp⟩
        refine List.prefix_of_prefix_length_le hu ⟨v :: q', hp'.symm⟩ ?_
        simp only [List.length_append, List.length_singleton]
        omega
      obtain ⟨r, hr⟩ := hpre
      have hrest : q = r ++ v :: q' := by
        have := hp.symm.trans hp'
        rw [← hr, List.append_assoc, List.append_assoc] at this
        simpa using List.append_cancel_left this
      have := hq v (by rw [hrest]; exact List.mem_append_right _ List.mem_cons_self)
      omega
    have h₁ := hlen hl hl' (by omega) hlater
    have h₂ := hlen hl' hl hbegun fun c hc => by
      have := hlater' c hc
      omega
    have heq := hl.symm.trans hl'
    obtain ⟨-, htail⟩ := List.append_inj heq (by omega)
    rw [(List.cons.inj htail).1]

theorem InForce.unique (ha : InForce start l x a) (hb : InForce start l x b) : a = b := by
  refine (InForce.congr (f := id) ha hb le_rfl fun c _ hc hc' => ?_).symm
  omega

/-- What a search for the first later entry with some property has passed over. -/
theorem not_of_between {P : α → Prop} [DecidablePred P]
    (hsorted : l.Pairwise (start · ≤ start ·))
    (h : l.find? (fun a => decide (P a ∧ x < start a)) = some a) (hb : b ∈ l) (hx : x < start b)
    (hlt : start b < start a) : ¬ P b := by
  obtain ⟨-, before, later, rfl, hbefore⟩ := List.find?_eq_some_iff_append.1 h
  intro hP
  rcases List.mem_append.1 hb with hb | hb
  · have := hbefore b hb
    simp [hP, hx] at this
  · rcases List.mem_cons.1 hb with rfl | hb
    · omega
    · have := (List.pairwise_cons.1 (List.pairwise_append.1 hsorted).2.1).1 b hb
      omega

end Timeline

end CoreEx

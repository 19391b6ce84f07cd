/-
  File:      CoreEx/Lib/ThrowingSort.lean
  Subject:   Sorting with a comparison that may throw.

  A sort by comparisons has compared every two elements that end up next to each other. So where
  the elements are strictly ordered as far as they can be compared, it throws exactly when some two
  of them cannot be, and when it returns there is one list it can return.

  * `Ahead` -- one element comes before another, from either side;
  * `sortWith` -- the sort;
  * **`sortWith_of_ahead`** -- a strictly ordered arrangement is what it returns;
  * **`ahead_of_sortWith`** -- what it returns is strictly ordered.
-/
import Mathlib.Data.List.Sort

namespace CoreEx

namespace ThrowingSort

variable {α ε : Type}

/-! ## 1. The sort -/

/-- An element compared with all of a list; the first throw ends it. -/
def compareWith (cmp : α → α → Except ε Int) (a : α) : List α → Except ε Unit
  | [] => .ok ()
  | b :: l =>
    match cmp a b with
    | .error e => .error e
    | .ok _ => compareWith cmp a l

/-- Every two elements compared. -/
def comparisons (cmp : α → α → Except ε Int) : List α → Except ε Unit
  | [] => .ok ()
  | a :: l =>
    match compareWith cmp a l with
    | .error e => .error e
    | .ok _ => comparisons cmp l

/-- The comparison does not put `b` first. -/
def notBehind (cmp : α → α → Except ε Int) (a b : α) : Bool :=
  match cmp a b with
  | .error _ => false
  | .ok d => d ≤ 0

/-- `list.sort(cmp)`. -/
def sortWith (cmp : α → α → Except ε Int) (l : List α) : Except ε (List α) :=
  match comparisons cmp l with
  | .error e => .error e
  | .ok _ => .ok (l.insertionSort fun a b => notBehind cmp a b = true)

/-- `a` comes before `b`, whichever way they are compared. -/
def Ahead (cmp : α → α → Except ε Int) (a b : α) : Prop :=
  (∃ d, cmp a b = .ok d ∧ d < 0) ∧ ∃ d, cmp b a = .ok d ∧ 0 < d

/-! ## 2. When it throws -/

variable {cmp : α → α → Except ε Int} {a b : α} {l l' : List α}

theorem compareWith_ok : compareWith cmp a l = .ok () ↔ ∀ b ∈ l, ∃ d, cmp a b = .ok d := by
  induction l with
  | nil => simp [compareWith]
  | cons b l ih =>
    rw [List.forall_mem_cons, ← ih, compareWith]
    cases h : cmp a b with
    | error e => simp
    | ok d => simp

theorem comparisons_ok :
    comparisons cmp l = .ok () ↔ l.Pairwise fun a b => ∃ d, cmp a b = .ok d := by
  induction l with
  | nil => simp [comparisons]
  | cons a l ih =>
    rw [List.pairwise_cons, ← ih, ← compareWith_ok, comparisons]
    cases h : compareWith cmp a l with
    | error e => simp
    | ok u => simp

theorem notBehind_of_ahead (h : Ahead cmp a b) : notBehind cmp a b = true := by
  obtain ⟨⟨d, hd, hneg⟩, -⟩ := h
  simp only [notBehind, hd, decide_eq_true_eq]
  omega

theorem not_notBehind_of_ahead (h : Ahead cmp a b) : ¬ notBehind cmp b a = true := by
  obtain ⟨-, d, hd, hpos⟩ := h
  simp only [notBehind, hd, decide_eq_true_eq]
  omega

/-! ## 3. What it returns -/

/-- An element goes where it belongs. -/
theorem orderedInsert_of_ahead {l₁ l₂ : List α} (h₁ : ∀ b ∈ l₁, Ahead cmp b a)
    (h₂ : ∀ b ∈ l₂, Ahead cmp a b) :
    (l₁ ++ l₂).orderedInsert (fun a b => notBehind cmp a b = true) a = l₁ ++ a :: l₂ := by
  induction l₁ with
  | nil =>
    cases l₂ with
    | nil => rfl
    | cons b l₂ =>
      have hb := notBehind_of_ahead (h₂ b List.mem_cons_self)
      rw [List.nil_append, List.orderedInsert_cons, if_pos hb]
      rfl
  | cons b l₁ ih =>
    have hb := not_notBehind_of_ahead (h₁ b List.mem_cons_self)
    have ih := ih fun c hc => h₁ c (List.mem_cons_of_mem _ hc)
    rw [List.cons_append, List.orderedInsert_cons, if_neg hb, ih]
    rfl

theorem insertionSort_of_ahead (hperm : l'.Perm l) (h : l'.Pairwise (Ahead cmp)) :
    l.insertionSort (fun a b => notBehind cmp a b = true) = l' := by
  induction l generalizing l' with
  | nil => exact (List.perm_nil.1 hperm).symm
  | cons a l ih =>
    obtain ⟨l₁, l₂, rfl⟩ := List.append_of_mem (hperm.mem_iff.2 List.mem_cons_self)
    have hrest : (l₁ ++ l₂).Perm l := (List.perm_middle.symm.trans hperm).cons_inv
    obtain ⟨h₁, h₂, hcross⟩ := List.pairwise_append.1 h
    obtain ⟨ha, h₂⟩ := List.pairwise_cons.1 h₂
    have hsorted : (l₁ ++ l₂).Pairwise (Ahead cmp) := List.pairwise_append.2
      ⟨h₁, h₂, fun b hb c hc => hcross b hb c (List.mem_cons_of_mem _ hc)⟩
    rw [List.insertionSort_cons, ih hrest hsorted]
    exact orderedInsert_of_ahead (fun b hb => hcross b hb a List.mem_cons_self) ha

/-- **A strictly ordered arrangement of the elements is what the sort returns.** -/
theorem sortWith_of_ahead (hperm : l'.Perm l) (h : l'.Pairwise (Ahead cmp)) :
    sortWith cmp l = .ok l' := by
  have hcompared : l.Pairwise fun a b => (∃ d, cmp a b = .ok d) ∧ ∃ d, cmp b a = .ok d := by
    refine hperm.pairwise (h.imp fun h => ?_) fun h => ⟨h.2, h.1⟩
    obtain ⟨⟨d, hd, -⟩, d', hd', -⟩ := h
    exact ⟨⟨d, hd⟩, d', hd'⟩
  have hok : comparisons cmp l = .ok () := comparisons_ok.2 (hcompared.imp fun h => h.1)
  unfold sortWith
  rw [hok]
  exact congrArg _ (insertionSort_of_ahead hperm h)

/-- Where an element belongs in a strictly ordered list. -/
theorem exists_place (htrans : ∀ a b c, Ahead cmp a b → Ahead cmp b c → Ahead cmp a c)
    (hl : l.Pairwise (Ahead cmp)) (ha : ∀ b ∈ l, Ahead cmp a b ∨ Ahead cmp b a) :
    ∃ l₁ l₂, l = l₁ ++ l₂ ∧ (∀ b ∈ l₁, Ahead cmp b a) ∧ ∀ b ∈ l₂, Ahead cmp a b := by
  induction l with
  | nil => exact ⟨[], [], rfl, nofun, nofun⟩
  | cons b l ih =>
    obtain ⟨hb, hl⟩ := List.pairwise_cons.1 hl
    rcases ha b List.mem_cons_self with hab | hba
    · refine ⟨[], b :: l, rfl, nofun, fun c hc => ?_⟩
      rcases List.mem_cons.1 hc with rfl | hc
      · exact hab
      · exact htrans _ _ _ hab (hb c hc)
    · obtain ⟨l₁, l₂, rfl, h₁, h₂⟩ := ih hl fun c hc => ha c (List.mem_cons_of_mem _ hc)
      refine ⟨b :: l₁, l₂, rfl, fun c hc => ?_, h₂⟩
      rcases List.mem_cons.1 hc with rfl | hc
      · exact hba
      · exact h₁ c hc

/-- Elements that are all strictly ordered among each other can be arranged. -/
theorem exists_ahead (htrans : ∀ a b c, Ahead cmp a b → Ahead cmp b c → Ahead cmp a c)
    (h : l.Pairwise fun a b => Ahead cmp a b ∨ Ahead cmp b a) :
    ∃ l', List.Perm l' l ∧ List.Pairwise (Ahead cmp) l' := by
  induction l with
  | nil => exact ⟨[], .refl _, List.Pairwise.nil⟩
  | cons a l ih =>
    obtain ⟨ha, hl⟩ := List.pairwise_cons.1 h
    obtain ⟨l₀, hperm, hsorted⟩ := ih hl
    obtain ⟨l₁, l₂, rfl, h₁, h₂⟩ :=
      exists_place htrans hsorted fun b hb => ha b (hperm.mem_iff.1 hb)
    refine ⟨l₁ ++ a :: l₂, List.perm_middle.trans (hperm.cons a), ?_⟩
    obtain ⟨hl₁, hl₂, hcross⟩ := List.pairwise_append.1 hsorted
    refine List.pairwise_append.2 ⟨hl₁, List.pairwise_cons.2 ⟨h₂, hl₂⟩, fun b hb c hc => ?_⟩
    rcases List.mem_cons.1 hc with rfl | hc
    · exact h₁ b hb
    · exact hcross b hb c hc

/-- **What it returns is strictly ordered**, when elements that can be compared are. -/
theorem ahead_of_sortWith (hnodup : l.Nodup)
    (htotal : ∀ a ∈ l, ∀ b ∈ l, a ≠ b → (∃ d, cmp a b = .ok d) → Ahead cmp a b ∨ Ahead cmp b a)
    (htrans : ∀ a b c, Ahead cmp a b → Ahead cmp b c → Ahead cmp a c)
    (h : sortWith cmp l = .ok l') : l'.Perm l ∧ l'.Pairwise (Ahead cmp) := by
  have hok : comparisons cmp l = .ok () := by
    unfold sortWith at h
    cases hc : comparisons cmp l with
    | error e =>
      rw [hc] at h
      cases h
    | ok u => rfl
  have hordered : l.Pairwise fun a b => Ahead cmp a b ∨ Ahead cmp b a := by
    refine List.Pairwise.imp_of_mem (fun ha hb hab => ?_) (hnodup.and (comparisons_ok.1 hok))
    exact htotal _ ha _ hb hab.1 hab.2
  obtain ⟨l₀, hperm, hsorted⟩ := exists_ahead htrans hordered
  have hl₀ : l₀ = l' := Except.ok.inj ((sortWith_of_ahead hperm hsorted).symm.trans h)
  rw [← hl₀]
  exact ⟨hperm, hsorted⟩

end ThrowingSort

end CoreEx

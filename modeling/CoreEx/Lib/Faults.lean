/-
  File:      CoreEx/Lib/Faults.lean
  Subject:   Stores whose single writes may fail.

  A program that writes several times is not one write: the medium may refuse any of them, and what
  was written before stays. The medium carries, for each write that is still to come, the exception
  it will end in, if any. Nothing here names the system under verification.

  * `Faulty`, `Faulty.write`, `Faulty.look` -- the store, one write, one look;
  * `Faulty.Sound` -- none of the next writes fails;
  * **`Faulty.forEach_write_done_iff`** -- a row of writes returns exactly on a sound store;
  * `Faulty.forEach_write_keeps` -- what every write keeps stays also where the row breaks off.
-/
import CoreEx.Lib.Prog

namespace CoreEx

/-- A store, and how each of the coming writes fails; `none` where it does not. -/
structure Faulty (σ ε : Type) where
  state : σ
  faults : Nat → Option ε

namespace Faulty

variable {σ ε α : Type}

/-! ## 1. Writes -/

/-- The store after one write more. -/
def next (d : Faulty σ ε) (f : σ → σ) : Faulty σ ε := ⟨f d.state, fun n => d.faults (n + 1)⟩

/-- One write: it fails and changes nothing, or it is done. -/
def write (f : σ → σ) : Prog (Faulty σ ε) ε Unit :=
  ⟨fun d => match d.faults 0 with
    | some e => .thrown e (d.next fun s => s)
    | none => .done () (d.next f)⟩

/-- A look at the store, which does not fail. -/
def look (f : σ → α) : Prog (Faulty σ ε) ε α := Prog.gets fun d => f d.state

/-- The next `n` writes do not fail. -/
def Sound (d : Faulty σ ε) (n : Nat) : Prop := ∀ i < n, d.faults i = none

/-- The store after a row of writes, none of which failed. -/
def after (d : Faulty σ ε) (fs : List (σ → σ)) : Faulty σ ε := fs.foldl next d

variable {d d' : Faulty σ ε} {f : σ → σ} {fs : List (σ → σ)}

theorem write_run_of_none (h : d.faults 0 = none) : (write f).run d = .done () (d.next f) := by
  simp [write, h]

theorem write_run_of_some {e : ε} (h : d.faults 0 = some e) :
    (write f).run d = .thrown e (d.next fun s => s) := by
  simp [write, h]

theorem state_after (d : Faulty σ ε) (fs : List (σ → σ)) :
    (d.after fs).state = fs.foldl (fun s f => f s) d.state := by
  induction fs generalizing d with
  | nil => rfl
  | cons f fs ih => exact ih (d.next f)

theorem faults_after (d : Faulty σ ε) (fs : List (σ → σ)) (n : Nat) :
    (d.after fs).faults n = d.faults (n + fs.length) := by
  induction fs generalizing d n with
  | nil => rfl
  | cons f fs ih => exact ih (d.next f) n

/-! ## 2. Sound stores -/

theorem sound_zero (d : Faulty σ ε) : d.Sound 0 := fun _ h => absurd h (Nat.not_lt_zero _)

/-- Soundness for a row of writes is soundness for its two parts, one after the other. -/
theorem sound_add (d : Faulty σ ε) (fs : List (σ → σ)) (n : Nat) :
    d.Sound (fs.length + n) ↔ d.Sound fs.length ∧ (d.after fs).Sound n := by
  refine ⟨fun h => ⟨fun i hi => h i (by omega), fun i hi => ?_⟩, fun h i hi => ?_⟩
  · rw [faults_after]
    exact h _ (by omega)
  · by_cases hlt : i < fs.length
    · exact h.1 i hlt
    · have hrest := h.2 (i - fs.length) (by omega)
      rw [faults_after, Nat.sub_add_cancel (Nat.not_lt.1 hlt)] at hrest
      exact hrest

theorem sound_one (d : Faulty σ ε) : d.Sound 1 ↔ d.faults 0 = none := by
  refine ⟨fun h => h 0 Nat.one_pos, fun h i hi => ?_⟩
  obtain rfl : i = 0 := by omega
  exact h

/-! ## 3. Rows of writes -/

/-- **A row of writes returns exactly on a store that is sound for it.** -/
theorem forEach_write_done_iff :
    (Prog.forEach write fs).run d = .done () d' ↔ d.Sound fs.length ∧ d' = d.after fs := by
  induction fs generalizing d with
  | nil =>
    have hrun : (Prog.forEach write ([] : List (σ → σ))).run d = .done () d := rfl
    rw [hrun]
    refine ⟨fun h => ⟨sound_zero d, ?_⟩, fun h => ?_⟩
    · cases h
      rfl
    · rw [h.2]
      rfl
  | cons f fs ih =>
    have hsound : d.Sound (f :: fs).length ↔ d.faults 0 = none ∧ (d.next f).Sound fs.length := by
      have hadd := sound_add d [f] fs.length
      rw [List.length_singleton, sound_one] at hadd
      rw [List.length_cons, Nat.add_comm]
      exact hadd
    rw [Prog.forEach_cons]
    cases hfault : d.faults 0 with
    | none =>
      rw [Prog.run_bind_of_done (write_run_of_none hfault), ih, hsound]
      exact ⟨fun h => ⟨⟨hfault, h.1⟩, h.2⟩, fun h => ⟨h.1.2, h.2⟩⟩
    | some e =>
      rw [Prog.run_bind_of_thrown (write_run_of_some hfault), hsound, hfault]
      refine ⟨fun h => ?_, fun h => ?_⟩
      · cases h
      · cases h.1.1

/-- What every write of a row keeps is kept wherever the row breaks off. -/
theorem forEach_write_keeps {P : σ → Prop} (hkeep : ∀ f ∈ fs, ∀ s, P s → P (f s))
    (h : P d.state) : P ((Prog.forEach write fs).run d).state.state := by
  induction fs generalizing d with
  | nil => exact h
  | cons f fs ih =>
    rw [Prog.forEach_cons]
    cases hfault : d.faults 0 with
    | none =>
      rw [Prog.run_bind_of_done (write_run_of_none hfault)]
      exact ih (fun g hg => hkeep g (List.mem_cons_of_mem _ hg))
        (hkeep f List.mem_cons_self _ h)
    | some e =>
      rw [Prog.run_bind_of_thrown (write_run_of_some hfault)]
      exact h

end Faulty

end CoreEx

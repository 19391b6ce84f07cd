/-
  File:      CoreEx/Lib/Prog.lean
  Subject:   Programs that change a state and may throw, and the rules to prove things about them.

  A throw does not undo anything: the state reached so far stays. That is the meaning of an
  exception in a language with mutable objects, and it is what a statement about atomicity or
  about a catch block has to speak of. Nothing here names the system under verification.

  * `Outcome`, `Prog` -- the result of a run and the programs; `Prog` is a monad;
  * `Prog.tryCatch`, `Prog.zoom`, `Prog.forEach` -- a catch block, a program on a part of the
    state, a loop over a list; `Prog.recordEach` -- a loop that notes how far it got;
  * `Prog.Spec` -- two-sided postconditions (one for a return, one for a throw) with one rule for
    each construct; `Prog.Spec.forEach` carries an invariant through a loop;
  * `Prog.run_bind_done` -- runs taken apart;
  * `Prog.Always`, `Prog.Atomic` -- programs against an abstraction of the state: one that always
    returns, one that does all or nothing; **`Prog.Atomic.check`**, **`Prog.Atomic.andAlways`**.
-/
import Mathlib.Logic.Basic
import Mathlib.Tactic.Common

namespace CoreEx

/-- How a run ends: with a value or with an exception, in either case in some state. -/
inductive Outcome (σ ε α : Type) where
  | done (a : α) (s : σ) : Outcome σ ε α
  | thrown (e : ε) (s : σ) : Outcome σ ε α
  deriving DecidableEq, Repr

namespace Outcome

variable {σ ε α : Type}

/-- The state a run ends in. -/
def state : Outcome σ ε α → σ
  | done _ s => s
  | thrown _ s => s

/-- The value, when the run returned. -/
def value? : Outcome σ ε α → Option α
  | done a _ => some a
  | thrown _ _ => none

/-- Whether the run returned. -/
def isDone : Outcome σ ε α → Bool
  | done _ _ => true
  | thrown _ _ => false

@[simp] theorem state_done (a : α) (s : σ) : (done a s : Outcome σ ε α).state = s := rfl

@[simp] theorem state_thrown (e : ε) (s : σ) : (thrown e s : Outcome σ ε α).state = s := rfl

@[simp] theorem isDone_done (a : α) (s : σ) : (done a s : Outcome σ ε α).isDone = true := rfl

@[simp] theorem isDone_thrown (e : ε) (s : σ) :
    (thrown e s : Outcome σ ε α).isDone = false := rfl

theorem eq_done {o : Outcome σ ε Unit} (h : o.isDone = true) : o = done () o.state := by
  cases o with
  | done a s => rfl
  | thrown e s => cases h

theorem eq_done_of_value {o : Outcome σ ε α} {a : α} (h : o.value? = some a) :
    o = done a o.state := by
  cases o with
  | done b s => exact congrArg (done · s) (Option.some.inj h)
  | thrown e s => cases h

theorem eq_thrown {o : Outcome σ ε α} (h : o.isDone = false) : ∃ e, o = thrown e o.state := by
  cases o with
  | done a s => cases h
  | thrown e s => exact ⟨e, rfl⟩

end Outcome

/-- A program over the state `σ` that returns an `α` or throws an `ε`. -/
structure Prog (σ ε α : Type) where
  run : σ → Outcome σ ε α

namespace Prog

variable {σ τ ε α β : Type}

/-! ## 1. The constructs -/

/-- Run `x`, then `f` on its value; a throw of `x` ends the whole. -/
def andThen (x : Prog σ ε α) (f : α → Prog σ ε β) : Prog σ ε β :=
  ⟨fun s => match x.run s with
    | .done a s' => (f a).run s'
    | .thrown e s' => .thrown e s'⟩

instance : Monad (Prog σ ε) where
  pure a := ⟨fun s => .done a s⟩
  bind := andThen

/-- Throw `e` in the state reached so far. -/
def throw (e : ε) : Prog σ ε α := ⟨fun s => .thrown e s⟩

/-- Read something off the state. -/
def gets (f : σ → α) : Prog σ ε α := ⟨fun s => .done (f s) s⟩

/-- Change the state. -/
def modify (f : σ → σ) : Prog σ ε Unit := ⟨fun s => .done () (f s)⟩

/-- `if (c) { x }`. -/
def when (c : Prop) [Decidable c] (x : Prog σ ε Unit) : Prog σ ε Unit := if c then x else pure ()

/-- `if (c) { throw e }`. -/
def throwIf (c : Prop) [Decidable c] (e : ε) : Prog σ ε Unit := when c (throw e)

/-- A result that is known before the run, as a program. -/
def ofExcept : Except ε α → Prog σ ε α
  | .ok a => pure a
  | .error e => throw e

/-- Run `x`; if it throws, run `h` from the state the throw left behind. -/
def tryCatch (x : Prog σ ε α) (h : ε → Prog σ ε α) : Prog σ ε α :=
  ⟨fun s => match x.run s with
    | .done a s' => .done a s'
    | .thrown e s' => (h e).run s'⟩

/-- A program on a part of a larger state. -/
def zoom (get : τ → σ) (put : σ → τ → τ) (x : Prog σ ε α) : Prog τ ε α :=
  ⟨fun t => match x.run (get t) with
    | .done a s => .done a (put s t)
    | .thrown e s => .thrown e (put s t)⟩

/-- `for (const b of bs) f(b)`: the first throw ends the loop. -/
def forEach (f : β → Prog σ ε Unit) : List β → Prog σ ε Unit
  | [] => pure ()
  | b :: bs => do
    f b
    forEach f bs

/-- A program with a local variable, which is gone afterwards. -/
def withLocal (init : τ) (x : Prog (σ × τ) ε α) : Prog σ ε α :=
  ⟨fun s => match x.run (s, init) with
    | .done a p => .done a p.1
    | .thrown e p => .thrown e p.1⟩

/-- A program beside a local variable it does not use. -/
def outer (x : Prog σ ε α) : Prog (σ × τ) ε α := zoom Prod.fst (fun s p => (s, p.2)) x

/-- A loop that notes in the local variable which passes it has finished. -/
def recordEach (f : β → Prog σ ε Unit) (bs : List β) : Prog (σ × List β) ε Unit :=
  forEach (fun b => do
    outer (f b)
    modify fun p => (p.1, p.2 ++ [b])) bs

/-! ## 2. Runs -/

@[simp] theorem run_pure (a : α) (s : σ) : (pure a : Prog σ ε α).run s = .done a s := rfl

@[simp] theorem run_throw (e : ε) (s : σ) : (throw e : Prog σ ε α).run s = .thrown e s := rfl

@[simp] theorem run_gets (f : σ → α) (s : σ) : (gets f : Prog σ ε α).run s = .done (f s) s := rfl

@[simp] theorem run_modify (f : σ → σ) (s : σ) :
    (modify f : Prog σ ε Unit).run s = .done () (f s) := rfl

theorem run_bind (x : Prog σ ε α) (f : α → Prog σ ε β) (s : σ) :
    (x >>= f).run s = match x.run s with
      | .done a s' => (f a).run s'
      | .thrown e s' => .thrown e s' := rfl

theorem run_bind_of_done {x : Prog σ ε α} {f : α → Prog σ ε β} {s s' : σ} {a : α}
    (h : x.run s = .done a s') : (x >>= f).run s = (f a).run s' := by
  rw [run_bind, h]

theorem run_bind_of_thrown {x : Prog σ ε α} {f : α → Prog σ ε β} {s s' : σ} {e : ε}
    (h : x.run s = .thrown e s') : (x >>= f).run s = .thrown e s' := by
  rw [run_bind, h]

/-- A sequence returns exactly when both parts do. -/
theorem run_bind_done {x : Prog σ ε α} {f : α → Prog σ ε β} {s s'' : σ} {b : β} :
    (x >>= f).run s = .done b s'' ↔
      ∃ a s', x.run s = .done a s' ∧ (f a).run s' = .done b s'' := by
  rw [run_bind]
  cases h : x.run s with
  | done a s' => simp
  | thrown e s' => simp

@[simp] theorem run_ite (c : Prop) [Decidable c] (x y : Prog σ ε α) (s : σ) :
    (if c then x else y).run s = if c then x.run s else y.run s := by
  split <;> rfl

@[simp] theorem run_zoom (get : τ → σ) (put : σ → τ → τ) (x : Prog σ ε α) (t : τ) :
    (zoom get put x).run t = match x.run (get t) with
      | .done a s => .done a (put s t)
      | .thrown e s => .thrown e (put s t) := rfl

theorem run_tryCatch (x : Prog σ ε α) (h : ε → Prog σ ε α) (s : σ) :
    (tryCatch x h).run s = match x.run s with
      | .done a s' => .done a s'
      | .thrown e s' => (h e).run s' := rfl

@[simp] theorem forEach_nil (f : β → Prog σ ε Unit) : forEach f [] = pure () := rfl

theorem forEach_cons (f : β → Prog σ ε Unit) (b : β) (bs : List β) :
    forEach f (b :: bs) = (f b >>= fun _ => forEach f bs) := rfl

theorem run_withLocal (init : τ) (x : Prog (σ × τ) ε α) (s : σ) :
    (withLocal init x).run s = match x.run (s, init) with
      | .done a p => .done a p.1
      | .thrown e p => .thrown e p.1 := rfl

theorem run_outer (x : Prog σ ε α) (p : σ × τ) :
    (outer x : Prog (σ × τ) ε α).run p = match x.run p.1 with
      | .done a s => .done a (s, p.2)
      | .thrown e s => .thrown e (s, p.2) := rfl

theorem forEach_append (f : β → Prog σ ε Unit) (bs cs : List β) :
    forEach f (bs ++ cs) = (forEach f bs >>= fun _ => forEach f cs) := by
  induction bs with
  | nil => rfl
  | cons b bs ih =>
    rw [List.cons_append, forEach_cons, forEach_cons, ih]
    have hassoc : ∀ (x y z : Prog σ ε Unit),
        (x >>= fun _ => y >>= fun _ => z) = ((x >>= fun _ => y) >>= fun _ => z) := by
      intro x y z
      have hrun : ∀ s, (x >>= fun _ => y >>= fun _ => z).run s =
          ((x >>= fun _ => y) >>= fun _ => z).run s := by
        intro s
        simp only [run_bind]
        cases x.run s <;> rfl
      exact congrArg Prog.mk (funext hrun)
    exact hassoc _ _ _

/-- A loop in which every pass appends an element appends them all. -/
theorem forEach_collect {f : β → Prog (List α) ε Unit} {g : β → Option α} {bs : List β}
    (h : ∀ b ∈ bs, ∃ a, g b = some a ∧ ∀ s, (f b).run s = .done () (s ++ [a])) :
    ∃ as : List α, as.map some = bs.map g ∧
      ∀ s, (forEach f bs).run s = .done () (s ++ as) := by
  induction bs with
  | nil => exact ⟨[], rfl, fun s => by rw [List.append_nil]; rfl⟩
  | cons b bs ih =>
    obtain ⟨a, ha, hpass⟩ := h b List.mem_cons_self
    obtain ⟨as, has, hrest⟩ := ih fun b' hb' => h b' (List.mem_cons_of_mem _ hb')
    refine ⟨a :: as, ?_, fun s => ?_⟩
    · rw [List.map_cons, List.map_cons, ha, has]
    · rw [forEach_cons, run_bind_of_done (hpass s), hrest, List.append_assoc]
      rfl

/-- A recording loop that finishes has recorded everything. -/
theorem recordEach_done {f : β → Prog σ ε Unit} {bs : List β} {s s' : σ} (l : List β)
    (h : (forEach f bs).run s = .done () s') :
    (recordEach f bs).run (s, l) = .done () (s', l ++ bs) := by
  induction bs generalizing s l with
  | nil =>
    obtain rfl : s = s' := by simpa using h
    simp [recordEach]
  | cons b bs ih =>
    rw [forEach_cons, run_bind_done] at h
    obtain ⟨_, s₁, hb, hbs⟩ := h
    have hout : (outer (f b) : Prog (σ × List β) ε Unit).run (s, l) = .done () (s₁, l) := by
      rw [run_outer, hb]
    unfold recordEach at ih ⊢
    rw [forEach_cons, run_bind, run_bind_of_done hout]
    simp only [run_modify]
    rw [ih (l ++ [b]) hbs]
    simp

/-- One that throws has recorded the passes before the one that threw. -/
theorem recordEach_thrown {f : β → Prog σ ε Unit} {bs : List β} {s s' : σ} {e : ε}
    (l : List β) (h : (forEach f bs).run s = .thrown e s') :
    ∃ bs₁ b bs₂ s₁, bs = bs₁ ++ b :: bs₂ ∧ (forEach f bs₁).run s = .done () s₁ ∧
      (f b).run s₁ = .thrown e s' ∧
      (recordEach f bs).run (s, l) = .thrown e (s', l ++ bs₁) := by
  induction bs generalizing s l with
  | nil => cases h
  | cons b bs ih =>
    rw [forEach_cons, run_bind] at h
    cases hb : (f b).run s with
    | thrown e' s₁ =>
      rw [hb] at h
      refine ⟨[], b, bs, s, rfl, rfl, hb.trans h, ?_⟩
      have hout : (outer (f b) : Prog (σ × List β) ε Unit).run (s, l) = .thrown e' (s₁, l) := by
        rw [run_outer, hb]
      cases h
      unfold recordEach
      rw [forEach_cons, run_bind, run_bind_of_thrown hout, List.append_nil]
    | done u s₁ =>
      rw [hb] at h
      obtain ⟨bs₁, b', bs₂, s₂, rfl, hpre, hthrow, hrec⟩ := ih (l ++ [b]) h
      refine ⟨b :: bs₁, b', bs₂, s₂, rfl, ?_, hthrow, ?_⟩
      · rw [forEach_cons, run_bind, hb]
        exact hpre
      · have hout : (outer (f b) : Prog (σ × List β) ε Unit).run (s, l) = .done u (s₁, l) := by
          rw [run_outer, hb]
        unfold recordEach at hrec ⊢
        rw [forEach_cons, run_bind, run_bind_of_done hout]
        simp only [run_modify]
        rw [hrec]
        simp

/-! ## 3. Two-sided postconditions -/

/-- From `s`, the program either returns a value and a state with `Q`, or throws in a state
    with `E`. -/
def Spec (x : Prog σ ε α) (s : σ) (Q : α → σ → Prop) (E : ε → σ → Prop) : Prop :=
  match x.run s with
  | .done a s' => Q a s'
  | .thrown e s' => E e s'

namespace Spec

variable {s : σ} {Q : α → σ → Prop} {E E' : ε → σ → Prop} {x : Prog σ ε α}

theorem of_run (hd : ∀ a s', x.run s = .done a s' → Q a s')
    (ht : ∀ e s', x.run s = .thrown e s' → E e s') : x.Spec s Q E := by
  unfold Spec
  cases h : x.run s with
  | done a s' => exact hd a s' h
  | thrown e s' => exact ht e s' h

theorem of_done (h : x.Spec s Q E) {a : α} {s' : σ} (hr : x.run s = .done a s') : Q a s' := by
  unfold Spec at h
  rw [hr] at h
  exact h

theorem of_thrown (h : x.Spec s Q E) {e : ε} {s' : σ} (hr : x.run s = .thrown e s') :
    E e s' := by
  unfold Spec at h
  rw [hr] at h
  exact h

/-- What holds at the end in either case is a postcondition of the state. -/
theorem state_iff {P : σ → Prop} :
    x.Spec s (fun _ s' => P s') (fun _ s' => P s') ↔ P (x.run s).state := by
  unfold Spec
  cases x.run s <;> exact Iff.rfl

theorem pure {a : α} (h : Q a s) : (Pure.pure a : Prog σ ε α).Spec s Q E := h

theorem throw {e : ε} (h : E e s) : (Prog.throw e : Prog σ ε α).Spec s Q E := h

theorem gets {f : σ → α} (h : Q (f s) s) : (Prog.gets f : Prog σ ε α).Spec s Q E := h

theorem modify {f : σ → σ} {Q : Unit → σ → Prop} (h : Q () (f s)) :
    (Prog.modify f : Prog σ ε Unit).Spec s Q E := h

/-- The rule of consequence. -/
theorem mono {Q' : α → σ → Prop} (h : x.Spec s Q E) (hQ : ∀ a s', Q a s' → Q' a s')
    (hE : ∀ e s', E e s' → E' e s') : x.Spec s Q' E' :=
  of_run (fun a s' hr => hQ a s' (h.of_done hr)) fun e s' hr => hE e s' (h.of_thrown hr)

/-- The rule of sequence: the throws of the first part are throws of the whole. -/
theorem bind {R : β → σ → Prop} {f : α → Prog σ ε β} (hx : x.Spec s Q E)
    (hf : ∀ a s', Q a s' → (f a).Spec s' R E) : (x >>= f).Spec s R E := by
  unfold Spec
  rw [run_bind]
  cases h : x.run s with
  | done a s' => exact hf a s' (hx.of_done h)
  | thrown e s' => exact hx.of_thrown h

theorem ite {c : Prop} [Decidable c] {y : Prog σ ε α} (ht : c → x.Spec s Q E)
    (hf : ¬ c → y.Spec s Q E) : (if c then x else y).Spec s Q E := by
  split
  · exact ht ‹_›
  · exact hf ‹_›

theorem when {c : Prop} [Decidable c] {x : Prog σ ε Unit} {Q : Unit → σ → Prop}
    (ht : c → x.Spec s Q E) (hf : ¬ c → Q () s) : (Prog.when c x).Spec s Q E :=
  ite ht fun h => pure (hf h)

theorem throwIf {c : Prop} [Decidable c] {e : ε} {Q : Unit → σ → Prop} (ht : c → E e s)
    (hf : ¬ c → Q () s) : (Prog.throwIf c e).Spec s Q E :=
  when (fun h => throw (ht h)) hf

theorem ofExcept {r : Except ε α} (hd : ∀ a, r = .ok a → Q a s)
    (ht : ∀ e, r = .error e → E e s) : (Prog.ofExcept r : Prog σ ε α).Spec s Q E := by
  cases r with
  | ok a => exact hd a rfl
  | error e => exact ht e rfl

/-- The rule of a part of the state. -/
theorem zoom {get : τ → σ} {put : σ → τ → τ} {t : τ} {R : α → τ → Prop} {E : ε → τ → Prop}
    (h : x.Spec (get t) (fun a s => R a (put s t)) fun e s => E e (put s t)) :
    (Prog.zoom get put x).Spec t R E := by
  unfold Spec at h ⊢
  rw [run_zoom]
  cases hrun : x.run (get t) with
  | done a s' =>
    rw [hrun] at h
    exact h
  | thrown e s' =>
    rw [hrun] at h
    exact h

/-- The rule of a local variable. -/
theorem withLocal {init : τ} {y : Prog (σ × τ) ε α}
    (h : y.Spec (s, init) (fun a p => Q a p.1) fun e p => E e p.1) :
    (Prog.withLocal init y).Spec s Q E := by
  unfold Spec at h ⊢
  rw [run_withLocal]
  cases hrun : y.run (s, init) with
  | done a p =>
    rw [hrun] at h
    exact h
  | thrown e p =>
    rw [hrun] at h
    exact h

/-- The rule of a catch block: it begins where the first part threw. -/
theorem tryCatch {h : ε → Prog σ ε α} (hx : x.Spec s Q E)
    (hcatch : ∀ e s', E e s' → (h e).Spec s' Q E') : (Prog.tryCatch x h).Spec s Q E' := by
  unfold Spec
  rw [run_tryCatch]
  cases hrun : x.run s with
  | done a s' => exact hx.of_done hrun
  | thrown e s' => exact hcatch e s' (hx.of_thrown hrun)

/-- The loop rule: what each pass keeps, the whole loop keeps. `I bs` is the invariant with the
    passes `bs` still to come. -/
theorem forEach {f : β → Prog σ ε Unit} (I : List β → σ → Prop)
    (step : ∀ b bs s, I (b :: bs) s → (f b).Spec s (fun _ s' => I bs s') E) :
    ∀ (bs : List β) (s : σ), I bs s → (Prog.forEach f bs).Spec s (fun _ s' => I [] s') E := by
  intro bs
  induction bs with
  | nil => exact fun s h => h
  | cons b bs ih => exact fun s h => (step b bs s h).bind fun _ s' h' => ih s' h'

end Spec

/-! ## 4. Relations every run keeps -/

/-- Every run of `x`, returning or throwing, ends in a state related to the one it began in. -/
def Keeps (R : σ → σ → Prop) (x : Prog σ ε α) : Prop :=
  ∀ s, R s (x.run s).state

namespace Keeps

variable {R : σ → σ → Prop} {x : Prog σ ε α}

theorem of_done (h : Keeps R x) {s s' : σ} {a : α} (hr : x.run s = .done a s') : R s s' := by
  have := h s
  rwa [hr] at this

theorem of_thrown (h : Keeps R x) {s s' : σ} {e : ε} (hr : x.run s = .thrown e s') :
    R s s' := by
  have := h s
  rwa [hr] at this

/-- The relation to the beginning, as a postcondition. -/
theorem spec (h : Keeps R x) (s : σ) : x.Spec s (fun _ s' => R s s') fun _ s' => R s s' :=
  Spec.state_iff.2 (h s)

theorem pure (hrefl : ∀ s, R s s) (a : α) : Keeps R (Pure.pure a : Prog σ ε α) := hrefl

theorem throw (hrefl : ∀ s, R s s) (e : ε) : Keeps R (Prog.throw e : Prog σ ε α) := hrefl

theorem gets (hrefl : ∀ s, R s s) (f : σ → α) : Keeps R (Prog.gets f : Prog σ ε α) := hrefl

theorem ofExcept (hrefl : ∀ s, R s s) (r : Except ε α) :
    Keeps R (Prog.ofExcept r : Prog σ ε α) := by
  cases r with
  | ok a => exact hrefl
  | error e => exact hrefl

theorem bind (htrans : ∀ s t u, R s t → R t u → R s u) {f : α → Prog σ ε β} (hx : Keeps R x)
    (hf : ∀ a, Keeps R (f a)) : Keeps R (x >>= f) := by
  intro s
  rw [run_bind]
  cases h : x.run s with
  | done a s' => exact htrans _ _ _ (hx.of_done h) (hf a s')
  | thrown e s' => exact hx.of_thrown h

theorem ite {c : Prop} [Decidable c] {y : Prog σ ε α} (hx : Keeps R x) (hy : Keeps R y) :
    Keeps R (if c then x else y) := by
  split
  · exact hx
  · exact hy

theorem when (hrefl : ∀ s, R s s) {c : Prop} [Decidable c] {x : Prog σ ε Unit}
    (hx : Keeps R x) : Keeps R (Prog.when c x) :=
  ite hx (pure hrefl ())

theorem throwIf (hrefl : ∀ s, R s s) (c : Prop) [Decidable c] (e : ε) :
    Keeps R (Prog.throwIf c e : Prog σ ε Unit) :=
  when hrefl (throw hrefl e)

theorem forEach (hrefl : ∀ s, R s s) (htrans : ∀ s t u, R s t → R t u → R s u)
    {f : β → Prog σ ε Unit} (hf : ∀ b, Keeps R (f b)) (bs : List β) :
    Keeps R (Prog.forEach f bs) := by
  induction bs with
  | nil => exact pure hrefl ()
  | cons b bs ih => exact bind htrans (hf b) fun _ => ih

theorem tryCatch (htrans : ∀ s t u, R s t → R t u → R s u) {h : ε → Prog σ ε α} (hx : Keeps R x)
    (hh : ∀ e, Keeps R (h e)) : Keeps R (Prog.tryCatch x h) := by
  intro s
  rw [run_tryCatch]
  cases hr : x.run s with
  | done a s' => exact hx.of_done hr
  | thrown e s' => exact htrans _ _ _ (hx.of_thrown hr) (hh e s')

/-- A part of the state that the relation looks at. -/
theorem zoom {get : τ → σ} {put : σ → τ → τ} (hput : ∀ s t, get (put s t) = s)
    (hx : Keeps R x) : Keeps (fun t u => R (get t) (get u)) (Prog.zoom get put x) := by
  intro t
  show R (get t) (get ((Prog.zoom get put x).run t).state)
  have h := hx (get t)
  rw [run_zoom]
  cases hr : x.run (get t) with
  | done a s =>
    rw [hr] at h
    simpa [hput] using h
  | thrown e s =>
    rw [hr] at h
    simpa [hput] using h

theorem withLocal {init : τ} {y : Prog (σ × τ) ε α} (hy : Keeps (fun p q => R p.1 q.1) y) :
    Keeps R (Prog.withLocal init y) := by
  intro s
  have h := hy (s, init)
  rw [run_withLocal]
  cases hr : y.run (s, init) with
  | done a p =>
    rw [hr] at h
    exact h
  | thrown e p =>
    rw [hr] at h
    exact h

theorem recordEach (hrefl : ∀ s, R s s) (htrans : ∀ s t u, R s t → R t u → R s u)
    {f : β → Prog σ ε Unit} (hf : ∀ b, Keeps R (f b)) (bs : List β) :
    Keeps (fun p q => R p.1 q.1) (Prog.recordEach f bs) := by
  have htrans' : ∀ p q u : σ × List β, R p.1 q.1 → R q.1 u.1 → R p.1 u.1 :=
    fun _ _ _ => htrans _ _ _
  have hpass : ∀ b, Keeps (fun p q : σ × List β => R p.1 q.1) (outer (f b)) :=
    fun b => zoom (fun _ _ => rfl) (hf b)
  have hnote : ∀ b, Keeps (fun p q : σ × List β => R p.1 q.1)
      (modify fun p => (p.1, p.2 ++ [b]) : Prog (σ × List β) ε Unit) := fun _ p => hrefl p.1
  exact forEach (fun p => hrefl p.1) htrans' (fun b => bind htrans' (hpass b) fun _ => hnote b) bs

end Keeps

/-! ## 5. Programs against an abstraction -/

/-- From a state that stands for `b`, the program returns, in a state that stands for `b'`, a
    value with `P`. `R b s` says that the state `s` stands for `b`. -/
def Always (R : β → σ → Prop) (b : β) (x : Prog σ ε α) (P : α → Prop) (b' : β) : Prop :=
  ∀ s, R b s → x.Spec s (fun a s' => R b' s' ∧ P a) fun _ _ => False

/-- All or nothing: from a state that stands for `b`, the program returns as `Always` says, or it
    throws in a state that still stands for `b`. -/
def Atomic (R : β → σ → Prop) (b : β) (x : Prog σ ε α) (P : α → Prop) (b' : β) : Prop :=
  ∀ s, R b s → x.Spec s (fun a s' => R b' s' ∧ P a) fun _ s' => R b s'

section Abstraction

variable {γ : Type} {R : β → σ → Prop} {b b' b'' : β} {x : Prog σ ε α} {P P' : α → Prop}
  {f : α → Prog σ ε γ} {Q : γ → Prop}

theorem Always.pure {a : α} (h : P a) : Always R b (Pure.pure a : Prog σ ε α) P b :=
  fun _ hs => ⟨hs, h⟩

theorem Always.gets {g : σ → α} (h : ∀ s, R b s → P (g s)) :
    Always R b (Prog.gets g : Prog σ ε α) P b :=
  fun s hs => ⟨hs, h s hs⟩

theorem Always.modify {g : σ → σ} (h : ∀ s, R b s → R b' (g s)) :
    Always R b (Prog.modify g : Prog σ ε Unit) (fun _ => True) b' :=
  fun s hs => ⟨h s hs, trivial⟩

theorem Always.mono (h : Always R b x P b') (hP : ∀ a, P a → P' a) : Always R b x P' b' :=
  fun s hs => (h s hs).mono (fun a _ hq => ⟨hq.1, hP a hq.2⟩) fun _ _ he => he

theorem Always.bind (hx : Always R b x P b') (hf : ∀ a, P a → Always R b' (f a) Q b'') :
    Always R b (x >>= f) Q b'' :=
  fun s hs => (hx s hs).bind fun a s' hq => hf a hq.2 s' hq.1

theorem Always.when {c : Prop} [Decidable c] {x : Prog σ ε Unit}
    (ht : c → Always R b x (fun _ => True) b') (hf : ¬ c → b' = b) :
    Always R b (Prog.when c x) (fun _ => True) b' :=
  fun s hs => Spec.when (fun hc => ht hc s hs) fun hc => ⟨hf hc ▸ hs, trivial⟩

/-- A program on a part of the state, whatever the whole stands for. -/
theorem Always.zoom {ρ κ : Type} {S : κ → ρ → Prop} {c c' : κ} {get : ρ → σ}
    {put : σ → ρ → ρ} (h : Always R b x P b') (hget : ∀ t, S c t → R b (get t))
    (hput : ∀ t s, S c t → R b' s → S c' (put s t)) : Always S c (Prog.zoom get put x) P c' := by
  intro t ht
  have hspec := h (get t) (hget t ht)
  unfold Spec at hspec ⊢
  rw [run_zoom]
  cases hr : x.run (get t) with
  | done a s =>
    rw [hr] at hspec
    exact ⟨hput t s ht hspec.1, hspec.2⟩
  | thrown e s =>
    rw [hr] at hspec
    exact hspec.elim

theorem Atomic.zoom {ρ κ : Type} {S : κ → ρ → Prop} {c c' : κ} {get : ρ → σ}
    {put : σ → ρ → ρ} (h : Atomic R b x P b') (hget : ∀ t, S c t → R b (get t))
    (hput : ∀ t s, S c t → R b' s → S c' (put s t))
    (hback : ∀ t s, S c t → R b s → S c (put s t)) : Atomic S c (Prog.zoom get put x) P c' := by
  intro t ht
  have hspec := h (get t) (hget t ht)
  unfold Spec at hspec ⊢
  rw [run_zoom]
  cases hr : x.run (get t) with
  | done a s =>
    rw [hr] at hspec
    exact ⟨hput t s ht hspec.1, hspec.2⟩
  | thrown e s =>
    rw [hr] at hspec
    exact hback t s ht hspec

/-- Such a program returns. -/
theorem Always.run (h : Always R b x P b') {s : σ} (hs : R b s) :
    ∃ a s', x.run s = .done a s' ∧ R b' s' ∧ P a := by
  have hspec := h s hs
  unfold Spec at hspec
  cases hr : x.run s with
  | done a s' =>
    rw [hr] at hspec
    exact ⟨a, s', rfl, hspec.1, hspec.2⟩
  | thrown e s' =>
    rw [hr] at hspec
    exact hspec.elim

/-- A loop whose passes go from `step bs` with the passes `bs` to come to the next. -/
theorem Always.forEach {δ : Type} {g : δ → Prog σ ε Unit} (step : List δ → β)
    (h : ∀ d ds, Always R (step (d :: ds)) (g d) (fun _ => True) (step ds)) :
    ∀ ds, Always R (step ds) (Prog.forEach g ds) (fun _ => True) (step []) := by
  intro ds
  induction ds with
  | nil => exact Always.pure trivial
  | cons d ds ih => exact (h d ds).bind fun _ _ => ih

theorem Always.atomic (h : Always R b x P b') : Atomic R b x P b' :=
  fun s hs => (h s hs).mono (fun _ _ hq => hq) fun _ _ he => he.elim

theorem Atomic.throw {e : ε} : Atomic R b (Prog.throw e : Prog σ ε α) P b' := fun _ hs => hs

theorem Atomic.mono (h : Atomic R b x P b') (hP : ∀ a, P a → P' a) : Atomic R b x P' b' :=
  fun s hs => (h s hs).mono (fun a _ hq => ⟨hq.1, hP a hq.2⟩) fun _ _ he => he

/-- **Checks may come before an atomic program.** -/
theorem Atomic.check (hx : Atomic R b x P b) (hf : ∀ a, P a → Atomic R b (f a) Q b') :
    Atomic R b (x >>= f) Q b' :=
  fun s hs => (hx s hs).bind fun a s' hq => hf a hq.2 s' hq.1

/-- **What never throws may come after one.** -/
theorem Atomic.andAlways (hx : Atomic R b x P b') (hf : ∀ a, P a → Always R b' (f a) Q b'') :
    Atomic R b (x >>= f) Q b'' :=
  fun s hs => (hx s hs).bind fun a s' hq =>
    (hf a hq.2 s' hq.1).mono (fun _ _ h => h) fun _ _ he => he.elim

theorem Atomic.ite {c : Prop} [Decidable c] {y : Prog σ ε α} (ht : c → Atomic R b x P b')
    (hf : ¬ c → Atomic R b y P b') : Atomic R b (if c then x else y) P b' :=
  fun s hs => Spec.ite (fun hc => ht hc s hs) fun hc => hf hc s hs

theorem Atomic.throwIf {c : Prop} [Decidable c] {e : ε} :
    Atomic R b (Prog.throwIf c e : Prog σ ε Unit) (fun _ => ¬ c) b :=
  fun _ hs => Spec.throwIf (fun _ => hs) fun hc => ⟨hs, hc⟩

theorem Atomic.ofExcept {r : Except ε α} :
    Atomic R b (Prog.ofExcept r : Prog σ ε α) (fun a => r = .ok a) b :=
  fun _ hs => Spec.ofExcept (fun _ ha => ⟨hs, ha⟩) fun _ _ => hs

/-- A loop of checks, each of them on its own. -/
theorem Atomic.forEach {δ : Type} {g : δ → Prog σ ε Unit} {P : δ → Prop}
    (h : ∀ d, Atomic R b (g d) (fun _ => P d) b) :
    ∀ ds, Atomic R b (Prog.forEach g ds) (fun _ => ∀ d ∈ ds, P d) b := by
  intro ds
  induction ds with
  | nil => exact (Always.pure (P := fun _ => ∀ d ∈ [], P d) fun _ hd => nomatch hd).atomic
  | cons d ds ih =>
    refine (h d).check fun _ hd => ih.mono fun _ hds => ?_
    intro d' hd'
    rcases List.mem_cons.1 hd' with rfl | hmem
    · exact hd
    · exact hds d' hmem

/-- All or nothing, with the states it returns from: those with `D`. -/
def Decided (R : β → σ → Prop) (b : β) (x : Prog σ ε α) (P : α → Prop) (b' : β)
    (D : σ → Prop) : Prop :=
  ∀ s, R b s → x.Spec s (fun a s' => (R b' s' ∧ P a) ∧ D s) fun _ s' => R b s' ∧ ¬ D s

theorem Decided.atomic {D : σ → Prop} (h : Decided R b x P b' D) : Atomic R b x P b' :=
  fun s hs => (h s hs).mono (fun _ _ hq => hq.1) fun _ _ he => he.1

theorem Decided.mono {D : σ → Prop} (h : Decided R b x P b' D) (hP : ∀ a, P a → P' a) :
    Decided R b x P' b' D :=
  fun s hs => (h s hs).mono (fun a _ hq => ⟨⟨hq.1.1, hP a hq.1.2⟩, hq.2⟩) fun _ _ he => he

/-- What never throws decides nothing. -/
theorem Decided.andAlways {D : σ → Prop} (hx : Decided R b x P b' D)
    (hf : ∀ a, P a → Always R b' (f a) Q b'') : Decided R b (x >>= f) Q b'' D :=
  fun s hs => (hx s hs).bind fun a s' hq =>
    (hf a hq.1.2 s' hq.1.1).mono (fun _ _ h => ⟨h, hq.2⟩) fun _ _ he => he.elim

theorem Decided.refuse {D : σ → Prop} (hx : Decided R b x (fun _ => False) b D) :
    Decided R b (x >>= f) Q b' D :=
  fun s hs => (hx s hs).bind fun _ _ hq => hq.1.2.elim

/-- When it returns. -/
theorem Decided.isDone_iff {D : σ → Prop} (h : Decided R b x P b' D) {s : σ} (hs : R b s) :
    (x.run s).isDone = true ↔ D s := by
  have hspec := h s hs
  unfold Spec at hspec
  cases hr : x.run s with
  | done a s' =>
    rw [hr] at hspec
    exact ⟨fun _ => hspec.2, fun _ => rfl⟩
  | thrown e s' =>
    rw [hr] at hspec
    exact ⟨fun hd => (nomatch hd), fun hd => absurd hd hspec.2⟩

/-- From a state that stands for `b`, the program returns if and only if `C`. Where it leaves the
    state when it throws is left open. -/
def Decides (R : β → σ → Prop) (b : β) (x : Prog σ ε α) (C : Prop) (P : α → Prop) (b' : β) : Prop :=
  ∀ s, R b s → x.Spec s (fun a s' => (R b' s' ∧ P a) ∧ C) fun _ _ => ¬ C

theorem Decides.congr {C C' : Prop} (h : Decides R b x C P b') (hC : C ↔ C') :
    Decides R b x C' P b' :=
  propext hC ▸ h

theorem Decides.mono {C : Prop} (h : Decides R b x C P b') (hP : ∀ a, P a → P' a) :
    Decides R b x C P' b' :=
  fun s hs => (h s hs).mono (fun a _ hq => ⟨⟨hq.1.1, hP a hq.1.2⟩, hq.2⟩) fun _ _ he => he

theorem Decides.pure {a : α} (h : P a) : Decides R b (Pure.pure a : Prog σ ε α) True P b :=
  fun _ hs => ⟨⟨hs, h⟩, trivial⟩

theorem Decides.throw {e : ε} : Decides R b (Prog.throw e : Prog σ ε α) False P b' :=
  fun _ _ => not_false

theorem Decides.throwIf {c : Prop} [Decidable c] {e : ε} :
    Decides R b (Prog.throwIf c e : Prog σ ε Unit) (¬ c) (fun _ => ¬ c) b :=
  fun _ hs => Spec.throwIf (fun hc hn => hn hc) fun hc => ⟨⟨hs, hc⟩, hc⟩

/-- The rule of sequence: both have to let through. -/
theorem Decides.bind {C D : Prop} (hx : Decides R b x C P b')
    (hf : ∀ a, P a → Decides R b' (f a) D Q b'') : Decides R b (x >>= f) (C ∧ D) Q b'' := by
  intro s hs
  have hspec := hx s hs
  unfold Spec at hspec ⊢
  rw [run_bind]
  cases hr : x.run s with
  | thrown e s' =>
    rw [hr] at hspec
    exact fun h => hspec h.1
  | done a s' =>
    rw [hr] at hspec
    exact (hf a hspec.1.2 s' hspec.1.1).mono (fun _ _ hq => ⟨hq.1, hspec.2, hq.2⟩)
      fun _ _ he h => he h.2

/-- What never throws decides nothing. -/
theorem Always.decides {C : Prop} (hx : Always R b x P b')
    (hf : ∀ a, P a → Decides R b' (f a) C Q b'') : Decides R b (x >>= f) C Q b'' :=
  fun s hs => ((hx s hs).mono (fun _ _ hq => hq) fun _ _ he => he.elim).bind
    fun a s' hq => hf a hq.2 s' hq.1

theorem Decides.ite {c : Prop} [Decidable c] {C D : Prop} {y : Prog σ ε α}
    (ht : c → Decides R b x C P b') (hf : ¬ c → Decides R b y D P b') :
    Decides R b (if c then x else y) ((c → C) ∧ (¬ c → D)) P b' := by
  by_cases hc : c
  · rw [if_pos hc]
    exact (ht hc).congr ⟨fun h => ⟨fun _ => h, fun hn => absurd hc hn⟩, fun h => h.1 hc⟩
  · rw [if_neg hc]
    exact (hf hc).congr ⟨fun h => ⟨fun hn => absurd hn hc, fun _ => h⟩, fun h => h.2 hc⟩

theorem Decides.isDone_iff {C : Prop} (h : Decides R b x C P b') {s : σ} (hs : R b s) :
    (x.run s).isDone = true ↔ C := by
  have hspec := h s hs
  unfold Spec at hspec
  cases hr : x.run s with
  | done a s' =>
    rw [hr] at hspec
    exact ⟨fun _ => hspec.2, fun _ => rfl⟩
  | thrown e s' =>
    rw [hr] at hspec
    exact ⟨fun hd => (nomatch hd), fun hd => absurd hd hspec⟩

/-- From a state that stands for `b`, the program returns the value of `o`, in such a state again;
    without one it throws. -/
def Evaluates (R : β → σ → Prop) (b : β) (x : Prog σ ε α) (o : Option α) : Prop :=
  ∀ s, R b s → x.Spec s (fun a s' => R b s' ∧ o = some a) fun _ _ => o = none

theorem Evaluates.pure (a : α) : Evaluates R b (Pure.pure a : Prog σ ε α) (some a) :=
  fun _ hs => ⟨hs, rfl⟩

theorem Evaluates.throw (e : ε) : Evaluates R b (Prog.throw e : Prog σ ε α) none := fun _ _ => rfl

theorem Evaluates.ofExcept (r : Except ε α) :
    Evaluates R b (Prog.ofExcept r : Prog σ ε α) r.toOption := by
  cases r with
  | ok a => exact fun _ hs => ⟨hs, rfl⟩
  | error e => exact fun _ _ => rfl

/-- The rule of sequence. -/
theorem Evaluates.bind {o : Option α} {p : α → Option γ} (hx : Evaluates R b x o)
    (hf : ∀ a, Evaluates R b (f a) (p a)) : Evaluates R b (x >>= f) (o.bind p) := by
  intro s hs
  have hspec := hx s hs
  unfold Spec at hspec ⊢
  rw [run_bind]
  cases hr : x.run s with
  | thrown e s' =>
    rw [hr] at hspec
    exact hspec ▸ rfl
  | done a s' =>
    rw [hr] at hspec
    obtain ⟨hs', ha⟩ := hspec
    rw [ha]
    exact hf a s' hs'

/-- What comes after a program whose value is known. -/
theorem Always.andEvaluates {a : α} {o : Option γ} (hx : Always R b x (fun a' => a' = a) b)
    (hf : Evaluates R b (f a) o) : Evaluates R b (x >>= f) o :=
  fun s hs => ((hx s hs).mono (fun _ _ hq => hq) fun _ _ he => he.elim).bind fun _ s' hq =>
    hq.2 ▸ hf s' hq.1

theorem Evaluates.ite {c : Prop} [Decidable c] {o o' : Option α} {y : Prog σ ε α}
    (ht : Evaluates R b x o) (hf : Evaluates R b y o') :
    Evaluates R b (if c then x else y) (if c then o else o') := by
  by_cases hc : c
  · rw [if_pos hc, if_pos hc]
    exact ht
  · rw [if_neg hc, if_neg hc]
    exact hf

/-- What it returns. -/
theorem Evaluates.done_iff {o : Option α} (h : Evaluates R b x o) {s : σ} (hs : R b s) (a : α) :
    (∃ s', x.run s = .done a s') ↔ o = some a := by
  have hspec := h s hs
  unfold Spec at hspec
  cases hr : x.run s with
  | done a' s' =>
    rw [hr] at hspec
    obtain ⟨-, ho⟩ := hspec
    rw [ho]
    constructor
    · rintro ⟨s'', hrun⟩
      cases hrun
      rfl
    · intro hsome
      cases hsome
      exact ⟨s', rfl⟩
  | thrown e s' =>
    rw [hr] at hspec
    rw [hspec]
    exact ⟨fun hd => hd.elim fun _ hd => (nomatch hd), fun hsome => (nomatch hsome)⟩

/-- A handler of exceptions that returns what the program would. -/
theorem Atomic.tryCatch {h : ε → Prog σ ε α} (hx : Atomic R b x P b)
    (hh : ∀ e, Always R b (h e) P b) : Always R b (Prog.tryCatch x h) P b := by
  intro s hs
  have hspec := hx s hs
  unfold Spec at hspec ⊢
  rw [run_tryCatch]
  cases hr : x.run s with
  | done a s' =>
    rw [hr] at hspec
    exact hspec
  | thrown e s' =>
    rw [hr] at hspec
    exact hh e s' hspec

/-- What an atomic program that returned has done. -/
theorem Atomic.of_done (h : Atomic R b x P b') {s s' : σ} {a : α} (hs : R b s)
    (hr : x.run s = .done a s') : R b' s' ∧ P a :=
  (h s hs).of_done hr

/-- What one that threw has left. -/
theorem Atomic.of_thrown (h : Atomic R b x P b') {s s' : σ} {e : ε} (hs : R b s)
    (hr : x.run s = .thrown e s') : R b s' :=
  (h s hs).of_thrown hr

end Abstraction

end Prog

end CoreEx

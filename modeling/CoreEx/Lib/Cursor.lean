/-
  File:      CoreEx/Lib/Cursor.lean
  Subject:   Programs that read a buffer from the front, or fill a blank one.

  A reader is described by what it consumes, what it leaves and the value it makes of that; a
  writer by what it puts down. Both descriptions say exactly when the program returns, so one
  rule for each construct serves a round trip in either direction. Nothing here names the system
  under verification.

  * `Cursor` -- a buffer and a position; `Cursor.at`, `Cursor.filled`;
  * `take`, `put`, `remainder`, `seek` -- the programs; `Prog.collect` -- a counted loop;
  * `Reads` -- with `Reads.bind`, `Reads.collect`, **`Reads.unique`**; `Writes` -- `Writes.bind` and
    `Writes.forEach`;
  * **`Writes.from_blank`**, **`Reads.from_start`** -- whole buffers.
-/
import CoreEx.Lib.Prog
import Mathlib.Data.List.Forall2

namespace CoreEx

/-- A buffer and a position in it. -/
structure Cursor (β : Type) where
  buffer : List β
  offset : Nat
  deriving DecidableEq, Repr

namespace Prog

variable {σ ε α : Type}

/-- `for (let i = 0; i < n; i++) out.push(x)`. -/
def collect (x : Prog σ ε α) : Nat → Prog σ ε (List α)
  | 0 => pure []
  | n + 1 => do
    let a ← x
    let as ← collect x n
    pure (a :: as)

end Prog

namespace Cursor

variable {β ε α γ : Type}

/-! ## 1. The programs -/

/-- The position after `before`, with `rest` to come. -/
def «at» (before rest : List β) : Cursor β := ⟨before ++ rest, before.length⟩

/-- A buffer of a fixed size with `out` at the front and blanks behind it. -/
def filled (blank : β) (size : Nat) (out : List β) : Cursor β :=
  ⟨out ++ List.replicate (size - out.length) blank, out.length⟩

/-- How much is left behind the position. -/
def remainder : Prog (Cursor β) ε Nat := Prog.gets fun c => c.buffer.length - c.offset

/-- Read the next `n`. -/
def take (n : Nat) (e : ε) : Prog (Cursor β) ε (List β) :=
  ⟨fun c => if c.buffer.length - c.offset < n then .thrown e c
    else .done ((c.buffer.drop c.offset).take n) { c with offset := c.offset + n }⟩

/-- Pass over the next `n`. -/
def seek (n : Nat) (e : ε) : Prog (Cursor β) ε Unit := do
  let _ ← take n e
  pure ()

/-- Overwrite what comes next. -/
def put (bs : List β) (e : ε) : Prog (Cursor β) ε Unit :=
  ⟨fun c => if c.buffer.length - c.offset < bs.length then .thrown e c
    else .done () ⟨c.buffer.take c.offset ++ bs ++ c.buffer.drop (c.offset + bs.length),
      c.offset + bs.length⟩⟩

/-! ## 2. Readers -/

/-- The program returns just when what lies ahead begins with some `consumed` that stands in the
    relation `R` to what is left and to the value; it stops behind that. -/
def Reads (p : Prog (Cursor β) ε α) (R : List β → List β → α → Prop) : Prop :=
  ∀ (before ahead : List β) (a : α) (c : Cursor β),
    p.run («at» before ahead) = .done a c ↔
      ∃ consumed rest, ahead = consumed ++ rest ∧ R consumed rest a ∧
        c = «at» (before ++ consumed) rest

namespace Reads

variable {p : Prog (Cursor β) ε α} {R R' : List β → List β → α → Prop}

theorem congr (h : Reads p R) (hR : ∀ consumed rest a, R consumed rest a ↔ R' consumed rest a) :
    Reads p R' := by
  have hrel : R = R' := funext fun c => funext fun r => funext fun a => propext (hR c r a)
  exact hrel ▸ h

theorem pure (a : α) :
    Reads (Pure.pure a : Prog (Cursor β) ε α) fun consumed _ b => consumed = [] ∧ b = a := by
  intro before ahead b c
  rw [Prog.run_pure]
  constructor
  · intro h
    cases h
    exact ⟨[], ahead, rfl, ⟨rfl, rfl⟩, by rw [List.append_nil]⟩
  · rintro ⟨consumed, rest, rfl, ⟨rfl, rfl⟩, rfl⟩
    rw [List.append_nil, List.nil_append]

theorem throw (e : ε) : Reads (Prog.throw e : Prog (Cursor β) ε α) fun _ _ _ => False := by
  intro before ahead b c
  rw [Prog.run_throw]
  constructor
  · intro h
    cases h
  · rintro ⟨_, _, _, h, _⟩
    exact h.elim

theorem ofExcept (x : Except ε α) :
    Reads (Prog.ofExcept x : Prog (Cursor β) ε α) fun consumed _ b => consumed = [] ∧ x = .ok b := by
  cases x with
  | ok a =>
    refine (pure a).congr fun consumed rest b => and_congr_right fun _ => ?_
    exact ⟨fun h => congrArg _ h.symm, fun h => (Except.ok.inj h).symm⟩
  | error e =>
    refine (throw e).congr fun consumed rest b => ?_
    exact ⟨False.elim, fun h => (nomatch h.2)⟩

/-- A sequence consumes what its parts consume; the first part sees the second's share as left. -/
theorem bind {q : α → Prog (Cursor β) ε γ} {S : α → List β → List β → γ → Prop}
    (hp : Reads p R) (hq : ∀ a, Reads (q a) (S a)) :
    Reads (p >>= q) fun consumed rest b =>
      ∃ c₁ c₂ a, consumed = c₁ ++ c₂ ∧ R c₁ (c₂ ++ rest) a ∧ S a c₂ rest b := by
  intro before ahead b c
  rw [Prog.run_bind_done]
  constructor
  · rintro ⟨a, c', hrun, hrun'⟩
    obtain ⟨c₁, ahead', rfl, hR, rfl⟩ := (hp _ _ _ _).1 hrun
    obtain ⟨c₂, rest, rfl, hS, rfl⟩ := (hq a _ _ _ _).1 hrun'
    refine ⟨c₁ ++ c₂, rest, ?_, ⟨c₁, c₂, a, rfl, hR, hS⟩, ?_⟩
    · rw [List.append_assoc]
    · rw [List.append_assoc]
  · rintro ⟨_, rest, rfl, ⟨c₁, c₂, a, rfl, hR, hS⟩, rfl⟩
    refine ⟨a, «at» (before ++ c₁) (c₂ ++ rest), ?_, ?_⟩
    · exact (hp _ _ _ _).2 ⟨c₁, c₂ ++ rest, List.append_assoc _ _ _, hR, rfl⟩
    · refine (hq a _ _ _ _).2 ⟨c₂, rest, rfl, hS, ?_⟩
      rw [List.append_assoc]

/-- After a part whose value tells what was consumed. -/
theorem bindEnc {enc : α → List β} {P : α → Prop} {q : α → Prog (Cursor β) ε γ}
    {S : α → List β → List β → γ → Prop} (hp : Reads p fun consumed _ a => consumed = enc a ∧ P a)
    (hq : ∀ a, Reads (q a) (S a)) :
    Reads (p >>= q) fun consumed rest b =>
      ∃ a c₂, consumed = enc a ++ c₂ ∧ P a ∧ S a c₂ rest b := by
  refine (hp.bind hq).congr fun consumed rest b => ?_
  constructor
  · rintro ⟨_, c₂, a, rfl, ⟨rfl, hP⟩, hS⟩
    exact ⟨a, c₂, rfl, hP, hS⟩
  · rintro ⟨a, c₂, rfl, hP, hS⟩
    exact ⟨enc a, c₂, a, rfl, ⟨rfl, hP⟩, hS⟩

theorem ite {c : Prop} [Decidable c] {q : Prog (Cursor β) ε α} {S : List β → List β → α → Prop}
    (hp : c → Reads p R) (hq : ¬c → Reads q S) :
    Reads (if c then p else q) fun consumed rest a =>
      (c ∧ R consumed rest a) ∨ (¬c ∧ S consumed rest a) := by
  by_cases hc : c
  · rw [if_pos hc]
    refine (hp hc).congr fun consumed rest a => ?_
    exact ⟨fun h => Or.inl ⟨hc, h⟩, fun h => h.elim (·.2) fun h => absurd hc h.1⟩
  · rw [if_neg hc]
    refine (hq hc).congr fun consumed rest a => ?_
    exact ⟨fun h => Or.inr ⟨hc, h⟩, fun h => h.elim (fun h => absurd h.1 hc) (·.2)⟩

theorem take (n : Nat) (e : ε) :
    Reads (Cursor.take n e : Prog (Cursor β) ε (List β)) fun consumed _ bs =>
      consumed = bs ∧ bs.length = n := by
  intro before ahead bs c
  have hleft : (before ++ ahead).length - before.length = ahead.length := by
    rw [List.length_append]
    omega
  show (if (before ++ ahead).length - before.length < n then _ else _) = _ ↔ _
  rw [hleft]
  by_cases hn : ahead.length < n
  · rw [if_pos hn]
    constructor
    · intro h
      cases h
    · rintro ⟨consumed, rest, rfl, ⟨rfl, hlen⟩, -⟩
      rw [List.length_append] at hn
      omega
  · rw [if_neg hn]
    constructor
    · intro h
      cases h
      refine ⟨ahead.take n, ahead.drop n, (List.take_append_drop n ahead).symm, ⟨?_, ?_⟩, ?_⟩
      · exact congrArg (List.take n) List.drop_left.symm
      · show (List.take n (List.drop before.length (before ++ ahead))).length = n
        rw [List.drop_left, List.length_take]
        omega
      · show Cursor.mk (before ++ ahead) (before.length + n) = _
        unfold «at»
        rw [List.append_assoc, List.take_append_drop, List.length_append, List.length_take]
        congr 1
        omega
    · rintro ⟨consumed, rest, rfl, ⟨rfl, rfl⟩, rfl⟩
      show Outcome.done _ _ = _
      have htake : List.take consumed.length (List.drop before.length
          (before ++ (consumed ++ rest))) = consumed := by
        rw [List.drop_left, List.take_left]
      unfold «at»
      rw [htake, List.append_assoc, List.length_append]

theorem seek (n : Nat) (e : ε) :
    Reads (Cursor.seek n e : Prog (Cursor β) ε Unit) fun consumed _ _ => consumed.length = n := by
  refine ((take n e).bind fun _ => pure ()).congr fun consumed rest _ => ?_
  constructor
  · rintro ⟨c₁, _, _, rfl, ⟨rfl, hn⟩, rfl, -⟩
    rw [List.append_nil]
    exact hn
  · intro hn
    exact ⟨consumed, [], consumed, (List.append_nil _).symm, ⟨rfl, hn⟩, rfl, rfl⟩

theorem remainder :
    Reads (Cursor.remainder : Prog (Cursor β) ε Nat) fun consumed rest n =>
      consumed = [] ∧ n = rest.length := by
  intro before ahead n c
  have hleft : (before ++ ahead).length - before.length = ahead.length := by
    rw [List.length_append]
    omega
  show Outcome.done ((before ++ ahead).length - before.length) (Cursor.mk _ _) = _ ↔ _
  rw [hleft]
  constructor
  · intro h
    cases h
    refine ⟨[], ahead, rfl, ⟨rfl, rfl⟩, ?_⟩
    rw [List.append_nil]
    rfl
  · rintro ⟨consumed, rest, rfl, ⟨rfl, rfl⟩, rfl⟩
    rw [List.append_nil]
    rfl

/-- A counted loop consumes one share for each value. -/
theorem collect {R : List β → α → Prop} (hp : Reads p fun consumed _ a => R consumed a) (n : Nat) :
    Reads (Prog.collect p n) fun consumed _ as =>
      as.length = n ∧ ∃ shares : List (List β),
        consumed = shares.flatten ∧ List.Forall₂ R shares as := by
  induction n with
  | zero =>
    refine (pure []).congr fun consumed rest as => ?_
    constructor
    · rintro ⟨rfl, rfl⟩
      exact ⟨rfl, [], rfl, List.Forall₂.nil⟩
    · rintro ⟨hlen, shares, rfl, hall⟩
      have has : as = [] := List.length_eq_zero_iff.1 hlen
      subst has
      cases hall
      exact ⟨rfl, rfl⟩
  | succ n ih =>
    refine (hp.bind fun a => ih.bind fun as => pure (a :: as)).congr fun consumed rest as => ?_
    constructor
    · rintro ⟨c₁, _, a, rfl, ha, _, _, as', rfl, ⟨rfl, shares, rfl, hall⟩, rfl, rfl⟩
      refine ⟨rfl, c₁ :: shares, ?_, List.Forall₂.cons ha hall⟩
      rw [List.append_nil, List.flatten_cons]
    · rintro ⟨hlen, shares, rfl, hall⟩
      cases hall with
      | nil => cases hlen
      | @cons share a shares as' ha hall =>
        exact ⟨share, shares.flatten, a, rfl, ha, shares.flatten, [], as',
          (List.append_nil _).symm, ⟨Nat.succ.inj hlen, shares, rfl, hall⟩, rfl, rfl⟩

/-- The same when the value tells what was consumed. -/
theorem collectEnc {enc : α → List β} {P : α → Prop}
    (hp : Reads p fun consumed _ a => consumed = enc a ∧ P a) (n : Nat) :
    Reads (Prog.collect p n) fun consumed _ as =>
      consumed = as.flatMap enc ∧ as.length = n ∧ ∀ a ∈ as, P a := by
  refine (collect (R := fun c a => c = enc a ∧ P a) hp n).congr fun consumed rest as => ?_
  have hshares : ∀ (as : List α) (shares : List (List β)),
      List.Forall₂ (fun c a => c = enc a ∧ P a) shares as ↔
        shares = as.map enc ∧ ∀ a ∈ as, P a := by
    intro as
    induction as with
    | nil =>
      intro shares
      rw [List.forall₂_nil_right_iff, List.map_nil]
      exact ⟨fun h => ⟨h, fun a ha => absurd ha List.not_mem_nil⟩, And.left⟩
    | cons a as ih =>
      intro shares
      rw [List.forall₂_cons_right_iff, List.map_cons, List.forall_mem_cons]
      constructor
      · rintro ⟨_, shares', ⟨rfl, ha⟩, hall, rfl⟩
        obtain ⟨rfl, has⟩ := (ih shares').1 hall
        exact ⟨rfl, ha, has⟩
      · rintro ⟨rfl, ha, has⟩
        exact ⟨_, _, ⟨rfl, ha⟩, (ih _).2 ⟨rfl, has⟩, rfl⟩
  constructor
  · rintro ⟨hlen, shares, rfl, hall⟩
    obtain ⟨rfl, has⟩ := (hshares as shares).1 hall
    exact ⟨(List.flatMap_def ..).symm, hlen, has⟩
  · rintro ⟨rfl, hlen, has⟩
    exact ⟨hlen, as.map enc, List.flatMap_def .., (hshares as _).2 ⟨rfl, has⟩⟩

/-- What is ahead decides what is consumed. -/
theorem unique (hp : Reads p R) {consumed rest consumed' rest' : List β} {a b : α}
    (h : R consumed rest a) (h' : R consumed' rest' b)
    (hsame : consumed ++ rest = consumed' ++ rest') :
    a = b ∧ consumed = consumed' ∧ rest = rest' := by
  have hrun := (hp [] (consumed ++ rest) a _).2 ⟨consumed, rest, rfl, h, rfl⟩
  rw [hsame, (hp [] (consumed' ++ rest') b _).2 ⟨consumed', rest', rfl, h', rfl⟩] at hrun
  unfold «at» at hrun
  simp only [List.nil_append, Outcome.done.injEq, Cursor.mk.injEq] at hrun
  obtain ⟨rfl, -, hlen⟩ := hrun
  obtain ⟨rfl, rfl⟩ := List.append_inj hsame hlen.symm
  exact ⟨rfl, rfl, rfl⟩

/-- **A run over a whole buffer.** -/
theorem from_start (hp : Reads p R) {bs : List β} {a : α} {c : Cursor β} :
    p.run ⟨bs, 0⟩ = .done a c ↔
      ∃ consumed rest, bs = consumed ++ rest ∧ R consumed rest a ∧ c = «at» consumed rest :=
  hp [] bs a c

end Reads

/-! ## 3. Writers -/

/-- On a buffer with blanks ahead the program returns just when some `bs` in the relation `W` to
    the value fits; it has put that down then. -/
def Writes (blank : β) (p : Prog (Cursor β) ε α) (W : List β → α → Prop) : Prop :=
  ∀ (size : Nat) (out : List β) (a : α) (c : Cursor β), out.length ≤ size →
    (p.run (filled blank size out) = .done a c ↔
      ∃ bs, W bs a ∧ out.length + bs.length ≤ size ∧ c = filled blank size (out ++ bs))

namespace Writes

variable {blank : β} {p : Prog (Cursor β) ε α} {W W' : List β → α → Prop}

theorem congr (h : Writes blank p W) (hW : ∀ bs a, W bs a ↔ W' bs a) : Writes blank p W' := by
  have hrel : W = W' := funext fun bs => funext fun a => propext (hW bs a)
  exact hrel ▸ h

theorem pure (a : α) :
    Writes blank (Pure.pure a : Prog (Cursor β) ε α) fun bs b => bs = [] ∧ b = a := by
  intro size out b c hout
  rw [Prog.run_pure]
  constructor
  · intro h
    cases h
    exact ⟨[], ⟨rfl, rfl⟩, hout, by rw [List.append_nil]⟩
  · rintro ⟨bs, ⟨rfl, rfl⟩, -, rfl⟩
    rw [List.append_nil]

theorem throw (e : ε) : Writes blank (Prog.throw e : Prog (Cursor β) ε α) fun _ _ => False := by
  intro size out b c _
  rw [Prog.run_throw]
  constructor
  · intro h
    cases h
  · rintro ⟨_, h, _⟩
    exact h.elim

theorem ofExcept (x : Except ε α) :
    Writes blank (Prog.ofExcept x : Prog (Cursor β) ε α) fun bs b => bs = [] ∧ x = .ok b := by
  cases x with
  | ok a =>
    refine (pure a).congr fun bs b => and_congr_right fun _ => ?_
    exact ⟨fun h => congrArg _ h.symm, fun h => (Except.ok.inj h).symm⟩
  | error e =>
    refine (throw e).congr fun bs b => ?_
    exact ⟨False.elim, fun h => (nomatch h.2)⟩

/-- A sequence puts down what its parts put down. -/
theorem bind {q : α → Prog (Cursor β) ε γ} {V : α → List β → γ → Prop}
    (hp : Writes blank p W) (hq : ∀ a, Writes blank (q a) (V a)) :
    Writes blank (p >>= q) fun bs b => ∃ bs₁ bs₂ a, bs = bs₁ ++ bs₂ ∧ W bs₁ a ∧ V a bs₂ b := by
  intro size out b c hout
  rw [Prog.run_bind_done]
  constructor
  · rintro ⟨a, c', hrun, hrun'⟩
    obtain ⟨bs₁, hW, hfit, rfl⟩ := (hp _ _ _ _ hout).1 hrun
    have hout' : (out ++ bs₁).length ≤ size := by rw [List.length_append]; exact hfit
    obtain ⟨bs₂, hV, hfit', rfl⟩ := (hq a _ _ _ _ hout').1 hrun'
    refine ⟨bs₁ ++ bs₂, ⟨bs₁, bs₂, a, rfl, hW, hV⟩, ?_, ?_⟩
    · rw [List.length_append] at hfit' ⊢
      omega
    · rw [List.append_assoc]
  · rintro ⟨_, ⟨bs₁, bs₂, a, rfl, hW, hV⟩, hfit, rfl⟩
    rw [List.length_append] at hfit
    have hout' : (out ++ bs₁).length ≤ size := by
      rw [List.length_append]
      omega
    refine ⟨a, filled blank size (out ++ bs₁), ?_, ?_⟩
    · exact (hp _ _ _ _ hout).2 ⟨bs₁, hW, by omega, rfl⟩
    · refine (hq a _ _ _ _ hout').2 ⟨bs₂, hV, ?_, ?_⟩
      · rw [List.length_append]
        omega
      · rw [List.append_assoc]

/-- Two parts that put down `x` and `y`, each on a condition. -/
theorem seq {q : Prog (Cursor β) ε γ} {p : Prog (Cursor β) ε Unit} {C D : Prop} {x y : List β}
    (hp : Writes blank p fun bs _ => C ∧ bs = x) (hq : Writes blank q fun bs _ => D ∧ bs = y) :
    Writes blank (p >>= fun _ => q) fun bs _ => (C ∧ D) ∧ bs = x ++ y := by
  refine (hp.bind fun _ => hq).congr fun bs _ => ?_
  constructor
  · rintro ⟨_, _, _, rfl, ⟨hC, rfl⟩, hD, rfl⟩
    exact ⟨⟨hC, hD⟩, rfl⟩
  · rintro ⟨⟨hC, hD⟩, rfl⟩
    exact ⟨x, y, (), rfl, ⟨hC, rfl⟩, hD, rfl⟩

theorem ite {c : Prop} [Decidable c] {q : Prog (Cursor β) ε α} {V : List β → α → Prop}
    (hp : c → Writes blank p W) (hq : ¬c → Writes blank q V) :
    Writes blank (if c then p else q) fun bs a => (c ∧ W bs a) ∨ (¬c ∧ V bs a) := by
  by_cases hc : c
  · rw [if_pos hc]
    refine (hp hc).congr fun bs a => ?_
    exact ⟨fun h => Or.inl ⟨hc, h⟩, fun h => h.elim (·.2) fun h => absurd hc h.1⟩
  · rw [if_neg hc]
    refine (hq hc).congr fun bs a => ?_
    exact ⟨fun h => Or.inr ⟨hc, h⟩, fun h => h.elim (fun h => absurd h.1 hc) (·.2)⟩

theorem throwIf (c : Prop) [Decidable c] (e : ε) :
    Writes blank (Prog.throwIf c e : Prog (Cursor β) ε Unit) fun bs _ => ¬c ∧ bs = [] := by
  unfold Prog.throwIf Prog.when
  refine (ite (fun _ => throw e) fun _ => pure ()).congr fun bs _ => ?_
  exact ⟨fun h => h.elim (fun h => h.2.elim) fun h => ⟨h.1, h.2.1⟩,
    fun h => Or.inr ⟨h.1, h.2, rfl⟩⟩

theorem put (bs : List β) (e : ε) :
    Writes blank (Cursor.put bs e : Prog (Cursor β) ε Unit) fun bs' _ => bs' = bs := by
  intro size out u c hout
  have hlen : (out ++ List.replicate (size - out.length) blank).length = size := by
    rw [List.length_append, List.length_replicate]
    omega
  show (if (out ++ List.replicate (size - out.length) blank).length - out.length < bs.length
    then _ else _) = _ ↔ _
  rw [hlen]
  by_cases hfit : size - out.length < bs.length
  · rw [if_pos hfit]
    constructor
    · intro h
      cases h
    · rintro ⟨_, rfl, hfits, -⟩
      omega
  · rw [if_neg hfit]
    have hresult : (⟨(out ++ List.replicate (size - out.length) blank).take out.length ++ bs ++
        (out ++ List.replicate (size - out.length) blank).drop (out.length + bs.length),
        out.length + bs.length⟩ : Cursor β) = filled blank size (out ++ bs) := by
      unfold filled
      have hdrop : List.drop (out.length + bs.length)
          (out ++ List.replicate (size - out.length) blank) =
            List.replicate (size - (out ++ bs).length) blank := by
        rw [List.drop_append, List.drop_replicate, List.drop_of_length_le (by omega),
          List.nil_append, List.length_append]
        congr 1
        omega
      rw [List.take_left, hdrop, List.length_append]
    constructor
    · intro h
      cases h
      exact ⟨bs, rfl, by omega, hresult⟩
    · rintro ⟨_, rfl, -, rfl⟩
      exact congrArg (Outcome.done ()) hresult

/-- A loop puts down one share after the other. -/
theorem forEach {f : γ → Prog (Cursor β) ε Unit} {W : γ → List β → Prop}
    (hf : ∀ g, Writes blank (f g) fun bs _ => W g bs) (gs : List γ) :
    Writes blank (Prog.forEach f gs) fun bs _ =>
      ∃ shares : List (List β), bs = shares.flatten ∧ List.Forall₂ W gs shares := by
  induction gs with
  | nil =>
    refine (pure ()).congr fun bs _ => ?_
    constructor
    · rintro ⟨rfl, -⟩
      exact ⟨[], rfl, List.Forall₂.nil⟩
    · rintro ⟨shares, rfl, hall⟩
      cases hall
      exact ⟨rfl, rfl⟩
  | cons g gs ih =>
    rw [Prog.forEach_cons]
    refine ((hf g).bind fun _ => ih).congr fun bs _ => ?_
    constructor
    · rintro ⟨bs₁, _, _, rfl, hW, shares, rfl, hall⟩
      exact ⟨bs₁ :: shares, rfl, List.Forall₂.cons hW hall⟩
    · rintro ⟨shares, rfl, hall⟩
      cases hall with
      | cons hW hall => exact ⟨_, _, (), rfl, hW, _, rfl, hall⟩

/-- **A run on a new buffer.** -/
theorem from_blank (hp : Writes blank p W) {size : Nat} {a : α} {c : Cursor β} :
    p.run ⟨List.replicate size blank, 0⟩ = .done a c ↔
      ∃ bs, W bs a ∧ bs.length ≤ size ∧ c = filled blank size bs := by
  have h := hp size [] a c (Nat.zero_le _)
  unfold filled at h
  simp only [List.nil_append, List.length_nil, Nat.sub_zero, Nat.zero_add] at h
  exact h

end Writes

end Cursor

end CoreEx

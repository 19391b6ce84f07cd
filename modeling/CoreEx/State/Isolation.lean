/-
  File:      CoreEx/State/Isolation.lean
  Subject:   What the methods of the base class may do to objects: they make new ones, and they
             change and file the ones they were given or have filed before.

  An invariant speaks of the state and of the objects one holds. If the elementary changes keep it
  (`Stable`), so does every method, whatever the methods are that a subclass overrides, and so does
  every sequence of operations.

  * `Stable`, `SafeAt`, `Safe` -- such invariants, and programs that keep them;
  * one lemma per method;
  * **`Stable.of_run`** -- over any sequence of operations;
  * `Isolated` -- the chain's repository is as it was, and no object held is one of its wallets;
  * `Placed` -- every reference leads to an object.
-/
import CoreEx.State.WalletObjects

namespace CoreEx

open Prog

namespace Overlay

variable {φ : Type}

/-! ## 1. Invariants over the objects one holds -/

/-- `J held s` may say of the objects in `held` what it says of the objects in the own indexes. -/
structure Stable (J : List Ref → Overlay φ → Prop) : Prop where
  alloc : ∀ held s o, J held s →
    J (s.objects.length :: held) { s with objects := s.objects ++ [o] }
  update : ∀ held s r o, J held s → r ∈ held → J held { s with objects := s.objects.set r o }
  setIndexes : ∀ held s indexes, J held s → (∀ i key r, (indexes i).get key = some r →
    (s.indexes i).get key = some r ∨ r ∈ held) → J held { s with indexes := indexes }
  setFields : ∀ held s fields, J held s → J held { s with fields := fields }
  own : ∀ held s i key r, J held s → (s.indexes i).get key = some r → J (r :: held) s
  weaken : ∀ held held' s, J held s → held' ⊆ held → J held' s

/-- From `s`, holding `held`, the program keeps `J`; what it returns is held from then on. -/
def SafeAt {α : Type} (J : List Ref → Overlay φ → Prop) (held : List Ref) (s : Overlay φ)
    (x : OverlayProg φ α) (returned : α → List Ref) : Prop :=
  x.Spec s (fun a s' => J (returned a ++ held) s') fun _ s' => J held s'

/-- The program does so from every state, given the objects it works on. -/
def Safe {α : Type} (J : List Ref → Overlay φ → Prop) (given : List Ref) (x : OverlayProg φ α)
    (returned : α → List Ref) : Prop :=
  ∀ held s, given ⊆ held → J held s → SafeAt J held s x returned

section Rules

variable {J : List Ref → Overlay φ → Prop} {given held : List Ref} {s : Overlay φ} {α β : Type}
  {x : OverlayProg φ α} {f : α → OverlayProg φ β} {w : α → List Ref} {w' : β → List Ref}

/-- The rule of sequence. -/
theorem SafeAt.bind (hJ : Stable J) (hx : SafeAt J held s x w)
    (hf : ∀ a s', J (w a ++ held) s' → SafeAt J (w a ++ held) s' (f a) w') :
    SafeAt J held s (x >>= f) w' := by
  refine Spec.bind hx fun a s' h => (hf a s' h).mono (fun b s'' h' => ?_) fun _ s'' h' => ?_
  · refine hJ.weaken _ _ _ h' fun r hr => ?_
    rcases List.mem_append.1 hr with hnew | hold
    · exact List.mem_append_left _ hnew
    · exact List.mem_append_right _ (List.mem_append_right _ hold)
  · exact hJ.weaken _ _ _ h' (List.subset_append_right _ _)

theorem Safe.bind (hJ : Stable J) (hx : Safe J given x w)
    (hf : ∀ a, Safe J (w a ++ given) (f a) w') : Safe J given (x >>= f) w' := by
  refine fun held s hgiven hs => (hx held s hgiven hs).bind hJ fun a s' h =>
    hf a _ s' (fun r hr => ?_) h
  rcases List.mem_append.1 hr with hnew | hold
  · exact List.mem_append_left _ hnew
  · exact List.mem_append_right _ (hgiven hold)

theorem Safe.pure {a : α} (ha : w a ⊆ given) (hJ : Stable J) :
    Safe J given (Pure.pure a : OverlayProg φ α) w := by
  refine fun held s hgiven hs => hJ.weaken _ _ _ hs fun r hr => ?_
  rcases List.mem_append.1 hr with hnew | hold
  · exact hgiven (ha hnew)
  · exact hold

theorem Safe.throw {e : Exception} : Safe J given (Prog.throw e : OverlayProg φ α) w :=
  fun _ _ _ hs => hs

theorem Safe.gets {g : Overlay φ → α} : Safe J given (Prog.gets g) fun _ => [] :=
  fun _ _ _ hs => hs

theorem Safe.ite {c : Prop} [Decidable c] {y : OverlayProg φ α} (hx : Safe J given x w)
    (hy : Safe J given y w) : Safe J given (if c then x else y) w :=
  fun held s hgiven hs => Spec.ite (fun _ => hx held s hgiven hs) fun _ => hy held s hgiven hs

theorem Safe.when {c : Prop} [Decidable c] {x : OverlayProg φ Unit} (hJ : Stable J)
    (hx : Safe J given x fun _ => []) : Safe J given (Prog.when c x) fun _ => [] :=
  Safe.ite hx (Safe.pure (List.nil_subset _) hJ)

theorem Safe.throwIf {c : Prop} [Decidable c] {e : Exception} (hJ : Stable J) :
    Safe J given (Prog.throwIf c e : OverlayProg φ Unit) fun _ => [] :=
  Safe.when hJ Safe.throw

theorem Safe.ofExcept {r : Except Exception α} :
    Safe J given (Prog.ofExcept r : OverlayProg φ α) fun _ => [] :=
  fun _ _ _ hs => Spec.ofExcept (fun _ _ => hs) fun _ _ => hs

theorem Safe.forEach {δ : Type} (hJ : Stable J) {g : δ → OverlayProg φ Unit} {ds : List δ}
    (hg : ∀ d, Safe J given (g d) fun _ => []) :
    Safe J given (Prog.forEach g ds) fun _ => [] := by
  induction ds with
  | nil => exact Safe.pure (List.nil_subset _) hJ
  | cons d ds ih => exact (hg d).bind hJ fun _ => ih

end Rules

/-! ## 2. The methods -/

section Methods

variable {J : List Ref → Overlay φ → Prop} {given : List Ref} (hJ : Stable J)

include hJ

theorem safe_alloc (o : WalletObject) : Safe J given (alloc o : OverlayProg φ Ref) fun r => [r] :=
  fun _ _ _ hs => hJ.alloc _ _ _ hs

theorem safe_update {r : Ref} (hr : r ∈ given) (f : WalletObject → WalletObject) :
    Safe J given (update r f : OverlayProg φ Unit) fun _ => [] :=
  fun _ _ hgiven hs => hJ.update _ _ _ _ hs (hgiven hr)

theorem safe_updateIndex {i : WalletIndexes}
    {f : WalletIndex String Ref → WalletIndex String Ref}
    (hf : ∀ index key r, (f index).get key = some r → index.get key = some r ∨ r ∈ given) :
    Safe J given (updateIndex i f : OverlayProg φ Unit) fun _ => [] := by
  refine fun held s hgiven hs => hJ.setIndexes _ _ _ hs fun j key r hkey => ?_
  by_cases hj : j = i
  · subst hj
    rw [Function.update_self] at hkey
    exact (hf _ key r hkey).imp_right fun hr => hgiven hr
  · rw [Function.update_of_ne hj] at hkey
    exact Or.inl hkey

theorem safe_setOnIndex {r : Ref} (hr : r ∈ given) (i : WalletIndexes) (key : String) :
    Safe J given (setOnIndex i key r : OverlayProg φ Unit) fun _ => [] := by
  refine safe_updateIndex hJ fun index key' r' h => ?_
  rw [WalletIndex.get_set] at h
  by_cases hkey : key' = key
  · rw [if_pos hkey] at h
    cases h
    exact Or.inr hr
  · rw [if_neg hkey] at h
    exact Or.inl h

theorem safe_forgetOnIndex (i : WalletIndexes) (key : String) :
    Safe J given (forgetOnIndex i key : OverlayProg φ Unit) fun _ => [] := by
  refine safe_updateIndex hJ fun index key' r hkey => ?_
  rw [WalletIndex.get_forget] at hkey
  split at hkey
  · cases hkey
  · exact Or.inl hkey

theorem safe_reset : Safe J given (reset : OverlayProg φ Unit) fun _ => [] :=
  fun _ _ _ hs => hJ.setIndexes _ _ _ hs fun _ _ _ h => nomatch h

theorem safe_createWallet (address : String) :
    Safe J given (createWallet address : OverlayProg φ Ref) fun r => [r] :=
  safe_alloc hJ _

theorem safe_change {wallet : Ref} (hr : wallet ∈ given) (contents : Wallet) :
    Safe J given (change wallet contents : OverlayProg φ Unit) fun _ => [] :=
  safe_update hJ hr _

/-- `index.get(key)!`, where the key is there and where it is not. -/
theorem safe_getDefined (i : WalletIndexes) (key : String) :
    Safe J given (do
      let found ← Prog.gets fun s : Overlay φ => (s.indexes i).get key
      defined found) fun r => [r] := by
  intro held s _ hs
  have hpost : SafeAt J held s (defined ((s.indexes i).get key)) fun r => [r] := by
    cases hkey : (s.indexes i).get key with
    | none => exact hs
    | some r => exact hJ.own _ _ _ _ _ hs hkey
  exact hpost

theorem safe_allByIndex (i : WalletIndexes) :
    Safe J given (allByIndex i : OverlayProg φ (List Ref)) id := by
  intro held s _ hs
  have hlist : ∀ rs : List Ref, rs ⊆ (s.indexes i).values → J (rs ++ held) s := by
    intro rs
    induction rs with
    | nil => exact fun _ => hs
    | cons r rs ih =>
      intro hsub
      obtain ⟨key, hkey⟩ := WalletIndex.mem_values.1 (hsub List.mem_cons_self)
      exact hJ.own _ _ _ _ _ (ih fun _ hr => hsub (List.mem_cons_of_mem _ hr)) hkey
  exact hlist _ fun _ h => h

theorem safe_cloneWallet (wallet : Ref) :
    Safe J given (cloneWallet wallet : OverlayProg φ Ref) fun r => [r] := by
  refine Safe.gets.bind hJ fun o => (safe_alloc hJ o).bind hJ fun walletClone => ?_
  refine Safe.bind (w := fun _ => []) hJ (fun held s hgiven hs => ?_) fun _ =>
    Safe.pure (List.subset_append_left _ _) hJ
  refine hJ.setIndexes _ _ _ hs fun i key r hkey => ?_
  rw [WalletIndex.get_setAll] at hkey
  by_cases hmem : key ∈ (s.blockchain i).walletKeys wallet
  · rw [if_pos hmem] at hkey
    cases hkey
    exact Or.inr (hgiven List.mem_cons_self)
  · rw [if_neg hmem] at hkey
    exact Or.inl hkey

theorem safe_indexOn {wallet : Ref} (hr : wallet ∈ given) (i : WalletIndexes) :
    Safe J given (indexOn wallet i : OverlayProg φ Unit) fun _ => [] := by
  refine Safe.bind (w := fun _ => []) hJ (safe_updateIndex hJ fun index key r hkey => ?_)
    fun _ => ?_
  · rw [WalletIndex.get_forgetWallet] at hkey
    split at hkey
    · cases hkey
    · exact Or.inl hkey
  · refine Safe.gets.bind hJ fun o => Safe.ofExcept.bind hJ fun key => ?_
    exact Safe.forEach hJ fun key => safe_setOnIndex hJ hr i key

theorem safe_indexWallet {wallet : Ref} (hr : wallet ∈ given) :
    Safe J given (indexWallet wallet : OverlayProg φ Unit) fun _ => [] :=
  Safe.forEach hJ fun i => safe_indexOn hJ hr i

variable {hasByIndex : WalletIndexes → String → OverlayProg φ Bool}
  {findByIndex : WalletIndexes → String → OverlayProg φ Ref}

theorem safe_findByIndex (hhas : ∀ i key, Safe J given (hasByIndex i key) fun _ => [])
    (i : WalletIndexes) (key : String) :
    Safe J given (Overlay.findByIndex hasByIndex i key) fun r => [r] :=
  (hhas i key).bind hJ fun _ => (Safe.throwIf hJ).bind hJ fun _ => safe_getDefined hJ i key

theorem safe_findByIndexes (hhas : ∀ i key, Safe J given (hasByIndex i key) fun _ => [])
    (hfind : ∀ i key, Safe J given (findByIndex i key) fun r => [r])
    (indexes : List WalletIndexes) (key : String) :
    Safe J given (findByIndexes hasByIndex findByIndex indexes key) fun r => [r] := by
  have hloop : ∀ (error : Exception) (is : List WalletIndexes),
      Safe J given (findInIndexes hasByIndex findByIndex error key is) fun r => [r] := by
    intro error is
    induction is with
    | nil => exact Safe.throw
    | cons i is ih => exact (hhas i key).bind hJ fun _ => Safe.ite (hfind i key) ih
  exact hloop _ indexes

/-! ## 3. Sequences of operations -/

omit given in
/-- **An invariant every operation keeps holds after any sequence of them.** -/
theorem Stable.of_run {exec : Operation → OverlayProg φ (List Ref)}
    {allowed : Overlay φ → Operation → Prop} {outside : Overlay φ → Overlay φ → Prop}
    (hexec : ∀ op held s, op.wallets ⊆ held → J held s → allowed s op →
      SafeAt J held s (exec op) id)
    (houtside : ∀ held s s', J held s → outside s s' → J held s')
    {s t : Session (Overlay φ)} (run : Session.Run exec allowed outside s t)
    (hs : J s.returned s.state) : J t.returned t.state := by
  induction run with
  | start => exact hs
  | change state earlier ok ih => exact houtside _ _ _ ih ok
  | @operation t op earlier given ok ih =>
    have hspec := hexec op t.returned t.state given ih ok
    unfold Session.after
    unfold SafeAt Spec at hspec
    cases hrun : (exec op).run t.state with
    | thrown e state =>
      rw [hrun] at hspec
      exact hspec
    | done wallets state =>
      rw [hrun] at hspec
      exact hJ.weaken _ _ _ hspec fun r hr => List.mem_append.2 (List.mem_append.1 hr).symm

end Methods

/-! ## 4. The repository of the chain is left alone -/

/-- The repository of the chain in `s` is the one of `origin`, wallets included, and none of its
    wallets is among the objects one holds or has filed. -/
structure Isolated (origin : Overlay φ) (held : List Ref) (s : Overlay φ) : Prop where
  blockchain : s.blockchain = origin.blockchain
  object : ∀ r, origin.OfChain r → s.object r = origin.object r
  placed : ∀ r, origin.OfChain r → r < s.objects.length
  own : ∀ r, s.Own r → ¬ origin.OfChain r
  held : ∀ r ∈ held, ¬ origin.OfChain r

theorem isolated_over (chain : Chain) (fields : φ) :
    Isolated (Session.over chain fields).state [] (Session.over chain fields).state where
  blockchain := rfl
  object _ _ := rfl
  placed := fun r ⟨i, key, h⟩ => chain.placed i key r h
  own := fun _ ⟨_, _, h⟩ => nomatch h
  held := fun _ h => nomatch h

theorem object_append (s : Overlay φ) (o : WalletObject) {r : Ref} (hr : r < s.objects.length) :
    ({ s with objects := s.objects ++ [o] } : Overlay φ).object r = s.object r := by
  unfold object
  rw [List.getD_eq_getElem?_getD, List.getD_eq_getElem?_getD, List.getElem?_append_left hr]

theorem object_set (s : Overlay φ) (o : WalletObject) {r r' : Ref} (hne : r ≠ r') :
    ({ s with objects := s.objects.set r o } : Overlay φ).object r' = s.object r' := by
  unfold object
  rw [List.getD_eq_getElem?_getD, List.getD_eq_getElem?_getD, List.getElem?_set_ne hne]

theorem object_set_self (s : Overlay φ) (o : WalletObject) {r : Ref} (hr : r < s.objects.length) :
    ({ s with objects := s.objects.set r o } : Overlay φ).object r = o := by
  unfold object
  rw [List.getD_eq_getElem?_getD, List.getElem?_set_self hr]
  rfl

/-- What a change leaves as it is. -/
theorem object_set_of_eq {β : Type} (g : WalletObject → β) (s : Overlay φ) {r : Ref}
    {o : WalletObject} (ho : g o = g (s.object r)) (r' : Ref) :
    g (({ s with objects := s.objects.set r o } : Overlay φ).object r') = g (s.object r') := by
  by_cases hr : r = r'
  · subst hr
    by_cases hlt : r < s.objects.length
    · rw [object_set_self s o hlt, ho]
    · rw [List.set_eq_of_length_le (Nat.le_of_not_lt hlt)]
  · rw [object_set s o hr]

theorem stable_isolated (origin : Overlay φ) : Stable (Isolated origin) where
  alloc held s o h :=
    { blockchain := h.blockchain
      object := fun r hr => (object_append s o (h.placed r hr)).trans (h.object r hr)
      placed := fun r hr => Nat.lt_of_lt_of_le (h.placed r hr) (by simp)
      own := h.own
      held := fun r hr hchain => by
        rcases List.mem_cons.1 hr with rfl | hold
        · exact Nat.lt_irrefl _ (h.placed _ hchain)
        · exact h.held r hold hchain }
  update held s r o h hr :=
    { blockchain := h.blockchain
      object := fun r' hr' => by
        have hne : r ≠ r' := fun he => h.held r hr (he ▸ hr')
        exact (object_set s o hne).trans (h.object r' hr')
      placed := fun r' hr' => by simpa using h.placed r' hr'
      own := h.own
      held := h.held }
  setIndexes held s indexes h hnew :=
    { blockchain := h.blockchain
      object := h.object
      placed := h.placed
      own := fun r ⟨i, key, hkey⟩ =>
        (hnew i key r hkey).elim (fun hold => h.own r ⟨i, key, hold⟩) (h.held r)
      held := h.held }
  setFields held s fields h :=
    { blockchain := h.blockchain
      object := h.object
      placed := h.placed
      own := h.own
      held := h.held }
  own held s i key r h hkey :=
    { blockchain := h.blockchain
      object := h.object
      placed := h.placed
      own := h.own
      held := fun r' hr' => by
        rcases List.mem_cons.1 hr' with rfl | hold
        · exact h.own _ ⟨i, key, hkey⟩
        · exact h.held r' hold }
  weaken held held' s h hsub :=
    { blockchain := h.blockchain
      object := h.object
      placed := h.placed
      own := h.own
      held := fun r hr => h.held r (hsub hr) }

/-! ## 5. References lead to objects -/

/-- What an index of either repository or the caller refers to is an object. -/
structure Placed (held : List Ref) (s : Overlay φ) : Prop where
  chain : ∀ r, s.OfChain r → r < s.objects.length
  own : ∀ r, s.Own r → r < s.objects.length
  held : ∀ r ∈ held, r < s.objects.length

theorem placed_over (chain : Chain) (fields : φ) : Placed [] (Session.over chain fields).state where
  chain := fun r ⟨i, key, h⟩ => chain.placed i key r h
  own := fun _ ⟨_, _, h⟩ => nomatch h
  held := fun _ h => nomatch h

/-- With more objects. -/
theorem Placed.grow {held : List Ref} {s t : Overlay φ} (h : Placed held s)
    (hchain : ∀ r, t.OfChain r → r < t.objects.length) (hindexes : t.indexes = s.indexes)
    (hlength : s.objects.length ≤ t.objects.length) : Placed held t where
  chain := hchain
  own := fun r ⟨i, key, hkey⟩ => Nat.lt_of_lt_of_le (h.own r ⟨i, key, hindexes ▸ hkey⟩) hlength
  held r hr := Nat.lt_of_lt_of_le (h.held r hr) hlength

theorem stable_placed : Stable (@Placed φ) where
  alloc held s o h := by
    have hlength : s.objects.length < (s.objects ++ [o]).length := by simp
    refine ⟨fun r hr => (h.chain r hr).trans hlength, fun r hr => (h.own r hr).trans hlength, ?_⟩
    intro r hr
    rcases List.mem_cons.1 hr with rfl | hold
    · exact hlength
    · exact (h.held r hold).trans hlength
  update held s r o h hr := by
    have hlength : (s.objects.set r o).length = s.objects.length := by simp
    exact h.grow (fun r hr => hlength ▸ h.chain r hr) rfl (Nat.le_of_eq hlength.symm)
  setIndexes held s indexes h hnew :=
    { chain := h.chain
      own := fun r ⟨i, key, hkey⟩ =>
        (hnew i key r hkey).elim (fun hold => h.own r ⟨i, key, hold⟩) (h.held r)
      held := h.held }
  setFields held s fields h := ⟨h.chain, h.own, h.held⟩
  own held s i key r h hkey := by
    refine ⟨h.chain, h.own, fun r' hr' => ?_⟩
    rcases List.mem_cons.1 hr' with rfl | hold
    · exact h.own _ ⟨i, key, hkey⟩
    · exact h.held r' hold
  weaken held held' s h hsub := ⟨h.chain, h.own, fun r hr => h.held r (hsub hr)⟩

end Overlay

end CoreEx

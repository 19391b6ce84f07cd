/-
  File:      CoreEx/Properties/CloneFidelity.lean
  Subject:   What is read from a clone of a wallet, and what changes of the one show on the other.

  The clone shares no object with its original, so no change of the one shows on the other. What it
  is a copy of comes back as it was, except for numbers: the copy of a `BigNumber` has no value.

  * `SameReads`, `Independent` -- what is to hold; `LiveClient` -- where a clone is made;
  * `NoNumbers` -- the condition;
  * `read_same` -- reads depend on the wallet's own objects;
  * `Owns`, `perform_confined` -- a caller changes its own objects only;
  * `Apart`, `Apart.step` -- two wallets with no object in common;
  * `read_copied` -- what is read from the clone;
  * **`clone_iff`** -- both together; **`clone_not`** -- a vote balance.
-/
import CoreEx.State.WalletClone

namespace CoreEx

/-! ## 1. What is to hold -/

variable (ctx : AttributeContext)

namespace WalletPair

/-- Every read of the clone gives what it gives of the original. -/
def SameReads (s : WalletPair) : Prop :=
  ∀ r, read ctx s.heap (s.wallet .clone) r = read ctx s.heap (s.wallet .original) r

/-- In a sequence of calls of either, no call shows on the other wallet. -/
def Independent (s : WalletPair) : List (PairSide × ClientCall) → Prop
  | [] => True
  | (side, call) :: calls =>
    (∀ r, read ctx (s.step ctx side call).heap ((s.step ctx side call).wallet side.other) r =
      read ctx s.heap (s.wallet side.other) r) ∧ Independent (s.step ctx side call) calls

end WalletPair

/-- A caller with a wallet: what they refer to is there. -/
structure LiveClient extends ClientState where
  closed : heap.Closed (· < heap.length)
  attributes_lt : wallet.attributes < heap.length
  held_lt : ∀ v ∈ held, v.In (· < heap.length)

/-- There is no number with a value among the attributes. -/
def ClientState.NoNumbers (s : ClientState) : Prop :=
  ∀ names a o n, s.heap.follow (.ref s.wallet.attributes) names = some (.ref a) →
    s.heap[a]? = some o → o.kind ≠ .bigNumber (some n)

/-! ## 2. Reads -/

variable {ctx} {h h' : AttributeHeap} {S : Nat → Prop} {v : AttributeValue} {w : WalletInstance}
  {key : String}

theorem lookAt_same (hsame : Heap.Same S h h') (hv : v.In S) (look : Look) :
    lookAt h' v look = lookAt h v look := by
  cases v with
  | prim p => cases look <;> rfl
  | ref a =>
    unfold lookAt
    dsimp only
    rw [hsame a hv]

theorem ownProperty_in (hS : h.Closed S) {a : Nat} (ha : S a) (segment : String) :
    (ownProperty h a segment).In S := by
  unfold ownProperty
  cases hx : h.property a segment with
  | none => trivial
  | some x => exact hS.inside a segment x ha hx

theorem hasPath_same (hS : h.Closed S) (hsame : Heap.Same S h h') (hv : v.In S)
    (path : List String) :
    AttributeMap.hasPath ctx h' v path = AttributeMap.hasPath ctx h v path := by
  induction path generalizing v with
  | nil => cases v <;> rfl
  | cons segment rest ih =>
    cases v with
    | prim p => cases p <;> rfl
    | ref a =>
      have hown : ownProperty h' a segment = ownProperty h a segment := by
        unfold ownProperty
        rw [hsame.property hv]
      have hin : AttributeMap.isIn ctx h' a segment = AttributeMap.isIn ctx h a segment := by
        unfold AttributeMap.isIn
        rw [hsame a hv]
      unfold AttributeMap.hasPath
      rw [hown, hin, ih (ownProperty_in hS hv segment)]

theorem get_same (hS : h.Closed S) (hsame : Heap.Same S h h') {a : Nat} (ha : S a)
    (defaultValue : Primitive) :
    AttributeMap.get ctx h' a key defaultValue = AttributeMap.get ctx h a key defaultValue := by
  have hin : (Slot.ref a : AttributeValue).In S := ha
  unfold AttributeMap.get
  rw [getPath_eq, getPath_eq, Heap.follow_same hS hsame hin]

/-- What the map returns is one of its values, or none that is an object. -/
theorem get_in (hS : h.Closed S) {a : Nat} (ha : S a) {defaultValue : Primitive}
    (hget : AttributeMap.get ctx h a key defaultValue = .ok v) : v.In S := by
  have hin : (Slot.ref a : AttributeValue).In S := ha
  have hvalue : (AttributeMap.orDefault (getPath h (.ref a) (getPathSegments key))
      defaultValue).In S := by
    rw [getPath_eq]
    unfold AttributeMap.orDefault
    cases hx : h.follow (.ref a) (getPathSegments key) with
    | none => trivial
    | some x =>
      dsimp only
      split
      · trivial
      · exact hS.follow hin _ x hx
  unfold AttributeMap.get AttributeMap.assertKnown at hget
  split at hget
  · have hend : AttributeMap.assertDefined (AttributeMap.orDefault
        (getPath h (.ref a) (getPathSegments key)) defaultValue) = .ok v := hget
    unfold AttributeMap.assertDefined at hend
    split at hend
    · cases hend
    · rw [← Except.ok.inj hend]
      exact hvalue
  · cases hget

theorem readNames_in (hS : h.Closed S) (hv : v.In S) (names : List String) :
    (readNames h v names).In S := by
  unfold readNames
  cases hx : h.follow v names with
  | none => trivial
  | some x => exact hS.follow hv names x hx

theorem readNames_same (hS : h.Closed S) (hsame : Heap.Same S h h') (hv : v.In S)
    (names : List String) : readNames h' v names = readNames h v names := by
  unfold readNames
  rw [Heap.follow_same hS hsame hv]

/-- **What is read** depends on the objects of the wallet. -/
theorem read_same (hS : h.Closed S) (hsame : Heap.Same S h h') (hw : S w.attributes)
    (r : WalletRead) : read ctx h' w r = read ctx h w r := by
  have hroot : (Slot.ref w.attributes : AttributeValue).In S := hw
  cases r with
  | address => rfl
  | publicKey => rfl
  | balance method => rfl
  | nonce method => rfl
  | getAttribute key defaultValue names look =>
    unfold read
    dsimp only
    rw [get_same hS hsame hw]
    cases hget : AttributeMap.get ctx h w.attributes key defaultValue with
    | error e => rfl
    | ok value =>
      have hvalue := get_in hS hw hget
      show lookAt h' (readNames h' value names) look = lookAt h (readNames h value names) look
      rw [readNames_same hS hsame hvalue, lookAt_same hsame (readNames_in hS hvalue names)]
  | getAttributes names look =>
    show lookAt h' (readNames h' _ names) look = lookAt h (readNames h _ names) look
    rw [readNames_same hS hsame hroot, lookAt_same hsame (readNames_in hS hroot names)]
  | hasAttribute key =>
    unfold read AttributeMap.has
    dsimp only
    rw [hasPath_same hS hsame hroot]

/-! ## 3. Callers -/

/-- The caller starts from the objects of a set: the wallet and the values held lead to no other. -/
structure ClientState.Owns (s : ClientState) (S : Nat → Prop) : Prop where
  closed : s.heap.Closed S
  attributes : S s.wallet.attributes
  held : ∀ v ∈ s.held, v.In S

/-- The next state is one that the caller has reached from its own objects. -/
def Confines (s s' : ClientState) : Prop :=
  ∀ S, s.Owns S → ∃ S', s'.Owns S' ∧ Heap.Confined s.heap S s'.heap S'

theorem confined_ensureObject {a : Nat} (hS : h.Closed S) (ha : S a) (segment : String) :
    ∃ S', Heap.Confined h S (ensureObject a segment h) S' := by
  unfold ensureObject
  split
  · exact ⟨S, .refl hS⟩
  · have hcreate := Heap.confined_create hS ObjectKind.plain
    exact ⟨_, hcreate.trans (Heap.confined_assign hcreate.closed (.inl ha) (.inr rfl))⟩

/-- **`set`** changes objects of the map only. -/
theorem setPath_confined {value object : AttributeValue} (hS : h.Closed S) (hobject : object.In S)
    (hvalue : value.In S) (path : List String) :
    ∃ S', Heap.Confined h S ((setPath value object path).run h).state S' := by
  induction path generalizing object h S with
  | nil => cases object <;> exact ⟨S, .refl hS⟩
  | cons segment rest ih =>
    cases object with
    | prim p => exact ⟨S, .refl hS⟩
    | ref a =>
      obtain ⟨S₁, hensure⟩ := confined_ensureObject hS hobject segment
      have ha : S₁ a := hensure.grows a hobject
      have hput : Heap.Confined (ensureObject a segment h) S₁
          (if rest = [] then (ensureObject a segment h).assign a segment value
            else ensureObject a segment h) S₁ := by
        split
        · exact Heap.confined_assign hensure.closed ha (hvalue.mono hensure.grows)
        · exact .refl hensure.closed
      obtain ⟨S₂, hrest⟩ := ih hput.closed (ownProperty_in hput.closed ha segment)
        (hvalue.mono hensure.grows)
      exact ⟨S₂, (hensure.trans hput).trans hrest⟩

/-- **`unset`** changes objects of the map only. -/
theorem unsetPath_confined {object : AttributeValue} (hS : h.Closed S) (hobject : object.In S)
    (path : List String) : Heap.Confined h S ((unsetPath object path).run h).state S := by
  induction path generalizing object with
  | nil => cases object <;> exact .refl hS
  | cons segment rest ih =>
    cases object with
    | prim p => exact .refl hS
    | ref a =>
      cases rest with
      | nil => exact Heap.confined_remove hS hobject
      | cons segment' rest' =>
        have hrun : (unsetPath (.ref a) (segment :: segment' :: rest')).run h =
            if isObject (ownProperty h a segment) = true then
              (unsetPath (ownProperty h a segment) (segment' :: rest')).run h
            else .done () h := by
          show (if isObject (ownProperty h a segment) = true then
            unsetPath (ownProperty h a segment) (segment' :: rest') else pure ()).run h = _
          rw [Prog.run_ite]
          rfl
        rw [hrun]
        split
        · exact ih (ownProperty_in hS hobject segment)
        · exact .refl hS

/-- A check before the rest, and a read after it, leave the objects as the rest does. -/
theorem set_state (ctx : AttributeContext) (key : String) (attributes : Nat)
    (value : AttributeValue) (h : AttributeHeap) :
    ((AttributeMap.set ctx attributes key value).run h).state = h ∨
    ((AttributeMap.set ctx attributes key value).run h).state =
      ((setPath value (.ref attributes) (getPathSegments key)).run h).state := by
  unfold AttributeMap.set
  rw [Prog.run_bind]
  cases AttributeMap.assertKnown ctx key with
  | error e => exact .inl rfl
  | ok u =>
    refine .inr ?_
    show ((setPath value (.ref attributes) (getPathSegments key) >>= _).run h).state = _
    rw [Prog.run_bind]
    cases (setPath value (.ref attributes) (getPathSegments key)).run h with
    | thrown e h' => rfl
    | done u h' =>
      show ((Prog.ofExcept (AttributeMap.has ctx h' attributes key) : HeapProg Bool).run h').state
        = h'
      cases AttributeMap.has ctx h' attributes key <;> rfl

theorem forget_state (ctx : AttributeContext) (key : String) (attributes : Nat) (h : AttributeHeap) :
    ((AttributeMap.forget ctx attributes key).run h).state = h ∨
    ((AttributeMap.forget ctx attributes key).run h).state =
      ((unsetPath (.ref attributes) (getPathSegments key)).run h).state := by
  unfold AttributeMap.forget
  rw [Prog.run_bind]
  cases AttributeMap.assertKnown ctx key with
  | error e => exact .inl rfl
  | ok u =>
    refine .inr ?_
    show ((unsetPath (.ref attributes) (getPathSegments key) >>= _).run h).state = _
    rw [Prog.run_bind]
    cases (unsetPath (.ref attributes) (getPathSegments key)).run h with
    | thrown e h' => rfl
    | done u h' =>
      show ((Prog.ofExcept (AttributeMap.has ctx h' attributes key) >>= fun known =>
        pure !known : HeapProg Bool).run h').state = h'
      cases AttributeMap.has ctx h' attributes key <;> rfl

variable {s s' : ClientState}

theorem ClientState.Owns.root (ho : s.Owns S) :
    (Slot.ref s.wallet.attributes : AttributeValue).In S := ho.attributes

theorem ClientState.Owns.value (ho : s.Owns S) (j : Nat) : (s.value j).In S := by
  unfold ClientState.value
  cases hj : s.held[j]? with
  | none => trivial
  | some v => exact ho.held v (List.mem_of_getElem? hj)

/-- A value more that the caller holds. -/
theorem ClientState.Owns.hold (ho : s.Owns S) (hv : v.In S) :
    ({ s with held := s.held ++ [v] } : ClientState).Owns S := by
  refine ⟨ho.closed, ho.attributes, fun u hu => ?_⟩
  rcases List.mem_append.1 hu with hu | hu
  · exact ho.held u hu
  · obtain rfl := List.mem_singleton.1 hu
    exact hv

/-- Other objects, of which the set has more. -/
theorem ClientState.Owns.grow {S' : Nat → Prop} (ho : s.Owns S)
    (hc : Heap.Confined s.heap S h' S') : ({ s with heap := h' } : ClientState).Owns S' :=
  ⟨hc.closed, hc.grows _ ho.attributes, fun u hu => (ho.held u hu).mono hc.grows⟩

theorem confines_hold {f : ClientState → AttributeValue}
    (hf : ∀ S, s.Owns S → (f s).In S) : Confines s { s with held := s.held ++ [f s] } :=
  fun S ho => ⟨S, ho.hold (hf S ho), .refl ho.closed⟩

theorem confines_change {f : Nat → AttributeHeap → AttributeHeap}
    (hf : ∀ S a, s.Owns S → S a → Heap.Confined s.heap S (f a s.heap) S) (i : Nat) :
    Confines s ((ClientState.change i f).run s).state := by
  intro S ho
  have hobject := ho.value i
  unfold ClientState.change
  rw [Prog.run_bind, Prog.run_gets]
  dsimp only
  cases hi : s.value i with
  | prim p => exact ⟨S, ho, .refl ho.closed⟩
  | ref a =>
    rw [hi] at hobject
    have hc := hf S a ho hobject
    exact ⟨S, ho.grow hc, hc⟩

/-- Code of the map. -/
theorem confines_onHeap {x : HeapProg Bool}
    (hx : ∀ S, s.Owns S → ∃ S', Heap.Confined s.heap S (x.run s.heap).state S') :
    Confines s ((do
      let _ ← ClientState.onHeap x
      pure () : ClientProg Unit).run s).state := by
  intro S ho
  obtain ⟨S', hc⟩ := hx S ho
  have hstate : ((do
      let _ ← ClientState.onHeap x
      pure () : ClientProg Unit).run s).state = { s with heap := (x.run s.heap).state } := by
    rw [Prog.run_bind]
    unfold ClientState.onHeap
    rw [Prog.run_zoom]
    cases x.run s.heap <;> rfl
  rw [hstate]
  exact ⟨S', ho.grow hc, hc⟩

/-- **A caller changes its own objects**, one case for each call. -/
theorem perform_confined (ctx : AttributeContext) (call : ClientCall) (s : ClientState) :
    Confines s ((ClientState.perform ctx call).run s).state := by
  cases call with
  | literal p => exact confines_hold (f := fun _ => .prim p) fun S _ => trivial
  | create kind =>
    intro S ho
    have hc := Heap.confined_create ho.closed kind
    exact ⟨_, (ho.grow hc).hold (.inr rfl), hc⟩
  | getAttributes names =>
    exact confines_hold (f := fun s => readNames s.heap (.ref s.wallet.attributes) names)
      fun S ho => readNames_in ho.closed ho.root names
  | getAttribute key defaultValue names =>
    intro S ho
    unfold ClientState.perform
    rw [Prog.run_bind, Prog.run_gets]
    dsimp only
    cases hget : AttributeMap.get ctx s.heap s.wallet.attributes key defaultValue with
    | error e => exact ⟨S, ho, .refl ho.closed⟩
    | ok value =>
      have hvalue := get_in ho.closed ho.attributes hget
      exact ⟨S, ho.hold (readNames_in ho.closed hvalue names), .refl ho.closed⟩
  | assign i name j =>
    exact confines_change (f := fun a h => h.assign a name (s.value j))
      (fun S a ho ha => Heap.confined_assign ho.closed ha (ho.value j)) i
  | remove i name =>
    exact confines_change (f := fun a h => h.remove a name)
      (fun S a ho ha => Heap.confined_remove ho.closed ha) i
  | setAttribute key j =>
    refine confines_onHeap (x := AttributeMap.set ctx s.wallet.attributes key (s.value j)) ?_
    intro S ho
    rcases set_state ctx key s.wallet.attributes (s.value j) s.heap with he | he
    · rw [he]
      exact ⟨S, .refl ho.closed⟩
    · rw [he]
      exact setPath_confined ho.closed ho.root (ho.value j) _
  | forgetAttribute key =>
    refine confines_onHeap (x := AttributeMap.forget ctx s.wallet.attributes key) ?_
    intro S ho
    rcases forget_state ctx key s.wallet.attributes s.heap with he | he
    · rw [he]
      exact ⟨S, .refl ho.closed⟩
    · rw [he]
      exact ⟨S, unsetPath_confined ho.closed ho.root _⟩
  | flush =>
    intro S ho
    have hc := Heap.confined_create ho.closed ObjectKind.plain
    exact ⟨_, ⟨hc.closed, .inr rfl, fun u hu => (ho.held u hu).mono hc.grows⟩, hc⟩
  | setPublicKey publicKey =>
    exact fun S ho => ⟨S, ⟨ho.closed, ho.attributes, ho.held⟩, .refl ho.closed⟩
  | setBalance balance =>
    exact fun S ho => ⟨S, ⟨ho.closed, ho.attributes, ho.held⟩, .refl ho.closed⟩
  | setNonce nonce => exact fun S ho => ⟨S, ⟨ho.closed, ho.attributes, ho.held⟩, .refl ho.closed⟩

/-! ## 4. Two wallets -/

namespace WalletPair

/-- The two have no object in common. -/
def Apart (s : WalletPair) : Prop :=
  ∃ S : PairSide → Nat → Prop, (∀ side, (s.client side).Owns (S side)) ∧
    ∀ side a, S side a → ¬S side.other a

variable {s : WalletPair}

theorem other_other (side : PairSide) : side.other.other = side := by
  cases side <;> rfl

theorem other_ne (side : PairSide) : side.other ≠ side := by
  cases side <;> exact fun h => nomatch h

theorem eq_other {one side : PairSide} (h : one ≠ side) : one = side.other := by
  cases one <;> cases side <;> first | rfl | exact absurd rfl h

theorem client_step (s : WalletPair) (side : PairSide) (call : ClientCall) :
    (s.step ctx side call).client side =
      ((ClientState.perform ctx call).run (s.client side)).state := by
  unfold step client
  dsimp only
  rw [Function.update_self, Function.update_self]

theorem client_step_other (s : WalletPair) (side : PairSide) (call : ClientCall) :
    (s.step ctx side call).client side.other =
      { s.client side.other with
        heap := ((ClientState.perform ctx call).run (s.client side)).state.heap } := by
  unfold step client
  dsimp only
  rw [Function.update_of_ne (other_ne side), Function.update_of_ne (other_ne side)]

/-- **A call of one of them** leaves them apart, and does not show on the other. -/
theorem Apart.step (ctx : AttributeContext) (h : s.Apart) (side : PairSide) (call : ClientCall) :
    (s.step ctx side call).Apart ∧
    ∀ r, read ctx (s.step ctx side call).heap ((s.step ctx side call).wallet side.other) r =
      read ctx s.heap (s.wallet side.other) r := by
  obtain ⟨S, howns, hapart⟩ := h
  obtain ⟨S', howns', hc⟩ := perform_confined ctx call (s.client side) _ (howns side)
  have hother := howns side.other
  have hdisjoint : ∀ a, S side.other a → ¬S side a := by
    intro a ha
    have hnot := hapart side.other a ha
    rwa [other_other] at hnot
  obtain ⟨hclosed, hsame, hapart'⟩ := hc.frame_closed hother.closed hdisjoint
  refine ⟨⟨Function.update S side S', fun one => ?_, fun one a ha => ?_⟩, fun r => ?_⟩
  · by_cases hone : one = side
    · subst hone
      rw [client_step, Function.update_self]
      exact howns'
    · obtain rfl : one = side.other := eq_other hone
      rw [client_step_other, Function.update_of_ne hone]
      exact ⟨hclosed, hother.attributes, hother.held⟩
  · by_cases hone : one = side
    · subst hone
      rw [Function.update_self] at ha
      rw [Function.update_of_ne (other_ne one)]
      exact fun hin => hapart' a hin ha
    · obtain rfl : one = side.other := eq_other hone
      rw [Function.update_of_ne hone] at ha
      rw [other_other, Function.update_self]
      exact hapart' a ha
  · have hheap : (s.step ctx side call).heap =
        ((ClientState.perform ctx call).run (s.client side)).state.heap := rfl
    have hwallet : (s.step ctx side call).wallet side.other = s.wallet side.other :=
      Function.update_of_ne (other_ne side) _ _
    rw [hheap, hwallet]
    exact read_same hother.closed hsame hother.attributes r

/-- **Any sequence of calls.** -/
theorem independent_of_apart (h : s.Apart) (calls : List (PairSide × ClientCall)) :
    s.Independent ctx calls := by
  induction calls generalizing s with
  | nil => trivial
  | cons first calls ih =>
    obtain ⟨side, call⟩ := first
    obtain ⟨hapart, hreads⟩ := h.step ctx side call
    exact ⟨hreads, ih hapart⟩

end WalletPair

/-! ## 5. The clone -/

variable {cloneDeep : AttributeHeap → Nat → AttributeHeap × Nat} {twin : Nat → Nat} {a b : Nat}

namespace LiveClient

/-- The copy that a clone makes. -/
theorem exists_copied (hcopy : FastCopy cloneDeep) (s : LiveClient) :
    ∃ twin, Heap.Copied ObjectKind.copied s.heap s.wallet.attributes
      (s.cloned cloneDeep).heap ((s.cloned cloneDeep).wallet .clone).attributes twin :=
  hcopy s.heap s.wallet.attributes ⟨_, s.closed, s.attributes_lt⟩

/-- **A clone is apart from its original.** -/
theorem apart_cloned (hcopy : FastCopy cloneDeep) (s : LiveClient) :
    (s.cloned cloneDeep).Apart := by
  obtain ⟨twin, hcopied⟩ := exists_copied hcopy s
  have hsame : Heap.Same (· < s.heap.length) s.heap (s.cloned cloneDeep).heap := hcopied.kept
  -- a place of the copy is a new one
  have hfresh : ∀ a path, (s.cloned cloneDeep).heap.follow
      (.ref ((s.cloned cloneDeep).wallet .clone).attributes) path = some (.ref a) →
      s.heap.length ≤ a := by
    intro a path ha
    rw [hcopied.follow s.closed s.attributes_lt] at ha
    obtain ⟨v, hv, hmap⟩ := Option.map_eq_some_iff.1 ha
    cases v with
    | prim p => cases hmap
    | ref c =>
      rw [← Slot.ref.inj hmap]
      exact hcopied.fresh c path hv
  have hclone := hcopied.closed s.closed s.attributes_lt
  have hroot : ∃ path, (s.cloned cloneDeep).heap.follow
      (.ref ((s.cloned cloneDeep).wallet .clone).attributes) path =
      some (.ref ((s.cloned cloneDeep).wallet .clone).attributes) := ⟨[], rfl⟩
  have hlength : s.heap.length ≤ (s.cloned cloneDeep).heap.length :=
    Nat.le_of_lt (Nat.lt_of_le_of_lt (hfresh _ [] rfl) (hclone.lt _ hroot))
  refine ⟨PairSide.pick (· < s.heap.length) fun a => ∃ path, (s.cloned cloneDeep).heap.follow
      (.ref ((s.cloned cloneDeep).wallet .clone).attributes) path = some (.ref a),
    fun side => ?_, fun side a ha => ?_⟩
  · cases side with
    | original => exact ⟨s.closed.same hsame hlength, s.attributes_lt, s.held_lt⟩
    | clone => exact ⟨hclone, hroot, fun v hv => (nomatch hv)⟩
  · cases side with
    | original =>
      intro hin
      obtain ⟨path, hpath⟩ := hin
      exact absurd ha (Nat.not_lt.2 (hfresh a path hpath))
    | clone =>
      obtain ⟨path, hpath⟩ := ha
      exact Nat.not_lt.2 (hfresh a path hpath)

/-- The original reads as before the clone was made. -/
theorem read_original (hcopy : FastCopy cloneDeep) (s : LiveClient) (r : WalletRead) :
    read ctx (s.cloned cloneDeep).heap ((s.cloned cloneDeep).wallet .original) r =
      read ctx s.heap s.wallet r := by
  obtain ⟨twin, hcopied⟩ := exists_copied hcopy s
  exact read_same s.closed hcopied.kept s.attributes_lt r

end LiveClient

theorem prototype_copied (kind : ObjectKind) : kind.copied.prototype = kind.prototype := by
  cases kind <;> rfl

/-- The value is no object, or one that a path leads to. -/
def LedTo (h : AttributeHeap) (a : Nat) (v : AttributeValue) : Prop :=
  ∀ c, v = .ref c → ∃ path, h.follow (.ref a) path = some (.ref c)

theorem ledTo_prim (p : Primitive) : LedTo h a (.prim p) := fun _ hc => nomatch hc

theorem ledTo_root : LedTo h a (.ref a) := by
  intro c hc
  exact ⟨[], congrArg some hc⟩

theorem ledTo_follow {x : AttributeValue} (hv : LedTo h a v) {names : List String}
    (hx : h.follow v names = some x) : LedTo h a x := by
  intro c hc
  cases v with
  | prim p =>
    cases names with
    | nil =>
      obtain rfl : Slot.prim p = x := Option.some.inj hx
      cases hc
    | cons name names => cases hx
  | ref d =>
    obtain ⟨path, hpath⟩ := hv d rfl
    refine ⟨path ++ names, ?_⟩
    rw [Heap.follow_append, hpath, ← hc]
    exact hx

theorem ledTo_readNames (hv : LedTo h a v) (names : List String) :
    LedTo h a (readNames h v names) := by
  unfold readNames
  cases hx : h.follow v names with
  | none => exact ledTo_prim _
  | some x => exact ledTo_follow hv hx

theorem ledTo_ownProperty {c : Nat} (hc : LedTo h a (.ref c)) (segment : String) :
    LedTo h a (ownProperty h c segment) := by
  have hread : ownProperty h c segment = readNames h (.ref c) [segment] := by
    unfold ownProperty readNames
    rw [Heap.follow_cons]
    cases h.property c segment <;> rfl
  rw [hread]
  exact ledTo_readNames hc [segment]

theorem isNullish_map (twin : Nat → Nat) (v : AttributeValue) :
    isNullish (v.map twin) = isNullish v := by
  cases v <;> rfl

theorem orDefault_map (twin : Nat → Nat) (x : Option AttributeValue) (p : Primitive) :
    AttributeMap.orDefault (x.map (Slot.map twin)) p = (AttributeMap.orDefault x p).map twin := by
  cases x with
  | none => rfl
  | some v =>
    show (if isNullish (v.map twin) = true then _ else _) =
      (if isNullish v = true then Slot.prim p else v).map twin
    rw [isNullish_map]
    split <;> rfl

theorem assertDefined_map (twin : Nat → Nat) (v : AttributeValue) :
    AttributeMap.assertDefined (v.map twin) =
      (AttributeMap.assertDefined v).map (Slot.map twin) := by
  unfold AttributeMap.assertDefined
  rw [isNullish_map]
  split <;> rfl

/-- What the map returns is led to by a path. -/
theorem ledTo_get {defaultValue : Primitive}
    (hget : AttributeMap.get ctx h a key defaultValue = .ok v) : LedTo h a v := by
  have hvalue : LedTo h a (AttributeMap.orDefault (getPath h (.ref a) (getPathSegments key))
      defaultValue) := by
    rw [getPath_eq]
    unfold AttributeMap.orDefault
    cases hx : h.follow (.ref a) (getPathSegments key) with
    | none => exact ledTo_prim _
    | some x =>
      dsimp only
      split
      · exact ledTo_prim _
      · exact ledTo_follow ledTo_root hx
  unfold AttributeMap.get AttributeMap.assertKnown at hget
  split at hget
  · have hend : AttributeMap.assertDefined (AttributeMap.orDefault
        (getPath h (.ref a) (getPathSegments key)) defaultValue) = .ok v := hget
    unfold AttributeMap.assertDefined at hend
    split at hend
    · cases hend
    · rw [← Except.ok.inj hend]
      exact hvalue
  · cases hget

section Copy

variable (hcopy : Heap.Copied ObjectKind.copied h a h' b twin) (hS : h.Closed S) (ha : S a)
include hcopy hS ha

theorem getElem?_copy {c : Nat} (hc : LedTo h a (.ref c)) :
    h'[twin c]? = h[c]?.map (Heap.copyObject ObjectKind.copied twin) := by
  obtain ⟨path, hpath⟩ := hc c rfl
  have hin : (Slot.ref a : AttributeValue).In S := ha
  have hlt : c < h.length := hS.lt c (hS.follow hin path _ hpath)
  rw [hcopy.copied c path h[c] hpath (List.getElem?_eq_getElem hlt), List.getElem?_eq_getElem hlt]
  rfl

theorem follow_copy (hv : LedTo h a v) (names : List String) :
    h'.follow (v.map twin) names = (h.follow v names).map (Slot.map twin) := by
  cases v with
  | prim p => cases names <;> rfl
  | ref c =>
    obtain ⟨path, hpath⟩ := hv c rfl
    have hwhole := hcopy.follow hS ha (path ++ names)
    have hfront := hcopy.follow hS ha path
    rw [hpath] at hfront
    rw [Heap.follow_append, Heap.follow_append, hfront, hpath] at hwhole
    exact hwhole

theorem readNames_copy (hv : LedTo h a v) (names : List String) :
    readNames h' (v.map twin) names = (readNames h v names).map twin := by
  unfold readNames
  rw [follow_copy hcopy hS ha hv]
  cases h.follow v names <;> rfl

theorem ownProperty_copy {c : Nat} (hc : LedTo h a (.ref c)) (segment : String) :
    ownProperty h' (twin c) segment = (ownProperty h c segment).map twin := by
  have hfollow := follow_copy hcopy hS ha hc [segment]
  have hleft : h'.follow (.ref (twin c)) [segment] = h'.property (twin c) segment := by
    rw [Heap.follow_cons]
    cases h'.property (twin c) segment <;> rfl
  have hright : h.follow (.ref c) [segment] = h.property c segment := by
    rw [Heap.follow_cons]
    cases h.property c segment <;> rfl
  have hproperty : h'.property (twin c) segment = (h.property c segment).map (Slot.map twin) := by
    rw [← hleft, ← hright]
    exact hfollow
  unfold ownProperty
  rw [hproperty]
  cases h.property c segment <;> rfl

theorem isIn_copy {c : Nat} (hc : LedTo h a (.ref c)) (segment : String) :
    AttributeMap.isIn ctx h' (twin c) segment = AttributeMap.isIn ctx h c segment := by
  unfold AttributeMap.isIn
  rw [getElem?_copy hcopy hS ha hc]
  cases h[c]? with
  | none => rfl
  | some o =>
    show ((o.props.mapValues (Slot.map twin)).has segment ||
      ctx.inherits o.kind.copied.prototype segment) = _
    rw [prototype_copied]
    unfold OrderedMap.has
    rw [OrderedMap.get?_mapValues, Option.isSome_map]

/-- **`has` on the copy.** -/
theorem hasPath_copy (ctx : AttributeContext) (hv : LedTo h a v) (path : List String) :
    AttributeMap.hasPath ctx h' (v.map twin) path = AttributeMap.hasPath ctx h v path := by
  induction path generalizing v with
  | nil => cases v <;> rfl
  | cons segment rest ih =>
    cases v with
    | prim p => cases p <;> rfl
    | ref c =>
      show (if AttributeMap.isIn ctx h' (twin c) segment = true then
          AttributeMap.hasPath ctx h' (ownProperty h' (twin c) segment) rest else .ok false) =
        if AttributeMap.isIn ctx h c segment = true then
          AttributeMap.hasPath ctx h (ownProperty h c segment) rest else .ok false
      rw [isIn_copy hcopy hS ha hv, ownProperty_copy hcopy hS ha hv,
        ih (ledTo_ownProperty hv segment)]

/-- **`get` on the copy.** -/
theorem get_copy (key : String) (defaultValue : Primitive) :
    AttributeMap.get ctx h' b key defaultValue =
      (AttributeMap.get ctx h a key defaultValue).map (Slot.map twin) := by
  unfold AttributeMap.get
  rw [getPath_eq, getPath_eq, hcopy.follow hS ha, orDefault_map, assertDefined_map]
  unfold AttributeMap.assertKnown
  split <;> rfl

variable (hkind : ∀ c o, LedTo h a (.ref c) → h[c]? = some o → o.kind.copied = o.kind)
include hkind

omit hcopy hS ha hkind in
/-- A look at a copy that has what its original has. -/
theorem lookAtObject_copy {o : HeapObject ObjectKind Primitive} (ho : o.kind.copied = o.kind)
    (look : Look) :
    lookAtObject (Heap.copyObject ObjectKind.copied twin o) look = lookAtObject o look := by
  obtain ⟨kind, props⟩ := o
  have hkind' : kind.copied = kind := ho
  unfold Heap.copyObject
  dsimp only
  rw [hkind']
  cases look with
  | view =>
    show Except.ok (Seen.object kind.prototype (props.mapValues (Slot.map twin)).keys) =
      (Except.ok (Seen.object kind.prototype props.keys) : Except Exception Seen)
    rw [OrderedMap.keys_mapValues]
  | call method => rfl

/-- A look at what is no number. -/
theorem lookAt_copy (hv : LedTo h a v) (look : Look) :
    lookAt h' (v.map twin) look = lookAt h v look := by
  cases v with
  | prim p => cases look <;> rfl
  | ref c =>
    show lookAt h' (.ref (twin c)) look = _
    unfold lookAt
    dsimp only
    rw [getElem?_copy hcopy hS ha hv]
    cases ho : h[c]? with
    | none => rfl
    | some o => exact lookAtObject_copy (hkind c o hv ho) look

end Copy

/-- **What is read from the clone**, if its attributes hold no number. -/
theorem read_copied (hcopy : Heap.Copied ObjectKind.copied h w.attributes h' b twin)
    (hS : h.Closed S) (ha : S w.attributes)
    (hkind : ∀ c o, LedTo h w.attributes (.ref c) → h[c]? = some o → o.kind.copied = o.kind)
    (r : WalletRead) : read ctx h' { w with attributes := b } r = read ctx h w r := by
  have hroot : LedTo h w.attributes (.ref w.attributes) := ledTo_root
  cases r with
  | address => rfl
  | publicKey => rfl
  | balance method => rfl
  | nonce method => rfl
  | getAttribute key defaultValue names look =>
    unfold read
    dsimp only
    rw [get_copy hcopy hS ha]
    cases hget : AttributeMap.get ctx h w.attributes key defaultValue with
    | error e => rfl
    | ok value =>
      have hvalue := ledTo_get hget
      show lookAt h' (readNames h' (value.map twin) names) look =
        lookAt h (readNames h value names) look
      rw [readNames_copy hcopy hS ha hvalue,
        lookAt_copy hcopy hS ha hkind (ledTo_readNames hvalue names)]
  | getAttributes names look =>
    have hread := readNames_copy hcopy hS ha hroot names
    have hb : (Slot.ref w.attributes : AttributeValue).map twin = .ref b :=
      congrArg Slot.ref hcopy.root.symm
    rw [hb] at hread
    show lookAt h' (readNames h' (.ref b) names) look = lookAt h (readNames h _ names) look
    rw [hread, lookAt_copy hcopy hS ha hkind (ledTo_readNames hroot names)]
  | hasAttribute key =>
    have hhas := hasPath_copy hcopy hS ha ctx hroot (getPathSegments key)
    have hb : (Slot.ref w.attributes : AttributeValue).map twin = .ref b :=
      congrArg Slot.ref hcopy.root.symm
    rw [hb] at hhas
    unfold read AttributeMap.has
    dsimp only
    rw [hhas]

/-- A number among the attributes has no value in the clone. -/
theorem lookAt_number {c : Nat} {n : Int} {o : HeapObject ObjectKind Primitive}
    (hcopy : Heap.Copied ObjectKind.copied h a h' b twin) (hS : h.Closed S) (ha : S a)
    (hc : LedTo h a (.ref c)) (ho : h[c]? = some o) (hkind : o.kind = .bigNumber (some n)) :
    lookAt h (.ref c) (.call .toBigInt) = .ok (.result (.number n)) ∧
    lookAt h' (.ref (twin c)) (.call .toBigInt) = .error (.typeError "#value") := by
  obtain ⟨kind, props⟩ := o
  obtain rfl : kind = .bigNumber (some n) := hkind
  have hcopied := getElem?_copy hcopy hS ha hc
  rw [ho] at hcopied
  unfold lookAt
  dsimp only
  rw [ho, hcopied]
  exact ⟨rfl, rfl⟩

/-! ## 6. The result -/

/-- **A clone reads as its original** exactly if the attributes hold no number; and in any case
    nothing that is done to the one shows on the other, nor does the making of it. -/
theorem clone_iff (ctx : AttributeContext) (hcopy : FastCopy cloneDeep) (s : LiveClient) :
    ((s.cloned cloneDeep).SameReads ctx ↔ s.NoNumbers) ∧
    (∀ calls, (s.cloned cloneDeep).Independent ctx calls) ∧
    ∀ r, read ctx (s.cloned cloneDeep).heap ((s.cloned cloneDeep).wallet .original) r =
      read ctx s.heap s.wallet r := by
  obtain ⟨twin, hcopied⟩ := s.exists_copied hcopy
  refine ⟨⟨fun hreads => ?_, fun hnone r => ?_⟩,
    WalletPair.independent_of_apart (s.apart_cloned hcopy), s.read_original hcopy⟩
  · intro names a o n hpath ho hkind
    have hc : LedTo s.heap s.wallet.attributes (.ref a) := ledTo_follow ledTo_root hpath
    obtain ⟨horiginal, hclone⟩ := lookAt_number hcopied s.closed s.attributes_lt hc ho hkind
    have hread := hreads (.getAttributes names (.call .toBigInt))
    rw [s.read_original hcopy] at hread
    have hleft : readNames (s.cloned cloneDeep).heap
        (.ref ((s.cloned cloneDeep).wallet .clone).attributes) names = .ref (twin a) := by
      unfold readNames
      rw [hcopied.follow s.closed s.attributes_lt, hpath]
      rfl
    have hright : readNames s.heap (.ref s.wallet.attributes) names = .ref a := by
      unfold readNames
      rw [hpath]
      rfl
    unfold read at hread
    dsimp only at hread
    rw [hleft, hright, horiginal, hclone] at hread
    cases hread
  · rw [s.read_original hcopy]
    refine read_copied hcopied s.closed s.attributes_lt (fun c o hc ho => ?_) r
    obtain ⟨path, hpath⟩ := hc c rfl
    cases hkind : o.kind with
    | plain => rfl
    | array => rfl
    | bigNumber value =>
      cases value with
      | none => rfl
      | some n => exact absurd hkind (hnone path c o n hpath ho)

/-- A copy of all objects, where all of them belong to what is copied. -/
def copyAll (h : AttributeHeap) (a : Nat) : AttributeHeap × Nat :=
  (h ++ h.map (Heap.copyObject ObjectKind.copied (· + h.length)), a + h.length)

theorem fastCopy_copyAll : FastCopy copyAll := by
  intro h a hclosed
  refine ⟨(· + h.length), rfl, fun c hc => List.getElem?_append_left hc,
    fun c path _ => Nat.le_add_left _ _, fun c path o _ ho => ?_⟩
  show (h ++ h.map (Heap.copyObject ObjectKind.copied (· + h.length)))[c + h.length]? = _
  rw [List.getElem?_append_right (Nat.le_add_left _ _), Nat.add_sub_cancel, List.getElem?_map, ho]
  rfl

/-- A validator with a vote balance of five. -/
def voted : LiveClient where
  heap := [⟨.plain, OrderedMap.empty.set "validator" (.ref 1)⟩,
    ⟨.plain, OrderedMap.empty.set "voteBalance" (.ref 2)⟩, ⟨.bigNumber (some 5), .empty⟩]
  wallet := ⟨"address", none, ⟨some 0⟩, ⟨some 0⟩, 0⟩
  held := []
  closed := Heap.closed_all (by decide)
  attributes_lt := by decide
  held_lt := fun v hv => (nomatch hv)

/-- A wallet that two participants sign for. -/
def shared : LiveClient where
  heap := [⟨.plain, OrderedMap.empty.set "multiSignature" (.ref 1)⟩,
    ⟨.plain, OrderedMap.empty.set "publicKeys" (.ref 2)⟩,
    ⟨.array, (OrderedMap.empty.set "0" (.prim (.text "alice"))).set "1" (.prim (.text "bob"))⟩]
  wallet := ⟨"address", none, ⟨some 0⟩, ⟨some 0⟩, 0⟩
  held := []
  closed := Heap.closed_all (by decide)
  attributes_lt := by decide
  held_lt := fun v hv => (nomatch hv)

theorem noNumbers_shared : shared.NoNumbers := by
  intro names a o n _ ho hkind
  have hplain : ∀ one ∈ shared.heap, one.kind = .plain ∨ one.kind = .array := by decide
  rcases hplain o (List.mem_of_getElem? ho) with h | h
  · exact ObjectKind.noConfusion (h.symm.trans hkind)
  · exact ObjectKind.noConfusion (h.symm.trans hkind)

/-- All attributes are registered. -/
def allKnown : AttributeContext := ⟨fun _ => true, fun _ _ => false⟩

theorem clone_iff_voted : (shared.cloned copyAll).SameReads allKnown ∧
    ¬(voted.cloned copyAll).SameReads allKnown ∧
    ∀ calls, (voted.cloned copyAll).Independent allKnown calls := by
  obtain ⟨hshared, _⟩ := clone_iff allKnown fastCopy_copyAll shared
  obtain ⟨hvoted, hindependent, _⟩ := clone_iff allKnown fastCopy_copyAll voted
  refine ⟨hshared.2 noNumbers_shared, fun hreads => ?_, hindependent⟩
  exact hvoted.1 hreads ["validator", "voteBalance"] 2 ⟨.bigNumber (some 5), .empty⟩ 5 rfl rfl rfl

/-- **The vote balance** of the clone cannot be read. -/
theorem clone_not : ¬∀ (cloneDeep : AttributeHeap → Nat → AttributeHeap × Nat)
    (ctx : AttributeContext) (s : LiveClient), FastCopy cloneDeep →
    (s.cloned cloneDeep).SameReads ctx := by
  intro h
  have hread := h copyAll allKnown voted fastCopy_copyAll
    (.getAttribute "validator.voteBalance" .undefined [] (.call .toBigInt))
  have hclone : read allKnown (voted.cloned copyAll).heap ((voted.cloned copyAll).wallet .clone)
      (.getAttribute "validator.voteBalance" .undefined [] (.call .toBigInt)) =
      .error (.typeError "#value") := by decide
  have horiginal : read allKnown (voted.cloned copyAll).heap
      ((voted.cloned copyAll).wallet .original)
      (.getAttribute "validator.voteBalance" .undefined [] (.call .toBigInt)) =
      .ok (.result (.number 5)) := by decide
  rw [hclone, horiginal] at hread
  cases hread

end CoreEx

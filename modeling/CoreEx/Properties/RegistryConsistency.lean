/-
  File:      CoreEx/Properties/RegistryConsistency.lean
  Subject:   Sequences of calls of the registry of transactions.

  A schema never leaves the collections: removing it adds it again. A constructor is in before its
  schema is asked for, and a schema is changed before the version is looked for. Of the constructors
  of another type only the first one's key is compared.

  * `Consistent` -- the schema `transactions` has what is registered, and keys tell types apart;
  * `CallMeets`, `Allowed` -- one call, and the condition on it;
  * `register_iff`, `deregister_iff` -- the step;
  * **`registryCalls_iff`** -- the sequences after which all is as it should be;
  * **`registryCalls_not`** -- a type that is registered and deregistered.
-/
import CoreEx.Crypto.TransactionRegistry

namespace CoreEx

namespace TransactionRegistry

/-! ## 1. What is to hold -/

/-- One of the two calls. -/
inductive RegistryCall
  | register (constructor : TransactionConstructor)
  | deregister (constructor : TransactionConstructor)

/-- The class it is about. -/
def RegistryCall.constructor : RegistryCall → TransactionConstructor
  | .register constructor => constructor
  | .deregister constructor => constructor

/-- Schemas of different keys have different ids. -/
def DistinctIds (calls : List RegistryCall) : Prop :=
  ∀ call ∈ calls, ∀ call' ∈ calls, ∀ schema schema',
    call.constructor.getSchema = some schema → call'.constructor.getSchema = some schema' →
      schema.id = schema'.id → call.constructor.key = call'.constructor.key

/-- The call. -/
def RegistryCall.prog (ajv : Ajv) : RegistryCall → RegistryProg Unit
  | .register constructor => registerTransactionType ajv constructor
  | .deregister constructor => deregisterTransactionType ajv constructor

/-- The id belongs to the schema of a constructor that is registered. -/
def HasSchema (s : TransactionRegistry) (id : String) : Prop :=
  ∃ internalType version c schema, s.lookup internalType version = some c ∧
    c.getSchema = some schema ∧ schema.id = id

/-- The schema `transactions` has what is registered, and no two types share a key. -/
structure Consistent (s : TransactionRegistry) : Prop where
  refs : ∀ id, id ∈ s.transactions ↔ s.HasSchema id
  keys : ∀ {t t' version version' c c'}, s.lookup t version = some c →
    s.lookup t' version' = some c' → c.key = c'.key → t = t'

/-- The same types and the same schemas. -/
structure SameContents (s s' : TransactionRegistry) : Prop where
  types : ∀ internalType version, s'.lookup internalType version = s.lookup internalType version
  schemas : ∀ id, s'.transactionSchemas.get? id = s.transactionSchemas.get? id
  ajv : ∀ id, s'.ajv.get? id = s.ajv.get? id
  refs : ∀ id, id ∈ s'.transactions ↔ id ∈ s.transactions

/-- What a call is to leave behind, and all that it must not change if it throws. -/
def CallMeets (ajv : Ajv) (s : TransactionRegistry) (call : RegistryCall) : Prop :=
  ((call.prog ajv).run s).state.Consistent ∧
    (((call.prog ajv).run s).isDone = false → SameContents s ((call.prog ajv).run s).state)

/-- After every call of a sequence. -/
def AllMeet (ajv : Ajv) (s : TransactionRegistry) : List RegistryCall → Prop
  | [] => True
  | call :: calls => CallMeets ajv s call ∧ AllMeet ajv ((call.prog ajv).run s).state calls

/-- The validator and the registry know the same schemas, and all of them are referred to. -/
structure InStep (s : TransactionRegistry) : Prop where
  ajv : ∀ id, s.ajv.get? id = s.transactionSchemas.get? id
  refs : s.transactions = s.transactionSchemas.keys

/-! ## 2. The condition -/

/-- A constructor at another place has a schema of this id. -/
def Needed (s : TransactionRegistry) (internalType : InternalTransactionType) (version : Nat)
    (id : String) : Prop :=
  ∃ t v c schema, ¬(t = internalType ∧ v = version) ∧ s.lookup t v = some c ∧
    c.getSchema = some schema ∧ schema.id = id

/-- No constructor of another type has the key. -/
def KeyFree (s : TransactionRegistry) (internalType : InternalTransactionType)
    (constructor : TransactionConstructor) : Prop :=
  ∀ {t version c}, s.lookup t version = some c → c.key = constructor.key → t = internalType

/-- The schema of a constructor is one that the validator takes. -/
def Addable (s : TransactionRegistry) (ajv : Ajv) (constructor : TransactionConstructor)
    (schema : TransactionSchema) : Prop :=
  constructor.getSchema = some schema ∧ s.Compiles ajv schema.id ∧ ajv.invalid schema = false

/-- A registration that is not refused needs a schema that the validator takes, and a key that no
    constructor of another type has, be it the first one of its type or not. -/
def RegisterAllowed (s : TransactionRegistry) (ajv : Ajv)
    (constructor : TransactionConstructor) : Prop :=
  ∀ internalType, internalTypeOf constructor = some internalType →
    s.refusal internalType constructor = none →
    s.KeyFree internalType constructor ∧ ∃ schema, s.Addable ajv constructor schema

/-- A schema that replaces itself needs to be one that the validator takes. If the version is not
    there, it must be in the collection as it is; if it is, this schema and the one of the
    registered constructor must belong to another constructor too. -/
def ReplaceAllowed (s : TransactionRegistry) (ajv : Ajv) (internalType : InternalTransactionType)
    (version : Nat) (schema : TransactionSchema) : Prop :=
  ajv.invalid schema = false ∧
    (s.lookup internalType version = none → s.transactionSchemas.get? schema.id = some schema) ∧
    ∀ d, s.lookup internalType version = some d →
      s.Needed internalType version schema.id ∧
        ∀ schema', d.getSchema = some schema' → s.Needed internalType version schema'.id

/-- The condition on a deregistration that gets to the schemas. -/
def DeregisterAllowed (s : TransactionRegistry) (ajv : Ajv)
    (constructor : TransactionConstructor) : Prop :=
  ∀ internalType schema, internalTypeOf constructor = some internalType →
    s.transactionTypes.has internalType = true → constructor.getSchema = some schema →
    s.Compiles ajv schema.id → s.ReplaceAllowed ajv internalType constructor.version schema

/-- The condition on a call. -/
def Allowed (s : TransactionRegistry) (ajv : Ajv) : RegistryCall → Prop
  | .register constructor => s.RegisterAllowed ajv constructor
  | .deregister constructor => s.DeregisterAllowed ajv constructor

/-- Every call is allowed in the state in which it begins. -/
def AllAllowed (ajv : Ajv) (s : TransactionRegistry) : List RegistryCall → Prop
  | [] => True
  | call :: calls => s.Allowed ajv call ∧ AllAllowed ajv ((call.prog ajv).run s).state calls

/-! ## 3. States -/

variable {s s' : TransactionRegistry} {ajv : Ajv} {schema : TransactionSchema}
  {internalType : InternalTransactionType} {constructor : TransactionConstructor}

theorem inStep_new : new.InStep := ⟨fun _ => rfl, rfl⟩

theorem consistent_new : new.Consistent := by
  refine ⟨fun id => ⟨fun h => (nomatch h), fun h => ?_⟩, fun h => (nomatch h)⟩
  obtain ⟨_, _, _, _, hlookup, _⟩ := h
  nomatch hlookup

theorem SameContents.refl (s : TransactionRegistry) : SameContents s s :=
  ⟨fun _ _ => rfl, fun _ => rfl, fun _ => rfl, fun _ => Iff.rfl⟩

theorem SameContents.consistent (h : SameContents s s') (hs : s.Consistent) : s'.Consistent := by
  refine ⟨fun id => ?_, fun hc hc' hkey => ?_⟩
  · rw [h.refs, hs.refs]
    unfold HasSchema
    simp only [h.types]
  · rw [h.types] at hc hc'
    exact hs.keys hc hc' hkey

theorem Updated.inStep (h : Updated schema s s') (hs : s.InStep) : s'.InStep := by
  refine ⟨fun id => ?_, h.refs⟩
  rw [h.ajv, h.schemas, hs.ajv]

/-- The id of a schema that is added is referred to, and so are all the others. -/
theorem Updated.mem_refs (h : Updated schema s s') (hs : s.InStep) (id : String) :
    id ∈ s'.transactions ↔ id = schema.id ∨ id ∈ s.transactions := by
  rw [h.refs, hs.refs, OrderedMap.mem_keys, OrderedMap.mem_keys]
  unfold OrderedMap.has
  rw [h.schemas]
  by_cases hid : id = schema.id
  · rw [if_pos hid]
    exact iff_of_true rfl (.inl hid)
  · rw [if_neg hid]
    exact ⟨.inr, fun h => h.resolve_left hid⟩

/-! ## 4. Registering -/

/-- All that a call can do which throws and leaves all as it was. -/
theorem meets_of_unchanged {call : RegistryCall} {e : Exception} (hs : s.Consistent)
    (h : (call.prog ajv).run s = .thrown e s) : CallMeets ajv s call := by
  unfold CallMeets
  rw [h]
  exact ⟨hs, fun _ => SameContents.refl s⟩

/-- A call that throws with another constructor in a place than before. -/
theorem not_meets_of_lookup {call : RegistryCall} {e : Exception}
    (h : (call.prog ajv).run s = .thrown e s') (internalType : InternalTransactionType)
    (version : Nat) (hne : s'.lookup internalType version ≠ s.lookup internalType version) :
    ¬CallMeets ajv s call := by
  unfold CallMeets
  rw [h]
  intro hmeets
  exact hne ((hmeets.2 rfl).types internalType version)

theorem setConstructor_hasSchema (hfree : s.lookup internalType constructor.version = none)
    (hschema : constructor.getSchema = some schema) (id : String) :
    (s.setConstructor internalType constructor).HasSchema id ↔ id = schema.id ∨ s.HasSchema id := by
  refine ⟨fun h => ?_, fun h => ?_⟩
  · obtain ⟨t, v, c, schema', hlookup, hc, hid⟩ := h
    rw [lookup_setConstructor] at hlookup
    split at hlookup
    · obtain rfl := Option.some.inj hlookup
      rw [hschema] at hc
      obtain rfl := Option.some.inj hc
      exact .inl hid.symm
    · exact .inr ⟨t, v, c, schema', hlookup, hc, hid⟩
  · rcases h with hid | ⟨t, v, c, schema', hlookup, hc, hid⟩
    · refine ⟨internalType, constructor.version, constructor, schema, ?_, hschema, hid.symm⟩
      rw [lookup_setConstructor, if_pos ⟨rfl, rfl⟩]
    · refine ⟨t, v, c, schema', ?_, hc, hid⟩
      rw [lookup_setConstructor, if_neg]
      · exact hlookup
      · intro hplace
        rw [hplace.1, hplace.2, hfree] at hlookup
        cases hlookup

theorem setConstructor_keys (hs : s.Consistent) (hkey : s.KeyFree internalType constructor)
    {t t' : InternalTransactionType} {v v' : Nat} {c c' : TransactionConstructor}
    (hc : (s.setConstructor internalType constructor).lookup t v = some c)
    (hc' : (s.setConstructor internalType constructor).lookup t' v' = some c')
    (heq : c.key = c'.key) : t = t' := by
  rw [lookup_setConstructor] at hc hc'
  split at hc
  · rename_i hplace
    obtain rfl := Option.some.inj hc
    split at hc'
    · rename_i hplace'
      rw [hplace.1, hplace'.1]
    · rw [hplace.1, hkey hc' heq.symm]
  · split at hc'
    · rename_i hplace'
      obtain rfl := Option.some.inj hc'
      rw [hplace'.1, hkey hc heq]
    · exact hs.keys hc hc' heq

theorem register_done (htype : internalTypeOf constructor = some internalType)
    (hrefusal : s.refusal internalType constructor = none)
    (h : s.Addable ajv constructor schema) :
    ∃ s', (registerTransactionType ajv constructor).run s = .done () s' ∧
      Updated schema (s.setConstructor internalType constructor) s' := by
  obtain ⟨hschema, hcompiles, hvalid⟩ := h
  have hcompiles' : (s.setConstructor internalType constructor).Compiles ajv schema.id := hcompiles
  obtain ⟨s', hrun, hupdated⟩ := updateSchemas_done hcompiles' hvalid false
  refine ⟨s', ?_, hupdated⟩
  rw [register_accepted htype hrefusal, Prog.run_bind_of_done (run_schemaOf hschema _), hrun]

/-- Without such a schema the constructor stays in, though the call throws. -/
theorem register_thrown (htype : internalTypeOf constructor = some internalType)
    (hrefusal : s.refusal internalType constructor = none)
    (h : ¬∃ schema, s.Addable ajv constructor schema) :
    ∃ e s', (registerTransactionType ajv constructor).run s = .thrown e s' ∧
      s'.lookup internalType constructor.version = some constructor := by
  have hset : (s.setConstructor internalType constructor).lookup internalType
      constructor.version = some constructor := by
    rw [lookup_setConstructor, if_pos ⟨rfl, rfl⟩]
  rw [register_accepted htype hrefusal]
  cases hschema : constructor.getSchema with
  | none =>
    obtain ⟨e, hrun⟩ := run_schemaOf_none hschema (s.setConstructor internalType constructor)
    exact ⟨e, _, Prog.run_bind_of_thrown hrun, hset⟩
  | some schema =>
    rw [Prog.run_bind_of_done (run_schemaOf hschema _)]
    by_cases hcompiles : (s.setConstructor internalType constructor).Compiles ajv schema.id
    · have hinvalid : ajv.invalid schema = true := by
        by_contra hvalid
        exact h ⟨schema, hschema, hcompiles, Bool.not_eq_true _ ▸ hvalid⟩
      obtain ⟨e, s', hrun, htypes, _⟩ := updateSchemas_invalid hcompiles hinvalid false
      refine ⟨e, s', hrun, ?_⟩
      unfold lookup at hset ⊢
      rw [htypes, hset]
    · obtain ⟨e, hrun⟩ := updateSchemas_unknown hcompiles false
      exact ⟨e, _, hrun, hset⟩

theorem consistent_register_iff (hstep : s.InStep) (hs : s.Consistent)
    (hfree : s.lookup internalType constructor.version = none)
    (hschema : constructor.getSchema = some schema)
    (h : Updated schema (s.setConstructor internalType constructor) s') :
    s'.Consistent ↔ s.KeyFree internalType constructor := by
  have hset : s'.lookup internalType constructor.version = some constructor := by
    rw [h.lookup_eq, lookup_setConstructor, if_pos ⟨rfl, rfl⟩]
  refine ⟨fun hs' t v c hc hkey => ?_, fun hkey => ⟨fun id => ?_, fun hc hc' heq => ?_⟩⟩
  · by_cases hplace : t = internalType ∧ v = constructor.version
    · exact hplace.1
    · have hc' : s'.lookup t v = some c := by
        rw [h.lookup_eq, lookup_setConstructor, if_neg hplace, hc]
      exact hs'.keys hc' hset hkey
  · have hstep' : (s.setConstructor internalType constructor).InStep := ⟨hstep.ajv, hstep.refs⟩
    have hhas : s'.HasSchema id ↔ (s.setConstructor internalType constructor).HasSchema id := by
      unfold HasSchema
      simp only [h.lookup_eq]
    rw [h.mem_refs hstep', hhas, setConstructor_hasSchema hfree hschema, ← hs.refs]
    rfl
  · rw [h.lookup_eq] at hc hc'
    exact setConstructor_keys hs hkey hc hc' heq

/-- A call that throws and changes nothing is one that may be made. -/
theorem iff_of_unchanged {call : RegistryCall} {e : Exception} (hstep : s.InStep)
    (hs : s.Consistent) (hrun : (call.prog ajv).run s = .thrown e s) (h : s.Allowed ajv call) :
    (CallMeets ajv s call ↔ s.Allowed ajv call) ∧
      (s.Allowed ajv call → ((call.prog ajv).run s).state.InStep) := by
  refine ⟨iff_of_true (meets_of_unchanged hs hrun) h, fun _ => ?_⟩
  rw [hrun]
  exact hstep

/-- **One registration** meets what is asked of it exactly when it is allowed. -/
theorem register_iff (hstep : s.InStep) (hs : s.Consistent) (constructor : TransactionConstructor) :
    (CallMeets ajv s (.register constructor) ↔ s.Allowed ajv (.register constructor)) ∧
      (s.Allowed ajv (.register constructor) →
        ((registerTransactionType ajv constructor).run s).state.InStep) := by
  cases htype : internalTypeOf constructor with
  | none =>
    refine iff_of_unchanged hstep hs (register_untyped htype) fun t ht => ?_
    rw [htype] at ht
    cases ht
  | some internalType =>
    have hsome : ∀ t, internalTypeOf constructor = some t → t = internalType := fun t ht =>
      (Option.some.inj (htype.symm.trans ht)).symm
    cases hrefusal : s.refusal internalType constructor with
    | some e =>
      refine iff_of_unchanged hstep hs (register_refused htype hrefusal) fun t ht hnone => ?_
      rw [hsome t ht, hrefusal] at hnone
      cases hnone
    | none =>
      have hfree := lookup_of_refusal hrefusal
      have hallowed : s.Allowed ajv (.register constructor) ↔
          s.KeyFree internalType constructor ∧ ∃ schema, s.Addable ajv constructor schema :=
        ⟨fun h => h internalType htype hrefusal, fun h t ht _ => hsome t ht ▸ h⟩
      by_cases haddable : ∃ schema, s.Addable ajv constructor schema
      · obtain ⟨schema, hadd⟩ := haddable
        obtain ⟨s', hrun, hupdated⟩ := register_done htype hrefusal hadd
        have hmeets : CallMeets ajv s (.register constructor) ↔ s'.Consistent := by
          unfold CallMeets RegistryCall.prog
          rw [hrun]
          exact ⟨And.left, fun h => ⟨h, fun hfalse => (nomatch hfalse)⟩⟩
        refine ⟨?_, fun _ => ?_⟩
        · rw [hmeets, hallowed, consistent_register_iff hstep hs hfree hadd.1 hupdated]
          exact ⟨fun h => ⟨h, schema, hadd⟩, And.left⟩
        · rw [hrun]
          exact hupdated.inStep ⟨hstep.ajv, hstep.refs⟩
      · obtain ⟨e, s', hrun, hset⟩ := register_thrown htype hrefusal haddable
        have hnot : ¬CallMeets ajv s (.register constructor) := by
          refine not_meets_of_lookup hrun internalType constructor.version ?_
          rw [hset, hfree]
          exact Option.some_ne_none _
        refine ⟨iff_of_false hnot fun h => haddable (hallowed.1 h).2, fun h => ?_⟩
        exact absurd (hallowed.1 h).2 haddable

/-! ## 5. Deregistering -/

/-- The state after the schemas, if the version is there. -/
theorem consistent_deregister_iff {d : TransactionConstructor} {version : Nat} (hstep : s.InStep)
    (hs : s.Consistent) (hd : s.lookup internalType version = some d)
    (h : Updated schema s s') :
    (s'.deleteConstructor internalType version).Consistent ↔
      s.Needed internalType version schema.id ∧
        ∀ schema', d.getSchema = some schema' → s.Needed internalType version schema'.id := by
  have hlookup : ∀ t v, (s'.deleteConstructor internalType version).lookup t v =
      if t = internalType ∧ v = version then none else s.lookup t v := by
    intro t v
    rw [lookup_deleteConstructor, h.lookup_eq]
  have hhas : ∀ id, (s'.deleteConstructor internalType version).HasSchema id ↔
      s.Needed internalType version id := by
    intro id
    refine ⟨fun hid => ?_, fun hid => ?_⟩
    · obtain ⟨t, v, c, schema', hc, hschema, hid⟩ := hid
      rw [hlookup] at hc
      split at hc
      · cases hc
      · rename_i hplace
        exact ⟨t, v, c, schema', hplace, hc, hschema, hid⟩
    · obtain ⟨t, v, c, schema', hplace, hc, hschema, hid⟩ := hid
      refine ⟨t, v, c, schema', ?_, hschema, hid⟩
      rw [hlookup, if_neg hplace, hc]
  have hrefs : ∀ id, id ∈ (s'.deleteConstructor internalType version).transactions ↔
      id = schema.id ∨ s.HasSchema id := by
    intro id
    rw [← hs.refs]
    exact h.mem_refs hstep id
  refine ⟨fun hs' => ⟨?_, fun schema' hschema' => ?_⟩, fun hneeded => ⟨fun id => ?_, ?_⟩⟩
  · rw [← hhas, ← hs'.refs, hrefs]
    exact .inl rfl
  · rw [← hhas, ← hs'.refs, hrefs]
    exact .inr ⟨internalType, version, d, schema', hd, hschema', rfl⟩
  · rw [hrefs, hhas]
    refine ⟨fun hid => ?_, fun hid => ?_⟩
    · rcases hid with rfl | ⟨t, v, c, schema', hc, hschema, hid⟩
      · exact hneeded.1
      · by_cases hplace : t = internalType ∧ v = version
        · rw [hplace.1, hplace.2, hd] at hc
          obtain rfl := Option.some.inj hc
          exact hid ▸ hneeded.2 schema' hschema
        · exact ⟨t, v, c, schema', hplace, hc, hschema, hid⟩
    · obtain ⟨t, v, c, schema', _, hc, hschema, hid⟩ := hid
      exact .inr ⟨t, v, c, schema', hc, hschema, hid⟩
  · intro t t' v v' c c' hc hc' heq
    rw [hlookup] at hc hc'
    split at hc
    · cases hc
    · split at hc'
      · cases hc'
      · exact hs.keys hc hc' heq

/-- If it is not, the call throws, and it makes a difference unless the schema was there. -/
theorem sameContents_iff (hstep : s.InStep) (h : Updated schema s s') :
    SameContents s s' ↔ s.transactionSchemas.get? schema.id = some schema := by
  refine ⟨fun hsame => ?_, fun hthere => ?_⟩
  · rw [← hsame.schemas, h.schemas, if_pos rfl]
  · have hset : ∀ id, (if id = schema.id then some schema else s.transactionSchemas.get? id) =
        s.transactionSchemas.get? id := by
      intro id
      by_cases hid : id = schema.id
      · rw [if_pos hid, hid, hthere]
      · rw [if_neg hid]
    refine ⟨h.lookup_eq, fun id => ?_, fun id => ?_, fun id => ?_⟩
    · rw [h.schemas, hset]
    · rw [h.ajv, hstep.ajv, hset]
    · rw [h.mem_refs hstep]
      refine ⟨fun hid => ?_, .inr⟩
      rcases hid with rfl | hid
      · rw [hstep.refs, OrderedMap.mem_keys]
        unfold OrderedMap.has
        rw [hthere]
        rfl
      · exact hid

/-- A deregistration that gets to the schemas. -/
theorem replace_iff (hstep : s.InStep) (hs : s.Consistent)
    (hcompiles : s.Compiles ajv schema.id)
    (hrun : (deregisterTransactionType ajv constructor).run s =
      (updateSchemas ajv schema true >>= fun _ =>
        removeConstructor internalType constructor.version).run s) :
    (CallMeets ajv s (.deregister constructor) ↔
        s.ReplaceAllowed ajv internalType constructor.version schema) ∧
      (s.ReplaceAllowed ajv internalType constructor.version schema →
        ((deregisterTransactionType ajv constructor).run s).state.InStep) := by
  cases hinvalid : ajv.invalid schema with
  | true =>
    obtain ⟨e, s', hthrown, htypes, hthere, hmissing⟩ :=
      updateSchemas_invalid hcompiles hinvalid true
    rw [Prog.run_bind_of_thrown hthrown] at hrun
    have hnot : ¬s.ReplaceAllowed ajv internalType constructor.version schema := by
      intro h
      rw [h.1] at hinvalid
      cases hinvalid
    refine ⟨iff_of_false (fun hmeets => ?_) hnot, fun h => absurd h hnot⟩
    unfold CallMeets RegistryCall.prog at hmeets
    rw [hrun] at hmeets
    have hsame := hmeets.2 rfl
    -- the registry has the schema and the validator has not, which was not so before
    have hboth : s.transactionSchemas.get? schema.id = some schema := by
      rw [← hsame.schemas]
      exact hthere
    rw [← hstep.ajv, ← hsame.ajv] at hboth
    have hnone := hmissing.symm.trans hboth
    cases hnone
  | false =>
    obtain ⟨s', hdone, hupdated⟩ := updateSchemas_done hcompiles hinvalid true
    have hinstep := hupdated.inStep hstep
    rw [Prog.run_bind_of_done hdone] at hrun
    cases hlookup : s.lookup internalType constructor.version with
    | none =>
      have hlookup' : s'.lookup internalType constructor.version = none := by
        rw [hupdated.lookup_eq, hlookup]
      rw [removeConstructor_unknown hlookup'] at hrun
      have hmeets : CallMeets ajv s (.deregister constructor) ↔
          s.transactionSchemas.get? schema.id = some schema := by
        rw [← sameContents_iff hstep hupdated]
        unfold CallMeets RegistryCall.prog
        rw [hrun]
        exact ⟨fun h => h.2 rfl, fun h => ⟨h.consistent hs, fun _ => h⟩⟩
      refine ⟨hmeets.trans ⟨fun h => ⟨hinvalid, fun _ => h, fun d hd => ?_⟩, fun h => ?_⟩,
        fun _ => ?_⟩
      · rw [hlookup] at hd
        cases hd
      · exact h.2.1 hlookup
      · rw [hrun]
        exact hinstep
    | some d =>
      have hlookup' : s'.lookup internalType constructor.version = some d := by
        rw [hupdated.lookup_eq, hlookup]
      rw [removeConstructor_known hlookup'] at hrun
      have hmeets : CallMeets ajv s (.deregister constructor) ↔
          (s'.deleteConstructor internalType constructor.version).Consistent := by
        unfold CallMeets RegistryCall.prog
        rw [hrun]
        exact ⟨And.left, fun h => ⟨h, fun hfalse => (nomatch hfalse)⟩⟩
      rw [consistent_deregister_iff hstep hs hlookup hupdated] at hmeets
      refine ⟨hmeets.trans ⟨fun h => ⟨hinvalid, fun hnone => ?_, fun d' hd' => ?_⟩, fun h => ?_⟩,
        fun _ => ?_⟩
      · rw [hlookup] at hnone
        cases hnone
      · rw [hlookup] at hd'
        obtain rfl := Option.some.inj hd'
        exact h
      · exact h.2.2 d hlookup
      · rw [hrun]
        exact ⟨hinstep.ajv, hinstep.refs⟩

/-- **One deregistration** meets what is asked of it exactly when it is allowed. -/
theorem deregister_iff (hstep : s.InStep) (hs : s.Consistent)
    (constructor : TransactionConstructor) :
    (CallMeets ajv s (.deregister constructor) ↔ s.Allowed ajv (.deregister constructor)) ∧
      (s.Allowed ajv (.deregister constructor) →
        ((deregisterTransactionType ajv constructor).run s).state.InStep) := by
  cases htype : internalTypeOf constructor with
  | none =>
    refine iff_of_unchanged hstep hs (deregister_untyped htype) fun t schema ht => ?_
    rw [htype] at ht
    cases ht
  | some internalType =>
    have hsome : ∀ t, internalTypeOf constructor = some t → t = internalType := fun t ht =>
      (Option.some.inj (htype.symm.trans ht)).symm
    by_cases hhas : s.transactionTypes.has internalType = true
    · have hrun : (deregisterTransactionType ajv constructor).run s = _ :=
        deregister_known htype hhas
      cases hschema : constructor.getSchema with
      | none =>
        obtain ⟨e, hthrown⟩ := run_schemaOf_none hschema s
        rw [Prog.run_bind_of_thrown hthrown] at hrun
        refine iff_of_unchanged hstep hs hrun fun t schema ht _ hsc => ?_
        rw [hschema] at hsc
        cases hsc
      | some schema =>
        rw [Prog.run_bind_of_done (run_schemaOf hschema s)] at hrun
        by_cases hcompiles : s.Compiles ajv schema.id
        · have hallowed : s.Allowed ajv (.deregister constructor) ↔
              s.ReplaceAllowed ajv internalType constructor.version schema := by
            refine ⟨fun h => h internalType schema htype hhas hschema hcompiles, ?_⟩
            intro h t schema' ht _ hsc _
            obtain rfl := Option.some.inj (hschema.symm.trans hsc)
            exact hsome t ht ▸ h
          rw [hallowed]
          exact replace_iff hstep hs hcompiles hrun
        · obtain ⟨e, hthrown⟩ := updateSchemas_unknown hcompiles true
          rw [Prog.run_bind_of_thrown hthrown] at hrun
          refine iff_of_unchanged hstep hs hrun fun t schema' ht _ hsc hc => ?_
          rw [hschema] at hsc
          obtain rfl := Option.some.inj hsc
          exact absurd hc hcompiles
    · have hfalse := Bool.not_eq_true _ ▸ hhas
      refine iff_of_unchanged hstep hs (deregister_unknown htype hfalse) fun t schema ht ht' => ?_
      rw [hsome t ht] at ht'
      exact absurd ht' hhas

/-! ## 6. Sequences -/

theorem call_iff (ajv : Ajv) (hstep : s.InStep) (hs : s.Consistent) (call : RegistryCall) :
    (CallMeets ajv s call ↔ s.Allowed ajv call) ∧
      (s.Allowed ajv call → ((call.prog ajv).run s).state.InStep) := by
  cases call with
  | register constructor => exact register_iff hstep hs constructor
  | deregister constructor => exact deregister_iff hstep hs constructor

theorem allMeet_iff (hstep : s.InStep) (hs : s.Consistent) (calls : List RegistryCall) :
    AllMeet ajv s calls ↔ AllAllowed ajv s calls := by
  induction calls generalizing s with
  | nil => exact Iff.rfl
  | cons call calls ih =>
    obtain ⟨hcall, hinstep⟩ := call_iff ajv hstep hs call
    refine ⟨fun hmeet => ?_, fun hallowed => ?_⟩
    · have hallowed := hcall.1 hmeet.1
      exact ⟨hallowed, (ih (hinstep hallowed) hmeet.1.1).1 hmeet.2⟩
    · have hmeets := hcall.2 hallowed.1
      exact ⟨hmeets, (ih (hinstep hallowed.1) hmeets.1).2 hallowed.2⟩

/-- **The sequences of calls after which all is as it should be**: those in which every registration
    that is not refused has a schema that can be added and a key that is free, and every
    deregistration that gets to the schemas leaves none behind that nobody needs. -/
theorem registryCalls_iff (ajv : Ajv) (calls : List RegistryCall) :
    AllMeet ajv .new calls ↔ AllAllowed ajv .new calls :=
  allMeet_iff inStep_new consistent_new calls

namespace Sample

/-- A transfer. -/
def transfer : TransactionConstructor where
  ref := 0
  name := "TransferTransaction"
  typeGroup := some 1
  type := some 0
  version := 1
  key := some "transfer"
  getSchema := some ⟨"transfer", ""⟩

/-- A validator that takes everything. -/
def lenient : Ajv := ⟨fun _ => false, fun _ _ => false⟩

/-- Both calls with the transfer, one after the other. -/
def registered : TransactionRegistry :=
  ((RegistryCall.prog lenient (.register transfer)).run .new).state

def deregistered : TransactionRegistry :=
  ((RegistryCall.prog lenient (.deregister transfer)).run registered).state

end Sample

/-- **A type that is registered and deregistered** is still one that the node accepts. -/
theorem registryCalls_not : ¬ ∀ (ajv : Ajv) (calls : List RegistryCall),
    DistinctIds calls → AllMeet ajv .new calls := by
  intro h
  have hdistinct : DistinctIds [.register Sample.transfer, .deregister Sample.transfer] := by
    intro call hcall call' hcall' _ _ _ _ _
    have hkey : ∀ call ∈ [RegistryCall.register Sample.transfer, .deregister Sample.transfer],
        call.constructor.key = some "transfer" := by decide
    rw [hkey call hcall, hkey call' hcall']
  have hmeets := h Sample.lenient _ hdistinct
  have hconsistent : Sample.deregistered.Consistent := hmeets.2.1.1
  have hempty : Sample.deregistered.transactionTypes = OrderedMap.empty :=
    OrderedMap.eq_empty (by decide)
  have hthere : "transfer" ∈ Sample.deregistered.transactions := by decide
  obtain ⟨_, _, _, _, hlookup, _⟩ := (hconsistent.refs "transfer").1 hthere
  unfold lookup at hlookup
  rw [hempty] at hlookup
  cases hlookup

end TransactionRegistry

end CoreEx

/-
  File:      CoreEx/Crypto/TransactionRegistry.lean
  Subject:   `core-crypto-transaction/source/registry.ts`: the types of transactions, and the schema
             that says what a transaction may look like.

  Types and schemas are kept apart. The schema of a constructor stands here for itself and the two
  that are derived of it, which the validator gets and loses together with it.

  * `TransactionConstructor`, `TransactionRegistry` -- the data;
  * `registerTransactionType`, `deregisterTransactionType` -- the code; the one routine
    `updateSchemas` adds a schema in both;
  * `refusal` -- what a registration is refused for;
  * `lookup` -- the constructor that is registered for a type and a version;
  * `updateSchemas_done`, `updateSchemas_unknown`, `updateSchemas_invalid` -- the three ways in
    which the schemas can change, or not;
  * `register_accepted`, `deregister_known` -- all the two calls do.
-/
import CoreEx.Contracts.Exceptions
import CoreEx.Crypto.Data
import CoreEx.Lib.OrderedMap
import CoreEx.Lib.Prog

namespace CoreEx

/-! ## 1. The code -/

/-- `ITransactionSchema`: its `$id`, and all else as a text. -/
structure TransactionSchema where
  id : String
  contents : String
  deriving DecidableEq, Repr

/-- `TransactionConstructor`: the static fields of a class. Two classes differ in `ref`. -/
structure TransactionConstructor where
  ref : Nat
  name : String
  typeGroup : Option Nat
  type : Option Nat
  version : Nat
  key : Option String
  /-- `getSchema()`; the base class throws. -/
  getSchema : Option TransactionSchema
  deriving DecidableEq, Repr

/-- The registry, and what it puts into the validator. -/
structure TransactionRegistry where
  transactionTypes : OrderedMap InternalTransactionType (OrderedMap Nat TransactionConstructor)
  transactionSchemas : OrderedMap String TransactionSchema
  /-- The schemas the validator knows under their ids. -/
  ajv : OrderedMap String TransactionSchema
  /-- The ids that the validator's schema `transactions` refers to. -/
  transactions : List String

/-- When the validator throws; which schemas it knows may matter where it looks one up. -/
structure Ajv where
  invalid : TransactionSchema → Bool
  uncompilable : OrderedMap String TransactionSchema → TransactionSchema → Bool

/-- Code that works on the registry and may throw. -/
abbrev RegistryProg : Type → Type := Prog TransactionRegistry Exception

namespace TransactionRegistry

/-- A new registry. -/
def new : TransactionRegistry := ⟨OrderedMap.empty, OrderedMap.empty, OrderedMap.empty, []⟩

/-- `ajv.removeSchema(schema.$id)` and `#transactionSchemas.delete(schema.$id)`. -/
def removeSchema (id : String) (s : TransactionRegistry) : TransactionRegistry :=
  { s with transactionSchemas := s.transactionSchemas.delete id, ajv := s.ajv.delete id }

/-- The schema is not known under this id, or the validator can compile it. -/
def Compiles (ajv : Ajv) (id : String) (s : TransactionRegistry) : Prop :=
  (s.ajv.get? id).any (ajv.uncompilable s.ajv) = false

instance (ajv : Ajv) (id : String) (s : TransactionRegistry) : Decidable (s.Compiles ajv id) :=
  inferInstanceAs (Decidable (_ = _))

/-- `ajv.getSchema(id)`, which compiles the schema: is there one? -/
def getSchema (ajv : Ajv) (id : String) : RegistryProg Bool := do
  let compiles ← Prog.gets fun s => decide (s.Compiles ajv id)
  Prog.throwIf (compiles = false) (.error "can't resolve reference")
  Prog.gets fun s => s.ajv.has id

/-- `ajv.addSchema(schema)`; the validator throws when it finds the schema invalid. -/
def addSchema (ajv : Ajv) (schema : TransactionSchema) : RegistryProg Unit := do
  Prog.throwIf (ajv.invalid schema = true) (.error "schema is invalid")
  Prog.modify fun s => { s with ajv := s.ajv.set schema.id schema }

/-- `#updateSchemas(schema, remove)`. -/
def updateSchemas (ajv : Ajv) (schema : TransactionSchema) (remove : Bool) :
    RegistryProg Unit := do
  let known ← getSchema ajv schema.id
  Prog.when ((known || remove) = true) (Prog.modify (removeSchema schema.id))
  Prog.modify fun s => { s with transactionSchemas := s.transactionSchemas.set schema.id schema }
  addSchema ajv schema
  Prog.modify fun s => { s with transactions := s.transactionSchemas.keys }

/-- What the first loop of `registerTransactionType` throws for the constructors of one type. -/
def keyRefusal (internalType : InternalTransactionType) (constructor : TransactionConstructor)
    (registeredConstructors : OrderedMap Nat TransactionConstructor) : Option Exception :=
  match registeredConstructors.values with
  | [] => none
  | first :: others =>
    if first.key = constructor.key ∧
        first.type.map (InternalTransactionType.from · first.typeGroup) ≠ some internalType then
      some (.error ("Transaction key " ++ first.key.getD "undefined" ++ " is already registered."))
    else if constructor ∈ first :: others then
      some (.error s!"Transaction type {constructor.name} is already registered.")
    else none

/-- The checks of `registerTransactionType`. -/
def refusal (s : TransactionRegistry) (internalType : InternalTransactionType)
    (constructor : TransactionConstructor) : Option Exception :=
  match s.transactionTypes.values.findSome? (keyRefusal internalType constructor) with
  | some e => some e
  | none =>
    match s.transactionTypes.get? internalType with
    | none => none
    | some constructors =>
      if constructors.has constructor.version then
        some (.error (s!"Transaction type {constructor.name} is already registered in version " ++
          s!"{constructor.version}."))
      else none

/-- `#transactionTypes.get(internalType)!.set(constructor.version, constructor)`, in a new map where
    there is none. -/
def setConstructor (internalType : InternalTransactionType) (constructor : TransactionConstructor)
    (s : TransactionRegistry) : TransactionRegistry :=
  let constructors := (s.transactionTypes.get? internalType).getD OrderedMap.empty
  { s with transactionTypes :=
      s.transactionTypes.set internalType (constructors.set constructor.version constructor) }

/-- `constructors.delete(version)`, and the type without its last constructor. -/
def deleteConstructor (internalType : InternalTransactionType) (version : Nat)
    (s : TransactionRegistry) : TransactionRegistry :=
  let constructors := ((s.transactionTypes.get? internalType).getD OrderedMap.empty).delete version
  { s with transactionTypes :=
      if constructors.size = 0 then s.transactionTypes.delete internalType
      else s.transactionTypes.set internalType constructors }

/-- `constructor.getSchema()`. The base class puts its own name, which is that of a function, in the
    place of the method's. -/
def schemaOf (constructor : TransactionConstructor) : RegistryProg TransactionSchema :=
  match constructor.getSchema with
  | some schema => pure schema
  | none => Prog.throw (.error "Method [Function] is not implemented in [getSchema].")

/-- `InternalTransactionType.from(type, typeGroup)`, where the class has both. -/
def internalTypeOf (constructor : TransactionConstructor) : Option InternalTransactionType :=
  match constructor.type, constructor.typeGroup with
  | some type, some typeGroup => some (.from type (some typeGroup))
  | _, _ => none

/-- `registerTransactionType(constructor)`. -/
def registerTransactionType (ajv : Ajv) (constructor : TransactionConstructor) :
    RegistryProg Unit :=
  match internalTypeOf constructor with
  | none => Prog.throw (.typeError "")
  | some internalType => do
    let refused ← Prog.gets fun s => s.refusal internalType constructor
    match refused with
    | some e => Prog.throw e
    | none => do
      Prog.modify (setConstructor internalType constructor)
      let schema ← schemaOf constructor
      updateSchemas ajv schema false

/-- `deregisterTransactionType(constructor)`. -/
def deregisterTransactionType (ajv : Ajv) (constructor : TransactionConstructor) :
    RegistryProg Unit :=
  match internalTypeOf constructor with
  | none => Prog.throw (.typeError "")
  | some internalType => do
    let known ← Prog.gets fun s => s.transactionTypes.has internalType
    Prog.throwIf (known = false) (.unkownTransaction internalType)
    let schema ← schemaOf constructor
    updateSchemas ajv schema true
    let registered ← Prog.gets fun s =>
      ((s.transactionTypes.get? internalType).getD OrderedMap.empty).has constructor.version
    Prog.throwIf (registered = false) (.unkownTransaction internalType)
    Prog.modify (deleteConstructor internalType constructor.version)

/-! ## 2. What the parts do -/

/-- The constructor that is registered for a type and a version. -/
def lookup (s : TransactionRegistry) (internalType : InternalTransactionType) (version : Nat) :
    Option TransactionConstructor :=
  (s.transactionTypes.get? internalType).bind (·.get? version)

variable {s s' : TransactionRegistry} {ajv : Ajv} {schema : TransactionSchema}
  {internalType : InternalTransactionType} {constructor : TransactionConstructor}

theorem getD_has (s : TransactionRegistry) (internalType : InternalTransactionType)
    (version : Nat) : ((s.transactionTypes.get? internalType).getD OrderedMap.empty).has version =
      (s.lookup internalType version).isSome := by
  unfold lookup
  cases s.transactionTypes.get? internalType with
  | none => rfl
  | some constructors => rfl

theorem lookup_setConstructor (internalType' : InternalTransactionType) (version : Nat) :
    (s.setConstructor internalType constructor).lookup internalType' version =
      if internalType' = internalType ∧ version = constructor.version then some constructor
      else s.lookup internalType' version := by
  unfold lookup setConstructor
  dsimp only
  rw [OrderedMap.get?_set]
  by_cases htype : internalType' = internalType
  · subst htype
    rw [if_pos rfl, Option.bind_some, OrderedMap.get?_set]
    by_cases hversion : version = constructor.version
    · rw [if_pos hversion, if_pos ⟨rfl, hversion⟩]
    · rw [if_neg hversion, if_neg fun h => hversion h.2]
      cases s.transactionTypes.get? internalType' with
      | none => rfl
      | some constructors => rfl
  · rw [if_neg htype, if_neg fun h => htype h.1]

theorem lookup_deleteConstructor (version : Nat) (internalType' : InternalTransactionType)
    (version' : Nat) :
    (s.deleteConstructor internalType version).lookup internalType' version' =
      if internalType' = internalType ∧ version' = version then none
      else s.lookup internalType' version' := by
  have hinner : (((s.transactionTypes.get? internalType).getD OrderedMap.empty).delete
      version).get? version' =
      if version' = version then none else s.lookup internalType version' := by
    rw [OrderedMap.get?_delete]
    unfold lookup
    cases s.transactionTypes.get? internalType with
    | none => rfl
    | some constructors => rfl
  unfold deleteConstructor lookup
  dsimp only
  by_cases htype : internalType' = internalType
  · subst htype
    have hgoal : (if internalType' = internalType' ∧ version' = version then none
        else (s.transactionTypes.get? internalType').bind (·.get? version')) =
        if version' = version then none else s.lookup internalType' version' :=
      if_congr ⟨And.right, fun h => ⟨rfl, h⟩⟩ rfl rfl
    rw [hgoal, ← hinner]
    by_cases hempty : (((s.transactionTypes.get? internalType').getD OrderedMap.empty).delete
        version).size = 0
    · rw [if_pos hempty, OrderedMap.get?_delete, if_pos rfl, OrderedMap.eq_empty hempty]
      rfl
    · rw [if_neg hempty, OrderedMap.get?_set_self]
      rfl
  · have hnot : ¬(internalType' = internalType ∧ version' = version) := fun h => htype h.1
    rw [if_neg hnot]
    by_cases hempty : (((s.transactionTypes.get? internalType).getD OrderedMap.empty).delete
        version).size = 0
    · rw [if_pos hempty, OrderedMap.get?_delete, if_neg htype]
    · rw [if_neg hempty, OrderedMap.get?_set_of_ne _ _ htype]

/-- A registration that is not refused is one of a version that is not there. -/
theorem lookup_of_refusal (h : s.refusal internalType constructor = none) :
    s.lookup internalType constructor.version = none := by
  unfold refusal at h
  unfold lookup
  split at h
  · cases h
  · split at h
    · rename_i hnone
      rw [hnone]
      rfl
    · rename_i constructors hsome
      split at h
      · cases h
      · rename_i hnot
        rw [hsome]
        exact OrderedMap.has_eq_false.1 (Bool.not_eq_true _ ▸ hnot)

/-- The schema is in both collections, and all of them are referred to. -/
structure Updated (schema : TransactionSchema) (s s' : TransactionRegistry) : Prop where
  types : s'.transactionTypes = s.transactionTypes
  schemas : ∀ x, s'.transactionSchemas.get? x =
    if x = schema.id then some schema else s.transactionSchemas.get? x
  ajv : ∀ x, s'.ajv.get? x = if x = schema.id then some schema else s.ajv.get? x
  refs : s'.transactions = s'.transactionSchemas.keys

theorem Updated.lookup_eq (h : Updated schema s s') (internalType : InternalTransactionType)
    (version : Nat) : s'.lookup internalType version = s.lookup internalType version := by
  unfold lookup
  rw [h.types]

/-- What is there before the schema is set. -/
def cleared (schema : TransactionSchema) (remove : Bool) (s : TransactionRegistry) :
    TransactionRegistry :=
  if (s.ajv.has schema.id || remove) = true then removeSchema schema.id s else s

/-- What is there when the validator gets the schema. -/
def withSchema (schema : TransactionSchema) (remove : Bool) (s : TransactionRegistry) :
    TransactionRegistry :=
  { cleared schema remove s with
    transactionSchemas := (cleared schema remove s).transactionSchemas.set schema.id schema }

/-- What is there when it has accepted it. -/
def added (schema : TransactionSchema) (s : TransactionRegistry) : TransactionRegistry :=
  { s with ajv := s.ajv.set schema.id schema, transactions := s.transactionSchemas.keys }

theorem run_updateSchemas (hcompiles : s.Compiles ajv schema.id) (remove : Bool) :
    (updateSchemas ajv schema remove).run s =
      (addSchema ajv schema >>= fun _ =>
        Prog.modify fun s => { s with transactions := s.transactionSchemas.keys } :
          RegistryProg Unit).run (withSchema schema remove s) := by
  have hgets : (Prog.gets fun s => decide (s.Compiles ajv schema.id) : RegistryProg Bool).run s =
      .done true s := by
    rw [Prog.run_gets, decide_eq_true hcompiles]
  have hget : (getSchema ajv schema.id).run s = .done (s.ajv.has schema.id) s := by
    unfold getSchema
    rw [Prog.run_bind_of_done hgets]
    rfl
  have hwhen : (Prog.when ((s.ajv.has schema.id || remove) = true)
      (Prog.modify (removeSchema schema.id)) : RegistryProg Unit).run s =
      .done () (cleared schema remove s) := by
    unfold Prog.when cleared
    split <;> rfl
  unfold updateSchemas
  rw [Prog.run_bind_of_done hget, Prog.run_bind_of_done hwhen]
  rfl

/-- The validator looks the id up before anything changes. -/
theorem updateSchemas_unknown (hcompiles : ¬s.Compiles ajv schema.id) (remove : Bool) :
    ∃ e, (updateSchemas ajv schema remove).run s = .thrown e s := by
  have hgets : (Prog.gets fun s => decide (s.Compiles ajv schema.id) : RegistryProg Bool).run s =
      .done false s := by
    rw [Prog.run_gets, decide_eq_false hcompiles]
  have hget : (getSchema ajv schema.id).run s =
      .thrown (.error "can't resolve reference") s := by
    unfold getSchema
    rw [Prog.run_bind_of_done hgets]
    rfl
  exact ⟨_, Prog.run_bind_of_thrown hget⟩

theorem get?_cleared (remove : Bool) {x : String} (hne : x ≠ schema.id) :
    (cleared schema remove s).transactionSchemas.get? x = s.transactionSchemas.get? x ∧
      (cleared schema remove s).ajv.get? x = s.ajv.get? x := by
  unfold cleared
  split
  · unfold removeSchema
    dsimp only
    rw [OrderedMap.get?_delete, if_neg hne, OrderedMap.get?_delete, if_neg hne]
    exact ⟨rfl, rfl⟩
  · exact ⟨rfl, rfl⟩

theorem types_cleared (schema : TransactionSchema) (remove : Bool) (s : TransactionRegistry) :
    (cleared schema remove s).transactionTypes = s.transactionTypes := by
  unfold cleared
  split <;> rfl

/-- **A schema that the validator accepts** is added whether it is to be removed or not. -/
theorem updateSchemas_done (hcompiles : s.Compiles ajv schema.id)
    (hvalid : ajv.invalid schema = false) (remove : Bool) :
    ∃ s', (updateSchemas ajv schema remove).run s = .done () s' ∧ Updated schema s s' := by
  have hthrow : ∀ s : TransactionRegistry,
      (Prog.throwIf (ajv.invalid schema = true) (.error "schema is invalid") :
        RegistryProg Unit).run s = .done () s := by
    intro s
    unfold Prog.throwIf Prog.when
    rw [if_neg (by rw [hvalid]; exact Bool.false_ne_true)]
    rfl
  have hadd : ∀ s : TransactionRegistry, (addSchema ajv schema).run s =
      .done () { s with ajv := s.ajv.set schema.id schema } := by
    intro s
    unfold addSchema
    rw [Prog.run_bind_of_done (hthrow s)]
    rfl
  refine ⟨added schema (withSchema schema remove s), ?_, ?_⟩
  · rw [run_updateSchemas hcompiles, Prog.run_bind_of_done (hadd _)]
    rfl
  · refine ⟨types_cleared schema remove s, fun x => ?_, fun x => ?_, rfl⟩
    · show ((cleared schema remove s).transactionSchemas.set schema.id schema).get? x = _
      rw [OrderedMap.get?_set]
      by_cases hx : x = schema.id
      · rw [if_pos hx, if_pos hx]
      · rw [if_neg hx, if_neg hx, (get?_cleared remove hx).1]
    · show ((cleared schema remove s).ajv.set schema.id schema).get? x = _
      rw [OrderedMap.get?_set]
      by_cases hx : x = schema.id
      · rw [if_pos hx, if_pos hx]
      · rw [if_neg hx, if_neg hx, (get?_cleared remove hx).2]

/-- One that it refuses is in the registry's own collection only. -/
theorem updateSchemas_invalid (hcompiles : s.Compiles ajv schema.id)
    (hinvalid : ajv.invalid schema = true) (remove : Bool) :
    ∃ e s', (updateSchemas ajv schema remove).run s = .thrown e s' ∧
      s'.transactionTypes = s.transactionTypes ∧
      s'.transactionSchemas.get? schema.id = some schema ∧ s'.ajv.get? schema.id = none := by
  have hthrow : ∀ s : TransactionRegistry,
      (addSchema ajv schema).run s = .thrown (.error "schema is invalid") s := by
    intro s
    unfold addSchema Prog.throwIf Prog.when
    rw [if_pos hinvalid]
    rfl
  refine ⟨.error "schema is invalid", withSchema schema remove s, ?_, types_cleared schema remove s,
    OrderedMap.get?_set_self _ _ _, ?_⟩
  · rw [run_updateSchemas hcompiles, Prog.run_bind_of_thrown (hthrow _)]
  · show (cleared schema remove s).ajv.get? schema.id = none
    unfold cleared
    split
    · unfold removeSchema
      dsimp only
      rw [OrderedMap.get?_delete, if_pos rfl]
    · rename_i hunknown
      rw [Bool.or_eq_true, not_or, Bool.not_eq_true] at hunknown
      exact OrderedMap.has_eq_false.1 hunknown.1

/-! ## 3. What the calls do -/

theorem register_untyped (h : internalTypeOf constructor = none) :
    (registerTransactionType ajv constructor).run s = .thrown (.typeError "") s := by
  unfold registerTransactionType
  rw [h]
  rfl

theorem register_refused {e : Exception} (htype : internalTypeOf constructor = some internalType)
    (h : s.refusal internalType constructor = some e) :
    (registerTransactionType ajv constructor).run s = .thrown e s := by
  have hrefused : (Prog.gets fun s => s.refusal internalType constructor :
      RegistryProg (Option Exception)).run s = .done (some e) s := by
    rw [Prog.run_gets, h]
  unfold registerTransactionType
  rw [htype]
  dsimp only
  rw [Prog.run_bind_of_done hrefused]
  rfl

/-- A registration that is not refused puts the constructor in before it asks for the schema. -/
theorem register_accepted (htype : internalTypeOf constructor = some internalType)
    (h : s.refusal internalType constructor = none) :
    (registerTransactionType ajv constructor).run s =
      (schemaOf constructor >>= fun schema => updateSchemas ajv schema false).run
        (s.setConstructor internalType constructor) := by
  have hrefused : (Prog.gets fun s => s.refusal internalType constructor :
      RegistryProg (Option Exception)).run s = .done none s := by
    rw [Prog.run_gets, h]
  unfold registerTransactionType
  rw [htype]
  dsimp only
  rw [Prog.run_bind_of_done hrefused]
  rfl

theorem run_schemaOf (h : constructor.getSchema = some schema) (s : TransactionRegistry) :
    (schemaOf constructor).run s = .done schema s := by
  unfold schemaOf
  rw [h]
  rfl

theorem run_schemaOf_none (h : constructor.getSchema = none) (s : TransactionRegistry) :
    ∃ e, (schemaOf constructor).run s = .thrown e s := by
  unfold schemaOf
  rw [h]
  exact ⟨_, rfl⟩

theorem deregister_untyped (h : internalTypeOf constructor = none) :
    (deregisterTransactionType ajv constructor).run s = .thrown (.typeError "") s := by
  unfold deregisterTransactionType
  rw [h]
  rfl

theorem run_known (internalType : InternalTransactionType) :
    (Prog.gets fun s => s.transactionTypes.has internalType : RegistryProg Bool).run s =
      .done (s.transactionTypes.has internalType) s := rfl

theorem deregister_unknown (htype : internalTypeOf constructor = some internalType)
    (h : s.transactionTypes.has internalType = false) :
    (deregisterTransactionType ajv constructor).run s =
      .thrown (.unkownTransaction internalType) s := by
  have hthrow : (Prog.throwIf (s.transactionTypes.has internalType = false)
      (.unkownTransaction internalType) : RegistryProg Unit).run s =
      .thrown (.unkownTransaction internalType) s := by
    unfold Prog.throwIf Prog.when
    rw [if_pos h]
    rfl
  unfold deregisterTransactionType
  rw [htype]
  dsimp only
  rw [Prog.run_bind_of_done (run_known internalType), Prog.run_bind_of_thrown hthrow]

/-- The end of a deregistration, after the schemas. -/
def removeConstructor (internalType : InternalTransactionType) (version : Nat) :
    RegistryProg Unit := do
  let registered ← Prog.gets fun s =>
    ((s.transactionTypes.get? internalType).getD OrderedMap.empty).has version
  Prog.throwIf (registered = false) (.unkownTransaction internalType)
  Prog.modify (deleteConstructor internalType version)

/-- A deregistration of a known type changes the schemas before it looks for the version. -/
theorem deregister_known (htype : internalTypeOf constructor = some internalType)
    (h : s.transactionTypes.has internalType = true) :
    (deregisterTransactionType ajv constructor).run s =
      (schemaOf constructor >>= fun schema => updateSchemas ajv schema true >>= fun _ =>
        removeConstructor internalType constructor.version).run s := by
  have hthrow : (Prog.throwIf (s.transactionTypes.has internalType = false)
      (.unkownTransaction internalType) : RegistryProg Unit).run s = .done () s := by
    unfold Prog.throwIf Prog.when
    rw [if_neg (by rw [h]; exact Bool.false_ne_true.symm)]
    rfl
  unfold deregisterTransactionType
  rw [htype]
  dsimp only
  rw [Prog.run_bind_of_done (run_known internalType), Prog.run_bind_of_done hthrow]
  rfl

theorem removeConstructor_unknown {version : Nat} (h : s.lookup internalType version = none) :
    (removeConstructor internalType version).run s =
      .thrown (.unkownTransaction internalType) s := by
  have hget : (Prog.gets fun s => ((s.transactionTypes.get? internalType).getD
      OrderedMap.empty).has version : RegistryProg Bool).run s = .done false s := by
    rw [Prog.run_gets, getD_has, h]
    rfl
  unfold removeConstructor
  rw [Prog.run_bind_of_done hget]
  rfl

theorem removeConstructor_known {version : Nat} {d : TransactionConstructor}
    (h : s.lookup internalType version = some d) :
    (removeConstructor internalType version).run s =
      .done () (s.deleteConstructor internalType version) := by
  have hget : (Prog.gets fun s => ((s.transactionTypes.get? internalType).getD
      OrderedMap.empty).has version : RegistryProg Bool).run s = .done true s := by
    rw [Prog.run_gets, getD_has, h]
    rfl
  unfold removeConstructor
  rw [Prog.run_bind_of_done hget]
  rfl

end TransactionRegistry

end CoreEx

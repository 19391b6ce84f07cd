/-
  File:      CoreEx/Codec/TransactionFactory.lean
  Subject:   `core-crypto-transaction/source/factory.ts`: transactions from bytes and from data.

  * `fromSerialized`, `fromBytes`, `fromData`;
  * **`fromBytes_eq_ok`**, **`fromData_eq_ok`** -- when a transaction is returned, and which.
-/
import CoreEx.Codec.TransactionDeserializer
import CoreEx.Codec.TransactionSchema

namespace CoreEx

namespace TransactionFactory

/-- The catch block of `#fromSerialized`. -/
def rethrow : Exception → Exception
  | .transactionSchema => .transactionSchema
  | .duplicateParticipantInMultiSignature => .duplicateParticipantInMultiSignature
  | e => .invalidTransactionBytes e.message

/-- The body of `#fromSerialized`. -/
def build (env : CodecServices) (serialized : Bytes) (strict : Bool) :
    Except Exception Transaction := do
  let transaction ← TransactionDeserializer.deserialize env serialized
  let id ← TransactionUtils.getId env transaction.data
  let transaction := { transaction with data := { transaction.data with id := some id } }
  let valid ← TransactionVerifier.verifySchema env transaction.data strict
  if valid then .ok transaction else .error .transactionSchema

/-- `#fromSerialized(serialized, strict)`. -/
def fromSerialized (env : CodecServices) (serialized : Bytes) (strict : Bool) :
    Except Exception Transaction :=
  match build env serialized strict with
  | .ok transaction => .ok transaction
  | .error e => .error (rethrow e)

/-- `fromBytes(buff, strict)`; the bytes go through hexadecimal text and back. -/
def fromBytes (env : CodecServices) (buff : Bytes) (strict : Option Bool) :
    Except Exception Transaction :=
  fromSerialized env buff (strict.getD true)

/-- `fromData(data, strict)`. -/
def fromData (env : CodecServices) (data : TransactionData) (strict : Option Bool) :
    Except Exception Transaction := do
  let valid ← TransactionVerifier.verifySchema env data (strict.getD false)
  if valid then do
    let serialized ← TransactionUtils.toBytes env data
    fromBytes env serialized strict
  else .error .transactionSchema

/-! ## When a transaction is returned -/

theorem bind_eq_ok {α β : Type} {x : Except Exception α} {f : α → Except Exception β} {b : β} :
    x >>= f = .ok b ↔ ∃ a, x = .ok a ∧ f a = .ok b := by
  cases x with
  | error e => exact ⟨fun h => (nomatch h), fun ⟨_, h, _⟩ => (nomatch h)⟩
  | ok a =>
    constructor
    · exact fun h => ⟨a, rfl, h⟩
    · rintro ⟨_, h, hb⟩
      cases h
      exact hb

theorem ite_eq_ok {α : Type} {c : Bool} {x : Except Exception α} {e : Exception} {a : α} :
    (if c then x else .error e) = .ok a ↔ c = true ∧ x = .ok a := by
  cases c with
  | true => exact ⟨fun h => ⟨rfl, h⟩, And.right⟩
  | false => exact ⟨fun h => (nomatch h), fun h => (nomatch h.1)⟩

/-- **Bytes are accepted when they are deserialized, the data can be serialized again for the id,
    and with this id satisfy the schema.** -/
theorem fromBytes_eq_ok {env : CodecServices} {buff : Bytes} {strict : Option Bool}
    {t : Transaction} :
    fromBytes env buff strict = .ok t ↔ ∃ t' id,
      TransactionDeserializer.deserialize env buff = .ok t' ∧
      TransactionUtils.getId env t'.data = .ok id ∧
      t = { t' with data := { t'.data with id := some id } } ∧
      TransactionVerifier.verifySchema env t.data (strict.getD true) = .ok true := by
  have hcatch : fromBytes env buff strict = .ok t ↔
      build env buff (strict.getD true) = .ok t := by
    unfold fromBytes fromSerialized
    cases build env buff (strict.getD true) with
    | ok t' => exact Iff.rfl
    | error e => exact ⟨fun h => (nomatch h), fun h => (nomatch h)⟩
  rw [hcatch]
  unfold build
  simp only [bind_eq_ok, ite_eq_ok, Except.ok.injEq]
  constructor
  · rintro ⟨t', ht', id, hid, valid, hschema, rfl, rfl⟩
    exact ⟨t', id, ht', hid, rfl, hschema⟩
  · rintro ⟨t', id, ht', hid, rfl, hschema⟩
    exact ⟨t', ht', id, hid, true, hschema, rfl, rfl⟩

/-- **Data become a transaction when they satisfy the schema and their bytes are accepted.** -/
theorem fromData_eq_ok {env : CodecServices} {data : TransactionData} {strict : Option Bool}
    {t : Transaction} :
    fromData env data strict = .ok t ↔
      TransactionVerifier.verifySchema env data (strict.getD false) = .ok true ∧
      ∃ bytes, TransactionUtils.toBytes env data = .ok bytes ∧
        fromBytes env bytes strict = .ok t := by
  unfold fromData
  simp only [bind_eq_ok, ite_eq_ok]
  constructor
  · rintro ⟨valid, hschema, rfl, bytes, hbytes, ht⟩
    exact ⟨hschema, bytes, hbytes, ht⟩
  · rintro ⟨hschema, bytes, hbytes, ht⟩
    exact ⟨true, hschema, rfl, bytes, hbytes, ht⟩

end TransactionFactory

end CoreEx

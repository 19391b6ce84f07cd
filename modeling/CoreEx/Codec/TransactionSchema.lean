/-
  File:      CoreEx/Codec/TransactionSchema.lean
  Subject:   The schemas of the six transaction types, the keywords and formats they use, and
             `Verifier.verifySchema`.

  `extendSchema` merges a type's schema into the base, so a bound that the type names replaces the
  base's and `bypassGenesis` stays. What has the wrong JavaScript type never gets here: the data
  are typed.

  * `alphanumeric`, `hex`, `bignumber`, `publicKey`, .. -- the shared parts;
  * `transactionBaseSchema`, and what each type adds: `TransactionClass.schema`;
  * `strictSchema` -- the variant with a signature and without foreign fields;
  * `verifySchema`.
-/
import CoreEx.Codec.TransactionTypes

namespace CoreEx

namespace TransactionSchema

/-! ## 1. Shared parts -/

/-- `[a-z0-9]`. -/
def isAlphanumeric (c : Char) : Bool := ('a' ≤ c && c ≤ 'z') || ('0' ≤ c && c ≤ '9')

/-- `[a-z0-9!@$&_.]`. -/
def isUsernameChar (c : Char) : Bool := isAlphanumeric c || ['!', '@', '$', '&', '_', '.'].contains c

/-- The pattern `^[..]+$`. -/
def «matches» (p : Char → Bool) (s : String) : Bool := s ≠ "" && s.toList.all p

def hex (s : String) : Bool := «matches» isHexDigit s

def alphanumeric (s : String) : Bool := «matches» isAlphanumeric s

def transactionId (s : String) : Bool := s.length = 64 && hex s

def validatorUsername (s : String) : Bool := «matches» isUsernameChar s && s.length ≤ 20

/-- The schema `publicKey` of the key package. -/
def publicKey (env : CodecServices) (k : PublicKey) : Bool :=
  k.text.length = 2 * env.publicKeySize && hex k.text

/-- `isGenesisTransaction(configuration, id)`. -/
def isGenesisTransaction (env : CodecServices) (id : String) : Bool :=
  match env.genesisTransactions with
  | none => true
  | some ids => ids.contains id

/-- The keyword `bignumber`; below the minimum only the zero of a genesis transaction passes, where
    the schema says so. -/
def bignumber (env : CodecServices) (minimum maximum : Int) (bypassGenesis : Bool)
    (id : Option String) (value : Int) : Bool :=
  if value < minimum then
    value = 0 && bypassGenesis && id.getD "" ≠ "" && isGenesisTransaction env (id.getD "")
  else value ≤ maximum

/-- The default maximum. -/
def maximum : Int := 9223372036854775807

/-- The keyword `network`. -/
def networkByte (env : CodecServices) (network : Nat) : Bool :=
  env.pubKeyHash = 0 || network = env.pubKeyHash

/-- The format `vendorField`. -/
def vendorField (env : CodecServices) (text : Text) : Bool :=
  text.toUtf8.length ≤ env.vendorFieldLength

/-- The items of `signatures`. -/
def participantSignature (s : String) : Bool := s.length = 130 && alphanumeric s

/-! ## 2. The types -/

/-- `transactionBaseSchema`, with the bounds of the amount that the type gives. -/
def transactionBaseSchema (env : CodecServices) (amountMinimum amountMaximum : Int)
    (data : TransactionData) : Bool :=
  data.id.all transactionId &&
  data.network.all (networkByte env) &&
  data.version.all (· = 1) &&
  data.senderPublicKey.isSome && data.senderPublicKey.all (publicKey env) &&
  data.nonce.isSome && data.nonce.all (bignumber env 0 maximum false none) &&
  bignumber env 1 maximum true data.id data.fee &&
  bignumber env amountMinimum amountMaximum true data.id data.amount &&
  data.signature.all alphanumeric &&
  data.signatures.all fun signatures =>
    1 ≤ signatures.length && signatures.length ≤ 16 && decide signatures.Nodup &&
    signatures.all participantSignature

/-- The asset of a vote. -/
def voteAsset (env : CodecServices) (asset : TransactionAsset) : Bool :=
  asset = { TransactionAsset.empty with votes := asset.votes, unvotes := asset.unvotes } &&
  match asset.votes, asset.unvotes with
  | some votes, some unvotes =>
    votes.length ≤ 1 && votes.all (publicKey env) &&
    unvotes.length ≤ 1 && unvotes.all (publicKey env) && 1 ≤ unvotes.length + votes.length
  | _, _ => false

/-- The asset of a registration. -/
def validatorAsset (asset : TransactionAsset) : Bool :=
  asset = { TransactionAsset.empty with username := asset.username } &&
  match asset.username with
  | some username => validatorUsername username
  | none => false

/-- The asset of a multi-payment. -/
def paymentsAsset (env : CodecServices) (asset : TransactionAsset) : Bool :=
  asset = { TransactionAsset.empty with payments := asset.payments } &&
  match asset.payments with
  | some payments =>
    2 ≤ payments.length && payments.length ≤ env.multiPaymentLimit &&
    payments.all fun payment =>
      bignumber env 1 maximum false none payment.amount && env.addressSchema payment.recipientId
  | none => false

/-- The asset of a multi-signature registration. -/
def multiSignatureAsset (env : CodecServices) (asset : TransactionAsset) : Bool :=
  asset = { TransactionAsset.empty with multiSignature := asset.multiSignature } &&
  match asset.multiSignature with
  | some multiSignature =>
    multiSignature.legacy = none &&
    1 ≤ multiSignature.min && multiSignature.min ≤ multiSignature.publicKeys.length &&
    1 ≤ multiSignature.publicKeys.length && multiSignature.publicKeys.length ≤ 16 &&
    decide multiSignature.publicKeys.Nodup && multiSignature.publicKeys.all (publicKey env)
  | none => false

/-- The number of signatures a registration asks for. -/
def registrationSignatures (data : TransactionData) : Bool :=
  match data.signatures, data.multiSignature with
  | some signatures, some asset =>
    asset.min ≤ signatures.length && signatures.length ≤ asset.publicKeys.length
  | _, _ => false

end TransactionSchema

open TransactionSchema

/-- `getSchema()` of each class. -/
def TransactionClass.schema (env : CodecServices) (data : TransactionData) :
    TransactionClass → Bool
  | .transfer => transactionBaseSchema env 1 maximum data &&
      data.recipientId.isSome && data.recipientId.all env.addressSchema &&
      data.vendorField.all (vendorField env)
  | .validatorRegistration => transactionBaseSchema env 0 0 data &&
      data.asset.isSome && data.asset.all validatorAsset
  | .vote => transactionBaseSchema env 0 0 data &&
      data.asset.isSome && data.asset.all (voteAsset env) &&
      data.recipientId.all env.addressSchema
  | .multiSignature => transactionBaseSchema env 0 0 data &&
      data.asset.isSome && data.asset.all (multiSignatureAsset env) && registrationSignatures data
  | .multiPayment => transactionBaseSchema env 0 0 data &&
      data.asset.all (paymentsAsset env) && data.vendorField.all (vendorField env)
  | .validatorResignation => transactionBaseSchema env 0 0 data

/-- The fields of the type: `unevaluatedProperties: false` asks for no others. -/
def TransactionClass.onlyOwnFields (data : TransactionData) (c : TransactionClass) : Bool :=
  (c = .transfer || data.expiration.isNone) &&
  (c = .transfer || c = .vote || data.recipientId.isNone) &&
  (c = .transfer || c = .multiPayment || data.vendorField.isNone) &&
  ((c ≠ .transfer && c ≠ .validatorResignation) || data.asset.isNone)

/-- `strictSchema(getSchema())`. -/
def TransactionClass.strictSchema (env : CodecServices) (data : TransactionData)
    (c : TransactionClass) : Bool :=
  c.schema env data && data.id.isSome && (data.signature.isSome || data.signatures.isSome) &&
  c.onlyOwnFields data

/-- `verifySchema(data, strict)`: whether there is no error. -/
def TransactionVerifier.verifySchema (env : CodecServices) (data : TransactionData)
    (strict : Bool) : Except Exception Bool :=
  match TransactionTypeFactory.get data.type data.typeGroup with
  | .ok c => .ok (if strict then c.strictSchema env data else c.schema env data)
  | .error e => .error e

/-! ## 3. What the schemas establish -/

namespace TransactionSchema

theorem bignumber_bounds {env : CodecServices} {minimum maximum value : Int} {bypass : Bool}
    {id : Option String} (hmin : 0 ≤ minimum) (hmax : 0 ≤ maximum)
    (h : bignumber env minimum maximum bypass id value) : 0 ≤ value ∧ value ≤ maximum := by
  unfold bignumber at h
  split at h
  · simp only [Bool.and_eq_true, decide_eq_true_eq] at h
    obtain ⟨⟨⟨rfl, -⟩, -⟩, -⟩ := h
    exact ⟨le_refl 0, hmax⟩
  · have hle := of_decide_eq_true h
    omega

theorem carriesKey_of_publicKey {env : CodecServices} {k : PublicKey} (h : publicKey env k) :
    env.CarriesKey k := by
  unfold publicKey hex «matches» at h
  rw [Bool.and_eq_true, Bool.and_eq_true, decide_eq_true_eq] at h
  exact isHex_of_digits h.1 (List.all_eq_true.1 h.2.2)

/-- A username is written in ASCII, so nothing in it was replaced. -/
theorem notMem_of_validatorUsername {s : String} (h : validatorUsername s) :
    replacementChar ∉ s.toList := by
  unfold validatorUsername «matches» at h
  rw [Bool.and_eq_true, Bool.and_eq_true] at h
  intro hmem
  have hchar := List.all_eq_true.1 h.1.2 _ hmem
  exact absurd hchar (by decide)

theorem length_of_validatorUsername {s : String} (h : validatorUsername s) :
    (encodeUtf8 s.toList).length ≤ 80 := by
  unfold validatorUsername at h
  rw [Bool.and_eq_true, decide_eq_true_eq] at h
  have hbound : ∀ cs : List Char, (encodeUtf8 cs).length ≤ 4 * cs.length := by
    intro cs
    induction cs with
    | nil => exact le_refl 0
    | cons c cs ih =>
      have hc := c.utf8Size_le_four
      show (String.utf8EncodeChar c ++ encodeUtf8 cs).length ≤ _
      rw [List.length_append, String.length_utf8EncodeChar, List.length_cons]
      omega
  have hlen : s.toList.length = s.length := String.length_toList
  have hcs := hbound s.toList
  omega

end TransactionSchema

/-- What every schema says of the fields all types have. -/
structure SchemaFacts (env : CodecServices) (data : TransactionData) (c : TransactionClass) :
    Prop where
  version : data.version = none ∨ data.version = some 1
  network : ∀ n, data.network = some n → env.pubKeyHash = 0 ∨ n = env.pubKeyHash
  senderPublicKey : ∃ k, data.senderPublicKey = some k ∧ env.CarriesKey k
  nonce : ∃ nonce, data.nonce = some nonce ∧ 0 ≤ nonce ∧ nonce ≤ maximum
  fee : 0 ≤ data.fee ∧ data.fee ≤ maximum
  amount : 0 ≤ data.amount ∧ data.amount ≤ maximum
  amount_zero : c ≠ .transfer → data.amount = 0

theorem SchemaFacts.version_eq {env : CodecServices} {data : TransactionData}
    {c : TransactionClass} (h : SchemaFacts env data c) :
    TransactionTypeFactory.version data = 1 := by
  unfold TransactionTypeFactory.version
  rcases h.version with hv | hv
  · rw [hv]
  · rw [hv]
    rfl

theorem schemaFacts_of_base {env : CodecServices} {data : TransactionData} {c : TransactionClass}
    {low high : Int} (hlow : 0 ≤ low) (hhigh : 0 ≤ high ∧ high ≤ maximum)
    (hzero : c ≠ .transfer → high = 0) (h : transactionBaseSchema env low high data) :
    SchemaFacts env data c := by
  unfold transactionBaseSchema at h
  simp only [Bool.and_eq_true] at h
  obtain ⟨⟨⟨⟨⟨⟨⟨⟨⟨⟨-, hnetwork⟩, hversion⟩, hsender⟩, hkey⟩, hnonce⟩, hbignonce⟩, hfee⟩, hamount⟩, -⟩,
    -⟩ := h
  obtain ⟨k, hk⟩ := Option.isSome_iff_exists.1 hsender
  obtain ⟨nonce, hn⟩ := Option.isSome_iff_exists.1 hnonce
  rw [hk] at hkey
  rw [hn] at hbignonce
  have hmax : 0 ≤ TransactionSchema.maximum := by decide
  have hamount := bignumber_bounds hlow hhigh.1 hamount
  refine ⟨?_, ?_, ⟨k, hk, carriesKey_of_publicKey hkey⟩,
    ⟨nonce, hn, bignumber_bounds (le_refl 0) hmax hbignonce⟩,
    bignumber_bounds Int.one_nonneg hmax hfee, ⟨hamount.1, Int.le_trans hamount.2 hhigh.2⟩, ?_⟩
  · cases hv : data.version with
    | none => exact Or.inl rfl
    | some v =>
      rw [hv] at hversion
      exact Or.inr (congrArg some (of_decide_eq_true hversion))
  · intro n hn
    rw [hn] at hnetwork
    have hbyte : networkByte env n := hnetwork
    unfold networkByte at hbyte
    rw [Bool.or_eq_true, decide_eq_true_eq, decide_eq_true_eq] at hbyte
    exact hbyte
  · intro hc
    have h0 := hzero hc
    omega

/-- **What a schema says of the fields all types have.** -/
theorem TransactionClass.schemaFacts {env : CodecServices} {data : TransactionData}
    {c : TransactionClass} (h : c.schema env data) : SchemaFacts env data c := by
  have hmax : 0 ≤ TransactionSchema.maximum := by decide
  cases c with
  | transfer =>
    unfold TransactionClass.schema at h
    simp only [Bool.and_eq_true] at h
    exact schemaFacts_of_base Int.one_nonneg ⟨hmax, le_refl _⟩ (fun hc => absurd rfl hc) h.1.1.1
  | validatorRegistration =>
    unfold TransactionClass.schema at h
    simp only [Bool.and_eq_true] at h
    exact schemaFacts_of_base (le_refl 0) ⟨le_refl 0, hmax⟩ (fun _ => rfl) h.1.1
  | vote =>
    unfold TransactionClass.schema at h
    simp only [Bool.and_eq_true] at h
    exact schemaFacts_of_base (le_refl 0) ⟨le_refl 0, hmax⟩ (fun _ => rfl) h.1.1.1
  | multiSignature =>
    unfold TransactionClass.schema at h
    simp only [Bool.and_eq_true] at h
    exact schemaFacts_of_base (le_refl 0) ⟨le_refl 0, hmax⟩ (fun _ => rfl) h.1.1.1
  | multiPayment =>
    unfold TransactionClass.schema at h
    simp only [Bool.and_eq_true] at h
    exact schemaFacts_of_base (le_refl 0) ⟨le_refl 0, hmax⟩ (fun _ => rfl) h.1.1
  | validatorResignation => exact schemaFacts_of_base (le_refl 0) ⟨le_refl 0, hmax⟩ (fun _ => rfl) h

theorem username_of_schema {env : CodecServices} {data : TransactionData}
    (h : TransactionClass.schema env data .validatorRegistration) :
    ∃ username, data.asset = some { TransactionAsset.empty with username := some username } ∧
      validatorUsername username := by
  unfold TransactionClass.schema at h
  rw [Bool.and_eq_true, Bool.and_eq_true] at h
  obtain ⟨asset, hasset⟩ := Option.isSome_iff_exists.1 h.1.2
  have hvalid : validatorAsset asset := by
    have hall := h.2
    rw [hasset] at hall
    exact hall
  unfold validatorAsset at hvalid
  rw [Bool.and_eq_true, decide_eq_true_eq] at hvalid
  cases husername : asset.username with
  | none =>
    rw [husername] at hvalid
    cases hvalid.2
  | some username =>
    rw [husername] at hvalid
    exact ⟨username, hasset.trans (congrArg some hvalid.1), hvalid.2⟩

theorem votes_of_schema {env : CodecServices} {data : TransactionData}
    (h : TransactionClass.schema env data .vote) :
    ∃ votes unvotes, data.asset = some { TransactionAsset.empty with
        votes := some votes, unvotes := some unvotes } ∧
      votes.length ≤ 1 ∧ unvotes.length ≤ 1 ∧
      (∀ k ∈ votes, env.CarriesKey k) ∧ ∀ k ∈ unvotes, env.CarriesKey k := by
  unfold TransactionClass.schema at h
  rw [Bool.and_eq_true, Bool.and_eq_true, Bool.and_eq_true] at h
  obtain ⟨asset, hasset⟩ := Option.isSome_iff_exists.1 h.1.1.2
  have hvalid : voteAsset env asset := by
    have hall := h.1.2
    rw [hasset] at hall
    exact hall
  unfold voteAsset at hvalid
  rw [Bool.and_eq_true, decide_eq_true_eq] at hvalid
  cases hvotes : asset.votes with
  | none =>
    rw [hvotes] at hvalid
    cases hvalid.2
  | some votes =>
    cases hunvotes : asset.unvotes with
    | none =>
      rw [hvotes, hunvotes] at hvalid
      cases hvalid.2
    | some unvotes =>
      rw [hvotes, hunvotes] at hvalid
      obtain ⟨hshape, hrest⟩ := hvalid
      simp only [Bool.and_eq_true, decide_eq_true_eq, List.all_eq_true] at hrest
      obtain ⟨⟨⟨⟨hn, hv⟩, hm⟩, hu⟩, -⟩ := hrest
      exact ⟨votes, unvotes, hasset.trans (congrArg some hshape), hn, hm,
        fun k hk => carriesKey_of_publicKey (hv k hk), fun k hk => carriesKey_of_publicKey (hu k hk)⟩

theorem payments_of_schema {env : CodecServices} {data : TransactionData}
    (h : TransactionClass.schema env data .multiPayment) {asset : TransactionAsset}
    (hasset : data.asset = some asset) :
    ∃ payments, asset = { TransactionAsset.empty with payments := some payments } ∧
      ∀ payment ∈ payments, 0 ≤ payment.amount ∧ payment.amount ≤ maximum := by
  unfold TransactionClass.schema at h
  rw [Bool.and_eq_true, Bool.and_eq_true] at h
  have hvalid : paymentsAsset env asset := by
    have hall := h.1.2
    rw [hasset] at hall
    exact hall
  unfold paymentsAsset at hvalid
  rw [Bool.and_eq_true, decide_eq_true_eq] at hvalid
  cases hpayments : asset.payments with
  | none =>
    rw [hpayments] at hvalid
    cases hvalid.2
  | some payments =>
    rw [hpayments] at hvalid
    obtain ⟨hshape, hrest⟩ := hvalid
    simp only [Bool.and_eq_true, decide_eq_true_eq, List.all_eq_true] at hrest
    have hmax : 0 ≤ TransactionSchema.maximum := by decide
    exact ⟨payments, hshape, fun payment hmem =>
      bignumber_bounds Int.one_nonneg hmax (hrest.2 payment hmem).1⟩

theorem recipientId_of_schema {env : CodecServices} {data : TransactionData}
    (h : TransactionClass.schema env data .transfer) : data.recipientId.isSome := by
  unfold TransactionClass.schema at h
  rw [Bool.and_eq_true, Bool.and_eq_true, Bool.and_eq_true] at h
  exact h.1.1.2

/-- A multi-signature registration without participants' signatures does not pass. -/
theorem signatures_of_schema {env : CodecServices} {data : TransactionData}
    (h : TransactionClass.schema env data .multiSignature) : data.signatures.isSome := by
  unfold TransactionClass.schema at h
  rw [Bool.and_eq_true] at h
  have hcount := h.2
  unfold registrationSignatures at hcount
  cases hs : data.signatures with
  | none =>
    rw [hs] at hcount
    cases hcount
  | some signatures => rfl

theorem verifySchema_eq_ok {env : CodecServices} {data : TransactionData} {strict : Bool} :
    TransactionVerifier.verifySchema env data strict = .ok true ↔ ∃ c,
      TransactionTypeFactory.get data.type data.typeGroup = .ok c ∧ c.schema env data ∧
      (strict → c.strictSchema env data) := by
  unfold TransactionVerifier.verifySchema
  cases TransactionTypeFactory.get data.type data.typeGroup with
  | error e => exact ⟨fun h => (nomatch h), fun ⟨_, h, _⟩ => (nomatch h)⟩
  | ok c =>
    cases strict with
    | true =>
      constructor
      · intro h
        have hstrict : c.strictSchema env data = true := Except.ok.inj h
        have hschema := hstrict
        unfold TransactionClass.strictSchema at hschema
        simp only [Bool.and_eq_true] at hschema
        exact ⟨c, rfl, hschema.1.1.1, fun _ => hstrict⟩
      · rintro ⟨c', h, -, hstrict⟩
        cases h
        exact congrArg _ (hstrict rfl)
    | false =>
      constructor
      · intro h
        exact ⟨c, rfl, Except.ok.inj h, fun h => (nomatch h)⟩
      · rintro ⟨c', h, hschema, -⟩
        cases h
        exact congrArg _ hschema

end CoreEx

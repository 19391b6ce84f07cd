/-
  File:      CoreEx/Codec/Payload.lean
  Subject:   The part of a transaction's bytes that its class writes, read both ways.

  * `PayloadOf env c data p` -- the bytes `p` are what the class `c` has for the data;
  * `TransactionClass.fill` -- which fields a class sets;
  * **`reads_deserialize`** -- `deserialize` takes exactly such bytes and sets these fields;
  * **`payload_of_payloadOf`** -- `serialize` writes exactly them.
-/
import CoreEx.Codec.TransactionSerializer

namespace CoreEx

/-! ## 1. Keys and addresses -/

theorem reads_readPublicKey (env : CodecServices) :
    Cursor.Reads (readPublicKey env) fun consumed _ k =>
      consumed = k.bytes ∧ env.CarriesKey k := by
  refine ((ByteBuffer.reads_readBytes _).bind fun bs =>
    Cursor.Reads.ofExcept (PublicKey.ofBytes bs)).congr fun consumed rest k => ?_
  constructor
  · rintro ⟨_, _, bs, rfl, ⟨rfl, hlen⟩, rfl, hk⟩
    have hbytes := PublicKey.bytes_of_ofBytes hk
    have htext := PublicKey.ofBytes_eq_ok.1 hk
    rw [List.append_nil]
    refine ⟨hbytes.symm, ?_⟩
    exact isHex_iff.2 ⟨_, hlen, htext⟩
  · rintro ⟨rfl, hk⟩
    exact ⟨k.bytes, [], k.bytes, (List.append_nil _).symm, ⟨rfl, hk.length⟩, rfl, hk.ofBytes⟩

theorem reads_readAddress (env : CodecServices) :
    Cursor.Reads (readAddress env) fun consumed _ a =>
      consumed.length = env.addressSize ∧ env.addressFromBuffer consumed = .ok a := by
  refine ((ByteBuffer.reads_readBytes _).bind fun bs =>
    Cursor.Reads.ofExcept (env.addressFromBuffer bs)).congr fun consumed rest k => ?_
  constructor
  · rintro ⟨_, _, bs, rfl, ⟨rfl, hlen⟩, rfl, hk⟩
    rw [List.append_nil]
    exact ⟨hlen, hk⟩
  · rintro ⟨hlen, hk⟩
    exact ⟨consumed, [], consumed, (List.append_nil _).symm, ⟨rfl, hlen⟩, rfl, hk⟩

/-! ## 2. The payload of each class -/

/-- The bytes of one payment. -/
def PaymentOf (env : CodecServices) (payment : MultiPaymentItem) (p : Bytes) : Prop :=
  0 ≤ payment.amount ∧ payment.amount < 256 ^ 8 ∧ ∃ recipient : Bytes,
    recipient.length = env.addressSize ∧
    env.addressFromBuffer recipient = .ok payment.recipientId ∧
    p = leBytes 8 payment.amount.toNat ++ recipient

/-- The bytes `p` are what a transaction of the class has for these data. -/
def PayloadOf (env : CodecServices) (data : TransactionData) (p : Bytes) :
    TransactionClass → Prop
  | .transfer => 0 ≤ data.amount ∧ data.amount < 256 ^ 8 ∧
      ∃ expiration recipientId recipient, data.expiration = some expiration ∧
        expiration < 256 ^ 4 ∧ data.recipientId = some recipientId ∧
        recipient.length = env.addressSize ∧
        env.addressFromBuffer recipient = .ok recipientId ∧
        p = leBytes 8 data.amount.toNat ++ (leBytes 4 expiration ++ recipient)
  | .validatorRegistration => ∃ username : Bytes, username.length < 256 ^ 1 ∧
      data.asset = some { TransactionAsset.empty with
        username := some (String.ofList (decodeUtf8 username)) } ∧
      p = leBytes 1 username.length ++ username
  | .vote => ∃ votes unvotes, data.asset = some { TransactionAsset.empty with
        votes := some votes, unvotes := some unvotes } ∧
      votes.length < 256 ^ 1 ∧ unvotes.length < 256 ^ 1 ∧
      (∀ k ∈ votes, env.CarriesKey k) ∧ (∀ k ∈ unvotes, env.CarriesKey k) ∧
      p = leBytes 1 votes.length ++ (votes.flatMap PublicKey.bytes ++
        (leBytes 1 unvotes.length ++ unvotes.flatMap PublicKey.bytes))
  | .multiSignature => ∃ (min : Nat) (publicKeys : List PublicKey), min < 256 ^ 1 ∧
      publicKeys.length < 256 ^ 1 ∧ (∀ k ∈ publicKeys, env.CarriesKey k) ∧
      data.asset = some { TransactionAsset.empty with
        multiSignature := some { min := min, publicKeys := publicKeys, legacy := none } } ∧
      p = leBytes 1 min ++ (leBytes 1 publicKeys.length ++ publicKeys.flatMap PublicKey.bytes)
  | .multiPayment => data.amount = 0 ∧ ∃ payments, payments.length < 256 ^ 2 ∧
      data.asset = some { TransactionAsset.empty with payments := some payments } ∧
      ∃ shares : List Bytes, List.Forall₂ (fun share payment => PaymentOf env payment share)
        shares payments ∧ p = leBytes 2 payments.length ++ shares.flatten
  | .validatorResignation => p = []

/-- The data `base` with the fields a class sets, taken from `data`. -/
def TransactionClass.fill (base data : TransactionData) (c : TransactionClass) : TransactionData :=
  { base with
    amount := match c with
      | .transfer | .multiPayment => data.amount
      | _ => base.amount
    expiration := match c with
      | .transfer => data.expiration
      | _ => base.expiration
    recipientId := match c with
      | .transfer => data.recipientId
      | _ => base.recipientId
    asset := match c with
      | .transfer | .validatorResignation => base.asset
      | _ => data.asset }

/-! ## 3. Reading -/

theorem reads_readPayment (env : CodecServices) :
    Cursor.Reads (MultiPaymentTransaction.readPayment env) fun consumed _ payment =>
      PaymentOf env payment consumed := by
  refine ((ByteBuffer.reads_readLE 8).bindEnc fun amount => (reads_readAddress env).bind
    fun recipientId => Cursor.Reads.pure _).congr fun consumed rest payment => ?_
  constructor
  · rintro ⟨amount, _, rfl, hamount, recipient, _, recipientId, rfl, ⟨hlen, hfrom⟩, rfl, rfl⟩
    refine ⟨Int.natCast_nonneg _, ?_, recipient, hlen, hfrom, ?_⟩
    · exact natCast_lt_pow.2 hamount
    · rw [List.append_nil]
      rfl
  · rintro ⟨hnonneg, hlt, recipient, hlen, hfrom, rfl⟩
    refine ⟨payment.amount.toNat, recipient, rfl, ?_, recipient, [], payment.recipientId,
      (List.append_nil _).symm, ⟨hlen, hfrom⟩, rfl, ?_⟩
    · omega
    · obtain ⟨amount, recipientId⟩ := payment
      rw [Int.toNat_of_nonneg hnonneg]

/-- **`deserialize` takes exactly the bytes of a payload, and fills it in.** -/
theorem reads_deserialize (env : CodecServices) (base : TransactionData) (c : TransactionClass) :
    Cursor.Reads (c.deserialize env base) fun consumed _ data =>
      PayloadOf env data consumed c ∧ data = c.fill base data := by
  cases c with
  | transfer =>
    refine ((ByteBuffer.reads_readLE 8).bindEnc fun amount => (ByteBuffer.reads_readLE 4).bindEnc
      fun expiration => (reads_readAddress env).bind fun recipientId =>
        Cursor.Reads.pure _).congr fun consumed rest data => ?_
    constructor
    · rintro ⟨amount, _, rfl, hamount, expiration, _, rfl, hexp, recipient, _, recipientId, rfl,
        ⟨hlen, hfrom⟩, rfl, rfl⟩
      refine ⟨⟨Int.natCast_nonneg _, ?_, expiration, recipientId, recipient, rfl, hexp, rfl, hlen,
        hfrom, ?_⟩, rfl⟩
      · exact natCast_lt_pow.2 hamount
      · rw [List.append_nil]
        rfl
    · rintro ⟨⟨hnonneg, hlt, expiration, recipientId, recipient, hexp, hexplt, hrec, hlen, hfrom,
        rfl⟩, hdata⟩
      refine ⟨data.amount.toNat, _, rfl, ?_, expiration, _, rfl, hexplt, recipient, [], recipientId,
        (List.append_nil _).symm, ⟨hlen, hfrom⟩, rfl, ?_⟩
      · omega
      · rw [Int.toNat_of_nonneg hnonneg, ← hexp, ← hrec]
        exact hdata
  | validatorRegistration =>
    refine ((ByteBuffer.reads_readLE 1).bindEnc fun n => (ByteBuffer.reads_readBytes n).bind
      fun bs => Cursor.Reads.pure _).congr fun consumed rest data => ?_
    constructor
    · rintro ⟨n, _, rfl, hn, _, _, bs, rfl, ⟨rfl, rfl⟩, rfl, rfl⟩
      rw [List.append_nil]
      exact ⟨⟨_, hn, rfl, rfl⟩, rfl⟩
    · rintro ⟨⟨bs, hn, hasset, rfl⟩, hdata⟩
      refine ⟨bs.length, bs, rfl, hn, bs, [], bs, (List.append_nil _).symm, ⟨rfl, rfl⟩, rfl, ?_⟩
      rw [← hasset]
      exact hdata
  | vote =>
    refine ((ByteBuffer.reads_readLE 1).bindEnc fun n =>
      (Cursor.Reads.collectEnc (reads_readPublicKey env) n).bind fun votes =>
        (ByteBuffer.reads_readLE 1).bindEnc fun m =>
          (Cursor.Reads.collectEnc (reads_readPublicKey env) m).bind fun unvotes =>
            Cursor.Reads.pure _).congr fun consumed rest data => ?_
    constructor
    · rintro ⟨n, _, rfl, hn, _, _, votes, rfl, ⟨rfl, rfl, hvotes⟩, m, _, rfl, hm, _, _, unvotes,
        rfl, ⟨rfl, rfl, hunvotes⟩, rfl, rfl⟩
      rw [List.append_nil]
      exact ⟨⟨votes, unvotes, rfl, hn, hm, hvotes, hunvotes, rfl⟩, rfl⟩
    · rintro ⟨⟨votes, unvotes, hasset, hn, hm, hvotes, hunvotes, rfl⟩, hdata⟩
      refine ⟨_, _, rfl, hn, _, _, votes, rfl, ⟨rfl, rfl, hvotes⟩, _, _, rfl, hm, _, [], unvotes,
        (List.append_nil _).symm, ⟨rfl, rfl, hunvotes⟩, rfl, ?_⟩
      rw [← hasset]
      exact hdata
  | multiSignature =>
    refine ((ByteBuffer.reads_readLE 1).bindEnc fun min => (ByteBuffer.reads_readLE 1).bindEnc
      fun n => (Cursor.Reads.collectEnc (reads_readPublicKey env) n).bind fun publicKeys =>
        Cursor.Reads.pure _).congr fun consumed rest data => ?_
    constructor
    · rintro ⟨min, _, rfl, hmin, n, _, rfl, hn, _, _, keys, rfl, ⟨rfl, rfl, hkeys⟩, rfl, rfl⟩
      rw [List.append_nil]
      exact ⟨⟨min, keys, hmin, hn, hkeys, rfl, rfl⟩, rfl⟩
    · rintro ⟨⟨min, keys, hmin, hn, hkeys, hasset, rfl⟩, hdata⟩
      refine ⟨min, _, rfl, hmin, _, _, rfl, hn, _, [], keys, (List.append_nil _).symm,
        ⟨rfl, rfl, hkeys⟩, rfl, ?_⟩
      rw [← hasset]
      exact hdata
  | multiPayment =>
    refine ((ByteBuffer.reads_readLE 2).bindEnc fun n =>
      (Cursor.Reads.collect (R := fun share payment => PaymentOf env payment share)
        (reads_readPayment env) n).bind fun payments => Cursor.Reads.pure _).congr
          fun consumed rest data => ?_
    constructor
    · rintro ⟨n, _, rfl, hn, _, _, payments, rfl, ⟨rfl, shares, rfl, hall⟩, rfl, rfl⟩
      rw [List.append_nil]
      exact ⟨⟨rfl, payments, hn, rfl, shares, hall, rfl⟩, rfl⟩
    · rintro ⟨⟨hamount, payments, hn, hasset, shares, hall, rfl⟩, hdata⟩
      refine ⟨_, _, rfl, hn, _, [], payments, (List.append_nil _).symm,
        ⟨rfl, shares, rfl, hall⟩, rfl, ?_⟩
      rw [← hasset, ← hamount]
      exact hdata
  | validatorResignation =>
    refine (Cursor.Reads.pure base).congr fun consumed rest data => ?_
    exact Iff.rfl

/-! ## 4. Writing -/

/-- What one pass of the loop over the payments puts down. -/
def PaymentWritten (env : CodecServices) (payment : MultiPaymentItem) (p : Bytes) : Prop :=
  (0 ≤ payment.amount ∧ payment.amount < 256 ^ 8) ∧ ∃ recipient : Bytes,
    env.addressToBuffer payment.recipientId = .ok recipient ∧
    p = leBytes 8 payment.amount.toNat ++ recipient

/-- What the class's `serialize` returns for the data. -/
def Written (env : CodecServices) (data : TransactionData) (p : Bytes) : TransactionClass → Prop
  | .transfer => (0 ≤ data.amount ∧ data.amount < 256 ^ 8) ∧ data.expiration.getD 0 < 256 ^ 4 ∧
      ∃ recipient, (∀ r, data.recipientId = some r → env.addressToBuffer r = .ok recipient) ∧
        (data.recipientId = none → recipient = []) ∧
        p = leBytes 8 data.amount.toNat ++ (leBytes 4 (data.expiration.getD 0) ++ recipient) ∧
        p.length ≤ 64
  | .validatorRegistration => ∃ username, data.username = some username ∧
      (encodeUtf8 username.toList).length < 256 ^ 1 ∧
      p = leBytes 1 (encodeUtf8 username.toList).length ++ encodeUtf8 username.toList
  | .vote => ∃ votes unvotes, data.votes = some votes ∧ data.unvotes = some unvotes ∧
      votes.length < 256 ^ 1 ∧ unvotes.length < 256 ^ 1 ∧
      p = leBytes 1 votes.length ++ (VoteTransaction.joined votes ++
        (leBytes 1 unvotes.length ++ VoteTransaction.joined unvotes)) ∧
      p.length ≤ 1 + 1 + env.publicKeySize * votes.length + env.publicKeySize * unvotes.length
  | .multiSignature => ∃ asset, data.multiSignature = some asset ∧
      (0 ≤ asset.min ∧ asset.min < 256 ^ 1) ∧ asset.publicKeys.length < 256 ^ 1 ∧
      p = leBytes 1 asset.min.toNat ++ (leBytes 1 asset.publicKeys.length ++
        asset.publicKeys.flatMap PublicKey.bytes) ∧
      p.length ≤ 2 + asset.publicKeys.length * env.publicKeySize
  | .multiPayment => ∃ payments, data.payments = some payments ∧ payments.length < 256 ^ 2 ∧
      ∃ shares : List Bytes, List.Forall₂ (PaymentWritten env) payments shares ∧
        p = leBytes 2 payments.length ++ shares.flatten ∧
        p.length ≤ 2 + payments.length * env.addressSize + payments.length * 8
  | .validatorResignation => p = []

theorem writes_writeAddress (env : CodecServices) (a : Address) :
    Cursor.Writes 0 (writeAddress env a) fun bs _ => env.addressToBuffer a = .ok bs := by
  refine ((Cursor.Writes.ofExcept (env.addressToBuffer a)).bind fun b =>
    ByteBuffer.writes_writeBytes b).congr fun bs _ => ?_
  constructor
  · rintro ⟨_, _, _, rfl, ⟨rfl, h⟩, -, rfl⟩
    exact h
  · intro h
    exact ⟨[], bs, bs, rfl, ⟨rfl, h⟩, trivial, rfl⟩

theorem writes_keys (keys : List PublicKey) :
    ByteBuffer.Puts (Prog.forEach (fun k : PublicKey => ByteBuffer.writeBytes k.bytes) keys) True
      (keys.flatMap PublicKey.bytes) := by
  refine (Cursor.Writes.forEach (W := fun k bs => True ∧ bs = PublicKey.bytes k)
    (fun k => ByteBuffer.writes_writeBytes k.bytes) keys).congr fun bs _ => ?_
  have hshares : ∀ shares : List Bytes,
      List.Forall₂ (fun k bs => True ∧ bs = PublicKey.bytes k) keys shares ↔
        shares = keys.map PublicKey.bytes := by
    induction keys with
    | nil => exact fun shares => List.forall₂_nil_left_iff
    | cons k keys ih =>
      intro shares
      rw [List.forall₂_cons_left_iff, List.map_cons]
      constructor
      · rintro ⟨_, _, ⟨-, rfl⟩, hall, rfl⟩
        rw [(ih _).1 hall]
      · rintro rfl
        exact ⟨_, _, ⟨trivial, rfl⟩, (ih _).2 rfl, rfl⟩
  constructor
  · rintro ⟨shares, rfl, hall⟩
    rw [(hshares shares).1 hall]
    exact ⟨trivial, (List.flatMap_def ..).symm⟩
  · rintro ⟨-, rfl⟩
    exact ⟨_, List.flatMap_def .., (hshares _).2 rfl⟩

/-- A payload that is built in a buffer of its own. -/
theorem payload_runOn {env : CodecServices} {c : TransactionClass} {data : TransactionData}
    {size : Nat} {part : Prog ByteBuffer Exception Unit} {W : Bytes → Unit → Prop} {p : Bytes}
    (hc : c.serialize env data = (ByteBuffer.runOn (ByteBuffer.fromSize size) part).map some)
    (hpart : Cursor.Writes 0 part W) :
    TransactionSerializer.payload env c data = .ok p ↔ W p () ∧ p.length ≤ size := by
  rw [← ByteBuffer.getResult_runOn hpart]
  unfold TransactionSerializer.payload
  rw [hc]
  cases ByteBuffer.runOn (ByteBuffer.fromSize size) part with
  | error e => exact ⟨fun h => (nomatch h), fun ⟨_, h, _⟩ => (nomatch h)⟩
  | ok b =>
    constructor
    · intro h
      exact ⟨b, rfl, Except.ok.inj h⟩
    · rintro ⟨_, h, rfl⟩
      cases h
      rfl

theorem writes_recipient (env : CodecServices) (recipientId : Option Address) :
    Cursor.Writes 0 (match recipientId with
      | some recipientId => writeAddress env recipientId
      | none => pure ()) fun recipient _ =>
        (∀ r, recipientId = some r → env.addressToBuffer r = .ok recipient) ∧
          (recipientId = none → recipient = []) := by
  cases recipientId with
  | none =>
    refine (Cursor.Writes.pure ()).congr fun bs _ => ?_
    exact ⟨fun h => ⟨fun r hr => (nomatch hr), fun _ => h.1⟩, fun h => ⟨h.2 rfl, rfl⟩⟩
  | some r =>
    refine (writes_writeAddress env r).congr fun bs _ => ?_
    exact ⟨fun h => ⟨fun r' hr => Option.some.inj hr ▸ h, fun hr => (nomatch hr)⟩,
      fun h => h.1 r rfl⟩

/-- **What `serialize` returns.** -/
theorem payload_eq_ok (env : CodecServices) (data : TransactionData) (p : Bytes)
    (c : TransactionClass) :
    TransactionSerializer.payload env c data = .ok p ↔ Written env data p c := by
  cases c with
  | transfer =>
    rw [payload_runOn rfl ((ByteBuffer.writes_writeLE 8 data.amount).bind fun _ =>
      (TransactionSerializer.puts_nat 4 (data.expiration.getD 0)).bind fun _ =>
        writes_recipient env data.recipientId)]
    constructor
    · rintro ⟨⟨_, _, _, rfl, ⟨hamount, rfl⟩, _, recipient, _, rfl, ⟨hexp, rfl⟩, hr, hnone⟩, hlen⟩
      exact ⟨hamount, hexp, recipient, hr, hnone, rfl, hlen⟩
    · rintro ⟨hamount, hexp, recipient, hr, hnone, rfl, hlen⟩
      exact ⟨⟨_, _, (), rfl, ⟨hamount, rfl⟩, _, recipient, (), rfl, ⟨hexp, rfl⟩, hr, hnone⟩, hlen⟩
  | validatorRegistration =>
    cases husername : data.username with
    | none =>
      have hthrow : TransactionSerializer.payload env .validatorRegistration data =
          .error (.error "") := by
        unfold TransactionSerializer.payload TransactionClass.serialize
          ValidatorRegistrationTransaction.serialize
        rw [husername]
      rw [hthrow]
      refine ⟨fun h => (nomatch h), fun ⟨u, hu, _⟩ => ?_⟩
      rw [husername] at hu
      cases hu
    | some username =>
      have hc : TransactionClass.serialize env data .validatorRegistration =
          (ByteBuffer.runOn (ByteBuffer.fromSize ((encodeUtf8 username.toList).length + 1)) (do
            ByteBuffer.writeUint8 (encodeUtf8 username.toList).length
            ByteBuffer.writeBytes (encodeUtf8 username.toList))).map some := by
        unfold TransactionClass.serialize ValidatorRegistrationTransaction.serialize
        rw [husername]
      rw [payload_runOn hc ((TransactionSerializer.puts_nat 1 _).seq
        (ByteBuffer.writes_writeBytes _))]
      constructor
      · rintro ⟨⟨⟨hlt, -⟩, rfl⟩, -⟩
        exact ⟨username, husername, hlt, rfl⟩
      · rintro ⟨u, hu, hlt, rfl⟩
        rw [husername] at hu
        cases hu
        refine ⟨⟨⟨hlt, trivial⟩, rfl⟩, ?_⟩
        rw [List.length_append, length_leBytes]
        omega
  | vote =>
    have hc : ∀ votes unvotes, data.votes = some votes → data.unvotes = some unvotes →
        TransactionClass.serialize env data .vote =
          (ByteBuffer.runOn (ByteBuffer.fromSize
              (1 + 1 + env.publicKeySize * votes.length + env.publicKeySize * unvotes.length)) (do
            ByteBuffer.writeUint8 votes.length
            ByteBuffer.writeBytes (VoteTransaction.joined votes)
            ByteBuffer.writeUint8 unvotes.length
            ByteBuffer.writeBytes (VoteTransaction.joined unvotes))).map some := by
      intro votes unvotes hvotes hunvotes
      unfold TransactionClass.serialize VoteTransaction.serialize
      rw [hvotes, hunvotes]
    have hparts : ∀ votes unvotes : List PublicKey, ByteBuffer.Puts (do
            ByteBuffer.writeUint8 votes.length
            ByteBuffer.writeBytes (VoteTransaction.joined votes)
            ByteBuffer.writeUint8 unvotes.length
            ByteBuffer.writeBytes (VoteTransaction.joined unvotes)) _ _ := fun votes unvotes =>
      (TransactionSerializer.puts_nat 1 _).seq ((ByteBuffer.writes_writeBytes _).seq
        ((TransactionSerializer.puts_nat 1 _).seq (ByteBuffer.writes_writeBytes _)))
    constructor
    · intro h
      cases hvotes : data.votes with
      | none =>
        unfold TransactionSerializer.payload TransactionClass.serialize
          VoteTransaction.serialize at h
        rw [hvotes] at h
        cases h
      | some votes =>
        cases hunvotes : data.unvotes with
        | none =>
          unfold TransactionSerializer.payload TransactionClass.serialize
            VoteTransaction.serialize at h
          rw [hvotes, hunvotes] at h
          cases h
        | some unvotes =>
          rw [payload_runOn (hc votes unvotes hvotes hunvotes) (hparts votes unvotes)] at h
          obtain ⟨⟨⟨hn, -, hm, -⟩, rfl⟩, hlen⟩ := h
          exact ⟨votes, unvotes, hvotes, hunvotes, hn, hm, rfl, hlen⟩
    · rintro ⟨votes, unvotes, hvotes, hunvotes, hn, hm, rfl, hlen⟩
      rw [payload_runOn (hc votes unvotes hvotes hunvotes) (hparts votes unvotes)]
      exact ⟨⟨⟨hn, trivial, hm, trivial⟩, rfl⟩, hlen⟩
  | multiSignature =>
    cases hasset : data.multiSignature with
    | none =>
      have hthrow : TransactionSerializer.payload env .multiSignature data =
          .error (.typeError "Cannot destructure property 'min' of undefined") := by
        unfold TransactionSerializer.payload TransactionClass.serialize
          MultiSignatureRegistrationTransaction.serialize
        rw [hasset]
      rw [hthrow]
      refine ⟨fun h => (nomatch h), fun ⟨asset, h, _⟩ => ?_⟩
      rw [hasset] at h
      cases h
    | some asset =>
      have hc : TransactionClass.serialize env data .multiSignature =
          (ByteBuffer.runOn
            (ByteBuffer.fromSize (2 + asset.publicKeys.length * env.publicKeySize)) (do
              ByteBuffer.writeUint8 asset.min
              ByteBuffer.writeUint8 asset.publicKeys.length
              Prog.forEach (fun publicKey : PublicKey => ByteBuffer.writeBytes publicKey.bytes)
                asset.publicKeys)).map some := by
        unfold TransactionClass.serialize MultiSignatureRegistrationTransaction.serialize
        rw [hasset]
      rw [payload_runOn hc ((ByteBuffer.writes_writeLE 1 _).seq
        ((TransactionSerializer.puts_nat 1 _).seq (writes_keys _)))]
      constructor
      · rintro ⟨⟨⟨hmin, hn, -⟩, rfl⟩, hlen⟩
        exact ⟨asset, hasset, hmin, hn, rfl, hlen⟩
      · rintro ⟨asset', h, hmin, hn, rfl, hlen⟩
        rw [hasset] at h
        cases h
        exact ⟨⟨⟨hmin, hn, trivial⟩, rfl⟩, hlen⟩
  | multiPayment =>
    cases hpayments : data.payments with
    | none =>
      have hthrow : TransactionSerializer.payload env .multiPayment data = .error (.error "") := by
        unfold TransactionSerializer.payload TransactionClass.serialize
          MultiPaymentTransaction.serialize
        rw [hpayments]
      rw [hthrow]
      refine ⟨fun h => (nomatch h), fun ⟨payments, h, _⟩ => ?_⟩
      rw [hpayments] at h
      cases h
    | some payments =>
      have hc : TransactionClass.serialize env data .multiPayment =
          (ByteBuffer.runOn (ByteBuffer.fromSize
              (2 + payments.length * env.addressSize + payments.length * 8)) (do
            ByteBuffer.writeUint16 payments.length
            Prog.forEach (fun payment : MultiPaymentItem => do
              ByteBuffer.writeUint64 payment.amount
              writeAddress env payment.recipientId) payments)).map some := by
        unfold TransactionClass.serialize MultiPaymentTransaction.serialize
        rw [hpayments]
      have hpayment : ∀ payment : MultiPaymentItem, Cursor.Writes 0 (do
          ByteBuffer.writeUint64 payment.amount
          writeAddress env payment.recipientId) fun bs _ => PaymentWritten env payment bs := by
        intro payment
        refine ((ByteBuffer.writes_writeLE 8 payment.amount).bind fun _ =>
          writes_writeAddress env payment.recipientId).congr fun bs _ => ?_
        constructor
        · rintro ⟨_, recipient, _, rfl, ⟨hamount, rfl⟩, hto⟩
          exact ⟨hamount, recipient, hto, rfl⟩
        · rintro ⟨hamount, recipient, hto, rfl⟩
          exact ⟨_, recipient, (), rfl, ⟨hamount, rfl⟩, hto⟩
      rw [payload_runOn hc ((TransactionSerializer.puts_nat 2 _).bind fun _ =>
        Cursor.Writes.forEach hpayment payments)]
      constructor
      · rintro ⟨⟨_, _, _, rfl, ⟨hn, rfl⟩, shares, rfl, hall⟩, hlen⟩
        exact ⟨payments, hpayments, hn, shares, hall, rfl, hlen⟩
      · rintro ⟨payments', h, hn, shares, hall, rfl, hlen⟩
        rw [hpayments] at h
        cases h
        exact ⟨⟨_, _, (), rfl, ⟨hn, rfl⟩, shares, rfl, hall⟩, hlen⟩
  | validatorResignation =>
    have hresult : TransactionSerializer.payload env .validatorResignation data = .ok [] := rfl
    rw [hresult]
    exact ⟨fun h => (Except.ok.inj h).symm, fun h => congrArg _ h.symm⟩

/-! ## 5. Both ways -/

theorem VoteTransaction.joined_eq {env : CodecServices} {keys : List PublicKey}
    (h : ∀ k ∈ keys, env.CarriesKey k) :
    VoteTransaction.joined keys = keys.flatMap PublicKey.bytes := by
  have htexts : String.join (keys.map PublicKey.text) = toHex (keys.flatMap PublicKey.bytes) := by
    induction keys with
    | nil => rfl
    | cons k keys ih =>
      have hk : k.text = toHex k.bytes := (h k List.mem_cons_self).1
      rw [List.map_cons, String.join_cons, List.flatMap_cons, toHex_append,
        ih fun k' hk' => h k' (List.mem_cons_of_mem _ hk'), hk]
  unfold VoteTransaction.joined
  rw [htexts, ofHex_toHex]

/-- What a class writes and reads back: a recipient the address package carries, an asset of the
    right shape, numbers that fit. -/
def Encodable (env : CodecServices) (data : TransactionData) : TransactionClass → Prop
  | .transfer => (0 ≤ data.amount ∧ data.amount < 256 ^ 8) ∧
      ∃ expiration recipientId recipient, data.expiration = some expiration ∧
        expiration < 256 ^ 4 ∧ data.recipientId = some recipientId ∧
        env.CarriesAddress recipientId recipient
  | .validatorRegistration => ∃ username, data.asset = some { TransactionAsset.empty with
        username := some username } ∧ (encodeUtf8 username.toList).length < 256 ^ 1
  | .vote => ∃ votes unvotes, data.asset = some { TransactionAsset.empty with
        votes := some votes, unvotes := some unvotes } ∧
      votes.length < 256 ^ 1 ∧ unvotes.length < 256 ^ 1 ∧
      (∀ k ∈ votes, env.CarriesKey k) ∧ ∀ k ∈ unvotes, env.CarriesKey k
  | .multiSignature => ∃ (min : Nat) (publicKeys : List PublicKey), min < 256 ^ 1 ∧
      publicKeys.length < 256 ^ 1 ∧ (∀ k ∈ publicKeys, env.CarriesKey k) ∧
      data.asset = some { TransactionAsset.empty with
        multiSignature := some { min := min, publicKeys := publicKeys, legacy := none } }
  | .multiPayment => data.amount = 0 ∧ ∃ payments : List MultiPaymentItem,
      payments.length < 256 ^ 2 ∧
      data.asset = some { TransactionAsset.empty with payments := some payments } ∧
      ∀ payment ∈ payments, (0 ≤ payment.amount ∧ payment.amount < 256 ^ 8) ∧
        ∃ recipient, env.CarriesAddress payment.recipientId recipient
  | .validatorResignation => True

theorem length_flatMap_keys {env : CodecServices} {keys : List PublicKey}
    (h : ∀ k ∈ keys, env.CarriesKey k) :
    (keys.flatMap PublicKey.bytes).length = env.publicKeySize * keys.length := by
  induction keys with
  | nil => rfl
  | cons k keys ih =>
    rw [List.flatMap_cons, List.length_append, (h k List.mem_cons_self).length,
      ih fun k' hk' => h k' (List.mem_cons_of_mem _ hk'), List.length_cons, Nat.mul_succ]
    omega

/-- Payments that can be written and read back, one after the other. -/
theorem exists_shares {env : CodecServices} {payments : List MultiPaymentItem}
    (h : ∀ payment ∈ payments, (0 ≤ payment.amount ∧ payment.amount < 256 ^ 8) ∧
      ∃ recipient, env.CarriesAddress payment.recipientId recipient) :
    ∃ shares : List Bytes,
      List.Forall₂ (fun share payment => PaymentOf env payment share) shares payments ∧
      List.Forall₂ (PaymentWritten env) payments shares ∧
      shares.flatten.length = payments.length * (8 + env.addressSize) := by
  induction payments with
  | nil => exact ⟨[], List.Forall₂.nil, List.Forall₂.nil, (Nat.zero_mul _).symm⟩
  | cons payment payments ih =>
    obtain ⟨shares, hread, hwrite, hlen⟩ := ih fun p hp => h p (List.mem_cons_of_mem _ hp)
    obtain ⟨hamount, recipient, hto, hsize, hfrom⟩ := h payment List.mem_cons_self
    refine ⟨(leBytes 8 payment.amount.toNat ++ recipient) :: shares,
      List.Forall₂.cons ⟨hamount.1, hamount.2, recipient, hsize, hfrom, rfl⟩ hread,
      List.Forall₂.cons ⟨hamount, recipient, hto, rfl⟩ hwrite, ?_⟩
    rw [List.flatten_cons, List.length_append, List.length_append, length_leBytes, hsize, hlen,
      List.length_cons, Nat.succ_mul]
    omega

/-- **What can be encoded is written as bytes that are read back.** -/
theorem exists_payload {env : CodecServices} {data : TransactionData} {c : TransactionClass}
    (h : Encodable env data c) : ∃ p, PayloadOf env data p c ∧ Written env data p c := by
  cases c with
  | transfer =>
    obtain ⟨hamount, expiration, recipientId, recipient, hexp, hlt, hrec, hto, hlen, hfrom⟩ := h
    have hsize := env.addressSize_le
    refine ⟨_, ⟨hamount.1, hamount.2, expiration, recipientId, recipient, hexp, hlt, hrec, hlen,
      hfrom, rfl⟩, hamount, ?_, recipient, ?_, ?_, ?_, ?_⟩
    · rw [hexp]
      exact hlt
    · intro r hr
      rw [hrec] at hr
      cases hr
      exact hto
    · intro hnone
      rw [hrec] at hnone
      cases hnone
    · rw [hexp]
      rfl
    · rw [List.length_append, List.length_append, length_leBytes, length_leBytes]
      omega
  | validatorRegistration =>
    obtain ⟨username, hasset, hlt⟩ := h
    refine ⟨_, ⟨encodeUtf8 username.toList, hlt, ?_, rfl⟩, username, ?_, hlt, rfl⟩
    · rw [hasset, decodeUtf8_encodeUtf8, String.ofList_toList]
    · unfold TransactionData.username
      rw [hasset]
      rfl
  | vote =>
    obtain ⟨votes, unvotes, hasset, hn, hm, hvotes, hunvotes⟩ := h
    refine ⟨_, ⟨votes, unvotes, hasset, hn, hm, hvotes, hunvotes, rfl⟩, votes, unvotes, ?_, ?_, hn,
      hm, ?_, ?_⟩
    · unfold TransactionData.votes
      rw [hasset]
      rfl
    · unfold TransactionData.unvotes
      rw [hasset]
      rfl
    · rw [VoteTransaction.joined_eq hvotes, VoteTransaction.joined_eq hunvotes]
    · simp only [List.length_append, length_leBytes]
      rw [length_flatMap_keys hvotes, length_flatMap_keys hunvotes]
      omega
  | multiSignature =>
    obtain ⟨min, keys, hmin, hn, hkeys, hasset⟩ := h
    refine ⟨_, ⟨min, keys, hmin, hn, hkeys, hasset, rfl⟩,
      { min := min, publicKeys := keys, legacy := none }, ?_, ⟨?_, ?_⟩, hn, ?_, ?_⟩
    · unfold TransactionData.multiSignature
      rw [hasset]
      rfl
    · exact Int.natCast_nonneg min
    · exact natCast_lt_pow.2 hmin
    · rw [Int.toNat_natCast]
    · simp only [List.length_append, length_leBytes]
      rw [length_flatMap_keys hkeys, Nat.mul_comm]
      omega
  | multiPayment =>
    obtain ⟨hamount, payments, hn, hasset, hall⟩ := h
    obtain ⟨shares, hread, hwrite, hlen⟩ := exists_shares hall
    refine ⟨_, ⟨hamount, payments, hn, hasset, shares, hread, rfl⟩, payments, ?_, hn, shares, hwrite,
      rfl, ?_⟩
    · unfold TransactionData.payments
      rw [hasset]
      rfl
    · rw [List.length_append, length_leBytes, hlen, Nat.mul_add]
      omega
  | validatorResignation => exact ⟨[], rfl, rfl⟩

/-- The address package writes an address as the bytes it was read from, if at all. -/
def CodecServices.AddressesReturn (env : CodecServices) : Prop :=
  ∀ bs a bs', env.addressFromBuffer bs = .ok a → env.addressToBuffer a = .ok bs' → bs' = bs

theorem shares_unique {env : CodecServices} (hinv : env.AddressesReturn)
    {payments : List MultiPaymentItem} {shares shares' : List Bytes}
    (h : List.Forall₂ (fun share payment => PaymentOf env payment share) shares payments)
    (h' : List.Forall₂ (PaymentWritten env) payments shares') : shares' = shares := by
  induction h generalizing shares' with
  | nil =>
    cases h'
    rfl
  | @cons share payment shares payments hread _ ih =>
    cases h' with
    | @cons _ share' _ shares' hwrite hrest =>
      obtain ⟨_, _, recipient, _, hfrom, rfl⟩ := hread
      obtain ⟨_, recipient', hto, rfl⟩ := hwrite
      rw [hinv _ _ _ hfrom hto, ih hrest]

/-- **A payload that was read is written as it was.** -/
theorem payload_unique {env : CodecServices} (hinv : env.AddressesReturn) {data : TransactionData}
    {p p' : Bytes} {c : TransactionClass} (h : PayloadOf env data p c) (h' : Written env data p' c)
    (husername : ∀ username, data.username = some username → replacementChar ∉ username.toList) :
    p' = p := by
  cases c with
  | transfer =>
    obtain ⟨_, _, expiration, recipientId, recipient, hexp, _, hrec, _, hfrom, rfl⟩ := h
    obtain ⟨_, _, recipient', hto, _, rfl, _⟩ := h'
    rw [hinv _ _ _ hfrom (hto _ hrec), hexp]
    rfl
  | validatorRegistration =>
    obtain ⟨bs, _, hasset, rfl⟩ := h
    obtain ⟨username, hname, _, rfl⟩ := h'
    unfold TransactionData.username at hname husername
    rw [hasset] at hname husername
    cases hname
    have hutf8 : IsUtf8 bs := by
      apply isUtf8_of_notMem
      have hnot := husername _ rfl
      rwa [String.toList_ofList] at hnot
    rw [String.toList_ofList, hutf8]
  | vote =>
    obtain ⟨votes, unvotes, hasset, _, _, hvotes, hunvotes, rfl⟩ := h
    obtain ⟨votes', unvotes', hv, hu, _, _, rfl, _⟩ := h'
    unfold TransactionData.votes at hv
    unfold TransactionData.unvotes at hu
    rw [hasset] at hv hu
    cases hv
    cases hu
    rw [VoteTransaction.joined_eq hvotes, VoteTransaction.joined_eq hunvotes]
  | multiSignature =>
    obtain ⟨min, keys, _, _, _, hasset, rfl⟩ := h
    obtain ⟨asset, hmulti, _, _, rfl, _⟩ := h'
    unfold TransactionData.multiSignature at hmulti
    rw [hasset] at hmulti
    cases hmulti
    rw [Int.toNat_natCast]
  | multiPayment =>
    obtain ⟨_, payments, _, hasset, shares, hread, rfl⟩ := h
    obtain ⟨payments', hp, _, shares', hwrite, rfl, _⟩ := h'
    unfold TransactionData.payments at hp
    rw [hasset] at hp
    cases hp
    rw [shares_unique hinv hread hwrite]
  | validatorResignation => exact h'.trans h.symm

end CoreEx

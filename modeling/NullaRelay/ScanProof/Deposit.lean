import NullaRelay.Foundations.WordSize
import NullaRelay.ScanProof.NotePurchases
import NullaRelay.ScanProof.VectorModel

/-!
# Deposits of notes

The amount of a deposit stands in a field that follows the range proof, the
value of the note in its commitment, and nothing ties the two. A deposit that
succeeds pays the trailing field, `parseDeposit_eq_ok`, wherever the length
field and the `usize` arithmetic point. The verifier has a check that would tie
them, `verify_commitment`, and the call leaves it out: the note is worth what was
paid exactly when this check passes for some blinding.
-/

namespace NullaRelay.ScanProof

open Verifier NullaRelay.Frame LittleEndian

variable {V : Type} [AddCommGroup V] [Module Scalar V]
variable {A L : Type} {T : Config A L}

/-- The eight bytes after the range proof, as an integer. -/
def trailingAmount (rp : List UInt8) : UInt64 :=
  UInt64.ofNat (leNat ((rp.drop (5 + proofLength rp)).take 8))

theorem proofLength_lt (rp : List UInt8) : proofLength rp < 2 ^ 32 := by
  have hlt := leNat_lt ((rp.drop 1).take 4)
  have hlen : ((rp.drop 1).take 4).length ≤ 4 := by simp
  calc
    proofLength rp < 256 ^ ((rp.drop 1).take 4).length := hlt
    _ ≤ 256 ^ 4 := Nat.pow_le_pow_right (by norm_num) hlen
    _ = 2 ^ 32 := by norm_num

/-- A wrapped end that lies behind the start did not wrap. -/
theorem wrap_eq_of_le {n : ℕ} (hn : n < 2 ^ 32) (h : 5 ≤ wrap T (5 + n)) :
    wrap T (5 + n) = 5 + n := by
  have hpow : 2 ^ 32 ≤ 2 ^ T.usizeBits := Nat.pow_le_pow_right (by norm_num) T.usizeBits_ge
  have hstart : 5 < 2 ^ T.usizeBits := lt_of_lt_of_le (by norm_num) hpow
  exact WordSize.wrapAdd_of_le_wrapAdd hstart (hn.trans_le hpow) h

/-- Eight consecutive reads are the eight bytes from the first one on. -/
theorem reads_eq_take {rp bs : List UInt8} {e : ℕ}
    (h : List.Forall₂ (fun k b => rp[e + k]? = some b) (List.range 8) bs) :
    bs = (rp.drop e).take 8 := by
  have hlen : bs.length = 8 := by simpa using h.length_eq.symm
  refine List.ext_getElem? fun k => ?_
  rw [List.getElem?_take]
  split_ifs with hk
  · have hget := (List.forall₂_iff_get.1 h).2 k (by simpa using hk) (by omega)
    simp only [List.get_eq_getElem, List.getElem_range] at hget
    rw [List.getElem?_drop, hget, List.getElem?_eq_getElem (by omega)]
  · exact List.getElem?_eq_none (by omega)

theorem encodeU64_leNat {bs : List UInt8} (hlen : bs.length = 8) :
    Scale.encodeU64 (UInt64.ofNat (leNat bs)) = bs := by
  have hlt : leNat bs < 256 ^ 8 := hlen ▸ leNat_lt bs
  have hamount : (UInt64.ofNat (leNat bs)).toNat = leNat bs := UInt64.toNat_ofNat_of_lt' hlt
  refine leNat_inj ((length_leBytes 8 _).trans hlen.symm) ?_
  rw [Scale.encodeU64, hamount, leNat_leBytes_of_lt hlt]

/-- What a well-formed deposit is parsed to: the bytes that the length field
delimits and the trailing field, whose eight bytes are there. -/
theorem parseDeposit_eq_ok {rp bp : List UInt8} {amt : UInt64} (hlen : rp.length < 2 ^ 31)
    (h : parseDeposit T rp = .ok (bp, amt)) :
    bp = (rp.drop 5).take (proofLength rp) ∧ amt = trailingAmount rp ∧
      (rp.drop (5 + proofLength rp)).take 8 = Scale.encodeU64 amt := by
  have hpow : 2 ^ 32 ≤ 2 ^ T.usizeBits := Nat.pow_le_pow_right (by norm_num) T.usizeBits_ge
  simp only [parseDeposit, bind_eq_ok, ensure_eq_ok, pure_eq_ok, exists_and_left, exists_const,
    Prod.mk.injEq] at h
  obtain ⟨-, -, -, bpBytes, hslice, amtBytes, hreads, rfl, rfl⟩ := h
  rw [slice] at hslice
  split_ifs at hslice with hbounds
  have hwrap := wrap_eq_of_le (proofLength_lt rp) hbounds.1
  rw [hwrap] at hbounds hslice hreads
  obtain rfl := Except.ok.inj hslice
  have hall : List.Forall₂ (fun k b => rp[5 + proofLength rp + k]? = some b)
      (List.range 8) amtBytes := by
    rw [mapM_eq_ok] at hreads
    refine List.forall₂_iff_get.2 ⟨hreads.length_eq, fun k hk hk' => ?_⟩
    have hget := (List.forall₂_iff_get.1 hreads).2 k hk hk'
    have hk8 : k < 8 := by simpa using hk
    have hidx : wrap T (5 + proofLength rp + k) = 5 + proofLength rp + k :=
      Nat.mod_eq_of_lt (by omega)
    simpa [hidx] using hget
  have hfield := reads_eq_take hall
  have hwidth : amtBytes.length = 8 := by simpa using hall.length_eq.symm
  refine ⟨?_, ?_, ?_⟩
  · rw [List.drop_take, Nat.add_sub_cancel_left]
  · rw [trailingAmount, hfield]
  · rw [← hfield, encodeU64_leNat hwidth]

section Paid

variable [DecidableEq V]

/-- The check that the call leaves out: the eight bytes after the range proof encode an
amount that `verify_commitment` accepts for the commitment, with some blinding. -/
def AmountVerified (P : Primitives V) (commitment : U8Array 32) (rp : List UInt8) : Prop :=
  ∃ amount blinding, (rp.drop (5 + proofLength rp)).take 8 = Scale.encodeU64 amount ∧
    Verifier.verifyCommitment P amount blinding commitment = true

theorem verifyCommitment_eq_true {P : Primitives V} {v : UInt64} {b c : U8Array 32} :
    Verifier.verifyCommitment P v b c = true ↔ ∃ p, P.decompress c = some p ∧
      p = Scalar.ofU64 v • P.basepoint + Scalar.fromBytesModOrder b • generatorH P := by
  unfold Verifier.verifyCommitment
  cases P.decompress c with
  | none => simp
  | some p => simp [eq_comm]

/-- A commitment opens to a value if some blinding passes the check, and the other way
round: every scalar has a byte encoding. -/
theorem opensTo_iff_verifyCommitment {P : Primitives V} {v : UInt64} {c : U8Array 32} :
    OpensTo P c (Scalar.ofU64 v) ↔ ∃ b, Verifier.verifyCommitment P v b c = true := by
  simp only [verifyCommitment_eq_true]
  constructor
  · rintro ⟨p, hp, r, hopen⟩
    refine ⟨Scalar.toBytes r, p, hp, ?_⟩
    rw [Scalar.fromBytesModOrder_toBytes, hopen]
  · rintro ⟨b, p, hp, hopen⟩
    exact ⟨p, hp, _, hopen⟩

theorem encodeU64_inj {x y : UInt64} (h : Scale.encodeU64 x = Scale.encodeU64 y) : x = y := by
  have hnat := congrArg leNat h
  rw [Scale.encodeU64, Scale.encodeU64, leNat_leBytes_of_lt x.toNat_lt,
    leNat_leBytes_of_lt y.toNat_lt] at hnat
  exact UInt64.toNat_inj.1 hnat

/-- A deposit that succeeds inserts a note of some value `v` and moves the trailing
amount to the pool, and the two are the same exactly when the amount is one that
`verify_commitment` accepts. -/
theorem deposit_opens_to_paid_iff {P : Primitives V}
    (hind : LinearIndependent Scalar ![P.basepoint, generatorH P])
    (hrange : DepositRangeSound P T.proofVerifier)
    {s s' : State L} {who : A} {commitment : List UInt8}
    {rp : BoundedVec UInt8 T.maxRangeProofSize} {hints : BoundedVec UInt8 4096}
    (h : depositPublic T s (.signed who) commitment rp hints = .ok s') :
    ∃ (c : U8Array 32) (v : ℕ), commitment = c.toList ∧ v < 2 ^ 64 ∧
      OpensTo P c v ∧ leafHash T c ∈ s'.leaves.val ∧ (s'.commitmentIndex c).isSome ∧
      T.currency.transfer s.ledger who T.poolAccount (trailingAmount rp.val).toNat .keepAlive =
        some s'.ledger ∧
      (v = (trailingAmount rp.val).toNat ↔ AmountVerified P c rp.val) := by
  obtain ⟨who', hwho, c, hc, bp, amt, hparse, hverify, ledger, hpay, -, t, ht, rfl⟩ :=
    depositPublic_eq_ok.1 h
  obtain rfl : who = who' := by simpa using hwho
  obtain ⟨v, hv, hopen⟩ := hrange bp c hverify
  obtain ⟨leaves, hpush, rfl⟩ := insertNote_eq_ok.1 ht
  have hlen : rp.val.length < 2 ^ 31 := lt_of_le_of_lt rp.property T.maxRangeProofSize_lt
  obtain ⟨-, rfl, hfield⟩ := parseDeposit_eq_ok hlen hparse
  refine ⟨c, v, hc, hv, hopen, ?_, ?_, hpay, ?_⟩
  · simp [State.depositEvent, updateRoot, (BoundedVec.tryPush_eq_some.1 hpush).2]
  · simp [State.depositEvent, updateRoot]
  · constructor
    · rintro rfl
      obtain ⟨b, hb⟩ := opensTo_iff_verifyCommitment.1 hopen
      exact ⟨_, b, hfield, hb⟩
    · rintro ⟨amount, b, hamount, hb⟩
      obtain rfl := encodeU64_inj (hfield.symm.trans hamount)
      have hlt : (2 : ℕ) ^ 64 < groupOrder := by norm_num [groupOrder]
      -- over independent generators the commitment has no second opening
      have hvalue := hopen.value_eq hind (opensTo_iff_verifyCommitment.2 ⟨b, hb⟩)
      exact Scalar.natCast_inj (hv.trans hlt) (Scalar.u64_lt_groupOrder _) hvalue

end Paid

/-! Deposits over vectors, where a note of value `v` and blinding `r` is the
point `(0, v, r)`. -/

/-- Range-proof bytes with an empty proof and the given trailing field. -/
def depositBytes (amount : UInt64) : BoundedVec UInt8 vectorConfig.maxRangeProofSize :=
  ⟨[1, 0, 0, 0, 0] ++ Scale.encodeU64 amount, by
    simp [Scale.encodeU64, vectorConfig]⟩

theorem depositBytes_parse (amount : UInt64) :
    parseDeposit vectorConfig (depositBytes amount).val = .ok ([], amount) := by
  have hlen : (depositBytes amount).val.length = 13 := by simp [depositBytes, Scale.encodeU64]
  have hreads : (List.range 8).mapM (fun k => okOr
      ((depositBytes amount).val[wrap vectorConfig (wrap vectorConfig (5 + 0) + k)]?)
      (DispatchError.trap (E := Error))) = .ok (Scale.encodeU64 amount) := by
    refine mapM_eq_ok.2 (List.forall₂_iff_get.2 ⟨by simp [Scale.encodeU64], fun k hk hk' => ?_⟩)
    have hk8 : k < 8 := by simpa using hk
    have hidx : wrap vectorConfig (wrap vectorConfig (5 + 0) + k) = 5 + k := by
      simp only [wrap, vectorConfig]
      omega
    have hget : (depositBytes amount).val[5 + k]? = (Scale.encodeU64 amount)[k]? := by
      rw [← List.getElem?_drop]
      rfl
    simp only [List.get_eq_getElem, List.getElem_range, hidx, hget, okOr_eq_ok,
      List.getElem?_eq_getElem hk']
  have hamount : UInt64.ofNat (leNat (Scale.encodeU64 amount)) = amount := by
    rw [Scale.encodeU64, leNat_leBytes_of_lt amount.toNat_lt]
    simp
  simp only [parseDeposit, bind_eq_ok, ensure_eq_ok, pure_eq_ok, exists_and_left, exists_const]
  have hend : wrap vectorConfig (wrap vectorConfig (5 + 0) + 8) = 13 := by
    simp only [wrap, vectorConfig]
    norm_num
  refine ⟨hlen.ge, rfl, (hend.trans hlen.symm).le, [], rfl, _, hreads, ?_⟩
  rw [hamount]

/-- A deposit of a new note of value `v` that pays the trailing field. -/
theorem hashed_depositPublic_ok (blake2_256 : List UInt8 → U8Array 32)
    {s : State (U8Array 32 → ℕ)} {who : U8Array 32} {v r : ℕ} {amount : UInt64} (hv : v < 2 ^ 64)
    (hr : r < 256 ^ 12) (hnew : s.commitmentIndex (encodePoint 0 v r) = none)
    (hbal : amount.toNat ≤ s.ledger who) (hroom : s.leaves.val.length < 1048576) :
    ∃ s', depositPublic (vectorConfig.withHash blake2_256) s (.signed who)
        (encodePoint 0 v r).toList (depositBytes amount) BoundedVec.empty = .ok s' ∧
      s'.ledger = moveBalance s.ledger who vectorConfig.poolAccount amount.toNat ∧
      s'.nullifierUsed = s.nullifierUsed ∧
      s'.leaves.val = s.leaves.val ++ [NoteTree.leafHash blake2_256 (encodePoint 0 v r)] ∧
      s'.commitmentIndex = insertAt s.commitmentIndex (encodePoint 0 v r)
        (some (UInt32.ofNat s.leaves.val.length)) := by
  have hopen : OpensTo vectorPrimitives (encodePoint 0 v r) v := by
    refine ⟨_, congrArg some (decodePoint_encodePoint (by norm_num) (by omega) hr), r, ?_⟩
    simp
  refine ⟨_, depositPublic_eq_ok.2 ⟨who, rfl, _, rfl, [], amount, depositBytes_parse amount, ?_,
    _, balances_transfer_of_le hbal _ _, hnew, _,
    insertNote_eq_ok.2 ⟨_, BoundedVec.tryPush_of_lt hroom _, rfl⟩, rfl⟩, rfl, rfl, rfl, rfl⟩
  refine (relationVerifier_verifyRangeProof _).2 ⟨by simp, fun c hc => ?_⟩
  obtain rfl := List.mem_singleton.1 hc
  exact ⟨v, hv, hopen⟩

theorem vector_depositPublic_ok {s : State (U8Array 32 → ℕ)} {who : U8Array 32} {v r : ℕ}
    {amount : UInt64} (hv : v < 2 ^ 64) (hr : r < 256 ^ 12)
    (hnew : s.commitmentIndex (encodePoint 0 v r) = none)
    (hbal : amount.toNat ≤ s.ledger who) (hroom : s.leaves.val.length < 1048576) :
    ∃ s', depositPublic vectorConfig s (.signed who) (encodePoint 0 v r).toList
        (depositBytes amount) BoundedVec.empty = .ok s' ∧
      s'.ledger = moveBalance s.ledger who vectorConfig.poolAccount amount.toNat ∧
      s'.nullifierUsed = s.nullifierUsed ∧
      s'.leaves.val.length = s.leaves.val.length + 1 ∧
      s'.commitmentIndex = insertAt s.commitmentIndex (encodePoint 0 v r)
        (some (UInt32.ofNat s.leaves.val.length)) := by
  obtain ⟨s', hs', hledger, hused, hleaves, hindex⟩ :=
    hashed_depositPublic_ok vectorConfig.blake2_256 hv hr hnew hbal hroom
  refine ⟨s', hs', hledger, hused, ?_, hindex⟩
  rw [hleaves, List.length_append, List.length_singleton]

/-- A deposit that pays one for a note of value `2 ^ 63`. -/
theorem deposit_pays_one_for_two_pow_63 : ∃ s',
    depositPublic vectorConfig (genesis fun _ => 100) (.signed (U8Array.ofNat 32 2))
        (encodePoint 0 (2 ^ 63) 5).toList (depositBytes 1) BoundedVec.empty = .ok s' ∧
      DepositRangeSound vectorPrimitives vectorConfig.proofVerifier ∧
      s'.ledger = moveBalance (fun _ => 100) (U8Array.ofNat 32 2) vectorConfig.poolAccount 1 ∧
      (s'.commitmentIndex (encodePoint 0 (2 ^ 63) 5)).isSome ∧
      OpensTo vectorPrimitives (encodePoint 0 (2 ^ 63) 5) ((2 ^ 63 : ℕ) : Scalar) ∧
      ¬ OpensTo vectorPrimitives (encodePoint 0 (2 ^ 63) 5) ((1 : ℕ) : Scalar) := by
  obtain ⟨s', hs', hledger, -, -, hindex⟩ := @vector_depositPublic_ok
    (genesis fun _ => 100) (U8Array.ofNat 32 2) (2 ^ 63) 5 1 (by norm_num) (by norm_num) rfl
    (by decide) (by decide)
  have hopen : OpensTo vectorPrimitives (encodePoint 0 (2 ^ 63) 5) ((2 ^ 63 : ℕ) : Scalar) := by
    refine ⟨_, congrArg some (decodePoint_encodePoint (by norm_num) (by norm_num) (by norm_num)),
      ((5 : ℕ) : Scalar), ?_⟩
    simp
  refine ⟨s', hs', relationVerifier_depositRangeSound _, hledger, by simp [hindex], hopen,
    fun hone => ?_⟩
  have hval := hopen.value_eq vector_independent_pair hone
  have hnat := Scalar.natCast_inj (by norm_num [groupOrder]) (by norm_num [groupOrder]) hval
  norm_num at hnat

/-- The same deposit meets the assumptions of `deposit_opens_to_paid_iff`. -/
theorem deposit_opens_to_paid_iff_two_pow_63 : ∃ s',
    depositPublic vectorConfig (genesis fun _ => 100) (.signed (U8Array.ofNat 32 2))
        (encodePoint 0 (2 ^ 63) 5).toList (depositBytes 1) BoundedVec.empty = .ok s' ∧
      ∃ (c : U8Array 32) (v : ℕ), (encodePoint 0 (2 ^ 63) 5).toList = c.toList ∧
        v < 2 ^ 64 ∧ OpensTo vectorPrimitives c v ∧ leafHash vectorConfig c ∈ s'.leaves.val ∧
        (s'.commitmentIndex c).isSome ∧
        vectorConfig.currency.transfer (fun _ => 100) (U8Array.ofNat 32 2)
          vectorConfig.poolAccount (trailingAmount (depositBytes 1).val).toNat .keepAlive =
            some s'.ledger ∧
        (v = (trailingAmount (depositBytes 1).val).toNat ↔
          AmountVerified vectorPrimitives c (depositBytes 1).val) := by
  obtain ⟨s', hs', -⟩ := @vector_depositPublic_ok
    (genesis fun _ => 100) (U8Array.ofNat 32 2) (2 ^ 63) 5 1 (by norm_num) (by norm_num) rfl
    (by decide) (by decide)
  exact ⟨s', hs', deposit_opens_to_paid_iff vector_independent_pair
    (relationVerifier_depositRangeSound _) hs'⟩

end NullaRelay.ScanProof

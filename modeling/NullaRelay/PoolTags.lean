import NullaRelay.ProofHub.SpendTags
import NullaRelay.ProofHub.ValidateUnsigned
import NullaRelay.ScanProof.Marks

/-!
# Tags in the transaction pool

The pool keeps no two transactions that provide the same tag. A tag is a prefix
with a value, and every kind of call has a prefix of its own, so that calls of two
kinds share no tag at all, whatever they spend. Calls of one kind share a tag when
they provide a common value: all of them provide the nullifiers, the spend tags and
the serials that they spend, except for the record of a relist, which is not
provided, and the nullifiers of a balance proof, which are provided as one value.
-/

namespace NullaRelay

open NullaRelay.Frame LittleEndian Scale
open ScanProof (ValidTransaction providesTag)

/-- The transactions share a tag, so that the pool holds one of them at most. -/
def ScanProof.ValidTransaction.SharesTag (v w : ValidTransaction) : Prop :=
  ∃ t ∈ v.provides, t ∈ w.provides

section Tags

/-- A tag determines its prefix and its value. -/
theorem providesTag_inj {p q : String} {x y : List UInt8} (hp : (byteString p).length < 2 ^ 32)
    (hq : (byteString q).length < 2 ^ 32) :
    providesTag p x = providesTag q y ↔ byteString p = byteString q ∧ x = y := by
  constructor
  · intro h
    have hread : (decodeVec decodeU8).run (encodeVec encodeU8 (byteString p) ++ x) =
        (decodeVec decodeU8).run (encodeVec encodeU8 (byteString q) ++ y) :=
      congrArg (decodeVec decodeU8).run h
    rw [decodeVec_append decodes_u8 hp, decodeVec_append decodes_u8 hq, Option.some.injEq,
      Prod.mk.injEq] at hread
    exact hread
  · rintro ⟨hpq, rfl⟩
    rw [providesTag, providesTag, hpq]

/-- Prefixes that are short and differ as bytes. -/
structure TagPrefixes {K : Type} (tagPrefix : K → String) : Prop where
  short : ∀ k, (byteString (tagPrefix k)).length < 2 ^ 32
  distinct : Function.Injective fun k => byteString (tagPrefix k)

/-- Tags of two kinds of call: a common tag is a common value of one kind. -/
theorem TagPrefixes.sharesTag_iff {K : Type} {tagPrefix : K → String} (h : TagPrefixes tagPrefix)
    {v w : ValidTransaction} {k l : K} {xs ys : List (List UInt8)}
    (hv : v.provides = xs.map (providesTag (tagPrefix k)))
    (hw : w.provides = ys.map (providesTag (tagPrefix l))) :
    v.SharesTag w ↔ k = l ∧ ∃ x ∈ xs, x ∈ ys := by
  simp only [ValidTransaction.SharesTag, hv, hw, List.mem_map]
  constructor
  · rintro ⟨_, ⟨x, hx, rfl⟩, y, hy, hxy⟩
    obtain ⟨hkl, rfl⟩ := (providesTag_inj (h.short l) (h.short k)).1 hxy
    exact ⟨(h.distinct hkl).symm, y, hx, hy⟩
  · rintro ⟨rfl, x, hx, hy⟩
    exact ⟨_, ⟨x, hx, rfl⟩, x, hy, rfl⟩

/-- Two admitted calls, where a condition on the calls says whether a kind shared by
them gives them a common value. -/
theorem TagPrefixes.sharesTag_iff_of {K : Type} {tagPrefix : K → String}
    (h : TagPrefixes tagPrefix) {v w : ValidTransaction} {kv kw : Option K}
    {xs ys : List (List UInt8)} {excludes : Prop}
    (hv : ∃ k, kv = some k ∧ v.provides = xs.map (providesTag (tagPrefix k)))
    (hw : ∃ l, kw = some l ∧ w.provides = ys.map (providesTag (tagPrefix l)))
    (hkind : excludes → kv = kw) (hcommon : kv = kw → ((∃ x ∈ xs, x ∈ ys) ↔ excludes)) :
    v.SharesTag w ↔ excludes := by
  obtain ⟨k, rfl, hkv⟩ := hv
  obtain ⟨l, rfl, hlw⟩ := hw
  rw [h.sharesTag_iff hkv hlw]
  constructor
  · rintro ⟨rfl, hx⟩
    exact (hcommon rfl).1 hx
  · intro hex
    exact ⟨Option.some.inj (hkind hex), (hcommon (hkind hex)).2 hex⟩

/-- Two pairs of values where lengths keep the first apart from the second. -/
theorem exists_common_pair_iff {a b x y : List UInt8} (hay : a.length ≠ y.length)
    (hxb : x.length ≠ b.length) : (∃ z ∈ [a, x], z ∈ [b, y]) ↔ a = b ∨ x = y := by
  have hay' : a ≠ y := fun h => hay (congrArg _ h)
  have hxb' : x ≠ b := fun h => hxb (congrArg _ h)
  simp [hay', hxb']

end Tags

namespace ProofHub

/-- The calls that the pool admits. -/
inductive UnsignedKind
  | purchaseRwa
  | withdrawPrivate
  | relistPrivate
  | purchaseRwaV2
  | withdrawV2
  | purchaseAccess
  | purchaseAccessV2
  deriving DecidableEq

def UnsignedKind.tagPrefix : UnsignedKind → String
  | .purchaseRwa => "RwaPurchase"
  | .withdrawPrivate => "NullaWithdraw"
  | .relistPrivate => "NullaRelist"
  | .purchaseRwaV2 => "NullaPurchaseV2"
  | .withdrawV2 => "NullaWithdrawV2"
  | .purchaseAccess => "DistAccessPurchase"
  | .purchaseAccessV2 => "DistAccessPurchaseV2"

def Call.unsignedKind : Call → Option UnsignedKind
  | .purchaseRwa .. => some .purchaseRwa
  | .withdrawPrivate .. => some .withdrawPrivate
  | .relistPrivate .. => some .relistPrivate
  | .purchaseRwaV2 .. => some .purchaseRwaV2
  | .withdrawV2 .. => some .withdrawV2
  | .purchaseAccess .. => some .purchaseAccess
  | .purchaseAccessV2 .. => some .purchaseAccessV2
  | _ => none

theorem tagPrefixes : TagPrefixes UnsignedKind.tagPrefix where
  short k := by cases k <;> decide
  distinct k l h := by
    revert h
    cases k <;> cases l <;> decide

/-- The values that a call provides, each under the prefix of its kind. -/
def Call.tagValues : Call → List (List UInt8)
  | .purchaseRwa _ pi | .purchaseAccess _ pi =>
      (RwaPurchaseInputs.decode pi).elim [] fun i =>
        [i.txId.toList, i.nullifier.toList, i.spendTag.toList]
  | .withdrawPrivate _ pi =>
      (WithdrawInputs.decode pi).elim [] fun i => [i.txId.toList, i.spendTag.toList]
  | .relistPrivate i => [i.newTxId.toList, i.newBuyerSpendTag.toList]
  | .purchaseRwaV2 _ pi _ | .purchaseAccessV2 _ pi _ =>
      (SpendPublicV2.decode pi).elim [] fun i => [i.txId.toList, i.nullifier.toList]
  | .withdrawV2 _ pi _ =>
      (WithdrawPublicV2.decode pi).elim [] fun i => [i.txId.toList, i.nullifier.toList]
  | _ => []

variable {A L : Type} {s : State L} {c d : Call}

theorem provides_of_validateTagged {pi : List UInt8} {tagPrefix : String} {v : ValidTransaction}
    (h : validateTagged s pi tagPrefix = .ok v) :
    v.provides = ((RwaPurchaseInputs.decode pi).elim [] fun i =>
      [i.txId.toList, i.nullifier.toList, i.spendTag.toList]).map (providesTag tagPrefix) := by
  simp only [validateTagged, bind_eq_ok, okOr_eq_ok, pure_eq_ok] at h
  obtain ⟨i, hdec, _, -, _, -, _, -, rfl⟩ := h
  rw [hdec]
  rfl

theorem provides_of_validatePurchaseV2 {pi : List UInt8} {tagPrefix : String}
    {v : ValidTransaction} (h : validatePurchaseV2 s pi tagPrefix = .ok v) :
    v.provides = ((SpendPublicV2.decode pi).elim [] fun i =>
      [i.txId.toList, i.nullifier.toList]).map (providesTag tagPrefix) := by
  simp only [validatePurchaseV2, validateSpendV2, bind_eq_ok, okOr_eq_ok, pure_eq_ok] at h
  obtain ⟨i, hdec, _, -, _, -, rfl⟩ := h
  rw [hdec]
  rfl

/-- An admitted call provides its values under the prefix of its kind. -/
theorem provides_of_validateUnsigned {v : ValidTransaction} (h : validateUnsigned s c = .ok v) :
    ∃ k, c.unsignedKind = some k ∧ v.provides = c.tagValues.map (providesTag k.tagPrefix) := by
  cases c with
  | purchaseRwa p pi => exact ⟨_, rfl, provides_of_validateTagged h⟩
  | purchaseAccess p pi => exact ⟨_, rfl, provides_of_validateTagged h⟩
  | purchaseRwaV2 auth pi p => exact ⟨_, rfl, provides_of_validatePurchaseV2 h⟩
  | purchaseAccessV2 auth pi p => exact ⟨_, rfl, provides_of_validatePurchaseV2 h⟩
  | withdrawPrivate p pi =>
      simp only [validateUnsigned, validateWithdrawPrivate, bind_eq_ok, okOr_eq_ok,
        pure_eq_ok] at h
      obtain ⟨i, hdec, _, -, _, -, rfl⟩ := h
      refine ⟨_, rfl, ?_⟩
      rw [Call.tagValues, hdec]
      rfl
  | relistPrivate i =>
      simp only [validateUnsigned, validateRelistPrivate, bind_eq_ok, pure_eq_ok] at h
      obtain ⟨_, -, rfl⟩ := h
      exact ⟨_, rfl, rfl⟩
  | withdrawV2 auth pi p =>
      simp only [validateUnsigned, validateWithdrawV2, validateSpendV2, bind_eq_ok, okOr_eq_ok,
        pure_eq_ok] at h
      obtain ⟨i, hdec, _, -, _, -, rfl⟩ := h
      refine ⟨_, rfl, ?_⟩
      rw [Call.tagValues, hdec]
      rfl
  | _ => cases h

/-- Both calls would mark a nullifier, a spend tag or an ownership record. -/
def Footprint.Conflicts (f g : Footprint) : Prop :=
  (∃ n, f.nullifier = some n ∧ g.nullifier = some n) ∨
    (∃ t, f.spentTag = some t ∧ g.spentTag = some t) ∨
    ∃ tx, f.consumed = some tx ∧ g.consumed = some tx

/-- The pool keeps the calls apart by their arguments: they are of one kind, and
relists agree in the new record or in the note that pays. -/
def Call.Excludes (c d : Call) : Prop :=
  c.unsignedKind = d.unsignedKind ∧
    match c, d with
    | .relistPrivate i, .relistPrivate j =>
        i.newTxId = j.newTxId ∨ i.newBuyerSpendTag = j.newBuyerSpendTag
    | _, _ => True

theorem toList_mem_tagValues_of_nullifier {n : U8Array 32}
    (h : (c.footprint s).nullifier = some n) : n.toList ∈ c.tagValues := by
  cases c with
  | purchaseRwa p pi | purchaseAccess p pi | purchaseRwaV2 auth pi p | purchaseAccessV2 auth pi p
  | withdrawV2 auth pi p =>
      obtain ⟨i, hdec, hi⟩ := exists_of_elim Footprint.nullifier rfl h
      cases hi
      simp [Call.tagValues, hdec]
  | withdrawPrivate p pi =>
      obtain ⟨i, -, hi⟩ := exists_of_elim Footprint.nullifier rfl h
      cases hi
  | _ => cases h

theorem toList_mem_tagValues_of_spentTag {t : U8Array 32}
    (h : (c.footprint s).spentTag = some t) : t.toList ∈ c.tagValues := by
  cases c with
  | purchaseRwa p pi | purchaseAccess p pi | withdrawPrivate p pi =>
      obtain ⟨i, hdec, hi⟩ := exists_of_elim Footprint.spentTag rfl h
      cases hi
      simp [Call.tagValues, hdec]
  | relistPrivate i =>
      cases h
      simp [Call.tagValues]
  | purchaseRwaV2 auth pi p | purchaseAccessV2 auth pi p | withdrawV2 auth pi p =>
      obtain ⟨i, -, hi⟩ := exists_of_elim Footprint.spentTag rfl h
      cases hi
  | _ => cases h

/-- Relists have a value in common when they agree in the record or in the note. -/
theorem relist_common_value_iff {i j : RelistInputs} :
    (∃ x ∈ (Call.relistPrivate i).tagValues, x ∈ (Call.relistPrivate j).tagValues) ↔
      i.newTxId = j.newTxId ∨ i.newBuyerSpendTag = j.newBuyerSpendTag := by
  rw [Call.tagValues, Call.tagValues, exists_common_pair_iff (by simp) (by simp),
    List.Vector.toList_injective.eq_iff, List.Vector.toList_injective.eq_iff]

/-- Calls of one kind that conflict have a value in common, unless they are relists
that agree in the old record alone. -/
theorem common_value_iff (hkind : c.unsignedKind = d.unsignedKind)
    (h : (c.footprint s).Conflicts (d.footprint s)) :
    (∃ x ∈ c.tagValues, x ∈ d.tagValues) ↔ c.Excludes d := by
  by_cases hc : ∃ i, c = .relistPrivate i
  · obtain ⟨i, rfl⟩ := hc
    obtain ⟨j, rfl⟩ : ∃ j, d = .relistPrivate j := by
      cases d <;> first | exact ⟨_, rfl⟩ | cases hkind
    rw [relist_common_value_iff]
    exact (and_iff_right rfl).symm
  · have hexcludes : c.Excludes d := by
      refine ⟨hkind, ?_⟩
      split
      · exact absurd ⟨_, rfl⟩ hc
      · trivial
    refine iff_of_true ?_ hexcludes
    rcases h with ⟨n, hn, hn'⟩ | ⟨t, ht, ht'⟩ | ⟨tx, htx, -⟩
    · exact ⟨_, toList_mem_tagValues_of_nullifier hn, toList_mem_tagValues_of_nullifier hn'⟩
    · exact ⟨_, toList_mem_tagValues_of_spentTag ht, toList_mem_tagValues_of_spentTag ht'⟩
    · exact absurd (relistPrivate_of_consumed htx) hc

theorem sharesTag_iff_excludes {v w : ValidTransaction} (hv : validateUnsigned s c = .ok v)
    (hw : validateUnsigned s d = .ok w) (h : (c.footprint s).Conflicts (d.footprint s)) :
    v.SharesTag w ↔ c.Excludes d :=
  tagPrefixes.sharesTag_iff_of (provides_of_validateUnsigned hv) (provides_of_validateUnsigned hw)
    And.left fun hkind => common_value_iff hkind h

section Dispatch

variable {T : Config A L} {s' s'' : State L} {x y : Extrinsic A}

/-- Of two calls that conflict, the second fails once the first has succeeded. -/
theorem not_conflicts_of_apply (h : apply T s x = .ok s') (h' : apply T s' y = .ok s'') :
    ¬ (x.2.footprint s).Conflicts (y.2.footprint s') := by
  have heffect := effect_of_apply h
  rintro (⟨n, hn, hn'⟩ | ⟨t, ht, ht'⟩ | ⟨tx, htx, htx'⟩)
  · have hfresh := nullifier_fresh h' hn'
    rw [nullifierUsed_of_nullifier heffect hn] at hfresh
    cases hfresh
  · have hfresh := spentTag_fresh h' ht'
    rw [spendTagUsed_of_spentTag heffect ht] at hfresh
    cases hfresh
  · have hfresh := consumed_fresh h' htx'
    rw [heffect.ownershipUsed, htx] at hfresh
    simp [write] at hfresh

end Dispatch

end ProofHub

namespace ScanProof

/-- The calls that the pool admits. -/
inductive UnsignedKind
  | submitProof
  | purchaseRwa
  | withdrawPrivate
  | purchaseCoin
  | withdrawCoin
  | purchaseAccess
  | purchaseAccessCoin
  deriving DecidableEq

def UnsignedKind.tagPrefix : UnsignedKind → String
  | .submitProof => "ProofSubmission"
  | .purchaseRwa => "ScanRwaPurchase"
  | .withdrawPrivate => "ScanWithdraw"
  | .purchaseCoin => "ScanCoinPurchase"
  | .withdrawCoin => "ScanCoinWithdraw"
  | .purchaseAccess => "ScanAccessPurchase"
  | .purchaseAccessCoin => "ScanAccessCoinPurchase"

theorem tagPrefixes : TagPrefixes UnsignedKind.tagPrefix where
  short k := by cases k <;> decide
  distinct k l h := by
    revert h
    cases k <;> cases l <;> decide

section Calls

variable {R : ℕ} {c d : Call R}

def Call.unsignedKind : Call R → Option UnsignedKind
  | .submitProof .. => some .submitProof
  | .purchaseRwa .. => some .purchaseRwa
  | .withdrawPrivate .. => some .withdrawPrivate
  | .purchaseCoin .. => some .purchaseCoin
  | .withdrawCoin .. => some .withdrawCoin
  | .purchaseAccess .. => some .purchaseAccess
  | .purchaseAccessCoin .. => some .purchaseAccessCoin
  | _ => none

/-- The values that a call provides, each under the prefix of its kind. -/
def Call.tagValues : Call R → List (List UInt8)
  | .submitProof _ _ pi _ =>
      (ProofPublicInputs.decode pi).elim [] fun i =>
        [i.txId.toList, encodeVec List.Vector.toList i.nullifiers]
  | .purchaseRwa c _ n _ tx _ _ | .purchaseAccess c _ n _ tx _ _ =>
      [tx.toList, n.toList, c.toList]
  | .withdrawPrivate _ n _ _ _ => [n.toList]
  | .purchaseCoin pi _ _ | .purchaseAccessCoin pi _ _ =>
      (CoinSpendPublic.decode pi).elim [] fun i => [i.txId.toList, i.serial.toList]
  | .withdrawCoin pi _ =>
      (CoinWithdrawPublic.decode pi).elim [] fun i => [i.txId.toList, i.serial.toList]
  | _ => []

/-- Both calls would mark a nullifier or a serial. -/
def Call.Conflicts (c d : Call R) : Prop :=
  (∃ n ∈ c.nullifiers, n ∈ d.nullifiers) ∨ ∃ n ∈ c.serials, n ∈ d.serials

/-- The pool keeps the calls apart by their arguments: they are of one kind, and
balance proofs agree in the transaction id or in the whole list of nullifiers. -/
def Call.Excludes (c d : Call R) : Prop :=
  c.unsignedKind = d.unsignedKind ∧
    match c, d with
    | .submitProof _ _ pi _, .submitProof _ _ pj _ =>
        ∀ i ∈ ProofPublicInputs.decode pi, ∀ j ∈ ProofPublicInputs.decode pj,
          i.txId = j.txId ∨ i.nullifiers = j.nullifiers
    | _, _ => True

theorem toList_mem_tagValues_of_nullifiers (hc : c.unsignedKind ≠ some .submitProof)
    {n : U8Array 32} (h : n ∈ c.nullifiers) : n.toList ∈ c.tagValues := by
  cases c with
  | submitProof => exact absurd rfl hc
  | purchaseRwa | purchaseAccess | withdrawPrivate =>
      cases List.mem_singleton.1 h
      simp [Call.tagValues]
  | _ => cases h

theorem toList_mem_tagValues_of_serials {n : U8Array 32} (h : n ∈ c.serials) :
    n.toList ∈ c.tagValues := by
  cases c with
  | purchaseCoin pi p g | purchaseAccessCoin pi p g =>
      simp only [Call.serials, Option.mem_toList, Option.map_eq_some_iff] at h
      obtain ⟨i, hdec, rfl⟩ := h
      simp [Call.tagValues, hdec]
  | withdrawCoin pi p =>
      simp only [Call.serials, Option.mem_toList, Option.map_eq_some_iff] at h
      obtain ⟨i, hdec, rfl⟩ := h
      simp [Call.tagValues, hdec]
  | _ => cases h

/-- Balance proofs have a value in common when they agree in the id or in the list. -/
theorem submit_common_value_iff {p p' pi pi' : List UInt8} {rp rp' : BoundedVec UInt8 R}
    {hints hints' : BoundedVec UInt8 4096} {i j : ProofPublicInputs}
    (hi : ProofPublicInputs.decode pi = some i) (hj : ProofPublicInputs.decode pi' = some j) :
    (∃ x ∈ (Call.submitProof p rp pi hints).tagValues,
      x ∈ (Call.submitProof p' rp' pi' hints').tagValues) ↔
        i.txId = j.txId ∨ i.nullifiers = j.nullifiers := by
  -- no list of keys takes the sixteen bytes of an id
  have hlen (ns : List (U8Array 32)) : (encodeVec List.Vector.toList ns).length ≠ 16 := by
    have hle := length_encodeCompactU32_le ns.length
    rw [length_encodeVec]
    omega
  simp only [Call.tagValues, hi, hj, Option.elim]
  rw [exists_common_pair_iff (by simpa using (hlen _).symm) (by simpa using hlen _),
    List.Vector.toList_injective.eq_iff, encodeVec_inj (by norm_num)]

/-- Calls of one kind that conflict have a value in common, unless they are balance
proofs with different ids and lists. -/
theorem common_value_iff (hkind : c.unsignedKind = d.unsignedKind) (h : c.Conflicts d) :
    (∃ x ∈ c.tagValues, x ∈ d.tagValues) ↔ c.Excludes d := by
  by_cases hc : c.unsignedKind = some .submitProof
  · obtain ⟨p, rp, pi, hints, rfl⟩ : ∃ p rp pi hints, c = .submitProof p rp pi hints := by
      cases c <;> first | exact ⟨_, _, _, _, rfl⟩ | cases hc
    obtain ⟨p', rp', pi', hints', rfl⟩ :
        ∃ p' rp' pi' hints', d = .submitProof p' rp' pi' hints' := by
      cases d <;> first | exact ⟨_, _, _, _, rfl⟩ | cases hkind
    obtain ⟨n, hn, hn'⟩ : ∃ n ∈ (Call.submitProof p rp pi hints).nullifiers,
        n ∈ (Call.submitProof p' rp' pi' hints').nullifiers :=
      h.resolve_right fun ⟨_, hserial, _⟩ => nomatch hserial
    obtain ⟨i, hi⟩ : ∃ i, ProofPublicInputs.decode pi = some i := by
      cases hdec : ProofPublicInputs.decode pi with
      | none => simp [Call.nullifiers, hdec] at hn
      | some i => exact ⟨i, rfl⟩
    obtain ⟨j, hj⟩ : ∃ j, ProofPublicInputs.decode pi' = some j := by
      cases hdec : ProofPublicInputs.decode pi' with
      | none => simp [Call.nullifiers, hdec] at hn'
      | some j => exact ⟨j, rfl⟩
    rw [submit_common_value_iff hi hj]
    simp [Call.Excludes, Call.unsignedKind, hi, hj]
  · have hexcludes : c.Excludes d := by
      refine ⟨hkind, ?_⟩
      split
      · exact absurd rfl hc
      · trivial
    refine iff_of_true ?_ hexcludes
    rcases h with ⟨n, hn, hn'⟩ | ⟨n, hn, hn'⟩
    · have hd : d.unsignedKind ≠ some .submitProof := hkind ▸ hc
      exact ⟨_, toList_mem_tagValues_of_nullifiers hc hn, toList_mem_tagValues_of_nullifiers hd hn'⟩
    · exact ⟨_, toList_mem_tagValues_of_serials hn, toList_mem_tagValues_of_serials hn'⟩

end Calls

variable {A L : Type} {T : Config A L} {s : State L} {c d : Call T.maxRangeProofSize}

theorem provides_of_validateCoin {groupId : UInt32} {serial : U8Array 32} {txId : U8Array 16}
    {tagPrefix : String} {v : ValidTransaction}
    (h : validateCoin s groupId serial txId tagPrefix = .ok v) :
    v.provides = [txId.toList, serial.toList].map (providesTag tagPrefix) := by
  simp only [validateCoin, bind_eq_ok, pure_eq_ok] at h
  obtain ⟨_, -, _, -, rfl⟩ := h
  rfl

theorem provides_of_validateCoinSpend {pi : List UInt8} {tagPrefix : String}
    {v : ValidTransaction} (h : validateCoinSpend s pi tagPrefix = .ok v) :
    v.provides = ((CoinSpendPublic.decode pi).elim [] fun i =>
      [i.txId.toList, i.serial.toList]).map (providesTag tagPrefix) := by
  simp only [validateCoinSpend, bind_eq_ok, okOr_eq_ok] at h
  obtain ⟨i, hdec, hcoin⟩ := h
  rw [hdec, provides_of_validateCoin hcoin]
  rfl

theorem provides_of_validateOpening {cm n id : U8Array 32} {p : List UInt8} {tx : U8Array 16}
    {price : UInt64} {change : Option (U8Array 32)} {tagPrefix : String} {v : ValidTransaction}
    (h : validateOpening T cm p n id tx price change tagPrefix = .ok v) :
    v.provides = [tx.toList, n.toList, cm.toList].map (providesTag tagPrefix) := by
  simp only [validateOpening, bind_eq_ok, pure_eq_ok] at h
  obtain ⟨_, -, _, -, _, -, rfl⟩ := h
  rfl

/-- An admitted call provides its values under the prefix of its kind. -/
theorem provides_of_validateUnsigned {v : ValidTransaction} (h : validateUnsigned T s c = .ok v) :
    ∃ k, c.unsignedKind = some k ∧ v.provides = c.tagValues.map (providesTag k.tagPrefix) := by
  cases c with
  | submitProof p rp pi hints =>
      simp only [validateUnsigned, validateSubmitProof, bind_eq_ok, okOr_eq_ok, pure_eq_ok] at h
      obtain ⟨_, -, _, -, i, hdec, _, -, _, -, _, -, _, -, _, -, rfl⟩ := h
      refine ⟨_, rfl, ?_⟩
      rw [Call.tagValues, hdec]
      rfl
  | purchaseRwa c p n id tx oc change =>
      simp only [validateUnsigned, validatePurchaseRwa, bind_eq_ok] at h
      obtain ⟨_, -, _, -, _, -, hopen⟩ := h
      exact ⟨_, rfl, provides_of_validateOpening hopen⟩
  | purchaseAccess c p n id tx ac change =>
      simp only [validateUnsigned, validatePurchaseAccess, bind_eq_ok] at h
      obtain ⟨_, -, _, -, _, -, hopen⟩ := h
      exact ⟨_, rfl, provides_of_validateOpening hopen⟩
  | withdrawPrivate c n p dest value =>
      simp only [validateUnsigned, validateWithdrawPrivate, bind_eq_ok, pure_eq_ok] at h
      obtain ⟨_, -, _, -, _, -, _, -, rfl⟩ := h
      exact ⟨_, rfl, rfl⟩
  | purchaseCoin pi p g => exact ⟨_, rfl, provides_of_validateCoinSpend h⟩
  | purchaseAccessCoin pi p g => exact ⟨_, rfl, provides_of_validateCoinSpend h⟩
  | withdrawCoin pi p =>
      simp only [validateUnsigned, validateCoinWithdraw, bind_eq_ok, okOr_eq_ok] at h
      obtain ⟨i, hdec, hcoin⟩ := h
      refine ⟨_, rfl, ?_⟩
      rw [Call.tagValues, hdec]
      exact provides_of_validateCoin hcoin
  | _ => cases h

theorem sharesTag_iff_excludes {v w : ValidTransaction} (hv : validateUnsigned T s c = .ok v)
    (hw : validateUnsigned T s d = .ok w) (h : c.Conflicts d) :
    v.SharesTag w ↔ c.Excludes d :=
  tagPrefixes.sharesTag_iff_of (provides_of_validateUnsigned hv) (provides_of_validateUnsigned hw)
    And.left fun hkind => common_value_iff hkind h

/-- Of two calls that conflict, the second fails once the first has succeeded. -/
theorem not_conflicts_of_dispatch {s' s'' : State L} {o o' : Origin A}
    (h : dispatch T s o c = .ok s') (h' : dispatch T s' o' d = .ok s'') : ¬ c.Conflicts d := by
  have hmarks := dispatch_marks h
  have hmarks' := dispatch_marks h'
  rintro (⟨n, hn, hn'⟩ | ⟨n, hn, hn'⟩)
  · have hfresh := hmarks'.nullifier_fresh n hn'
    rw [hmarks.nullifierUsed, markAll_eq_true.2 (.inr hn)] at hfresh
    cases hfresh
  · have hfresh := hmarks'.serial_fresh n hn'
    rw [hmarks.serialUsed, markAll_eq_true.2 (.inr hn)] at hfresh
    cases hfresh

end ScanProof

variable {A L L' : Type}

/-- Of the calls that conflict, the pool keeps apart those of one kind, relists only
with a common new record or note and balance proofs only with a common id or list. -/
theorem conflicting_share_tag_iff (s : ProofHub.State L) (T : ScanProof.Config A L')
    (t : ScanProof.State L') :
    (∀ (c d : ProofHub.Call) (v w : ValidTransaction),
      ProofHub.validateUnsigned s c = .ok v → ProofHub.validateUnsigned s d = .ok w →
        (c.footprint s).Conflicts (d.footprint s) → (v.SharesTag w ↔ c.Excludes d)) ∧
      ∀ (c d : ScanProof.Call T.maxRangeProofSize) (v w : ValidTransaction),
        ScanProof.validateUnsigned T t c = .ok v → ScanProof.validateUnsigned T t d = .ok w →
          c.Conflicts d → (v.SharesTag w ↔ c.Excludes d) :=
  ⟨fun _ _ _ _ => ProofHub.sharesTag_iff_excludes, fun _ _ _ _ => ScanProof.sharesTag_iff_excludes⟩

section Example

/-- A key by its first byte. -/
def key (k : UInt8) : U8Array 32 := U8Array.padded 32 [k]

/-- An ownership record and the notes of two buyers. -/
def recordForSale : ProofHub.State Unit :=
  { ProofHub.genesis () with
    ownershipCommitments := insertAt (fun _ => none) (U8Array.zero 16) (some (key 0))
    spendTagCommitments := insertAt (insertAt (fun _ => none) (key 1) (some (key 3))) (key 2)
      (some (key 4)) }

/-- The transfer of the record to the buyer with the tag. -/
def relistTo (buyer : UInt8) : ProofHub.RelistInputs where
  oldTxId := U8Array.zero 16
  rwaId := key 0
  ownershipBlinding := key 0
  newBuyerSpendTag := key buyer
  price := 1
  paymentCommitment := key 5
  paymentSpendTag := key 6
  changeCommitment := none
  changeSpendTag := none
  newOwnershipCommitment := key 7
  newTxId := U8Array.padded 16 [buyer]
  buyerValue := 1
  buyerBlinding := key 0
  paymentBlinding := key 0
  changeValue := none
  changeBlinding := none

/-- The public inputs of a balance proof that spends the notes. -/
def balanceInputs (nullifiers : List UInt8) (txId : UInt8) : List UInt8 :=
  List.replicate 64 0 ++ encodeVec List.Vector.toList (nullifiers.map key) ++
    encodeVec encodeU32 (nullifiers.map fun _ => 0) ++ [0] ++
    encodeVec List.Vector.toList (nullifiers.map key) ++ [0] ++
    (U8Array.padded 16 [txId]).toList

/-- The pool looks at no balance proof, so its verifier may refuse all of them. -/
def noProofs : ScanProof.ProofVerify where
  verify _ _ := false
  verifyCommitment _ _ _ := false
  verifyOpeningKnowledge _ _ _ _ := false
  verifyRangeProof _ _ _ _ := false
  pedersenSubtract _ _ := none
  verifyOneOfMany _ _ _ _ _ _ := false
  verifyDepositOpen _ _ _ _ := false
  verifyG1Pok _ _ _ _ := false
  padGroup coins _ := coins

def poolConfig : ScanProof.Config (U8Array 32) (U8Array 32 → ℕ) where
  proofVerifier := noProofs
  currency := balances
  maxProofSize := 65536
  maxRangeProofSize := 0
  maxOutputs := 2
  poolAccount := U8Array.zero 32
  encodeAccount := List.Vector.toList
  decodeAccount := copyFromSlice 32
  blake2_256 := U8Array.padded 32
  usizeBits := 64
  usizeBits_ge := by norm_num
  maxRangeProofSize_lt := by norm_num

def balanceProof (nullifiers : List UInt8) (txId : UInt8) :
    ScanProof.Call poolConfig.maxRangeProofSize :=
  .submitProof [] BoundedVec.empty (balanceInputs nullifiers txId) BoundedVec.empty

theorem eq_ok_of_mem_toOption {ε α : Type} {x : Except ε α} {a : α} (h : a ∈ x.toOption) :
    x = .ok a := by
  cases x with
  | error e => cases h
  | ok b => rw [Option.mem_some.1 h]

/-- Two balance proofs that spend the same note share the tag of its nullifier. -/
theorem same_notes_share_tag : ∃ v w,
    ScanProof.validateUnsigned poolConfig (ScanProof.genesis fun _ => 10)
      (balanceProof [1] 1) = .ok v ∧
    ScanProof.validateUnsigned poolConfig (ScanProof.genesis fun _ => 10)
      (balanceProof [1] 2) = .ok w ∧ v.SharesTag w := by
  have haccepted (k : UInt8) (hk : k = 1 ∨ k = 2) : ∃ v,
      v ∈ (ScanProof.validateUnsigned poolConfig (ScanProof.genesis fun _ => 10)
        (balanceProof [1] k)).toOption := by
    refine Option.isSome_iff_exists.1 ?_
    rcases hk with rfl | rfl <;> decide +kernel
  obtain ⟨v, hv⟩ := haccepted 1 (.inl rfl)
  obtain ⟨w, hw⟩ := haccepted 2 (.inr rfl)
  have hconflict : (balanceProof [1] 1).Conflicts (balanceProof [1] 2) :=
    .inl ⟨key 1, by decide +kernel, by decide +kernel⟩
  have hlists : ∀ i ∈ ScanProof.ProofPublicInputs.decode (balanceInputs [1] 1),
      ∀ j ∈ ScanProof.ProofPublicInputs.decode (balanceInputs [1] 2),
        i.nullifiers = j.nullifiers := by
    decide +kernel
  have hv := eq_ok_of_mem_toOption hv
  have hw := eq_ok_of_mem_toOption hw
  have hshare := (conflicting_share_tag_iff (ProofHub.genesis ()) poolConfig
    (ScanProof.genesis fun _ => 10)).2 _ _ v w hv hw hconflict
  exact ⟨v, w, hv, hw, hshare.2 ⟨rfl, fun i hi j hj => .inr (hlists i hi j hj)⟩⟩

/-- Neither two relists of one record nor two balance proofs with a note in common
have to share a tag. -/
theorem conflicts_without_shared_tag :
    (∃ v w, ProofHub.validateUnsigned recordForSale (.relistPrivate (relistTo 1)) = .ok v ∧
      ProofHub.validateUnsigned recordForSale (.relistPrivate (relistTo 2)) = .ok w ∧
      (ProofHub.Call.relistPrivate (relistTo 1)) ≠ .relistPrivate (relistTo 2) ∧
      ((ProofHub.Call.relistPrivate (relistTo 1)).footprint recordForSale).Conflicts
        ((ProofHub.Call.relistPrivate (relistTo 2)).footprint recordForSale) ∧
      ¬ v.SharesTag w) ∧
    ∃ v w, ScanProof.validateUnsigned poolConfig
        (ScanProof.genesis fun _ => 10) (balanceProof [1] 1) = .ok v ∧
      ScanProof.validateUnsigned poolConfig
        (ScanProof.genesis fun _ => 10) (balanceProof [1, 2] 2) = .ok w ∧
      balanceProof [1] 1 ≠ balanceProof [1, 2] 2 ∧
      (balanceProof [1] 1).Conflicts (balanceProof [1, 2] 2) ∧ ¬ v.SharesTag w := by
  have hrelist : ∃ v ∈ (ProofHub.validateUnsigned recordForSale
      (.relistPrivate (relistTo 1))).toOption, ∃ w ∈ (ProofHub.validateUnsigned recordForSale
      (.relistPrivate (relistTo 2))).toOption, ¬ ∃ t ∈ v.provides, t ∈ w.provides := by
    decide +kernel
  have hbalance : ∃ v ∈ (ScanProof.validateUnsigned poolConfig
      (ScanProof.genesis fun _ => 10) (balanceProof [1] 1)).toOption,
      ∃ w ∈ (ScanProof.validateUnsigned poolConfig
      (ScanProof.genesis fun _ => 10) (balanceProof [1, 2] 2)).toOption,
        ¬ ∃ t ∈ v.provides, t ∈ w.provides := by
    decide +kernel
  obtain ⟨v, hv, w, hw, hvw⟩ := hrelist
  obtain ⟨v', hv', w', hw', hvw'⟩ := hbalance
  refine ⟨⟨v, w, eq_ok_of_mem_toOption hv, eq_ok_of_mem_toOption hw, ?_, ?_, hvw⟩,
    v', w', eq_ok_of_mem_toOption hv', eq_ok_of_mem_toOption hw', ?_, ?_, hvw'⟩
  · intro h
    exact absurd (congrArg ProofHub.Call.tagValues h) (by decide +kernel)
  · exact .inr (.inr ⟨_, rfl, rfl⟩)
  · intro h
    exact absurd (congrArg ScanProof.Call.tagValues h) (by decide +kernel)
  · exact .inl ⟨key 1, by decide +kernel, by decide +kernel⟩

end Example

end NullaRelay

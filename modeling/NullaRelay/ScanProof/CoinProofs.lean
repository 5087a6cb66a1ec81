import NullaRelay.Foundations.SigmaProtocol
import NullaRelay.ScanProof.Completeness

/-!
# Opening a deposited coin and converting change

A deposit shows that its coin less the amount has a serial and a blinding part only, a
conversion that the new coin less the change has a serial part only. Both proofs answer
one challenge, which the transcript determines. The wallet's proofs are accepted, and two
accepted proofs with one first message and different challenges open the difference.
The challenge bytes are taken from two functions there, since one transcript has one
challenge.
-/

namespace NullaRelay.ScanProof.OneOfMany

open Verifier LittleEndian SigmaProtocol

variable {V : Type} [AddCommGroup V] [Module Scalar V] (P : Primitives V)

/-- The coin `s·G1 + v·G + r·H`. -/
def coinPoint (s v r : Scalar) : V :=
  s • generatorG1 P + v • P.basepoint + r • generatorH P

/-- The challenge of `verify_deposit_open`. -/
def depositChallenge (coin : U8Array 32) (amount : UInt64) (context : List UInt8) (r a : V) :
    Scalar :=
  let t := Transcript.new "NULLA_COIN_DEPOSIT_OPEN"
  let t := t.appendMessage "coin" coin.toList
  let t := t.appendU64 "amount" amount
  let t := t.appendMessage "ctx" context
  let t := t.appendMessage "R" (P.compress r).toList
  let t := t.appendMessage "A" (P.compress a).toList
  Scalar.fromBytesModOrderWide (P.challengeBytes t "c")

/-- The challenge of `verify_g1_pok`. -/
def g1Challenge (newCoin change : U8Array 32) (context : List UInt8) (r a : V) : Scalar :=
  let t := Transcript.new "NULLA_COIN_G1_POK"
  let t := t.appendMessage "new_coin" newCoin.toList
  let t := t.appendMessage "change" change.toList
  let t := t.appendMessage "ctx" context
  let t := t.appendMessage "R" (P.compress r).toList
  let t := t.appendMessage "A" (P.compress a).toList
  Scalar.fromBytesModOrderWide (P.challengeBytes t "c")

/-- The same primitives with other challenge bytes. -/
def withChallenges (f : Transcript → String → U8Array 64) : Primitives V :=
  { P with challengeBytes := f }

/-- The map whose preimages open a coin less its amount. -/
def depositMap : Scalar × Scalar →ₗ[Scalar] V :=
  (LinearMap.toSpanSingleton Scalar V (generatorG1 P)).coprod
    (LinearMap.toSpanSingleton Scalar V (generatorH P))

/-- The map whose preimages open a new coin less the change. -/
def g1Map : Scalar →ₗ[Scalar] V := LinearMap.toSpanSingleton Scalar V (generatorG1 P)

@[simp] theorem depositMap_apply (w : Scalar × Scalar) :
    depositMap P w = w.1 • generatorG1 P + w.2 • generatorH P := rfl

@[simp] theorem g1Map_apply (w : Scalar) : g1Map P w = w • generatorG1 P := rfl

variable {P} {coin newCoin change : U8Array 32} {amount : UInt64}
  {proof proof' context context' : List UInt8}

/-- The preimages of a coin less its value are its serial and its blinding. -/
theorem depositMap_eq_iff {w : Scalar × Scalar} {c : V} {v : Scalar} :
    depositMap P w = c - v • P.basepoint ↔ c = coinPoint P w.1 v w.2 := by
  rw [depositMap_apply, eq_sub_iff_add_eq, coinPoint, add_right_comm]
  exact eq_comm

/-- Over independent generators a coin has one serial, one value and one blinding. -/
theorem coinPoint_inj
    (hind : LinearIndependent Scalar ![generatorG1 P, P.basepoint, generatorH P])
    {s v r s' v' r' : Scalar} (h : coinPoint P s v r = coinPoint P s' v' r') :
    s = s' ∧ v = v' ∧ r = r' := by
  have hzero : (s - s') • generatorG1 P + (v - v') • P.basepoint + (r - r') • generatorH P = 0 := by
    calc
      _ = coinPoint P s v r - coinPoint P s' v' r' := by
        unfold coinPoint
        module
      _ = 0 := sub_eq_zero.2 h
  obtain ⟨hs, hv, hr⟩ := Extraction.triple_eq_zero hind hzero
  exact ⟨sub_eq_zero.1 hs, sub_eq_zero.1 hv, sub_eq_zero.1 hr⟩

/-- The relation of a deposit is about the value of its coin. -/
theorem depositOpenRelation_iff : DepositOpenRelation P coin amount ↔
    ∃ c, P.decompress coin = some c ∧
      ∃ s b : Scalar, c = coinPoint P s (Scalar.ofU64 amount) b := by
  refine exists_congr fun c => and_congr_right fun _ => exists₂_congr fun s b => ?_
  rw [eq_comm]
  exact depositMap_eq_iff (w := (s, b))

section Deposit

variable [DecidableEq V]

/-- `verify_deposit_open` accepts what its linear map does. -/
theorem verifyDepositOpen_eq_true :
    verifyDepositOpen P coin amount proof context = true ↔
      proof.length = 96 ∧ ∃ c r zs zr, P.decompress coin = some c ∧
        P.decompress (sliceAt 32 proof 0) = some r ∧
        Scalar.fromCanonicalBytes (sliceAt 32 proof 32) = some zs ∧
        Scalar.fromCanonicalBytes (sliceAt 32 proof 64) = some zr ∧
        Accepts (depositMap P) (c - Scalar.ofU64 amount • P.basepoint) r
          (depositChallenge P coin amount context r (c - Scalar.ofU64 amount • P.basepoint))
          (zs, zr) := by
  simp only [verifyDepositOpen, getD_false_eq_true, Option.bind_eq_bind, Option.bind_eq_some_iff,
    Option.guard_eq_some', Option.pure_def, Option.some.injEq, decide_eq_true_eq]
  constructor
  · rintro ⟨-, hlen, c, hc, r, hr, zs, hzs, zr, hzr, heq⟩
    exact ⟨hlen, c, r, zs, zr, hc, hr, hzs, hzr, heq⟩
  · rintro ⟨hlen, c, r, zs, zr, hc, hr, hzs, hzr, heq⟩
    exact ⟨(), hlen, c, hc, r, hr, zs, hzs, zr, hzr, heq⟩

/-- The bytes `R ‖ z_s ‖ z_r` carry the first message and the answer. -/
theorem verifyDepositOpen_of_accepts (hpoint : ∀ p, P.decompress (P.compress p) = some p)
    {c r : V} {z : Scalar × Scalar} (hc : P.decompress coin = some c)
    (h : Accepts (depositMap P) (c - Scalar.ofU64 amount • P.basepoint) r
      (depositChallenge P coin amount context r (c - Scalar.ofU64 amount • P.basepoint)) z) :
    verifyDepositOpen P coin amount
      ((P.compress r).toList ++ (z.1.toBytes.toList ++ z.2.toBytes.toList)) context = true := by
  have hzs : sliceAt 32 ((P.compress r).toList ++ (z.1.toBytes.toList ++ z.2.toBytes.toList)) 32 =
      z.1.toBytes := (sliceAt_right _ _ 0).trans (sliceAt_left _ _)
  have hzr : sliceAt 32 ((P.compress r).toList ++ (z.1.toBytes.toList ++ z.2.toBytes.toList)) 64 =
      z.2.toBytes :=
    (sliceAt_right _ _ 32).trans ((sliceAt_right _ _ 0).trans (sliceAt_toList _))
  refine verifyDepositOpen_eq_true.2 ⟨by simp, c, r, z.1, z.2, hc, ?_, ?_, ?_, h⟩
  · rw [sliceAt_left, hpoint]
  · rw [hzs, Scalar.fromCanonicalBytes_toBytes]
  · rw [hzr, Scalar.fromCanonicalBytes_toBytes]

omit [DecidableEq V] in
/-- What the wallet returns for a coin that decodes. -/
theorem proveDepositOpen_eq {serial blinding seed : U8Array 32} {c : V}
    (hc : P.decompress coin = some c) : ∃ k : Scalar × Scalar,
    let r := depositMap P k
    let z := answer (Scalar.fromBytesModOrder serial, Scalar.fromBytesModOrder blinding) k
      (depositChallenge P coin amount context r (c - Scalar.ofU64 amount • P.basepoint))
    proveDepositOpen P coin amount serial blinding context seed =
      some ((P.compress r).toList ++ (z.1.toBytes.toList ++ z.2.toBytes.toList)) := by
  refine ⟨((scalarFromRng P (.new seed)).1,
    (scalarFromRng P (scalarFromRng P (.new seed)).2).1), ?_⟩
  rw [proveDepositOpen, hc]
  rfl

/-- The wallet opens every coin it has committed to. -/
theorem proveDepositOpen_accepted (hpoint : ∀ p, P.decompress (P.compress p) = some p)
    (serial : U8Array 32) (amount : UInt64) (blinding : U8Array 32) (context : List UInt8)
    (seed : U8Array 32) :
    ∃ proof, proveDepositOpen P (coinCommit P serial amount blinding) amount serial blinding
        context seed = some proof ∧
      verifyDepositOpen P (coinCommit P serial amount blinding) amount proof context = true := by
  have hc : P.decompress (coinCommit P serial amount blinding) =
      some (coinPoint P (Scalar.fromBytesModOrder serial) (Scalar.ofU64 amount)
        (Scalar.fromBytesModOrder blinding)) := hpoint _
  have hw : depositMap P (Scalar.fromBytesModOrder serial, Scalar.fromBytesModOrder blinding) =
      coinPoint P (Scalar.fromBytesModOrder serial) (Scalar.ofU64 amount)
        (Scalar.fromBytesModOrder blinding) - Scalar.ofU64 amount • P.basepoint :=
    depositMap_eq_iff.2 rfl
  obtain ⟨k, hprove⟩ := proveDepositOpen_eq hc
  exact ⟨_, hprove, verifyDepositOpen_of_accepts hpoint hc (accepts_answer hw k _)⟩

/-- Two accepted openings with one first message and different challenges. -/
theorem deposit_special_soundness {f f' : Transcript → String → U8Array 64} {c r : V}
    (hc : P.decompress coin = some c) (hr : P.decompress (sliceAt 32 proof 0) = some r)
    (hr' : P.decompress (sliceAt 32 proof' 0) = some r)
    (h : verifyDepositOpen (withChallenges P f) coin amount proof context = true)
    (h' : verifyDepositOpen (withChallenges P f') coin amount proof' context' = true)
    (hne : depositChallenge (withChallenges P f) coin amount context r
        (c - Scalar.ofU64 amount • P.basepoint) ≠
      depositChallenge (withChallenges P f') coin amount context' r
        (c - Scalar.ofU64 amount • P.basepoint)) :
    ∃ s b : Scalar, c = coinPoint P s (Scalar.ofU64 amount) b := by
  obtain ⟨-, c₁, r₁, zs, zr, hc₁, hr₁, -, -, hacc⟩ := verifyDepositOpen_eq_true.1 h
  obtain ⟨-, c₂, r₂, zs', zr', hc₂, hr₂, -, -, hacc'⟩ := verifyDepositOpen_eq_true.1 h'
  obtain rfl : c = c₁ := Option.some_injective _ (hc.symm.trans hc₁)
  obtain rfl : c = c₂ := Option.some_injective _ (hc.symm.trans hc₂)
  obtain rfl : r = r₁ := Option.some_injective _ (hr.symm.trans hr₁)
  obtain rfl : r = r₂ := Option.some_injective _ (hr'.symm.trans hr₂)
  have hw : depositMap P _ = c - Scalar.ofU64 amount • P.basepoint := map_extract hne hacc hacc'
  exact ⟨_, _, depositMap_eq_iff.1 hw⟩

end Deposit

section Conversion

variable [DecidableEq V]

/-- `verify_g1_pok` accepts what its linear map does. -/
theorem verifyG1Pok_eq_true :
    verifyG1Pok P newCoin change proof context = true ↔
      proof.length = 64 ∧ ∃ nc ch r z, P.decompress newCoin = some nc ∧
        P.decompress change = some ch ∧ P.decompress (sliceAt 32 proof 0) = some r ∧
        Scalar.fromCanonicalBytes (sliceAt 32 proof 32) = some z ∧
        Accepts (g1Map P) (nc - ch) r (g1Challenge P newCoin change context r (nc - ch)) z := by
  simp only [verifyG1Pok, getD_false_eq_true, Option.bind_eq_bind, Option.bind_eq_some_iff,
    Option.guard_eq_some', Option.pure_def, Option.some.injEq, decide_eq_true_eq]
  constructor
  · rintro ⟨-, hlen, nc, hnc, ch, hch, r, hr, z, hz, heq⟩
    exact ⟨hlen, nc, ch, r, z, hnc, hch, hr, hz, heq⟩
  · rintro ⟨hlen, nc, ch, r, z, hnc, hch, hr, hz, heq⟩
    exact ⟨(), hlen, nc, hnc, ch, hch, r, hr, z, hz, heq⟩

omit [DecidableEq V] in
/-- What the wallet returns for a coin and a change that decode. -/
theorem proveG1Pok_eq {newSerial seed : U8Array 32} {nc ch : V}
    (hnc : P.decompress newCoin = some nc) (hch : P.decompress change = some ch) :
    ∃ k : Scalar, let r := g1Map P k
      let z := answer (Scalar.fromBytesModOrder newSerial) k
        (g1Challenge P newCoin change context r (nc - ch))
      proveG1Pok P newCoin change newSerial context seed =
        some ((P.compress r).toList ++ z.toBytes.toList) := by
  refine ⟨(scalarFromRng P (.new seed)).1, ?_⟩
  rw [proveG1Pok, hnc, hch]
  rfl

/-- The wallet converts every change to which it has added a serial. -/
theorem proveG1Pok_accepted (hpoint : ∀ p, P.decompress (P.compress p) = some p)
    {newSerial : U8Array 32} {nc ch : V} (hnc : P.decompress newCoin = some nc)
    (hch : P.decompress change = some ch)
    (hconv : nc = ch + Scalar.fromBytesModOrder newSerial • generatorG1 P)
    (context : List UInt8) (seed : U8Array 32) :
    ∃ proof, proveG1Pok P newCoin change newSerial context seed = some proof ∧
      verifyG1Pok P newCoin change proof context = true := by
  have hw : g1Map P (Scalar.fromBytesModOrder newSerial) = nc - ch := by
    rw [g1Map_apply, hconv, add_sub_cancel_left]
  obtain ⟨k, hprove⟩ := proveG1Pok_eq hnc hch
  refine ⟨_, hprove, verifyG1Pok_eq_true.2
    ⟨by simp, nc, ch, g1Map P k, _, hnc, hch, ?_, ?_, accepts_answer hw k _⟩⟩
  · rw [sliceAt_left, hpoint]
  · refine Eq.trans ?_ (Scalar.fromCanonicalBytes_toBytes _)
    exact congrArg Scalar.fromCanonicalBytes ((sliceAt_right _ _ 0).trans (sliceAt_toList _))

/-- A coin made from a change output of the same value and blinding is converted. -/
theorem changeFlow_accepted (hpoint : ∀ p, P.decompress (P.compress p) = some p)
    (newSerial : U8Array 32) (value : UInt64) (blinding : U8Array 32) (context : List UInt8)
    (seed : U8Array 32) :
    ∃ proof, proveG1Pok P (coinCommit P newSerial value blinding) (pedersenCommit P value blinding)
        newSerial context seed = some proof ∧
      verifyG1Pok P (coinCommit P newSerial value blinding) (pedersenCommit P value blinding)
        proof context = true := by
  refine proveG1Pok_accepted hpoint (hpoint _) (hpoint _) ?_ context seed
  rw [add_assoc, add_comm]

/-- Two accepted conversions with one first message and different challenges. -/
theorem g1Pok_special_soundness {f f' : Transcript → String → U8Array 64} {nc ch r : V}
    (hnc : P.decompress newCoin = some nc) (hch : P.decompress change = some ch)
    (hr : P.decompress (sliceAt 32 proof 0) = some r)
    (hr' : P.decompress (sliceAt 32 proof' 0) = some r)
    (h : verifyG1Pok (withChallenges P f) newCoin change proof context = true)
    (h' : verifyG1Pok (withChallenges P f') newCoin change proof' context' = true)
    (hne : g1Challenge (withChallenges P f) newCoin change context r (nc - ch) ≠
      g1Challenge (withChallenges P f') newCoin change context' r (nc - ch)) :
    ∃ s' : Scalar, nc - ch = s' • generatorG1 P := by
  obtain ⟨-, nc₁, ch₁, r₁, z, hnc₁, hch₁, hr₁, -, hacc⟩ := verifyG1Pok_eq_true.1 h
  obtain ⟨-, nc₂, ch₂, r₂, z', hnc₂, hch₂, hr₂, -, hacc'⟩ := verifyG1Pok_eq_true.1 h'
  obtain rfl : nc = nc₁ := Option.some_injective _ (hnc.symm.trans hnc₁)
  obtain rfl : nc = nc₂ := Option.some_injective _ (hnc.symm.trans hnc₂)
  obtain rfl : ch = ch₁ := Option.some_injective _ (hch.symm.trans hch₁)
  obtain rfl : ch = ch₂ := Option.some_injective _ (hch.symm.trans hch₂)
  obtain rfl : r = r₁ := Option.some_injective _ (hr.symm.trans hr₁)
  obtain rfl : r = r₂ := Option.some_injective _ (hr'.symm.trans hr₂)
  exact ⟨_, (map_extract hne hacc hacc').symm⟩

omit [DecidableEq V] in
/-- A coin that is the change and a serial has the value and the blinding of the change. -/
theorem coinPoint_of_conversion
    (hind : LinearIndependent Scalar ![generatorG1 P, P.basepoint, generatorH P])
    {nc ch : V} {s' s v b s₂ v₂ b₂ : Scalar} (hconv : nc - ch = s' • generatorG1 P)
    (hch : ch = coinPoint P s v b) (hnc : nc = coinPoint P s₂ v₂ b₂) : v₂ = v ∧ b₂ = b := by
  have heq : coinPoint P s₂ v₂ b₂ = coinPoint P (s + s') v b := by
    rw [← hnc, ← sub_add_cancel nc ch, hconv, hch]
    unfold coinPoint
    module
  exact (coinPoint_inj hind heq).2

end Conversion

/-- The wallet's proofs that a deposited coin has its amount and that a new coin is the
change and a serial are accepted. Two accepted proofs with one first message and
different challenges show that it is so: the value of a deposited coin is its amount, and
a conversion keeps the value and the blinding. -/
theorem coin_proofs_complete_and_sound [DecidableEq V] (P : Primitives V) :
    ((∀ p, P.decompress (P.compress p) = some p) →
      (∀ serial amount blinding context seed, ∃ proof,
        proveDepositOpen P (coinCommit P serial amount blinding) amount serial blinding
            context seed = some proof ∧
          verifyDepositOpen P (coinCommit P serial amount blinding) amount proof context = true) ∧
      ∀ newCoin change newSerial nc ch context seed, P.decompress newCoin = some nc →
        P.decompress change = some ch →
        nc = ch + Scalar.fromBytesModOrder newSerial • generatorG1 P → ∃ proof,
          proveG1Pok P newCoin change newSerial context seed = some proof ∧
            verifyG1Pok P newCoin change proof context = true) ∧
    (∀ coin amount proof proof' context context' f f' c r, P.decompress coin = some c →
      P.decompress (sliceAt 32 proof 0) = some r → P.decompress (sliceAt 32 proof' 0) = some r →
      verifyDepositOpen (withChallenges P f) coin amount proof context = true →
      verifyDepositOpen (withChallenges P f') coin amount proof' context' = true →
      depositChallenge (withChallenges P f) coin amount context r
          (c - Scalar.ofU64 amount • P.basepoint) ≠
        depositChallenge (withChallenges P f') coin amount context' r
          (c - Scalar.ofU64 amount • P.basepoint) →
      (∃ s b : Scalar, c = coinPoint P s (Scalar.ofU64 amount) b) ∧
      (LinearIndependent Scalar ![generatorG1 P, P.basepoint, generatorH P] →
        ∀ s v b : Scalar, c = coinPoint P s v b → v = Scalar.ofU64 amount)) ∧
    ∀ newCoin change proof proof' context context' f f' nc ch r,
      P.decompress newCoin = some nc → P.decompress change = some ch →
      P.decompress (sliceAt 32 proof 0) = some r → P.decompress (sliceAt 32 proof' 0) = some r →
      verifyG1Pok (withChallenges P f) newCoin change proof context = true →
      verifyG1Pok (withChallenges P f') newCoin change proof' context' = true →
      g1Challenge (withChallenges P f) newCoin change context r (nc - ch) ≠
        g1Challenge (withChallenges P f') newCoin change context' r (nc - ch) →
      (∃ s' : Scalar, nc - ch = s' • generatorG1 P) ∧
      (LinearIndependent Scalar ![generatorG1 P, P.basepoint, generatorH P] →
        ∀ s v b s₂ v₂ b₂ : Scalar, ch = coinPoint P s v b → nc = coinPoint P s₂ v₂ b₂ →
          v₂ = v ∧ b₂ = b) := by
  refine ⟨fun hpoint => ⟨?_, ?_⟩, ?_, ?_⟩
  · exact proveDepositOpen_accepted hpoint
  · intro newCoin change newSerial nc ch context seed hnc hch hconv
    exact proveG1Pok_accepted hpoint hnc hch hconv context seed
  · intro coin amount proof proof' context context' f f' c r hc hr hr' h h' hne
    obtain ⟨s, b, hopen⟩ := deposit_special_soundness hc hr hr' h h' hne
    exact ⟨⟨s, b, hopen⟩, fun hind s₂ v₂ b₂ hopen₂ =>
      (coinPoint_inj hind (hopen₂.symm.trans hopen)).2.1⟩
  · intro newCoin change proof proof' context context' f f' nc ch r hnc hch hr hr' h h' hne
    obtain ⟨s', hconv⟩ := g1Pok_special_soundness hnc hch hr hr' h h' hne
    exact ⟨⟨s', hconv⟩, fun hind s v b s₂ v₂ b₂ => coinPoint_of_conversion hind hconv⟩

section Example

/-- The bytes of the first message zero and of the answer for the coin `4·G1 + 3·G + 8·H`. -/
def depositAnswer (n : ℕ) : List UInt8 :=
  (U8Array.zero 32).toList ++
    ((Scalar.toBytes (n * 4)).toList ++ (Scalar.toBytes (n * 8)).toList)

def conversionAnswer (n : ℕ) : List UInt8 :=
  (U8Array.zero 32).toList ++ (Scalar.toBytes (n * 4)).toList

theorem decodePoint_coin (s : ℕ) (hs : s < 256 ^ 10) :
    decodePoint (encodePoint s 3 8) = ((s : Scalar), (3 : Scalar), (8 : Scalar)) := by
  rw [decodePoint_encodePoint hs (by norm_num) (by norm_num)]
  norm_num

theorem wide_ofNat {n : ℕ} (hn : n < 256 ^ 64) :
    Scalar.fromBytesModOrderWide (U8Array.ofNat 64 n) = n := by
  rw [Scalar.fromBytesModOrderWide, U8Array.toNat_ofNat hn]

theorem depositAnswer_accepted {n : ℕ} (hn : n < 256 ^ 64) :
    verifyDepositOpen (withChallenges vectorPrimitives fun _ _ => U8Array.ofNat 64 n)
      (encodePoint 4 3 8) 3 (depositAnswer n) [] = true := by
  refine verifyDepositOpen_eq_true.2 ⟨by simp [depositAnswer], (4, 3, 8), 0, n * 4, n * 8,
    congrArg some (decodePoint_coin 4 (by norm_num)), ?_, ?_, ?_, ?_⟩
  · exact congrArg some ((congrArg decodePoint (sliceAt_left _ _)).trans decodePoint_zero)
  · rw [← Scalar.fromCanonicalBytes_toBytes (n * 4)]
    exact congrArg Scalar.fromCanonicalBytes ((sliceAt_right _ _ 0).trans (sliceAt_left _ _))
  · rw [← Scalar.fromCanonicalBytes_toBytes (n * 8)]
    exact congrArg Scalar.fromCanonicalBytes
      ((sliceAt_right _ _ 32).trans ((sliceAt_right _ _ 0).trans (sliceAt_toList _)))
  · have hc : depositChallenge (withChallenges vectorPrimitives fun _ _ => U8Array.ofNat 64 n)
        (encodePoint 4 3 8) 3 [] 0 ((4, 3, 8) - Scalar.ofU64 3 • vectorPrimitives.basepoint) = n :=
      wide_ofNat hn
    have hamount : Scalar.ofU64 3 = 3 := rfl
    have hacc : Accepts (depositMap vectorPrimitives)
        ((4, 3, 8) - Scalar.ofU64 3 • vectorPrimitives.basepoint) 0 (n : Scalar)
        (n * 4, n * 8) := by
      simp [Accepts, hamount]
    exact hacc.trans (congrArg (fun c : Scalar => (0 : Point) + c • _) hc.symm)

theorem conversionAnswer_accepted {n : ℕ} (hn : n < 256 ^ 64) :
    verifyG1Pok (withChallenges vectorPrimitives fun _ _ => U8Array.ofNat 64 n)
      (encodePoint 4 3 8) (encodePoint 0 3 8) (conversionAnswer n) [] = true := by
  refine verifyG1Pok_eq_true.2 ⟨by simp [conversionAnswer], (4, 3, 8), (0, 3, 8), 0, n * 4,
    congrArg some (decodePoint_coin 4 (by norm_num)), ?_, ?_, ?_, ?_⟩
  · exact congrArg some ((decodePoint_coin 0 (by norm_num)).trans (by rw [Nat.cast_zero]))
  · exact congrArg some ((congrArg decodePoint (sliceAt_left _ _)).trans decodePoint_zero)
  · rw [← Scalar.fromCanonicalBytes_toBytes (n * 4)]
    exact congrArg Scalar.fromCanonicalBytes ((sliceAt_right _ _ 0).trans (sliceAt_toList _))
  · have hc : g1Challenge (withChallenges vectorPrimitives fun _ _ => U8Array.ofNat 64 n)
        (encodePoint 4 3 8) (encodePoint 0 3 8) [] 0 ((4, 3, 8) - (0, 3, 8)) = n := wide_ofNat hn
    have hacc : Accepts (g1Map vectorPrimitives) ((4, 3, 8) - (0, 3, 8)) 0 (n : Scalar)
        (n * 4) := by
      simp [Accepts]
    exact hacc.trans (congrArg (fun c : Scalar => (0 : Point) + c • _) hc.symm)

/-- A deposit and a conversion of a coin of value 3. -/
theorem coin_of_three :
    (∃ proof, verifyDepositOpen scalarPrimitives
      (coinCommit scalarPrimitives (U8Array.ofNat 32 4) 3 (U8Array.ofNat 32 8)) 3 proof [] = true) ∧
    (∃ proof, verifyG1Pok scalarPrimitives
      (coinCommit scalarPrimitives (U8Array.ofNat 32 4) 3 (U8Array.ofNat 32 8))
      (pedersenCommit scalarPrimitives 3 (U8Array.ofNat 32 8)) proof [] = true) ∧
    (∀ s v b : Scalar, ((4, 3, 8) : Point) = coinPoint vectorPrimitives s v b → v = 3) ∧
    ∀ s v b s₂ v₂ b₂ : Scalar, ((0, 3, 8) : Point) = coinPoint vectorPrimitives s v b →
      ((4, 3, 8) : Point) = coinPoint vectorPrimitives s₂ v₂ b₂ → v₂ = v ∧ b₂ = b := by
  obtain ⟨hcomplete, -, -⟩ := coin_proofs_complete_and_sound scalarPrimitives
  obtain ⟨hdeposit, hconvert⟩ := hcomplete scalar_decompress_compress
  obtain ⟨-, hopen, hconv⟩ := coin_proofs_complete_and_sound vectorPrimitives
  have hr (bytes : List UInt8) : vectorPrimitives.decompress
      (sliceAt 32 ((U8Array.zero 32).toList ++ bytes) 0) = some 0 :=
    congrArg some ((congrArg decodePoint (sliceAt_left _ _)).trans decodePoint_zero)
  have hcoin : vectorPrimitives.decompress (encodePoint 4 3 8) = some (4, 3, 8) :=
    congrArg some (decodePoint_coin 4 (by norm_num))
  have hchange : vectorPrimitives.decompress (encodePoint 0 3 8) = some (0, 3, 8) :=
    congrArg some ((decodePoint_coin 0 (by norm_num)).trans (by rw [Nat.cast_zero]))
  have hne : Scalar.fromBytesModOrderWide (U8Array.ofNat 64 0) ≠
      Scalar.fromBytesModOrderWide (U8Array.ofNat 64 1) := by
    rw [wide_ofNat (by norm_num), wide_ofNat (by norm_num)]
    simp
  refine ⟨?_, ?_, ?_, ?_⟩
  · obtain ⟨proof, -, haccept⟩ := hdeposit (U8Array.ofNat 32 4) 3 (U8Array.ofNat 32 8) []
      (U8Array.ofNat 32 42)
    exact ⟨proof, haccept⟩
  · obtain ⟨proof, -, haccept⟩ := hconvert
      (coinCommit scalarPrimitives (U8Array.ofNat 32 4) 3 (U8Array.ofNat 32 8))
      (pedersenCommit scalarPrimitives 3 (U8Array.ofNat 32 8)) (U8Array.ofNat 32 4) _ _ []
      (U8Array.ofNat 32 42) (scalar_decompress_compress _) (scalar_decompress_compress _)
      (by rw [add_assoc, add_comm])
    exact ⟨proof, haccept⟩
  · exact (hopen _ 3 _ _ [] [] _ _ (4, 3, 8) 0 hcoin (hr _) (hr _)
      (depositAnswer_accepted (n := 0) (by norm_num))
      (depositAnswer_accepted (n := 1) (by norm_num)) hne).2 vector_independent
  · exact (hconv _ _ _ _ [] [] _ _ (4, 3, 8) (0, 3, 8) 0 hcoin hchange (hr _) (hr _)
      (conversionAnswer_accepted (n := 0) (by norm_num))
      (conversionAnswer_accepted (n := 1) (by norm_num)) hne).2 vector_independent

end Example

end NullaRelay.ScanProof.OneOfMany

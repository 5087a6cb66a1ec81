import NullaRelay.ScanProof.Verifier
import NullaRelay.Foundations.Extraction

/-!
# The one-of-many verifier of ScanProof

Coins are `C = s·G1 + v·G + r·H` with a serial `s`, a value `v` and a blinding
`r`. A spend reveals the serial and proves that one coin of a group, less the
serial, the price and the change, is a multiple of `H`. `dSet` is the list of
these differences, `verify` decodes a proof and `verifyEquations` checks it for
a given challenge, with the exponents from the in-place doubling table of
`exponents`. Opening a deposited coin and converting change to a coin have their
own proofs.
-/

namespace NullaRelay.ScanProof.OneOfMany

open Verifier LittleEndian Extraction

variable {V : Type} [AddCommGroup V] [Module Scalar V] (P : Primitives V)

/-- The serial generator `G1`. -/
def generatorG1 : V := P.fromUniformBytes (P.sha512 (byteString "NULLA_SERIAL_GENERATOR"))

/-- `coin_commit`: `C = s·G1 + v·G + r·H`. -/
def coinCommit (serial : U8Array 32) (value : UInt64) (blinding : U8Array 32) : U8Array 32 :=
  let s := Scalar.fromBytesModOrder serial
  let v := Scalar.ofU64 value
  let r := Scalar.fromBytesModOrder blinding
  P.compress (s • generatorG1 P + v • P.basepoint + r • generatorH P)

/-- `group_hash`: the identity of a group of coins. -/
def groupHash (coins : List (U8Array 32)) : U8Array 32 :=
  sliceAt 32 (P.blake2b512 (coins.flatMap List.Vector.toList)).toList 0

/-- The first message of the prover, `m` points of each kind. -/
structure FirstMessage (V : Type) (m : ℕ) where
  cl : List.Vector V m
  ca : List.Vector V m
  cb : List.Vector V m
  gk : List.Vector V m

/-- The responses to a challenge. -/
structure Response (m : ℕ) where
  fj : List.Vector Scalar m
  zaj : List.Vector Scalar m
  zbj : List.Vector Scalar m
  zd : Scalar

def fsChallenge {m : ℕ} (ghash serial : U8Array 32) (price : UInt64) (change : U8Array 32)
    (context : List UInt8) (msg : FirstMessage V m) : Scalar :=
  let appendPoints (label : String) (t : Transcript) (ps : List.Vector V m) : Transcript :=
    ps.toList.foldl (fun t p => t.appendMessage label (P.compress p).toList) t
  let t := Transcript.new "NULLA_ONE_OF_MANY"
  let t := t.appendMessage "group" ghash.toList
  let t := t.appendMessage "serial" serial.toList
  let t := t.appendU64 "price" price
  let t := t.appendMessage "change" change.toList
  let t := t.appendMessage "ctx" context
  let t := appendPoints "cl" t msg.cl
  let t := appendPoints "ca" t msg.ca
  let t := appendPoints "cb" t msg.cb
  let t := appendPoints "gk" t msg.gk
  Scalar.fromBytesModOrderWide (P.challengeBytes t "x")

/-- What `d_set` subtracts from every coin. -/
def spendOffset (serial : U8Array 32) (price : UInt64) (changePt : V) : V :=
  Scalar.fromBytesModOrder serial • generatorG1 P + Scalar.ofU64 price • P.basepoint + changePt

/-- `d_set`: `D_i = C_i - s·G1 - price·G - change`, when everything decodes. -/
def dSet (coins : List (U8Array 32)) (serial : U8Array 32) (price : UInt64)
    (change : U8Array 32) : Option (List V) := do
  let changePt ← P.decompress change
  let offset := spendOffset P serial price changePt
  coins.mapM fun c => do
    let p ← P.decompress c
    pure (p - offset)

/-- One step of the doubling table: index `i + width` gets the factor `f1` and
index `i` the factor `f0`. -/
def expandAt (f1 f0 : Scalar) (width : ℕ) (exps : List Scalar) (i : ℕ) : List Scalar :=
  let exps := exps.set (i + width) (exps.getD i 0 * f1)
  exps.set i (exps.getD i 0 * f0)

/-- `for i in (0..width).rev()`. -/
def expand (f1 f0 : Scalar) (width : ℕ) (exps : List Scalar) : List Scalar :=
  (List.range width).reverse.foldl (expandAt f1 f0 width) exps

/-- The outer loop over the responses, which doubles the width. -/
def expandAll (x : Scalar) : List Scalar → ℕ → List Scalar → List Scalar
  | [], _, exps => exps
  | f :: fs, width, exps => expandAll x fs (2 * width) (expand f (x - f) width exps)

/-- `exponent_i = Π_j f'_{j, i_j}` for the `n` indices. -/
def exponents (x : Scalar) (fs : List Scalar) (n : ℕ) : List Scalar :=
  expandAll x fs 1 (List.replicate n 1)

/-- `1, x, x², …`, the loop that multiplies up the powers of the challenge. -/
def challengePowers (x : Scalar) : ℕ → Scalar → List Scalar
  | 0, _ => []
  | m + 1, xk => xk :: challengePowers x m (xk * x)

/-- `vartime_multiscalar_mul`. -/
def multiscalarMul (scalars : List Scalar) (points : List V) : V :=
  (List.zipWith (· • ·) scalars points).sum

/-- The two checks on the commitments to the bit `j`. -/
def bitChecks {m : ℕ} (x : Scalar) (msg : FirstMessage V m) (rsp : Response m) (j : Fin m) :
    Prop :=
  x • msg.cl.get j + msg.ca.get j =
      rsp.fj.get j • P.basepoint + rsp.zaj.get j • generatorH P ∧
    (x - rsp.fj.get j) • msg.cl.get j + msg.cb.get j = rsp.zbj.get j • generatorH P

/-- The membership check over the differences `d`. -/
def membershipCheck {m : ℕ} (x : Scalar) (d : List V) (msg : FirstMessage V m)
    (rsp : Response m) : Prop :=
  multiscalarMul
    (exponents x rsp.fj.toList d.length ++ (challengePowers x m 1).map fun s => -s)
    (d ++ msg.gk.toList) = rsp.zd • generatorH P

/-- The three checks of `verify` for the challenge `x`. -/
def verifyEquations {m : ℕ} (x : Scalar) (d : List V) (msg : FirstMessage V m)
    (rsp : Response m) : Prop :=
  (∀ j, bitChecks P x msg rsp j) ∧ membershipCheck P x d msg rsp

instance [DecidableEq V] {m : ℕ} (x : Scalar) (d : List V)
    (msg : FirstMessage V m) (rsp : Response m) : Decidable (verifyEquations P x d msg rsp) :=
  have (j : Fin m) : Decidable (bitChecks P x msg rsp j) :=
    inferInstanceAs (Decidable (_ ∧ _))
  have : Decidable (membershipCheck P x d msg rsp) := inferInstanceAs (Decidable (_ = _))
  inferInstanceAs (Decidable (_ ∧ _))

/-- `m` values of 32 bytes each from the offset on. -/
def readMany {α : Type} (read : ℕ → Option α) : (m offset : ℕ) → Option (List.Vector α m)
  | 0, _ => some List.Vector.nil
  | m + 1, offset => do
      let a ← read offset
      let as ← readMany read m (offset + 32)
      pure (a ::ᵥ as)

/-- `one_of_many::verify`. -/
def verify [DecidableEq V] (proof : List UInt8) (coins : List (U8Array 32)) (serial : U8Array 32)
    (price : UInt64) (change : U8Array 32) (context : List UInt8) : Bool :=
  Option.getD (do
    let n := coins.length
    guard (2 ≤ n ∧ n = 2 ^ n.log2)
    let m := n.log2
    guard (proof.length = 1 + (7 * m + 1) * 32)
    guard (proof.head?.map UInt8.toNat = some m)
    let readPt (offset : ℕ) : Option V := P.decompress (sliceAt 32 proof offset)
    let readSc (offset : ℕ) : Option Scalar := Scalar.fromCanonicalBytes (sliceAt 32 proof offset)
    let cl ← readMany readPt m 1
    let ca ← readMany readPt m (1 + 32 * m)
    let cb ← readMany readPt m (1 + 64 * m)
    let gk ← readMany readPt m (1 + 96 * m)
    let fj ← readMany readSc m (1 + 128 * m)
    let zaj ← readMany readSc m (1 + 160 * m)
    let zbj ← readMany readSc m (1 + 192 * m)
    let zd ← readSc (1 + 224 * m)
    let d ← dSet P coins serial price change
    let ghash := groupHash P coins
    let x := fsChallenge P ghash serial price change context { cl, ca, cb, gk }
    pure (decide (verifyEquations P x d { cl, ca, cb, gk } { fj, zaj, zbj, zd }))) false

/-- `verify_deposit_open`: knowledge of `s`, `r` with
`coin - amount·G = s·G1 + r·H`. -/
def verifyDepositOpen [DecidableEq V] (coin : U8Array 32) (amount : UInt64)
    (proof context : List UInt8) : Bool :=
  Option.getD (do
    guard (proof.length = 96)
    let cPt ← P.decompress coin
    let aPt := cPt - Scalar.ofU64 amount • P.basepoint
    let rPt ← P.decompress (sliceAt 32 proof 0)
    let zs ← Scalar.fromCanonicalBytes (sliceAt 32 proof 32)
    let zr ← Scalar.fromCanonicalBytes (sliceAt 32 proof 64)
    let t := Transcript.new "NULLA_COIN_DEPOSIT_OPEN"
    let t := t.appendMessage "coin" coin.toList
    let t := t.appendU64 "amount" amount
    let t := t.appendMessage "ctx" context
    let t := t.appendMessage "R" (P.compress rPt).toList
    let t := t.appendMessage "A" (P.compress aPt).toList
    let c := Scalar.fromBytesModOrderWide (P.challengeBytes t "c")
    pure (decide (zs • generatorG1 P + zr • generatorH P = rPt + c • aPt))) false

/-- `verify_g1_pok`: knowledge of `s'` with `new_coin - change = s'·G1`. -/
def verifyG1Pok [DecidableEq V] (newCoin change : U8Array 32) (proof context : List UInt8) : Bool :=
  Option.getD (do
    guard (proof.length = 64)
    let nc ← P.decompress newCoin
    let ch ← P.decompress change
    let aPt := nc - ch
    let rPt ← P.decompress (sliceAt 32 proof 0)
    let z ← Scalar.fromCanonicalBytes (sliceAt 32 proof 32)
    let t := Transcript.new "NULLA_COIN_G1_POK"
    let t := t.appendMessage "new_coin" newCoin.toList
    let t := t.appendMessage "change" change.toList
    let t := t.appendMessage "ctx" context
    let t := t.appendMessage "R" (P.compress rPt).toList
    let t := t.appendMessage "A" (P.compress aPt).toList
    let c := Scalar.fromBytesModOrderWide (P.challengeBytes t "c")
    pure (decide (z • generatorG1 P = rPt + c • aPt))) false

/-- `pad_coin`: a coin whose decomposition nobody knows. -/
def padCoin (groupId : UInt32) (i : ℕ) : U8Array 32 :=
  P.compress (P.fromUniformBytes (P.sha512
    (byteString "NULLA_GROUP_PAD" ++ leBytes 4 groupId.toNat ++ leBytes 4 i)))

/-- `pad_group`: the group filled up to the next power of two, at least two. -/
def padGroup (coins : List (U8Array 32)) (groupId : UInt32) : List (U8Array 32) :=
  let n := (max coins.length 2).nextPowerOfTwo
  coins ++ (List.range (n - coins.length)).map fun k => padCoin P groupId (coins.length + k)

/-- The relation behind `verify`: some coin of the group, less the serial, the
price and the change, is a multiple of `H`. -/
def OneOfManyRelation (coins : List (U8Array 32)) (serial : U8Array 32) (price : UInt64)
    (change : U8Array 32) : Prop :=
  ∃ d, dSet P coins serial price change = some d ∧ ∃ p ∈ d, ∃ r : Scalar, p = r • generatorH P

/-- The relation behind `verifyG1Pok`. -/
def G1PokRelation (newCoin change : U8Array 32) : Prop :=
  ∃ nc ch, P.decompress newCoin = some nc ∧ P.decompress change = some ch ∧
    ∃ s' : Scalar, nc - ch = s' • generatorG1 P

/-- The coin, less the serial, the price and the change, is a multiple of `H`. -/
def SpendsCoin (coin serial : U8Array 32) (price : UInt64) (change : U8Array 32) : Prop :=
  ∃ c ch, P.decompress coin = some c ∧ P.decompress change = some ch ∧
    ∃ r : Scalar, c - spendOffset P serial price ch = r • generatorH P

variable {P}

theorem mapM_eq_some {α β : Type} {f : α → Option β} {as : List α} {bs : List β} :
    as.mapM f = some bs ↔ List.Forall₂ (fun a b => f a = some b) as bs := by
  induction as generalizing bs with
  | nil => cases bs <;> simp
  | cons a as ih =>
      cases bs with
      | nil => simp [List.mapM_cons, Option.bind_eq_some_iff]
      | cons b bs => simp [List.mapM_cons, Option.bind_eq_some_iff, ih]

/-- The differences of a group are those of its coins, one by one. -/
theorem dSet_eq_some {coins : List (U8Array 32)} {serial : U8Array 32} {price : UInt64}
    {change : U8Array 32} {d : List V} :
    dSet P coins serial price change = some d ↔
      ∃ ch, P.decompress change = some ch ∧
        List.Forall₂ (fun c p => ∃ pt, P.decompress c = some pt ∧
          pt - spendOffset P serial price ch = p) coins d := by
  simp only [dSet, Option.bind_eq_bind, Option.bind_eq_some_iff, mapM_eq_some, Option.pure_def,
    Option.some.injEq]

theorem dSet_length {coins : List (U8Array 32)} {serial : U8Array 32} {price : UInt64}
    {change : U8Array 32} {d : List V} (h : dSet P coins serial price change = some d) :
    d.length = coins.length := by
  obtain ⟨_, _, hall⟩ := dSet_eq_some.1 h
  exact hall.length_eq.symm

/-- The difference at a place is that of the coin there. -/
theorem getElem?_dSet {coins : List (U8Array 32)} {serial : U8Array 32} {price : UInt64}
    {change : U8Array 32} {ch : V} {d : List V} (hch : P.decompress change = some ch)
    (h : dSet P coins serial price change = some d) (i : ℕ) :
    d[i]? = (coins[i]?.bind P.decompress).map fun c => c - spendOffset P serial price ch := by
  obtain ⟨ch', hch', hall⟩ := dSet_eq_some.1 h
  obtain rfl : ch' = ch := Option.some_injective _ (hch'.symm.trans hch)
  clear h
  induction hall generalizing i with
  | nil => rfl
  | cons hhead _ ih =>
      obtain ⟨c, hc, rfl⟩ := hhead
      cases i with
      | zero => rw [List.getElem?_cons_zero, List.getElem?_cons_zero, Option.bind_some, hc]; rfl
      | succ i => exact ih i

/-- The differences exist when the change and all coins decode. -/
theorem exists_dSet {coins : List (U8Array 32)} {serial : U8Array 32} {price : UInt64}
    {change : U8Array 32} {ch : V} (hch : P.decompress change = some ch) :
    (∃ d, dSet P coins serial price change = some d) ↔
      ∀ c ∈ coins, (P.decompress c).isSome := by
  constructor
  · rintro ⟨d, hd⟩ c hc
    obtain ⟨i, hi, rfl⟩ := List.getElem_of_mem hc
    have hlt : i < d.length := by rwa [dSet_length hd]
    have hget := getElem?_dSet hch hd i
    rw [List.getElem?_eq_getElem hlt, List.getElem?_eq_getElem hi, Option.bind_some] at hget
    exact Option.isSome_iff_exists.2 ((Option.map_eq_some_iff.1 hget.symm).imp fun _ h => h.1)
  · intro hdec
    suffices hall : ∃ d, List.Forall₂ (fun c p => ∃ pt, P.decompress c = some pt ∧
        pt - spendOffset P serial price ch = p) coins d by
      obtain ⟨d, hd⟩ := hall
      exact ⟨d, dSet_eq_some.2 ⟨ch, hch, hd⟩⟩
    induction coins with
    | nil => exact ⟨[], List.Forall₂.nil⟩
    | cons c cs ih =>
        obtain ⟨q, hq⟩ := Option.isSome_iff_exists.1 (hdec c List.mem_cons_self)
        obtain ⟨d, hd⟩ := ih fun c' hc' => hdec c' (List.mem_cons_of_mem _ hc')
        exact ⟨_, List.Forall₂.cons ⟨q, hq, rfl⟩ hd⟩

/-- The relation names a coin of the group. -/
theorem OneOfManyRelation.exists_coin {coins : List (U8Array 32)} {serial : U8Array 32}
    {price : UInt64} {change : U8Array 32}
    (h : OneOfManyRelation P coins serial price change) :
    ∃ coin ∈ coins, SpendsCoin P coin serial price change := by
  obtain ⟨d, hd, p, hp, r, hr⟩ := h
  obtain ⟨ch, hch, -⟩ := dSet_eq_some.1 hd
  obtain ⟨i, hi, rfl⟩ := List.getElem_of_mem hp
  have hi' : i < coins.length := by rwa [← dSet_length hd]
  have hget := getElem?_dSet hch hd i
  rw [List.getElem?_eq_getElem hi, List.getElem?_eq_getElem hi', Option.bind_some] at hget
  obtain ⟨pt, hpt, heq⟩ := Option.map_eq_some_iff.1 hget.symm
  exact ⟨coins[i], List.getElem_mem hi', pt, ch, hpt, hch, r, heq.trans hr⟩

/-- A coin of a decodable group that a spend opens makes the relation hold. -/
theorem OneOfManyRelation.of_coin {coins : List (U8Array 32)} {serial : U8Array 32}
    {price : UInt64} {change coin : U8Array 32}
    (hdec : ∀ c ∈ coins, (P.decompress c).isSome) (hmem : coin ∈ coins)
    (h : SpendsCoin P coin serial price change) :
    OneOfManyRelation P coins serial price change := by
  obtain ⟨pt, ch, hpt, hch, r, hr⟩ := h
  obtain ⟨d, hd⟩ : ∃ d, dSet P coins serial price change = some d := (exists_dSet hch).2 hdec
  obtain ⟨i, hi, rfl⟩ := List.getElem_of_mem hmem
  have hi' : i < d.length := by rwa [dSet_length hd]
  have hget := getElem?_dSet hch hd i
  rw [List.getElem?_eq_getElem hi, List.getElem?_eq_getElem hi', Option.bind_some, hpt] at hget
  refine ⟨d, hd, d[i], List.getElem_mem hi', r, ?_⟩
  rw [← hr]
  exact Option.some_injective _ hget

/-- With three independent generators a coin is opened by one serial scalar
only. -/
theorem SpendsCoin.serial_unique
    (hind : LinearIndependent Scalar ![generatorG1 P, P.basepoint, generatorH P])
    {coin serial serial' change : U8Array 32} {price price' : UInt64}
    (h : SpendsCoin P coin serial price change) (h' : SpendsCoin P coin serial' price' change) :
    Scalar.fromBytesModOrder serial = Scalar.fromBytesModOrder serial' := by
  obtain ⟨c, ch, hc, hch, r, hr⟩ := h
  obtain ⟨c', ch', hc', hch', r', hr'⟩ := h'
  obtain rfl : c = c' := Option.some_injective _ (hc.symm.trans hc')
  obtain rfl : ch = ch' := Option.some_injective _ (hch.symm.trans hch')
  have hzero : (Scalar.fromBytesModOrder serial - Scalar.fromBytesModOrder serial') •
      generatorG1 P + (Scalar.ofU64 price - Scalar.ofU64 price') • P.basepoint
        + (r - r') • generatorH P = 0 := by
    calc
      _ = (spendOffset P serial price ch + r • generatorH P)
          - (spendOffset P serial' price' ch + r' • generatorH P) := by
        unfold spendOffset
        module
      _ = 0 := by
        rw [← hr, ← hr']
        abel
  exact sub_eq_zero.1 (triple_eq_zero hind hzero).1

end NullaRelay.ScanProof.OneOfMany

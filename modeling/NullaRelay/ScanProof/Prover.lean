import NullaRelay.ScanProof.OneOfMany

/-!
# The one-of-many prover of ScanProof

The prover commits to the bits of the index and to the lower coefficients of the
polynomials whose values are the exponents of the verifier. Its nonces come from a
seed, by hashing a counter. `prove` refuses a group that is no power of two, an index
out of range, a point that does not decode and a blinding that does not open the
difference. The wallet's provers for a deposited coin and for a coin made from change
answer one challenge each.
-/

namespace NullaRelay.ScanProof.OneOfMany

open Verifier LittleEndian

variable {V : Type} [AddCommGroup V] [Module Scalar V] (P : Primitives V)

/-- A generator of bytes: blocks of 64 bytes that are hashed from a seed and a
counter. -/
structure DeterministicRng where
  seed : U8Array 32
  ctr : UInt64
  buf : U8Array 64
  idx : ℕ

namespace DeterministicRng

def new (seed : U8Array 32) : DeterministicRng where
  seed := seed
  ctr := 0
  buf := U8Array.zero 64
  idx := 64

def refill (rng : DeterministicRng) : DeterministicRng :=
  { rng with
    buf := P.blake2b512 (rng.seed.toList ++ leBytes 8 rng.ctr.toNat)
    idx := 0
    ctr := rng.ctr + 1 }

/-- `if self.idx >= self.buf.len() { self.refill(); }`. -/
def ready (rng : DeterministicRng) : DeterministicRng :=
  if 64 ≤ rng.idx then rng.refill P else rng

omit [AddCommGroup V] [Module Scalar V] in
theorem ready_idx_lt (rng : DeterministicRng) : (rng.ready P).idx < 64 := by
  unfold ready
  split_ifs with h
  · exact Nat.zero_lt_succ _
  · exact not_le.1 h

/-- `fill_bytes` for a destination of `n` bytes. -/
def fillBytes : (n : ℕ) → DeterministicRng → List UInt8 × DeterministicRng
  | 0, rng => ([], rng)
  | n + 1, rng =>
      let rng' := rng.ready P
      let need := min (64 - rng'.idx) (n + 1)
      let (rest, last) := fillBytes (n + 1 - need) { rng' with idx := rng'.idx + need }
      ((rng'.buf.toList.drop rng'.idx).take need ++ rest, last)
termination_by n => n
decreasing_by
  have hidx := ready_idx_lt P rng
  omega

end DeterministicRng

/-- `scalar_from_rng`. -/
def scalarFromRng (rng : DeterministicRng) : Scalar × DeterministicRng :=
  let (w, rng) := rng.fillBytes P 64
  (Scalar.fromBytesModOrderWide (U8Array.padded 64 w), rng)

/-- What the prover draws for each bit. -/
structure Nonces (m : ℕ) where
  rj : List.Vector Scalar m
  aj : List.Vector Scalar m
  sj : List.Vector Scalar m
  tj : List.Vector Scalar m
  rho : List.Vector Scalar m

/-- The loop that draws five scalars for each bit in turn. -/
def sampleNonces : (m : ℕ) → DeterministicRng → Nonces m
  | 0, _ => ⟨.nil, .nil, .nil, .nil, .nil⟩
  | m + 1, rng =>
      let (r, rng) := scalarFromRng P rng
      let (a, rng) := scalarFromRng P rng
      let (s, rng) := scalarFromRng P rng
      let (t, rng) := scalarFromRng P rng
      let (rho, rng) := scalarFromRng P rng
      let rest := sampleNonces m rng
      ⟨r ::ᵥ rest.rj, a ::ᵥ rest.aj, s ::ᵥ rest.sj, t ::ᵥ rest.tj, rho ::ᵥ rest.rho⟩

/-- `(i >> j) & 1`. -/
def bitAt (i j : ℕ) : ℕ := (i >>> j) &&& 1

/-- `Scalar::from(bits[j])`. -/
def bitScalar (index j : ℕ) : Scalar := Scalar.ofU64 (UInt64.ofNat (bitAt index j))

/-- `next[k] += coeffs[k] * c0; next[k + 1] += coeffs[k] * c1`. -/
def multiplyAt (c1 c0 : Scalar) (coeffs next : List Scalar) (k : ℕ) : List Scalar :=
  let next := next.set k (next.getD k 0 + coeffs.getD k 0 * c0)
  next.set (k + 1) (next.getD (k + 1) 0 + coeffs.getD k 0 * c1)

/-- `coeffs *= (c1·x + c0)`, for coefficients up to `deg`. -/
def multiplyLinear (c1 c0 : Scalar) (m deg : ℕ) (coeffs : List Scalar) : List Scalar :=
  (List.range (deg + 1)).foldl (multiplyAt c1 c0 coeffs) (List.replicate (m + 1) 0)

/-- The loop over the bits, from bit `j` on; the degree grows with them. -/
def multiplyBits (m index i : ℕ) : List Scalar → ℕ → List Scalar → List Scalar
  | [], _, coeffs => coeffs
  | a :: as, j, coeffs =>
      let l := bitScalar index j
      let (c1, c0) := if bitAt i j = 1 then (l, a) else (1 - l, -a)
      multiplyBits m index i as (j + 1) (multiplyLinear c1 c0 m j coeffs)

/-- The coefficients of `P_i(x) = Π_j f_{j, i_j}(x)`. -/
def coefficients {m : ℕ} (index : ℕ) (aj : List.Vector Scalar m) (i : ℕ) : List Scalar :=
  multiplyBits m index i aj.toList 0 ((List.replicate (m + 1) 0).set 0 1)

/-- The commitments to the bits, and `G_k = Σ_i p_{i,k}·D_i + ρ_k·H`. -/
def firstMessage {m : ℕ} (index : ℕ) (d : List V) (nonces : Nonces m) : FirstMessage V m :=
  let h := generatorH P
  { cl := .ofFn fun j => bitScalar index j • P.basepoint + nonces.rj.get j • h
    ca := .ofFn fun j => nonces.aj.get j • P.basepoint + nonces.sj.get j • h
    cb := .ofFn fun j =>
      (bitScalar index j * nonces.aj.get j) • P.basepoint + nonces.tj.get j • h
    gk := .ofFn fun k =>
      multiscalarMul
        (((List.range d.length).map fun i => (coefficients index nonces.aj i).getD k 0) ++
          [nonces.rho.get k])
        (d ++ [h]) }

/-- `z_d = r·x^m - Σ_k ρ_k·x^k`, the loops that multiply up the powers. -/
def lastResponse {m : ℕ} (x r : Scalar) (rho : List.Vector Scalar m) : Scalar :=
  let xm := (List.range m).foldl (fun xm _ => xm * x) 1
  (rho.toList.foldl (fun acc ρ => (acc.1 - ρ * acc.2, acc.2 * x)) (r * xm, 1)).1

def responses {m : ℕ} (x r : Scalar) (index : ℕ) (nonces : Nonces m) : Response m :=
  let f (j : Fin m) := bitScalar index j * x + nonces.aj.get j
  { fj := .ofFn f
    zaj := .ofFn fun j => nonces.rj.get j * x + nonces.sj.get j
    zbj := .ofFn fun j => nonces.rj.get j * (x - f j) + nonces.tj.get j
    zd := lastResponse x r nonces.rho }

/-- `m` values of 32 bytes each. -/
def writeMany {α : Type} {m : ℕ} (write : α → U8Array 32) (v : List.Vector α m) : List UInt8 :=
  v.toList.flatMap fun a => (write a).toList

/-- `[m:u8] cl ca cb gk | fj zaj zbj | zd`. -/
def serialize {m : ℕ} (msg : FirstMessage V m) (rsp : Response m) : List UInt8 :=
  let points (v : List.Vector V m) := writeMany P.compress v
  let scalars (v : List.Vector Scalar m) := writeMany Scalar.toBytes v
  UInt8.ofNat m :: (points msg.cl ++ (points msg.ca ++ (points msg.cb ++ (points msg.gk ++
    (scalars rsp.fj ++ (scalars rsp.zaj ++ (scalars rsp.zbj ++ (Scalar.toBytes rsp.zd).toList)))))))

/-- `one_of_many::prove`. -/
def prove [DecidableEq V] (coins : List (U8Array 32)) (index : ℕ) (serial : U8Array 32)
    (price : UInt64) (change blinding : U8Array 32) (context : List UInt8)
    (seed : U8Array 32) : Option (List UInt8) := do
  let n := coins.length
  guard (2 ≤ n ∧ n = 2 ^ n.log2 ∧ index < n)
  let m := n.log2
  let d ← dSet P coins serial price change
  let r := Scalar.fromBytesModOrder blinding
  guard (d[index]? = some (r • generatorH P))
  let ghash := groupHash P coins
  let nonces := sampleNonces P m (.new seed)
  let msg := firstMessage P index d nonces
  let x := fsChallenge P ghash serial price change context msg
  pure (serialize P msg (responses x r index nonces))

/-- `prove_deposit_open`: `R ‖ z_s ‖ z_r`. A coin that does not decode is a panic. -/
def proveDepositOpen (coin : U8Array 32) (amount : UInt64) (serial blinding : U8Array 32)
    (context : List UInt8) (seed : U8Array 32) : Option (List UInt8) := do
  let s := Scalar.fromBytesModOrder serial
  let r := Scalar.fromBytesModOrder blinding
  let rng := DeterministicRng.new seed
  let (ks, rng) := scalarFromRng P rng
  let (kr, _) := scalarFromRng P rng
  let rPt := ks • generatorG1 P + kr • generatorH P
  let cPt ← P.decompress coin
  let aPt := cPt - Scalar.ofU64 amount • P.basepoint
  let t := Transcript.new "NULLA_COIN_DEPOSIT_OPEN"
  let t := t.appendMessage "coin" coin.toList
  let t := t.appendU64 "amount" amount
  let t := t.appendMessage "ctx" context
  let t := t.appendMessage "R" (P.compress rPt).toList
  let t := t.appendMessage "A" (P.compress aPt).toList
  let c := Scalar.fromBytesModOrderWide (P.challengeBytes t "c")
  let zs := ks + c * s
  let zr := kr + c * r
  pure ((P.compress rPt).toList ++ (zs.toBytes.toList ++ zr.toBytes.toList))

/-- `prove_g1_pok`: `R ‖ z`. A coin or a change that does not decode is a panic. -/
def proveG1Pok (newCoin change newSerial : U8Array 32) (context : List UInt8)
    (seed : U8Array 32) : Option (List UInt8) := do
  let s := Scalar.fromBytesModOrder newSerial
  let rng := DeterministicRng.new seed
  let (k, _) := scalarFromRng P rng
  let rPt := k • generatorG1 P
  let nc ← P.decompress newCoin
  let ch ← P.decompress change
  let aPt := nc - ch
  let t := Transcript.new "NULLA_COIN_G1_POK"
  let t := t.appendMessage "new_coin" newCoin.toList
  let t := t.appendMessage "change" change.toList
  let t := t.appendMessage "ctx" context
  let t := t.appendMessage "R" (P.compress rPt).toList
  let t := t.appendMessage "A" (P.compress aPt).toList
  let c := Scalar.fromBytesModOrderWide (P.challengeBytes t "c")
  let z := k + c * s
  pure ((P.compress rPt).toList ++ z.toBytes.toList)

/-- `pedersen_commit`: the commitment of a change output, which has no serial. -/
def pedersenCommit (value : UInt64) (blinding : U8Array 32) : U8Array 32 :=
  let v := Scalar.ofU64 value
  let r := Scalar.fromBytesModOrder blinding
  P.compress (v • P.basepoint + r • generatorH P)

end NullaRelay.ScanProof.OneOfMany

import NullaRelay.ScanProof.Deposit
import NullaRelay.ScanProof.Indexed
import NullaRelay.Foundations.Transition

/-!
# Purchases that the spent note covers

The opening proof of a purchase shows that the note less its change commits to the
price, over the scalars. That the change is not negative nobody checks: range proofs
stand before the notes of deposits and transfers only. A purchase is covered by its
note when its change opens to a value below `2 ^ 64`, and in any run exactly then.
-/

namespace NullaRelay.ScanProof

open Verifier NullaRelay.Frame Transition LittleEndian

variable {V : Type} [AddCommGroup V] [Module Scalar V]
variable {A L : Type} {T : Config A L} {P : Primitives V}

/-- What a purchase with a note takes: the note, its price and the change. -/
structure NoteSpend where
  note : U8Array 32
  price : UInt64
  change : Option (U8Array 32)

/-- The spend that a call makes in a state, when it is a purchase with a note. -/
def Call.noteSpend {R : ℕ} (s : State L) : Call R → Option NoteSpend
  | .purchaseRwa input _ _ rwaId _ _ change => some ⟨input, s.rwaPrices rwaId, change⟩
  | .purchaseAccess input _ _ appId _ _ change =>
      (s.accessKeyConfigs appId).map fun cfg => ⟨input, cfg.price, change⟩
  | _ => none

variable (P) in
/-- The commitment opens to a value that a range proof can show. -/
def InRange (c : U8Array 32) : Prop := ∃ v : ℕ, v < 2 ^ 64 ∧ OpensTo P c v

variable (P) in
/-- The value of the note is at least the price, and the change is the rest. -/
def NoteSpend.Covered (p : NoteSpend) : Prop :=
  ∃ v : ℕ, v < 2 ^ 64 ∧ OpensTo P p.note v ∧ p.price.toNat ≤ v ∧
    ∀ cc ∈ p.change, ∃ w : ℕ, w < 2 ^ 64 ∧ OpensTo P cc w ∧ w = v - p.price.toNat

variable (P) in
/-- An accepted proof shows its relation, and commitments are subtracted as points. -/
structure NotesSound (verifier : ProofVerify) : Prop where
  subtract : verifier.pedersenSubtract = pedersenSubtract P
  opening : ∀ value c proof binding,
    verifier.verifyOpeningKnowledge value c proof binding = true →
      OpensTo P c (Scalar.ofU64 value)
  range : ∀ proof cs pi nbits, verifier.verifyRangeProof proof cs pi nbits = true →
    RangeRelation P cs nbits

variable (P) in
/-- Every note of the tree has a value below `2 ^ 64`. -/
def NotesInRange (s : State L) : Prop := ∀ c, Indexed s c → InRange P c

/-- The opening that an accepted purchase has shown. -/
theorem noteSpend_opens {s s' : State L} {o : Origin A} {call : Call T.maxRangeProofSize}
    {p : NoteSpend} (h : dispatch T s o call = .ok s') (hp : call.noteSpend s = some p) :
    Indexed s p.note ∧ ∃ effective, effectiveCommitment T p.note p.change = some effective ∧
      ∃ proof binding,
        T.proofVerifier.verifyOpeningKnowledge p.price effective proof binding = true := by
  cases call with
  | purchaseRwa input proof n id tx oc change =>
      obtain ⟨-, -, hindexed, -, -, ⟨effective, heff, -, hproof⟩, -⟩ := purchaseRwa_eq_ok.1 h
      obtain rfl := Option.some.inj hp
      exact ⟨hindexed, effective, heff, proof, _, hproof⟩
  | purchaseAccess input proof n id tx ac change =>
      obtain ⟨-, -, hindexed, cfg, hcfg, -, -, ⟨effective, heff, -, hproof⟩, -⟩ :=
        purchaseAccess_eq_ok.1 h
      simp only [Call.noteSpend, hcfg, Option.map_some, Option.some.injEq] at hp
      subst hp
      exact ⟨hindexed, effective, heff, proof, _, hproof⟩
  | depositPublic => cases hp
  | submitProof => cases hp
  | withdrawPrivate => cases hp
  | setRwaPrice => cases hp
  | setAccessConfig => cases hp
  | depositCoin => cases hp
  | purchaseCoin => cases hp
  | withdrawCoin => cases hp
  | purchaseAccessCoin => cases hp

/-- Two commitments whose difference opens to the price: the values add up. -/
theorem opensTo_add_of_subtract (hcodec : ∀ p q, P.decompress (P.compress p) = some q → q = p)
    {c cc effective : U8Array 32} {price w : Scalar}
    (hsub : pedersenSubtract P c cc = some effective) (hopen : OpensTo P effective price)
    (hchange : OpensTo P cc w) : OpensTo P c (w + price) := by
  obtain ⟨pb, hpb, r, hw⟩ := hchange
  obtain ⟨q, hq, r', hprice⟩ := hopen
  simp only [pedersenSubtract, hpb, Option.bind_eq_bind, Option.bind_some, Option.pure_def,
    Option.bind_eq_some_iff, Option.some.injEq] at hsub
  obtain ⟨pa, hpa, rfl⟩ := hsub
  have hdiff : q = pa - pb := hcodec _ _ hq
  refine ⟨pa, hpa, r + r', ?_⟩
  calc
    pa = pb + q := by rw [hdiff]; abel
    _ = (w + price) • P.basepoint + (r + r') • generatorH P := by rw [hw, hprice]; module

/-- A note in range that opens to a sum of two integers of 64 bits. -/
theorem value_eq_add (hind : LinearIndependent Scalar ![P.basepoint, generatorH P])
    {c : U8Array 32} {v w : ℕ} {price : UInt64} (hv : v < 2 ^ 64) (hw : w < 2 ^ 64)
    (hopen : OpensTo P c v) (hsum : OpensTo P c ((w : Scalar) + Scalar.ofU64 price)) :
    v = w + price.toNat := by
  have heq : (v : Scalar) = ((w + price.toNat : ℕ) : Scalar) := by
    rw [Nat.cast_add]
    exact hopen.value_eq hind hsum
  have hprice := price.toNat_lt
  have hlt : (2 : ℕ) ^ 65 < groupOrder := by norm_num [groupOrder]
  exact Scalar.natCast_inj (by omega) (by omega) heq

/-- A spend of a note in range is covered when its change is in range. -/
theorem covered_of_inRange (hind : LinearIndependent Scalar ![P.basepoint, generatorH P])
    (hcodec : ∀ p q, P.decompress (P.compress p) = some q → q = p)
    (hsound : NotesSound P T.proofVerifier) {p : NoteSpend} {effective : U8Array 32}
    (hnote : InRange P p.note) (heff : effectiveCommitment T p.note p.change = some effective)
    (hopen : OpensTo P effective (Scalar.ofU64 p.price)) (hchange : ∀ cc ∈ p.change, InRange P cc) :
    p.Covered P := by
  obtain ⟨v, hv, hvalue⟩ := hnote
  obtain ⟨note, price, change⟩ := p
  cases change with
  | none =>
      obtain rfl : note = effective := Option.some.inj heff
      have heq : v = 0 + price.toNat :=
        value_eq_add hind hv (by norm_num) hvalue (by simpa using hopen)
      have hle : price.toNat ≤ v := by omega
      exact ⟨v, hv, hvalue, hle, fun cc hcc => nomatch hcc⟩
  | some cc =>
      obtain ⟨w, hw, hwalue⟩ := hchange cc rfl
      have hsub : pedersenSubtract P note cc = some effective := by
        rw [← hsound.subtract]
        exact heff
      have heq : v = w + price.toNat :=
        value_eq_add hind hv hw hvalue (opensTo_add_of_subtract hcodec hsub hopen hwalue)
      have hle : price.toNat ≤ v := by omega
      refine ⟨v, hv, hvalue, hle, fun cc' hcc' => ?_⟩
      obtain rfl : cc = cc' := Option.some.inj hcc'
      have hrest : w = v - price.toNat := by omega
      exact ⟨w, hw, hwalue, hrest⟩

theorem copyFromSlice_inRange (hsound : NotesSound P T.proofVerifier) {s s' : State L}
    {o : Origin A} {commitment : List UInt8} {rp : BoundedVec UInt8 T.maxRangeProofSize}
    {hints : BoundedVec UInt8 4096} (h : depositPublic T s o commitment rp hints = .ok s')
    {c : U8Array 32} (hc : copyFromSlice 32 commitment = some c) : InRange P c := by
  obtain ⟨-, -, c', hc', bp, amt, -, hverify, -⟩ := depositPublic_eq_ok.1 h
  obtain rfl : c = c' := Option.some.inj (hc.symm.trans (copyFromSlice_eq_some.2 hc'))
  exact hsound.range _ _ _ _ hverify c (by simp)

theorem newCommitments_inRange (hsound : NotesSound P T.proofVerifier) {s s' : State L}
    {o : Origin A} {proof pi : List UInt8} {rp : BoundedVec UInt8 T.maxRangeProofSize}
    {hints : BoundedVec UInt8 4096} (h : submitProof T s o proof rp pi hints = .ok s')
    {inputs : ProofPublicInputs} (hdec : ProofPublicInputs.decode pi = some inputs)
    {c : U8Array 32} (hc : c ∈ inputs.newCommitments) : InRange P c := by
  obtain ⟨inputs', leaves, hcheck, -⟩ := submitProof_of_ok h
  obtain rfl : inputs = inputs' := Option.some.inj (hdec.symm.trans hcheck.decoded)
  exact hsound.range _ _ _ _ hcheck.ranged c hc

/-- What a call inserts is in range when its change is: the other notes come with a
range proof. -/
theorem inserted_inRange (hsound : NotesSound P T.proofVerifier) {s s' : State L} {o : Origin A}
    {call : Call T.maxRangeProofSize} (h : dispatch T s o call = .ok s')
    (hchange : ∀ p ∈ call.noteSpend s, ∀ cc ∈ p.change, InRange P cc) :
    ∀ c ∈ call.inserted, InRange P c := by
  intro c hc
  cases call with
  | depositPublic commitment rp hints =>
      exact copyFromSlice_inRange hsound h (Option.mem_toList.1 hc)
  | submitProof proof rp pi hints =>
      cases hdec : ProofPublicInputs.decode pi with
      | none => simp [Call.inserted, hdec] at hc
      | some inputs =>
          rw [Call.inserted, hdec, Option.map_some, Option.getD_some] at hc
          exact newCommitments_inRange hsound h hdec hc
  | purchaseRwa input proof n id tx oc change =>
      exact hchange _ rfl c (Option.mem_toList.1 hc)
  | purchaseAccess input proof n id tx ac change =>
      obtain ⟨-, -, -, cfg, hcfg, -⟩ := purchaseAccess_eq_ok.1 h
      exact hchange ⟨input, cfg.price, change⟩ (by simp [Call.noteSpend, hcfg]) c
        (Option.mem_toList.1 hc)
  | withdrawPrivate => cases hc
  | setRwaPrice => cases hc
  | setAccessConfig => cases hc
  | depositCoin => cases hc
  | purchaseCoin => cases hc
  | withdrawCoin => cases hc
  | purchaseAccessCoin => cases hc

/-- A step whose change is in range keeps the notes in range. -/
theorem notesInRange_step (hsound : NotesSound P T.proofVerifier) {s s' : State L}
    {x : Extrinsic A T.maxRangeProofSize} (hnotes : NotesInRange P s)
    (hchange : ∀ p ∈ x.call.noteSpend s, ∀ cc ∈ p.change, InRange P cc)
    (h : apply T s x = .ok s') : NotesInRange P s' := by
  intro c hc
  rcases (apply_indexed h).1 hc with hold | hnew
  · exact hnotes c hold
  · exact inserted_inRange hsound (apply_eq_ok.1 h).2 hchange c hnew

/-- In a state whose notes are in range a purchase with change in range is covered. -/
theorem covered_step (hind : LinearIndependent Scalar ![P.basepoint, generatorH P])
    (hcodec : ∀ p q, P.decompress (P.compress p) = some q → q = p)
    (hsound : NotesSound P T.proofVerifier) {s s' : State L}
    {x : Extrinsic A T.maxRangeProofSize} (hnotes : NotesInRange P s)
    (hchange : ∀ p ∈ x.call.noteSpend s, ∀ cc ∈ p.change, InRange P cc)
    (h : apply T s x = .ok s') : ∀ p ∈ x.call.noteSpend s, p.Covered P := by
  intro p hp
  obtain ⟨hindexed, effective, heff, proof, binding, hproof⟩ :=
    noteSpend_opens (apply_eq_ok.1 h).2 hp
  exact covered_of_inRange hind hcodec hsound (hnotes _ hindexed) heff
    (hsound.opening _ _ _ _ hproof) (hchange p hp)

/-- In a run from genesis the purchases with notes are covered by the notes they spend
exactly when their change notes open to values below `2 ^ 64`. -/
theorem covered_iff_change_inRange (hind : LinearIndependent Scalar ![P.basepoint, generatorH P])
    (hcodec : ∀ p q, P.decompress (P.compress p) = some q → q = p)
    (hsound : NotesSound P T.proofVerifier) (ledger : L)
    (xs : List (Extrinsic A T.maxRangeProofSize)) :
    (∀ e ∈ history (apply T) (genesis ledger) xs, ∀ p ∈ e.2.call.noteSpend e.1, p.Covered P) ↔
      ∀ e ∈ history (apply T) (genesis ledger) xs, ∀ p ∈ e.2.call.noteSpend e.1,
        ∀ cc ∈ p.change, InRange P cc := by
  constructor
  · intro hcovered e he p hp cc hcc
    obtain ⟨_, -, -, -, hchange⟩ := hcovered e he p hp
    obtain ⟨w, hw, hopen, -⟩ := hchange cc hcc
    exact ⟨w, hw, hopen⟩
  · intro hchange
    have hempty : NotesInRange P (genesis ledger) := fun c hc => by simp [Indexed, genesis] at hc
    have hrun := @history_invariant _ _ _ (apply T)
      (fun s x => ∀ p ∈ x.call.noteSpend s, ∀ cc ∈ p.change, InRange P cc)
      (fun s past => NotesInRange P s ∧ ∀ e ∈ past, ∀ p ∈ e.2.call.noteSpend e.1, p.Covered P)
      (fun s x s' past hinv hx h => ?_) (genesis ledger) xs [] ⟨hempty, by simp⟩ hchange
    · exact hrun.2
    · refine ⟨notesInRange_step hsound hinv.1 hx h, fun e he => ?_⟩
      rcases List.mem_append.1 he with hpast | hnow
      · exact hinv.2 e hpast
      · obtain rfl := List.mem_singleton.1 hnow
        exact covered_step hind hcodec hsound hinv.1 hx h

/-! Notes as pairs of a value and a blinding factor, thirty-two bytes for small pairs: a
value from `-2 ^ 64` on, moved up by `2 ^ 64`, and the blinding factor. -/

/-- The note of value `a - 2 ^ 64` and blinding factor `r`. -/
def pairNote (a r : ℕ) : U8Array 32 := ⟨leBytes 16 a ++ leBytes 16 r, by simp⟩

def decodePair (bytes : U8Array 32) : Option (Scalar × Scalar) :=
  if leNat (bytes.toList.take 16) = 0 then none
  else
    some ((leNat (bytes.toList.take 16) : Scalar) - (2 ^ 64 : ℕ),
      (leNat (bytes.toList.drop 16) : Scalar))

/-- Bytes that decode to the pair, or bytes that decode to nothing. -/
def encodePair (p : Scalar × Scalar) : U8Array 32 :=
  if (p.1 + (2 ^ 64 : ℕ)).val < 256 ^ 16 ∧ p.2.val < 256 ^ 16 then
    pairNote (p.1 + (2 ^ 64 : ℕ)).val p.2.val
  else U8Array.zero 32

theorem take_pairNote (a r : ℕ) : (pairNote a r).toList.take 16 = leBytes 16 a :=
  List.take_left' (by simp)

theorem drop_pairNote (a r : ℕ) : (pairNote a r).toList.drop 16 = leBytes 16 r :=
  List.drop_left' (by simp)

theorem decodePair_pairNote {a r : ℕ} (hpos : 0 < a) (ha : a < 256 ^ 16) (hr : r < 256 ^ 16) :
    decodePair (pairNote a r) = some ((a : Scalar) - (2 ^ 64 : ℕ), (r : Scalar)) := by
  rw [decodePair, take_pairNote, drop_pairNote, leNat_leBytes_of_lt ha, leNat_leBytes_of_lt hr,
    if_neg (by omega)]

theorem decodePair_encodePair {p q : Scalar × Scalar} (h : decodePair (encodePair p) = some q) :
    q = p := by
  unfold encodePair at h
  split_ifs at h with hsmall
  · by_cases hzero : (p.1 + (2 ^ 64 : ℕ)).val = 0
    · rw [decodePair, take_pairNote, leNat_leBytes_of_lt hsmall.1, if_pos hzero] at h
      cases h
    · rw [decodePair_pairNote (Nat.pos_of_ne_zero hzero) hsmall.1 hsmall.2, ZMod.natCast_zmod_val,
        ZMod.natCast_zmod_val, add_sub_cancel_right] at h
      exact (Option.some.inj h).symm
  · have hzero : leNat ((U8Array.zero 32).toList.take 16) = 0 := by decide
    rw [decodePair, if_pos hzero] at h
    cases h

def pairPrimitives : Primitives (Scalar × Scalar) where
  basepoint := (1, 0)
  decompress := decodePair
  compress := encodePair
  fromUniformBytes _ := (0, 1)
  sha512 := U8Array.padded 64
  blake2b512 := U8Array.padded 64
  challengeBytes _ _ := U8Array.zero 64
  verifyMultiple _ _ _ _ _ _ _ := false

@[simp] theorem pair_basepoint : pairPrimitives.basepoint = (1, 0) := rfl

@[simp] theorem pair_decompress : pairPrimitives.decompress = decodePair := rfl

@[simp] theorem pair_compress : pairPrimitives.compress = encodePair := by
  rw [pairPrimitives]

@[simp] theorem pair_generatorH : generatorH pairPrimitives = (0, 1) := rfl

theorem pair_independent :
    LinearIndependent Scalar ![pairPrimitives.basepoint, generatorH pairPrimitives] := by
  rw [LinearIndependent.pair_iff]
  intro a b hab
  simpa [Prod.ext_iff] using hab

theorem relationVerifier_notesSound (P : Primitives V) : NotesSound P (relationVerifier P) where
  subtract := rfl
  opening _ _ _ _ h := ((relationVerifier_verifyOpeningKnowledge P).1 h).2
  range _ _ _ _ h := ((relationVerifier_verifyRangeProof P).1 h).2

theorem pairNote_opensTo {a r : ℕ} (hpos : 0 < a) (ha : a < 256 ^ 16) (hr : r < 256 ^ 16) :
    OpensTo pairPrimitives (pairNote a r) ((a : Scalar) - (2 ^ 64 : ℕ)) := by
  have hdecode : pairPrimitives.decompress (pairNote a r) =
      some ((a : Scalar) - (2 ^ 64 : ℕ), (r : Scalar)) := by
    rw [pair_decompress, decodePair_pairNote hpos ha hr]
  refine ⟨_, hdecode, (r : Scalar), ?_⟩
  rw [pair_basepoint, pair_generatorH]
  simp

noncomputable def pairConfig : Config (U8Array 32) (U8Array 32 → ℕ) :=
  { vectorConfig with proofVerifier := relationVerifier pairPrimitives }

theorem pairConfig_proofVerifier : pairConfig.proofVerifier = relationVerifier pairPrimitives := rfl

theorem encodePair_natCast {v r : ℕ} (hv : v + 2 ^ 64 < 256 ^ 16) (hr : r < 256 ^ 16) :
    encodePair ((v : Scalar), (r : Scalar)) = pairNote (v + 2 ^ 64) r := by
  have hlt : (256 : ℕ) ^ 16 < groupOrder := by norm_num [groupOrder]
  have hvalue : ((v : Scalar) + (2 ^ 64 : ℕ)).val = v + 2 ^ 64 := by
    rw [← Nat.cast_add, ZMod.val_natCast_of_lt (hv.trans hlt)]
  have hblinding : ((r : Scalar)).val = r := ZMod.val_natCast_of_lt (hr.trans hlt)
  rw [encodePair, hvalue, hblinding, if_pos ⟨hv, hr⟩]

/-- A note of value five. -/
def spentNote : U8Array 32 := pairNote (2 ^ 64 + 5) 7

/-- A note of value five less the price, whatever the price. -/
def changeNote (price : UInt64) : U8Array 32 := pairNote (2 ^ 64 + 5 - price.toNat) 3

theorem spentNote_opensTo : OpensTo pairPrimitives spentNote ((5 : ℕ) : Scalar) := by
  have hopen := @pairNote_opensTo (2 ^ 64 + 5) 7 (by norm_num) (by norm_num) (by norm_num)
  have hvalue : ((2 ^ 64 + 5 : ℕ) : Scalar) - (2 ^ 64 : ℕ) = ((5 : ℕ) : Scalar) := by
    push_cast
    ring
  rwa [hvalue] at hopen

theorem spentNote_subtract (price : UInt64) :
    pedersenSubtract pairPrimitives spentNote (changeNote price) =
      some (pairNote (price.toNat + 2 ^ 64) 4) := by
  have hprice := price.toNat_lt
  have hspent : decodePair spentNote =
      some (((2 ^ 64 + 5 : ℕ) : Scalar) - (2 ^ 64 : ℕ), ((7 : ℕ) : Scalar)) :=
    decodePair_pairNote (by norm_num) (by norm_num) (by norm_num)
  have hchange : decodePair (changeNote price) =
      some (((2 ^ 64 + 5 - price.toNat : ℕ) : Scalar) - (2 ^ 64 : ℕ), ((3 : ℕ) : Scalar)) :=
    decodePair_pairNote (by omega) (by omega) (by norm_num)
  have hdiff : (((2 ^ 64 + 5 : ℕ) : Scalar) - (2 ^ 64 : ℕ), ((7 : ℕ) : Scalar)) -
      (((2 ^ 64 + 5 - price.toNat : ℕ) : Scalar) - (2 ^ 64 : ℕ), ((3 : ℕ) : Scalar)) =
        ((price.toNat : Scalar), ((4 : ℕ) : Scalar)) := by
    rw [Nat.cast_sub (by omega), Prod.mk_sub_mk]
    refine Prod.ext ?_ ?_
    · ring
    · push_cast
      norm_num
  simp only [pedersenSubtract, pair_decompress, pair_compress, hspent, hchange,
    Option.bind_eq_bind, Option.bind_some, Option.pure_def]
  rw [hdiff, encodePair_natCast (by omega) (by norm_num)]

def pairLedger (_ : U8Array 32) : ℕ := 10

def pairDeposit : Extrinsic (U8Array 32) pairConfig.maxRangeProofSize :=
  .signed (U8Array.ofNat 32 2) (.depositPublic spentNote.toList (depositBytes 5) BoundedVec.empty)

def pairPrice (price : UInt64) : Extrinsic (U8Array 32) pairConfig.maxRangeProofSize :=
  .root (.setRwaPrice (U8Array.zero 32) price)

def pairPurchase (price : UInt64) : Extrinsic (U8Array 32) pairConfig.maxRangeProofSize :=
  .unsigned (.purchaseRwa spentNote (List.replicate 64 0) (U8Array.zero 32)
    (U8Array.zero 32) (U8Array.zero 16) (U8Array.zero 32) (some (changeNote price)))

theorem pairDeposit_ok : ∃ s', apply pairConfig (genesis pairLedger) pairDeposit = .ok s' ∧
    s'.nullifierUsed = (fun _ => false) ∧ s'.leaves.val.length = 1 ∧
    s'.commitmentIndex = insertAt (fun _ => none) spentNote (some 0) := by
  have hbal : (5 : UInt64).toNat ≤ pairLedger (U8Array.ofNat 32 2) := by decide
  have hpay := balances_transfer_of_le hbal pairConfig.poolAccount .keepAlive
  have hparse : parseDeposit pairConfig (depositBytes 5).val = .ok ([], 5) := depositBytes_parse 5
  have hrange : pairConfig.proofVerifier.verifyRangeProof [] [spentNote] [] 64 = true := by
    refine (relationVerifier_verifyRangeProof _).2 ⟨by simp, fun c hc => ?_⟩
    obtain rfl := List.mem_singleton.1 hc
    exact ⟨5, by decide, spentNote_opensTo⟩
  have hroom : (genesis pairLedger).leaves.val.length < 1048576 := by decide
  have hcall : depositPublic pairConfig (genesis pairLedger) (.signed (U8Array.ofNat 32 2))
      spentNote.toList (depositBytes 5) BoundedVec.empty = .ok _ :=
    depositPublic_eq_ok.2 ⟨_, rfl, _, rfl, [], 5, hparse, hrange, _, hpay, rfl, _,
      insertNote_eq_ok.2 ⟨_, BoundedVec.tryPush_of_lt hroom _, rfl⟩, rfl⟩
  exact ⟨_, apply_eq_ok.2 ⟨by simp [pairDeposit], hcall⟩, rfl, rfl, rfl⟩

theorem pairPrice_ok (s : State (U8Array 32 → ℕ)) (price : UInt64) : ∃ s',
    apply pairConfig s (pairPrice price) = .ok s' ∧ s'.rwaPrices (U8Array.zero 32) = price ∧
      s'.nullifierUsed = s.nullifierUsed ∧ s'.leaves = s.leaves ∧
      s'.commitmentIndex = s.commitmentIndex := by
  have hcall : setRwaPrice s (.root : Origin (U8Array 32)) (U8Array.zero 32) price = .ok _ := rfl
  exact ⟨_, apply_eq_ok.2 ⟨by simp [pairPrice], hcall⟩, by simp [State.depositEvent], rfl, rfl, rfl⟩

/-- The purchase leaves the change of the price, negative or not. -/
theorem pairPurchase_ok {s : State (U8Array 32 → ℕ)} {price : UInt64} (hpos : 0 < price)
    (hprice : s.rwaPrices (U8Array.zero 32) = price)
    (hfresh : s.nullifierUsed (U8Array.zero 32) = false)
    (hindexed : (s.commitmentIndex spentNote).isSome)
    (hnew : s.commitmentIndex (changeNote price) = none) (hroom : s.leaves.val.length < 1048576) :
    ∃ s', apply pairConfig s (pairPurchase price) = .ok s' := by
  subst hprice
  set price := s.rwaPrices (U8Array.zero 32)
  have hbound := price.toNat_lt
  have hopen : OpensTo pairPrimitives (pairNote (price.toNat + 2 ^ 64) 4) (Scalar.ofU64 price) := by
    have hopen := @pairNote_opensTo (price.toNat + 2 ^ 64) 4 (by omega) (by omega) (by norm_num)
    rwa [Nat.cast_add, add_sub_cancel_right] at hopen
  have heff : effectiveCommitment pairConfig spentNote (some (changeNote price)) =
      some (pairNote (price.toNat + 2 ^ 64) 4) := by
    rw [effectiveCommitment, pairConfig_proofVerifier, (relationVerifier_notesSound _).subtract,
      spentNote_subtract]
  have hproof : OpensAt pairConfig spentNote (List.replicate 64 0) (U8Array.zero 32)
      (U8Array.zero 32) (U8Array.zero 16) price (some (changeNote price)) := by
    refine ⟨_, heff, List.length_replicate, ?_⟩
    rw [pairConfig_proofVerifier]
    exact (relationVerifier_verifyOpeningKnowledge _).2 ⟨List.length_replicate, hopen⟩
  have hnewAll : ∀ cc ∈ some (changeNote price), s.commitmentIndex cc = none := by
    intro cc hcc
    obtain rfl := Option.some.inj hcc
    exact hnew
  have hroom' : (markNullifier s (U8Array.zero 32)).leaves.val.length < 1048576 := hroom
  obtain ⟨t, ht⟩ : ∃ t, insertChange pairConfig (markNullifier s (U8Array.zero 32))
      (some (changeNote price)) = .ok t :=
    ⟨_, insertNote_eq_ok.2 ⟨_, BoundedVec.tryPush_of_lt hroom' _, rfl⟩⟩
  have hcall : purchaseRwa pairConfig s .none spentNote (List.replicate 64 0) (U8Array.zero 32)
      (U8Array.zero 32) (U8Array.zero 16) (U8Array.zero 32) (some (changeNote price)) = .ok _ :=
    purchaseRwa_eq_ok.2 ⟨rfl, hfresh, hindexed, hpos, hnewAll, hproof, t, ht, rfl⟩
  exact ⟨_, unsigned_eq_ok.2 ⟨validatePurchaseRwa_of_ok hcall, hcall⟩⟩

def pairRun (price : UInt64) : List (Extrinsic (U8Array 32) pairConfig.maxRangeProofSize) :=
  [pairDeposit, pairPrice price, pairPurchase price]

theorem changeNote_ne_spentNote (price : UInt64) : changeNote price ≠ spentNote := by
  intro h
  have hdrop := congrArg (fun b => leNat (b.toList.drop 16)) h
  simp only [changeNote, spentNote, drop_pairNote] at hdrop
  rw [leNat_leBytes_of_lt (by norm_num), leNat_leBytes_of_lt (by norm_num)] at hdrop
  norm_num at hdrop

/-- In the run the note of value five pays any price. -/
theorem pairPurchase_mem_history {price : UInt64} (hpos : 0 < price) :
    ∃ e ∈ history (apply pairConfig) (genesis pairLedger) (pairRun price),
      e.2.call.noteSpend e.1 = some ⟨spentNote, price, some (changeNote price)⟩ := by
  obtain ⟨s₁, h₁, hused, hlength, hindex⟩ := pairDeposit_ok
  obtain ⟨s₂, h₂, hprice, hused₂, hleaves, hindex₂⟩ := pairPrice_ok s₁ price
  have hfresh : s₂.nullifierUsed (U8Array.zero 32) = false := by rw [hused₂, hused]
  have hindexed : (s₂.commitmentIndex spentNote).isSome := by simp [hindex₂, hindex]
  have hnew : s₂.commitmentIndex (changeNote price) = none := by
    rw [hindex₂, hindex]
    exact Function.update_of_ne (changeNote_ne_spentNote price) _ _
  have hroom : s₂.leaves.val.length < 1048576 := by rw [hleaves, hlength]; norm_num
  obtain ⟨s₃, h₃⟩ := pairPurchase_ok hpos hprice hfresh hindexed hnew hroom
  have hspend : (pairPurchase price).call.noteSpend s₂ =
      some ⟨spentNote, price, some (changeNote price)⟩ := by
    rw [← hprice]
    rfl
  refine ⟨(s₂, pairPurchase price), ?_, hspend⟩
  rw [pairRun, history_cons_ok h₁, history_cons_ok h₂, history_cons_ok h₃]
  simp

/-- A note of value five pays a price of ten; the change has the value `-5`. -/
theorem overdrawn_purchase :
    LinearIndependent Scalar ![pairPrimitives.basepoint, generatorH pairPrimitives] ∧
      (∀ p q, pairPrimitives.decompress (pairPrimitives.compress p) = some q → q = p) ∧
      NotesSound pairPrimitives pairConfig.proofVerifier ∧
      ¬ ∀ xs, ∀ e ∈ history (apply pairConfig) (genesis pairLedger) xs,
        ∀ p ∈ e.2.call.noteSpend e.1, p.Covered pairPrimitives := by
  refine ⟨pair_independent, ?_, relationVerifier_notesSound _, fun hclaim => ?_⟩
  · rw [pair_compress, pair_decompress]
    exact fun p q => decodePair_encodePair
  · obtain ⟨e, he, hspend⟩ := @pairPurchase_mem_history 10 (by decide)
    obtain ⟨v, hv, hopen, hle, -⟩ := hclaim (pairRun 10) e he _ hspend
    have hlt : (2 : ℕ) ^ 64 < groupOrder := by norm_num [groupOrder]
    have hvalue : v = 5 := Scalar.natCast_inj (hv.trans hlt) (lt_trans (by norm_num) hlt)
      (hopen.value_eq pair_independent spentNote_opensTo)
    have hten : (10 : UInt64).toNat ≤ v := hle
    rw [hvalue] at hten
    exact absurd hten (by decide)

/-- At a price of three the change of the run is in range. -/
theorem pairRun_covered_iff :
    (∃ e ∈ history (apply pairConfig) (genesis pairLedger) (pairRun 3),
      e.2.call.noteSpend e.1 = some ⟨spentNote, 3, some (changeNote 3)⟩) ∧
    InRange pairPrimitives (changeNote 3) ∧
    ((∀ e ∈ history (apply pairConfig) (genesis pairLedger) (pairRun 3),
        ∀ p ∈ e.2.call.noteSpend e.1, p.Covered pairPrimitives) ↔
      ∀ e ∈ history (apply pairConfig) (genesis pairLedger) (pairRun 3),
        ∀ p ∈ e.2.call.noteSpend e.1, ∀ cc ∈ p.change, InRange pairPrimitives cc) := by
  have hcodec : ∀ p q, pairPrimitives.decompress (pairPrimitives.compress p) = some q → q = p := by
    rw [pair_compress, pair_decompress]
    exact fun p q => decodePair_encodePair
  refine ⟨pairPurchase_mem_history (by decide), ⟨2, by norm_num, ?_⟩,
    covered_iff_change_inRange pair_independent hcodec (relationVerifier_notesSound _) _ _⟩
  have hopen := @pairNote_opensTo (2 ^ 64 + 5 - (3 : UInt64).toNat) 3 (by decide) (by decide)
    (by norm_num)
  have hvalue : ((2 ^ 64 + 5 - (3 : UInt64).toNat : ℕ) : Scalar) - (2 ^ 64 : ℕ) =
      ((2 : ℕ) : Scalar) := by
    have hnat : 2 ^ 64 + 5 - (3 : UInt64).toNat = 2 ^ 64 + 2 := by decide
    rw [hnat]
    push_cast
    ring
  rwa [hvalue] at hopen

end NullaRelay.ScanProof

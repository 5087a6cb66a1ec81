import NullaRelay.RwaParachain.Runtime
import NullaRelay.Xcm.Grants

/-!
# The four chains

ProofHub and ScanProof send their messages as bytes, and the RWA chain and AuthGate read
the bytes under the sender's account, in any order. No message is a call of the RWA
chain: whatever happens on the others, it runs as if it were alone, no purchase is
recorded there, and what is bought on the proof chains cannot be redeemed.
-/

namespace NullaRelay.Xcm

open NullaRelay.Frame Scale Transition
open RwaParachain AuthGate

/-- The storage of the four chains and the messages on their way. -/
structure Network (L M : Type) where
  hub : NullaRelay.ProofHub.State L
  scan : NullaRelay.ScanProof.State M
  rwa : Marketplace.State
  gate : AccessKeys.State
  inFlight : List Message

namespace Network

open AccessLink (hubMessage scanMessage oneApp)

variable {A B L M : Type}

/-- A step: a call on one of the chains, or the delivery of a message. -/
inductive Input (A B : Type) (R : ℕ)
  | hub (x : NullaRelay.ProofHub.Extrinsic A)
  | scan (x : NullaRelay.ScanProof.Extrinsic B R)
  | rwa (x : Origin Marketplace.AccountId × Marketplace.RuntimeCall)
  | gate (origin : Origin AccessKeys.AccountId) (call : AccessKeys.Call)
  | deliver (index : ℕ)

inductive Refusal
  | hub (error : DispatchError NullaRelay.ProofHub.Error)
  | scan (rejection : NullaRelay.ScanProof.Rejection)
  | rwa (error : DispatchError Marketplace.Error)
  | gate (error : DispatchError AccessKeys.Error)
  /-- Nobody signs for the accounts that stand for the proof chains. -/
  | sovereign
  | nothingInFlight

/-- A call is signed by neither of the proof chains. -/
def ensureOwn (origin : Origin (U8Array 32)) : Except Refusal Unit :=
  ensure (origin ≠ .signed (siblingAccount .proofHub) ∧
    origin ≠ .signed (siblingAccount .scanProof)) .sovereign

variable (blake3 : List UInt8 → U8Array 32)

/-- A call on the RWA chain that does not come from another chain. -/
def rwaStep (rwa : Marketplace.State) (x : Origin Marketplace.AccountId × Marketplace.RuntimeCall) :
    Except Refusal Marketplace.State := do
  ensureOwn x.1
  (Marketplace.step (rwaConfig blake3) rwa x).mapError .rwa

/-- The RWA chain after a message arrived: its bytes are read as a call, under the
account of the chain that sent it. -/
def receiveRwa (rwa : Marketplace.State) (m : Message) : Marketplace.State :=
  match decodeAll (RuntimeCall.decoder m.transact.dest) m.transact.call with
  | some (.rwaMarketplace call) =>
      next (Marketplace.step (rwaConfig blake3)) rwa
        (.signed (siblingAccount m.sender), .marketplace call)
  | _ => rwa

variable (T : NullaRelay.ProofHub.Config A L) (U : NullaRelay.ScanProof.Config B M)

def step (s : Network L M) : Input A B U.maxRangeProofSize → Except Refusal (Network L M)
  | .hub x => do
      let hub ← (NullaRelay.ProofHub.apply T s.hub x).mapError .hub
      let sent := (hub.sent.drop s.hub.sent.length).map hubMessage
      pure { s with hub, inFlight := s.inFlight ++ sent }
  | .scan x => do
      let scan ← (NullaRelay.ScanProof.apply U s.scan x).mapError .scan
      let sent := (scan.sent.drop s.scan.sent.length).map scanMessage
      pure { s with scan, inFlight := s.inFlight ++ sent }
  | .rwa x => do
      let rwa ← rwaStep blake3 s.rwa x
      pure { s with rwa }
  | .gate origin call => do
      ensureOwn origin
      let gate ← (AccessKeys.dispatch (authGateConfig blake3) s.gate origin call).mapError .gate
      pure { s with gate }
  | .deliver index => do
      let m ← okOr s.inFlight[index]? .nothingInFlight
      pure { s with
        rwa := receiveRwa blake3 s.rwa m
        gate := AccessLink.receive blake3 s.gate m
        inFlight := s.inFlight.eraseIdx index }

/-- The calls on the RWA chain. -/
def Input.toRwa {R : ℕ} : Input A B R →
    Option (Origin Marketplace.AccountId × Marketplace.RuntimeCall)
  | .rwa x => some x
  | _ => none

variable {blake3 T U} {s s' : Network L M}

/-- No message of a proof chain is a call of the RWA chain. -/
theorem receiveRwa_eq (rwa : Marketplace.State) (m : Message) :
    receiveRwa blake3 rwa m = rwa := by
  cases m with
  | proofHubPurchase | scanProofPurchase =>
      simp only [receiveRwa, Message.transact, ProofHub.RwaXcmDispatch.send,
        ScanProof.RwaXcmDispatch.send, purchase_not_decoded]
  | proofHubTransfer =>
      simp only [receiveRwa, Message.transact, ProofHub.RwaXcmDispatch.sendTransfer,
        transfer_not_decoded]
  | proofHubAccess | scanProofAccess =>
      simp only [receiveRwa, Message.transact, ProofHub.AccessGateXcmDispatch.send,
        ScanProof.AccessGateXcmDispatch.send, access_decoded]

/-- A step that is no call on the RWA chain leaves it alone. -/
theorem rwa_of_step {i : Input A B U.maxRangeProofSize} (hi : i.toRwa = none)
    (h : step blake3 T U s i = .ok s') : s'.rwa = s.rwa := by
  cases i with
  | rwa x => cases hi
  | deliver k =>
      simp only [step, bind_eq_ok, pure_eq_ok] at h
      obtain ⟨m, -, rfl⟩ := h
      exact receiveRwa_eq s.rwa m
  | hub x =>
      simp only [step, bind_eq_ok, pure_eq_ok] at h
      obtain ⟨_, -, rfl⟩ := h
      rfl
  | scan x =>
      simp only [step, bind_eq_ok, pure_eq_ok] at h
      obtain ⟨_, -, rfl⟩ := h
      rfl
  | gate o call =>
      simp only [step, bind_eq_ok, pure_eq_ok] at h
      obtain ⟨-, -, _, -, rfl⟩ := h
      rfl

/-- The RWA chain follows its own calls. -/
theorem rwa_next (s : Network L M) (i : Input A B U.maxRangeProofSize) :
    (next (step blake3 T U) s i).rwa = i.toRwa.elim s.rwa (next (rwaStep blake3) s.rwa) := by
  cases hi : i.toRwa with
  | none =>
      cases hstep : step blake3 T U s i with
      | ok s' => rw [next_ok hstep, rwa_of_step hi hstep, Option.elim_none]
      | error e => rw [next_error hstep, Option.elim_none]
  | some x =>
      obtain rfl : i = .rwa x := by
        cases i with
        | rwa y => exact congrArg Input.rwa (Option.some.inj hi)
        | _ => cases hi
      rw [Option.elim_some]
      cases hx : rwaStep blake3 s.rwa x with
      | ok rwa =>
          have hstep : step blake3 T U s (.rwa x) = .ok { s with rwa } := by simp [step, hx]
          rw [next_ok hstep, next_ok hx]
      | error e =>
          have hstep : step blake3 T U s (.rwa x) = .error e := by
            rw [step, hx]
            rfl
          rw [next_error hstep, next_error hx]

/-- No call of its own gives the RWA chain a record of a purchase. -/
theorem proofHubPurchases_of_rwaStep {rwa rwa' : Marketplace.State}
    {x : Origin Marketplace.AccountId × Marketplace.RuntimeCall}
    (h : rwaStep blake3 rwa x = .ok rwa') : rwa'.proofHubPurchases = rwa.proofHubPurchases := by
  obtain ⟨o, call⟩ := x
  simp only [rwaStep, ensureOwn, bind_eq_ok, ensure_eq_ok, exists_const, mapError_eq_ok] at h
  obtain ⟨⟨hhub, -⟩, hcall⟩ := h
  cases call with
  | registry call =>
      rw [Marketplace.step, Marketplace.onRegistry_eq_ok] at hcall
      obtain ⟨_, -, rfl⟩ := hcall
      rfl
  | marketplace call =>
      rw [(Marketplace.records_of_dispatch hcall).1, Marketplace.report_eq_none hcall hhub,
        Option.elim_none]

/-- What is not recorded cannot be redeemed. -/
theorem redeemRwaOwnership_eq_error {rwa : Marketplace.State} {txId : U8Array 16}
    (h : rwa.proofHubPurchases txId = none) (who : Marketplace.AccountId)
    (blinding : U8Array 32) :
    Marketplace.redeemRwaOwnership (rwaConfig blake3) rwa (.signed who) txId blinding =
      .error (.module .purchaseNotFound) := by
  rw [Marketplace.redeemRwaOwnership, h]
  rfl

/-- In every run of the four chains, in whatever order the messages arrive, the RWA chain
is as if it were alone, and nobody can redeem a purchase of the proof chains there. -/
theorem rwa_isolated (blake3 : List UInt8 → U8Array 32) (T : NullaRelay.ProofHub.Config A L)
    (U : NullaRelay.ScanProof.Config B M) (s : Network L M)
    (is : List (Input A B U.maxRangeProofSize)) :
    (run (step blake3 T U) s is).rwa = run (rwaStep blake3) s.rwa (is.filterMap Input.toRwa) ∧
      ∀ txId, s.rwa.proofHubPurchases txId = none → ∀ who blinding,
        Marketplace.redeemRwaOwnership (rwaConfig blake3) (run (step blake3 T U) s is).rwa
          (.signed who) txId blinding = .error (.module .purchaseNotFound) := by
  have halone := run_part Network.rwa Input.toRwa (@rwa_next _ _ _ _ blake3 T U) s is
  have hrecords : (run (rwaStep blake3) s.rwa (is.filterMap Input.toRwa)).proofHubPurchases =
      s.rwa.proofHubPurchases :=
    run_invariant (P := fun rwa => rwa.proofHubPurchases = s.rwa.proofHubPurchases)
      (fun _ _ _ h hx => (proofHubPurchases_of_rwaStep hx).trans h) rfl _
  rw [← halone] at hrecords
  refine ⟨halone, fun txId hnone who b => redeemRwaOwnership_eq_error ?_ who b⟩
  rw [hrecords, hnone]

section Example

/-- The chains at their start, with a storage of ProofHub and messages on their way. -/
def marketNetwork (hub : NullaRelay.ProofHub.State (U8Array 32 → ℕ)) (inFlight : List Message) :
    Network (U8Array 32 → ℕ) (U8Array 32 → ℕ) where
  hub
  scan := NullaRelay.ScanProof.genesis fun _ => 0
  rwa := Marketplace.State.genesis [] none
  gate := oneApp
  inFlight

/-- The report of the purchase that `rebuy` makes. -/
def rebuyMessage (s : NullaRelay.ProofHub.State (U8Array 32 → ℕ)) : Message :=
  .proofHubPurchase (U8Array.zero 32) (U8Array.ofNat 32 1) (U8Array.ofNat 32 1)
    (s.rwaPrices (U8Array.zero 32)) (U8Array.zero 16) (U8Array.ofNat 32 1)

/-- A purchase is accepted and paid, its report arrives, and it cannot be redeemed. -/
theorem rebuy_unredeemable : ∃ s : Network (U8Array 32 → ℕ) (U8Array 32 → ℕ), ∃ s' is,
    (history (step (fun _ => U8Array.zero 32)
        (NullaRelay.ProofHub.acceptingConfig fun _ => U8Array.zero 32)
        NullaRelay.ScanProof.vectorConfig) s is).map Prod.snd = is ∧
      is = [.hub (NullaRelay.ProofHub.rebuyCall s.hub 1), .deliver 0] ∧
      run (step (fun _ => U8Array.zero 32)
        (NullaRelay.ProofHub.acceptingConfig fun _ => U8Array.zero 32)
        NullaRelay.ScanProof.vectorConfig) s is = s' ∧
      Marketplace.redeemRwaOwnership (rwaConfig fun _ => U8Array.zero 32) s'.rwa
        (.signed (U8Array.zero 32)) (U8Array.zero 16) (U8Array.zero 32) =
          .error (.module .purchaseNotFound) := by
  obtain ⟨s₀, s₁, -, -, -, h₁, -, heff, -⟩ :=
    NullaRelay.ProofHub.rebuy_succeeds fun _ => U8Array.zero 32
  have hbuy : step (fun _ => U8Array.zero 32)
      (NullaRelay.ProofHub.acceptingConfig fun _ => U8Array.zero 32)
      NullaRelay.ScanProof.vectorConfig (marketNetwork s₀ [])
      (.hub (NullaRelay.ProofHub.rebuyCall s₀ 1)) =
        .ok (marketNetwork s₁ [rebuyMessage s₀]) := by
    have hsent : (s₁.sent.drop s₀.sent.length).map hubMessage = [rebuyMessage s₀] := by
      rw [heff.sent, List.drop_left]
      rfl
    rw [← hsent]
    simp [step, marketNetwork, h₁]
  obtain ⟨s', hdeliver⟩ : ∃ s', step (fun _ => U8Array.zero 32)
      (NullaRelay.ProofHub.acceptingConfig fun _ => U8Array.zero 32)
      NullaRelay.ScanProof.vectorConfig (marketNetwork s₁ [rebuyMessage s₀]) (.deliver 0) =
        .ok s' := ⟨_, rfl⟩
  refine ⟨marketNetwork s₀ [], _, _, ?_, rfl, rfl, ?_⟩
  · rw [history_cons_ok (by exact hbuy), history_cons_ok hdeliver, history_nil]
    rfl
  · exact (rwa_isolated _ _ _ _ _).2 _ rfl _ _

end Example

end Network

end NullaRelay.Xcm

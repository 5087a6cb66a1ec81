import NullaRelay.AuthGate.Grants
import NullaRelay.ProofHub.Accepting
import NullaRelay.ScanProof.Messages
import NullaRelay.ScanProof.VectorModel
import NullaRelay.Xcm.Encoding

/-!
# The proof chains and AuthGate

ProofHub and ScanProof sell access and report it to AuthGate, which they share.
Reports arrive in any order and are recorded under the transaction id that the
buyer chose, the first one under an id only. Once all reports are delivered,
every purchase has its grant exactly when the purchases under one id agree.
-/

namespace NullaRelay.Xcm

open NullaRelay.Frame Scale Transition
open AuthGate AuthGate.AccessKeys

variable {A B L M : Type}

/-- The storage of the three chains and the reports on their way. -/
structure AccessLink (L M : Type) where
  hub : NullaRelay.ProofHub.State L
  scan : NullaRelay.ScanProof.State M
  gate : AccessKeys.State
  inFlight : List Message

namespace AccessLink

/-- A step: a call on one of the chains, or the delivery of a report. -/
inductive Input (A B : Type) (R : ℕ)
  | hub (x : NullaRelay.ProofHub.Extrinsic A)
  | scan (x : NullaRelay.ScanProof.Extrinsic B R)
  | gate (origin : Origin AccessKeys.AccountId) (call : AccessKeys.Call)
  | deliver (index : ℕ)

inductive Refusal
  | hub (error : DispatchError NullaRelay.ProofHub.Error)
  | scan (rejection : NullaRelay.ScanProof.Rejection)
  | gate (error : DispatchError AccessKeys.Error)
  /-- Nobody signs for the accounts that stand for the proof chains. -/
  | sovereign
  | nothingInFlight

def hubMessage : NullaRelay.ProofHub.Message → Message
  | .rwaPurchase rwaId nullifier spendTag noteValue txId ownershipCommitment =>
      .proofHubPurchase rwaId nullifier spendTag noteValue txId ownershipCommitment
  | .rwaTransfer oldTxId newOwnershipCommitment newTxId =>
      .proofHubTransfer oldTxId newOwnershipCommitment newTxId
  | .accessKey appId nullifier txId accessKeyCommitment =>
      .proofHubAccess appId nullifier txId accessKeyCommitment

def scanMessage : NullaRelay.ScanProof.Message → Message
  | .rwaPurchase rwaId nullifier spendTag noteValue txId ownershipCommitment =>
      .scanProofPurchase rwaId nullifier spendTag noteValue txId ownershipCommitment
  | .accessKey appId nullifier txId accessKeyCommitment =>
      .scanProofAccess appId nullifier txId accessKeyCommitment

/-- The messages that go to AuthGate. -/
def toGate (ms : List Message) : List Message := ms.filter fun m => m.transact.dest = .authGate

variable (blake3 : List UInt8 → U8Array 32)

/-- AuthGate after a message arrived: its bytes are read as a call, under the account
of the chain that sent it. -/
def receive (gate : AccessKeys.State) (m : Message) : AccessKeys.State :=
  match decodeAll (RuntimeCall.decoder m.transact.dest) m.transact.call with
  | some (.accessKeys call) =>
      next (fun gate call => AccessKeys.dispatch (authGateConfig blake3) gate
        (.signed (siblingAccount m.sender)) call) gate call
  | _ => gate

variable (T : NullaRelay.ProofHub.Config A L) (U : NullaRelay.ScanProof.Config B M)

def step (s : AccessLink L M) : Input A B U.maxRangeProofSize → Except Refusal (AccessLink L M)
  | .hub x => do
      let hub ← (NullaRelay.ProofHub.apply T s.hub x).mapError .hub
      let sent := (hub.sent.drop s.hub.sent.length).map hubMessage
      pure { s with hub, inFlight := s.inFlight ++ toGate sent }
  | .scan x => do
      let scan ← (NullaRelay.ScanProof.apply U s.scan x).mapError .scan
      let sent := (scan.sent.drop s.scan.sent.length).map scanMessage
      pure { s with scan, inFlight := s.inFlight ++ toGate sent }
  | .gate origin call => do
      ensure (origin ≠ .signed (siblingAccount .proofHub) ∧
        origin ≠ .signed (siblingAccount .scanProof)) .sovereign
      let gate ← (AccessKeys.dispatch (authGateConfig blake3) s.gate origin call).mapError .gate
      pure { s with gate }
  | .deliver index => do
      let m ← okOr s.inFlight[index]? .nothingInFlight
      pure { s with gate := receive blake3 s.gate m, inFlight := s.inFlight.eraseIdx index }

/-- The access that a call of ProofHub buys. -/
def hubAccess : NullaRelay.ProofHub.Call → Option Report
  | .purchaseAccess _ pi => (NullaRelay.ProofHub.RwaPurchaseInputs.decode pi).map fun i =>
      { appId := i.rwaId
        nullifier := i.nullifier
        txId := i.txId
        accessKeyCommitment := i.ownershipCommitment }
  | .purchaseAccessV2 _ pi _ => (NullaRelay.ProofHub.SpendPublicV2.decode pi).map fun i =>
      { appId := i.rwaId
        nullifier := i.nullifier
        txId := i.txId
        accessKeyCommitment := i.ownershipCommitment }
  | _ => none

/-- The access that a call of ScanProof buys; a coin's serial is its nullifier. -/
def scanAccess {R : ℕ} : NullaRelay.ScanProof.Call R → Option Report
  | .purchaseAccess _ _ nullifier appId txId accessKeyCommitment _ =>
      some { appId, nullifier, txId, accessKeyCommitment }
  | .purchaseAccessCoin pi _ _ => (NullaRelay.ScanProof.CoinSpendPublic.decode pi).map fun i =>
      { appId := i.rwaId
        nullifier := i.serial
        txId := i.txId
        accessKeyCommitment := i.ownershipCommitment }
  | _ => none

/-- What a step buys, if it succeeds. -/
def Input.access {R : ℕ} : Input A B R → Option Report
  | .hub x => hubAccess x.2
  | .scan x => scanAccess x.call
  | _ => none

/-- The grant that a message reports. -/
def reportOf : Message → Option Report
  | .proofHubAccess appId nullifier txId accessKeyCommitment
  | .scanProofAccess appId nullifier txId accessKeyCommitment =>
      some { appId, nullifier, txId, accessKeyCommitment }
  | _ => none

/-- The accepted purchases of access of a run, on both chains. -/
def accesses {R : ℕ} (h : List (AccessLink L M × Input A B R)) : List Report :=
  h.filterMap fun e => e.2.access

variable {blake3 T U} {s s' : AccessLink L M}

theorem reports_toGate (ms : List Message) :
    (toGate ms).filterMap reportOf = ms.filterMap reportOf := by
  rw [toGate, List.filterMap_filter]
  refine List.filterMap_congr fun m _ => ?_
  cases m <;> rfl

theorem hubMessage_report (call : NullaRelay.ProofHub.Call) (s : NullaRelay.ProofHub.State L) :
    ((call.footprint s).message.toList.map hubMessage).filterMap reportOf =
      (hubAccess call).toList := by
  cases call with
  | purchaseRwa _ pi | purchaseAccess _ pi =>
      simp only [NullaRelay.ProofHub.Call.footprint, hubAccess]
      cases NullaRelay.ProofHub.RwaPurchaseInputs.decode pi <;> rfl
  | purchaseRwaV2 _ pi _ | purchaseAccessV2 _ pi _ =>
      simp only [NullaRelay.ProofHub.Call.footprint, hubAccess]
      cases NullaRelay.ProofHub.SpendPublicV2.decode pi <;> rfl
  | withdrawPrivate _ pi =>
      simp only [NullaRelay.ProofHub.Call.footprint, hubAccess]
      cases NullaRelay.ProofHub.WithdrawInputs.decode pi <;> rfl
  | withdrawV2 _ pi _ =>
      simp only [NullaRelay.ProofHub.Call.footprint, hubAccess]
      cases NullaRelay.ProofHub.WithdrawPublicV2.decode pi <;> rfl
  | _ => rfl

theorem scanMessage_report {R : ℕ} (call : NullaRelay.ScanProof.Call R)
    (s : NullaRelay.ScanProof.State M) :
    ((call.message s).toList.map scanMessage).filterMap reportOf = (scanAccess call).toList := by
  cases call with
  | purchaseCoin pi _ _ | purchaseAccessCoin pi _ _ =>
      simp only [NullaRelay.ScanProof.Call.message, scanAccess]
      cases NullaRelay.ScanProof.CoinSpendPublic.decode pi <;> rfl
  | _ => rfl

/-- A report is received as the call that its sender means. -/
theorem receive_report (gate : AccessKeys.State) {m : Message} {r : Report}
    (hm : reportOf m = some r) :
    receive blake3 gate m = next (fun gate call => AccessKeys.dispatch (authGateConfig blake3) gate
        (.signed (siblingAccount m.sender)) call) gate r.call ∧
      (siblingAccount m.sender = (authGateConfig blake3).proofHubSovereign ∨
        siblingAccount m.sender = (authGateConfig blake3).proofHubSovereign2) := by
  cases m with
  | proofHubAccess appId nullifier txId commitment =>
      cases hm
      refine ⟨?_, .inl rfl⟩
      simp only [receive, Message.transact, ProofHub.AccessGateXcmDispatch.send, access_decoded]
      rfl
  | scanProofAccess appId nullifier txId commitment =>
      cases hm
      refine ⟨?_, .inr rfl⟩
      simp only [receive, Message.transact, ScanProof.AccessGateXcmDispatch.send, access_decoded]
      rfl
  | _ => cases hm

@[simp] theorem step_hub_eq_ok {x : NullaRelay.ProofHub.Extrinsic A} :
    step blake3 T U s (.hub x) = .ok s' ↔
      ∃ hub, NullaRelay.ProofHub.apply T s.hub x = .ok hub ∧ s' = { s with
        hub
        inFlight := s.inFlight ++ toGate ((hub.sent.drop s.hub.sent.length).map hubMessage) } := by
  simp [step, @eq_comm _ s']

@[simp] theorem step_scan_eq_ok {x : NullaRelay.ScanProof.Extrinsic B U.maxRangeProofSize} :
    step blake3 T U s (.scan x) = .ok s' ↔
      ∃ scan, NullaRelay.ScanProof.apply U s.scan x = .ok scan ∧ s' = { s with
        scan, inFlight := s.inFlight ++
          toGate ((scan.sent.drop s.scan.sent.length).map scanMessage) } := by
  simp [step, @eq_comm _ s']

@[simp] theorem step_gate_eq_ok {o : Origin AccessKeys.AccountId} {call : AccessKeys.Call} :
    step blake3 T U s (.gate o call) = .ok s' ↔
      (o ≠ .signed (siblingAccount .proofHub) ∧ o ≠ .signed (siblingAccount .scanProof)) ∧
      ∃ gate, AccessKeys.dispatch (authGateConfig blake3) s.gate o call = .ok gate ∧
        s' = { s with gate } := by
  simp [step, @eq_comm _ s']

@[simp] theorem step_deliver_eq_ok {k : ℕ} :
    step blake3 T U s (.deliver k) = .ok s' ↔ ∃ m, s.inFlight[k]? = some m ∧
      s' = { s with gate := receive blake3 s.gate m, inFlight := s.inFlight.eraseIdx k } := by
  simp [step, @eq_comm _ s']

end AccessLink

end NullaRelay.Xcm

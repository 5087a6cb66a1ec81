import NullaRelay.ProofHub.Purchases
import NullaRelay.RwaParachain.Purchases
import NullaRelay.Xcm.Encoding

/-!
# ProofHub and the RWA chain

The two pallets with the queue of ProofHub's messages between them, delivered in
order. A report of a purchase arrives as the call that its sender means; a call
that fails on arrival leaves no trace, on either side.
-/

namespace NullaRelay.Xcm

open NullaRelay.Frame Scale Transition
open RwaParachain
open NullaRelay.ProofHub (Purchase effect_of_apply)

variable {A L : Type}

/-- The storage of both chains and the number of ProofHub's messages delivered. -/
structure RwaLink (L : Type) where
  hub : ProofHub.State L
  rwa : Marketplace.State
  delivered : ℕ

namespace RwaLink

inductive Input (A : Type)
  | hub (x : ProofHub.Extrinsic A)
  | rwa (origin : Origin Marketplace.AccountId) (call : Marketplace.Call)
  | deliver

inductive Refusal
  | hub (error : DispatchError ProofHub.Error)
  | rwa (error : DispatchError Marketplace.Error)
  /-- Nobody signs for the account that stands for ProofHub. -/
  | sovereign
  | nothingSent

/-- The report of a purchase, with the buyer that the message leaves out. -/
def reportCall (buyer : Purchase → U8Array 32) (p : Purchase) : Marketplace.Call :=
  .xcmRecordPurchase (assetIdOf p.rwaId) (buyer p) p.spendTag p.nullifier p.txId
    p.ownershipCommitment

/-- The marketplace's call in the bytes of a message. -/
def rwaCall (m : Transact) : Option Marketplace.Call :=
  match decodeAll (RuntimeCall.decoder .rwa) m.call with
  | some (.rwaMarketplace call) => some call
  | _ => none

/-- What a message of ProofHub is on the RWA chain: a purchase is read as the
report that its sender means, a transfer as the bytes that are sent, and access
keys go to AuthGate. -/
def received (buyer : Purchase → U8Array 32) : ProofHub.Message → Option Marketplace.Call
  | .rwaPurchase rwaId nullifier spendTag _ txId ownershipCommitment =>
      some (reportCall buyer { rwaId, spendTag, nullifier, txId, ownershipCommitment })
  | .rwaTransfer oldTxId newOwnershipCommitment newTxId =>
      rwaCall (ProofHub.RwaXcmDispatch.sendTransfer oldTxId newOwnershipCommitment newTxId)
  | .accessKey .. => none

variable (buyer : Purchase → U8Array 32) (T : ProofHub.Config A L) (cfg : Marketplace.Config)

/-- The RWA chain after a message arrived, under ProofHub's account. -/
def receive (rwa : Marketplace.State) (m : ProofHub.Message) : Marketplace.State :=
  (received buyer m).elim rwa (next (Marketplace.sovereignStep cfg) rwa)

def step (s : RwaLink L) : Input A → Except Refusal (RwaLink L)
  | .hub x => do
      let hub ← (ProofHub.apply T s.hub x).mapError .hub
      pure { s with hub }
  | .rwa origin call => do
      ensure (origin ≠ .signed cfg.proofHubSovereign) .sovereign
      let rwa ← (Marketplace.dispatch cfg s.rwa origin call).mapError .rwa
      pure { s with rwa }
  | .deliver => do
      let m ← okOr s.hub.sent[s.delivered]? .nothingSent
      pure { s with rwa := receive buyer cfg s.rwa m, delivered := s.delivered + 1 }

/-- What ProofHub sells in this step, if it succeeds. -/
def Input.purchase : Input A → Option Purchase
  | .hub x => x.2.purchase
  | _ => none

/-- The record of a purchase on the RWA chain. -/
def reported (p : Purchase) : Marketplace.ProofHubPurchaseRecord where
  rwaId := U8Array.padded 32 (LittleEndian.leBytes 4 (assetIdOf p.rwaId).toNat)
  buyer := buyer p
  spendTag := p.spendTag
  nullifier := p.nullifier
  ownershipCommitment := p.ownershipCommitment

/-- Both chains before anything happened, with the balances of ProofHub. -/
def genesis (ledger : L) : RwaLink L where
  hub := ProofHub.genesis ledger
  rwa :=
    { registry := Registry.genesis [] none
      listings := fun _ => none
      redemptionClaims := fun _ => none
      nullifierUsed := fun _ => false
      proofHubPurchases := fun _ => none
      ownershipRedeemed := fun _ => false
      events := [] }
  delivered := 0

/-- The deliveries that are left. -/
def drain (s : RwaLink L) : List (Input A) :=
  List.replicate (s.hub.sent.length - s.delivered) .deliver

variable {buyer T cfg} {s s' : RwaLink L}

/-- The marketplace has no call for a transfer. -/
theorem received_transfer (oldTxId : U8Array 16) (newOwnershipCommitment : U8Array 32)
    (newTxId : U8Array 16) :
    received buyer (.rwaTransfer oldTxId newOwnershipCommitment newTxId) = none := by
  simp only [received, rwaCall]
  rw [ProofHub.RwaXcmDispatch.sendTransfer, transfer_not_decoded]

theorem received_eq (m : ProofHub.Message) :
    received buyer m = m.purchase.map (reportCall buyer) := by
  cases m with
  | rwaPurchase => rfl
  | rwaTransfer oldTxId oc newTxId => exact received_transfer oldTxId oc newTxId
  | accessKey => rfl

theorem receive_proofHubPurchases (rwa : Marketplace.State) (m : ProofHub.Message) :
    (receive buyer cfg rwa m).proofHubPurchases =
      (m.purchase.map fun p => (p.txId, reported buyer p)).toList.foldl WriteOnce.writeOnce
        rwa.proofHubPurchases := by
  rw [receive, received_eq]
  cases m.purchase with
  | none => rfl
  | some p => exact Marketplace.proofHubPurchases_next rwa (reportCall buyer p)

theorem receive_ownershipRedeemed (rwa : Marketplace.State) (m : ProofHub.Message) :
    (receive buyer cfg rwa m).ownershipRedeemed = rwa.ownershipRedeemed := by
  rw [receive, received_eq]
  cases m.purchase with
  | none => rfl
  | some p => exact Marketplace.ownershipRedeemed_next rwa rfl

@[simp] theorem step_hub_eq_ok {x : ProofHub.Extrinsic A} :
    step buyer T cfg s (.hub x) = .ok s' ↔
      ∃ hub, ProofHub.apply T s.hub x = .ok hub ∧ s' = { s with hub } := by
  simp [step, @eq_comm _ s']

@[simp] theorem step_rwa_eq_ok {o : Origin Marketplace.AccountId} {call : Marketplace.Call} :
    step buyer T cfg s (.rwa o call) = .ok s' ↔ o ≠ .signed cfg.proofHubSovereign ∧
      ∃ rwa, Marketplace.dispatch cfg s.rwa o call = .ok rwa ∧ s' = { s with rwa } := by
  simp [step, @eq_comm _ s']

@[simp] theorem step_deliver_eq_ok :
    step buyer T cfg s (.deliver : Input A) = .ok s' ↔ ∃ m, s.hub.sent[s.delivered]? = some m ∧
      s' = { s with rwa := receive buyer cfg s.rwa m, delivered := s.delivered + 1 } := by
  simp [step, @eq_comm _ s']

variable (buyer T cfg) in
/-- ProofHub runs on its own as long as nothing else happens. -/
theorem run_hub (s : RwaLink L) (xs : List (ProofHub.Extrinsic A)) :
    run (step buyer T cfg) s (xs.map .hub) = { s with hub := run (ProofHub.apply T) s.hub xs } := by
  induction xs generalizing s with
  | nil => rfl
  | cons x xs ih =>
      rw [List.map_cons, run_cons, run_cons, ih]
      cases hx : ProofHub.apply T s.hub x with
      | ok hub =>
          rw [next_ok (step_hub_eq_ok.2 ⟨hub, hx, rfl⟩), next_ok hx]
      | error e =>
          have herror : step buyer T cfg s (.hub x) = .error (.hub e) := by
            rw [step, hx]
            rfl
          rw [next_error herror, next_error hx]

variable (buyer T cfg) in
/-- All messages can be delivered, and ProofHub does not see it. -/
theorem run_drain (n : ℕ) (s : RwaLink L) (h : s.delivered + n = s.hub.sent.length) :
    (run (step buyer T cfg) s (List.replicate n (.deliver : Input A))).hub = s.hub ∧
      (run (step buyer T cfg) s (List.replicate n (.deliver : Input A))).delivered =
        s.hub.sent.length := by
  induction n generalizing s with
  | zero => exact ⟨rfl, h⟩
  | succ n ih =>
      have hlt : s.delivered < s.hub.sent.length := by omega
      have hm := List.getElem?_eq_getElem hlt
      rw [List.replicate_succ, run_cons, next_ok (step_deliver_eq_ok.2 ⟨_, hm, rfl⟩)]
      exact ih _ (by dsimp only; omega)

end RwaLink

end NullaRelay.Xcm

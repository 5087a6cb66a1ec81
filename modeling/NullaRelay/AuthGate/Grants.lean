import NullaRelay.AuthGate.AccessKeys
import NullaRelay.Foundations.Transition
import NullaRelay.Foundations.WriteOnce

/-!
# Reported grants

The accounts of the proof chains report a grant for an app that is active, under
an id that has none. A grant is used once, which changes none of its other
fields; no other call touches the grants.
-/

namespace NullaRelay.AuthGate.AccessKeys

open NullaRelay.Frame

variable {cfg : Config} {s s' : State} {o : Origin AccountId}

/-- What a proof chain reports. -/
structure Report where
  appId : U8Array 32
  nullifier : U8Array 32
  txId : U8Array 16
  accessKeyCommitment : U8Array 32
  deriving DecidableEq

def Report.call (r : Report) : Call :=
  .xcmRecordAccessGrant r.appId r.nullifier r.txId r.accessKeyCommitment

/-- The report that the grant under an id comes from. -/
def State.granted (s : State) (txId : U8Array 16) : Option Report :=
  (s.accessGrants txId).map fun grant =>
    { appId := grant.appId
      nullifier := grant.nullifier
      txId
      accessKeyCommitment := grant.accessKeyCommitment }

/-- The app is registered and active. -/
def State.AppActive (s : State) (appId : U8Array 32) : Prop :=
  ∃ slot, s.appRegistry appId = some slot ∧ slot.active = true

theorem granted_eq_none {t : U8Array 16} : s.granted t = none ↔ s.accessGrants t = none :=
  Option.map_eq_none_iff

theorem xcmRecordAccessGrant_eq_ok {appId nullifier : U8Array 32} {txId : U8Array 16}
    {accessKeyCommitment : U8Array 32} :
    xcmRecordAccessGrant cfg s o appId nullifier txId accessKeyCommitment = .ok s' ↔
      (o = .signed cfg.proofHubSovereign ∨ o = .signed cfg.proofHubSovereign2) ∧
      s.AppActive appId ∧ s.accessGrants txId = none ∧
      s' = State.deposit { s with
          accessGrants := insertAt s.accessGrants txId
            (some { appId, nullifier, accessKeyCommitment, used := false }) }
        (.accessGrantReceived txId appId nullifier accessKeyCommitment) := by
  simp only [xcmRecordAccessGrant, ensureProofHub, bind_eq_ok, ensureSigned_eq_ok, ensure_eq_ok,
    okOr_eq_ok, pure_eq_ok, exists_const, @eq_comm _ s']
  constructor
  · rintro ⟨⟨_, rfl, hwho⟩, slot, hslot, hactive, hfree, hs⟩
    refine ⟨?_, ⟨slot, hslot, hactive⟩, hfree, hs⟩
    rcases hwho with rfl | rfl
    · exact .inl rfl
    · exact .inr rfl
  · rintro ⟨ho, ⟨slot, hslot, hactive⟩, hfree, hs⟩
    refine ⟨?_, slot, hslot, hactive, hfree, hs⟩
    rcases ho with rfl | rfl
    · exact ⟨_, rfl, .inl rfl⟩
    · exact ⟨_, rfl, .inr rfl⟩

/-- Whoever is not a proof chain changes no grant but for its use. -/
theorem granted_of_dispatch {call : Call} (h : dispatch cfg s o call = .ok s')
    (ho : o ≠ .signed cfg.proofHubSovereign ∧ o ≠ .signed cfg.proofHubSovereign2) :
    s'.granted = s.granted := by
  cases call with
  | listAccessSlot =>
      simp only [dispatch, listAccessSlot, bind_eq_ok, pure_eq_ok] at h
      obtain ⟨-, -, rfl⟩ := h
      rfl
  | updateAccessSlot =>
      simp only [dispatch, updateAccessSlot, bind_eq_ok, pure_eq_ok] at h
      obtain ⟨-, -, -, -, rfl⟩ := h
      rfl
  | xcmRecordAccessGrant =>
      rcases (xcmRecordAccessGrant_eq_ok.1 h).1 with heq | heq
      · exact absurd heq ho.1
      · exact absurd heq ho.2
  | useAccessKey txId blinding =>
      simp only [dispatch, useAccessKey, bind_eq_ok, okOr_eq_ok, ensure_eq_ok, pure_eq_ok,
        exists_const] at h
      obtain ⟨_, -, -, grant, hgrant, -, -, rfl⟩ := h
      funext t
      by_cases ht : t = txId
      · subst ht
        simp [State.granted, State.deposit, hgrant]
      · simp [State.granted, State.deposit, ht]

/-- A report registers no app. -/
theorem appRegistry_next (s : State) (r : Report) (who : AccountId) :
    (Transition.next (fun s call => dispatch cfg s (.signed who) call) s r.call).appRegistry =
      s.appRegistry := by
  cases hstep : dispatch cfg s (.signed who) r.call with
  | ok s' =>
      rw [Transition.next_ok hstep]
      obtain ⟨-, -, -, rfl⟩ := xcmRecordAccessGrant_eq_ok.1 hstep
      rfl
  | error e => rw [Transition.next_error hstep]

/-- A report of a proof chain for an active app is recorded once, a second one under
its id is refused. -/
theorem granted_next (s : State) (r : Report) {who : AccountId}
    (hwho : who = cfg.proofHubSovereign ∨ who = cfg.proofHubSovereign2)
    (hactive : s.AppActive r.appId) :
    (Transition.next (fun s call => dispatch cfg s (.signed who) call) s r.call).granted =
      WriteOnce.writeOnce s.granted (r.txId, r) := by
  have hsigned : (Origin.signed who = .signed cfg.proofHubSovereign ∨
      Origin.signed who = .signed cfg.proofHubSovereign2) := by
    simpa using hwho
  cases hstep : dispatch cfg s (.signed who) r.call with
  | ok s' =>
      rw [Transition.next_ok hstep]
      obtain ⟨-, -, hfree, rfl⟩ := xcmRecordAccessGrant_eq_ok.1 hstep
      rw [WriteOnce.writeOnce, if_pos (granted_eq_none.2 hfree)]
      funext t
      by_cases ht : t = r.txId
      · subst ht
        simp [State.granted, State.deposit]
      · simp [State.granted, State.deposit, ht]
  | error e =>
      rw [Transition.next_error hstep]
      by_cases hfree : s.accessGrants r.txId = none
      · have hok : dispatch cfg s (.signed who) r.call = .ok _ :=
          xcmRecordAccessGrant_eq_ok.2 ⟨hsigned, hactive, hfree, rfl⟩
        exact absurd (hstep.symm.trans hok) (by simp)
      · rw [WriteOnce.writeOnce, if_neg (mt granted_eq_none.1 hfree)]

end NullaRelay.AuthGate.AccessKeys

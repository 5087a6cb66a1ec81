import NullaRelay.Xcm.AccessLink

/-!
# Every purchase has its grant

AuthGate refuses a second grant under a transaction id, and the id is the buyer's
choice on two chains. Whatever the order of the deliveries, its table is the
write-once table of the reports in that order.
-/

namespace NullaRelay.Xcm.AccessLink

open NullaRelay.Frame Transition
open AuthGate AuthGate.AccessKeys

variable {A B L M : Type} {blake3 : List UInt8 → U8Array 32}
  {T : NullaRelay.ProofHub.Config A L} {U : NullaRelay.ScanProof.Config B M}
  {s s' : AccessLink L M} {bought : List Report}

/-- What a buyer is promised: the grant under the purchase's id is the purchase's. -/
def AllGranted (bought : List Report) (s : AccessLink L M) : Prop :=
  ∀ r ∈ bought, ∃ grant, s.gate.accessGrants r.txId = some grant ∧ grant.appId = r.appId ∧
    grant.nullifier = r.nullifier ∧ grant.accessKeyCommitment = r.accessKeyCommitment

/-- Purchases under one id are for the same app, with the same nullifier and
commitment. -/
def AgreeOnIds (bought : List Report) : Prop :=
  ∀ r ∈ bought, ∀ r' ∈ bought, r.txId = r'.txId → r.appId = r'.appId ∧
    r.nullifier = r'.nullifier ∧ r.accessKeyCommitment = r'.accessKeyCommitment

/-- No grants are recorded and no reports are on their way. -/
structure Initial (s : AccessLink L M) : Prop where
  accessGrants : s.gate.accessGrants = fun _ => none
  inFlight : s.inFlight = []

/-- A report that the step delivers is for an app that is registered and active on
AuthGate. -/
def DeliversToActive {R : ℕ} (e : AccessLink L M × Input A B R) : Prop :=
  ∀ k m r, e.2 = .deliver k → e.1.inFlight[k]? = some m → reportOf m = some r →
    e.1.gate.AppActive r.appId

/-- The entry of a report in the table of grants. -/
def entry (r : Report) : U8Array 16 × Report := (r.txId, r)

/-- `log` are the reports delivered so far: the table is filled by them, and together
with those on their way they are the purchases. -/
structure Logged (log : List Report) (s : AccessLink L M) (bought : List Report) : Prop where
  granted : s.gate.granted = (log.map entry).foldl WriteOnce.writeOnce fun _ => none
  complete : (log ++ s.inFlight.filterMap reportOf).Perm bought

theorem Initial.logged (h : Initial s) : Logged [] s [] where
  granted := by
    funext t
    exact granted_eq_none.2 (congrFun h.accessGrants t)
  complete := by rw [h.inFlight]; exact .refl _

/-- A message that reports no grant does nothing on AuthGate. -/
theorem receive_other (gate : AccessKeys.State) {m : Message} (hm : reportOf m = none) :
    receive blake3 gate m = gate := by
  cases m with
  | proofHubPurchase | scanProofPurchase =>
      simp only [receive, Message.transact, ProofHub.RwaXcmDispatch.send,
        ScanProof.RwaXcmDispatch.send, purchase_not_decoded]
  | proofHubTransfer =>
      simp only [receive, Message.transact, ProofHub.RwaXcmDispatch.sendTransfer,
        transfer_not_decoded]
  | _ => cases hm

theorem Logged.send {log : List Report} (h : Logged log s bought)
    {hub : NullaRelay.ProofHub.State L} {scan : NullaRelay.ScanProof.State M} {ms : List Message}
    {new : List Report} (hms : ms.filterMap reportOf = new) :
    Logged log { hub, scan, gate := s.gate, inFlight := s.inFlight ++ toGate ms }
      (bought ++ new) where
  granted := h.granted
  complete := by
    change (log ++ (s.inFlight ++ toGate ms).filterMap reportOf).Perm _
    rw [List.filterMap_append, reports_toGate, hms, ← List.append_assoc]
    exact h.complete.append_right new

variable (blake3) in
theorem Logged.deliver {log : List Report} (h : Logged log s bought) {k : ℕ} {m : Message}
    (hm : s.inFlight[k]? = some m)
    (hactive : ∀ r, reportOf m = some r → s.gate.AppActive r.appId) :
    Logged (log ++ (reportOf m).toList)
      { s with gate := receive blake3 s.gate m, inFlight := s.inFlight.eraseIdx k } bought where
  granted := by
    rw [List.map_append, List.foldl_append, ← h.granted]
    cases hr : reportOf m with
    | none => rw [receive_other s.gate hr]; rfl
    | some r =>
        obtain ⟨hreceive, hwho⟩ := @receive_report blake3 s.gate m r hr
        change (receive blake3 s.gate m).granted = _
        rw [hreceive]
        exact granted_next s.gate r hwho (hactive r hr)
  complete := by
    obtain ⟨hlt, hget⟩ := List.getElem?_eq_some_iff.1 hm
    have hperm : (m :: s.inFlight.eraseIdx k).Perm s.inFlight := by
      rw [← hget]
      exact List.getElem_cons_eraseIdx_perm hlt
    have hsplit : (reportOf m).toList ++ (s.inFlight.eraseIdx k).filterMap reportOf =
        (m :: s.inFlight.eraseIdx k).filterMap reportOf := by
      cases hr : reportOf m <;> simp [hr]
    rw [List.append_assoc, hsplit]
    exact ((hperm.filterMap reportOf).append_left log).trans h.complete

/-- One step logs what it delivers and adds what it sells. -/
theorem Logged.step {log : List Report} (h : Logged log s bought)
    {i : Input A B U.maxRangeProofSize} (hactive : DeliversToActive (s, i))
    (hstep : step blake3 T U s i = .ok s') :
    ∃ log', Logged log' s' (bought ++ i.access.toList) := by
  cases i with
  | hub x =>
      obtain ⟨hub, hx, rfl⟩ := step_hub_eq_ok.1 hstep
      refine ⟨log, h.send ?_⟩
      rw [(NullaRelay.ProofHub.effect_of_apply hx).sent, List.drop_left]
      exact hubMessage_report x.2 s.hub
  | scan x =>
      obtain ⟨scan, hx, rfl⟩ := step_scan_eq_ok.1 hstep
      refine ⟨log, h.send ?_⟩
      rw [NullaRelay.ScanProof.apply_sent hx, List.drop_left]
      exact scanMessage_report x.call s.scan
  | gate o call =>
      obtain ⟨ho, gate, hcall, rfl⟩ := step_gate_eq_ok.1 hstep
      have hgranted := granted_of_dispatch hcall ho
      refine ⟨log, hgranted.trans h.granted, ?_⟩
      simpa [Input.access] using h.complete
  | deliver k =>
      obtain ⟨m, hm, rfl⟩ := step_deliver_eq_ok.1 hstep
      refine ⟨log ++ (reportOf m).toList, ?_⟩
      simpa [Input.access] using h.deliver blake3 hm fun r hr => hactive k m r rfl hm hr

theorem accesses_append_singleton {R : ℕ} (h : List (AccessLink L M × Input A B R))
    (s : AccessLink L M) (i : Input A B R) :
    accesses (h ++ [(s, i)]) = accesses h ++ i.access.toList := by
  rw [accesses, List.filterMap_append]
  cases hi : i.access <;> simp [accesses, hi]

theorem logged_run (blake3 : List UInt8 → U8Array 32) (T : NullaRelay.ProofHub.Config A L)
    (U : NullaRelay.ScanProof.Config B M) (hinit : Initial s)
    (is : List (Input A B U.maxRangeProofSize))
    (hactive : ∀ e ∈ history (step blake3 T U) s is, DeliversToActive e) :
    ∃ log, Logged log (run (step blake3 T U) s is)
      (accesses (history (step blake3 T U) s is)) := by
  have hstep (s : AccessLink L M) (i : Input A B U.maxRangeProofSize) (s' : AccessLink L M)
      (past : List (AccessLink L M × Input A B U.maxRangeProofSize))
      (hpast : ∃ log, Logged log s (accesses past)) (hi : DeliversToActive (s, i))
      (hs : step blake3 T U s i = .ok s') :
      ∃ log, Logged log s' (accesses (past ++ [(s, i)])) := by
    obtain ⟨log, hlog⟩ := hpast
    rw [accesses_append_singleton]
    exact hlog.step hi hs
  exact history_invariant hstep s is [] ⟨[], hinit.logged⟩ hactive

theorem agreeOnIds_iff : AgreeOnIds bought ↔ WriteOnce.Consistent (bought.map entry) := by
  simp only [WriteOnce.Consistent, List.forall_mem_map, entry]
  refine forall₄_congr fun r _ r' _ => forall_congr' fun hid => ?_
  constructor
  · rintro ⟨happ, hnf, hcommitment⟩
    cases r
    cases r'
    simp_all
  · rintro rfl
    exact ⟨rfl, rfl, rfl⟩

theorem granted_eq_some {r : Report} : s.gate.granted r.txId = some r ↔
    ∃ grant, s.gate.accessGrants r.txId = some grant ∧ grant.appId = r.appId ∧
      grant.nullifier = r.nullifier ∧ grant.accessKeyCommitment = r.accessKeyCommitment := by
  rw [State.granted, Option.map_eq_some_iff]
  refine exists_congr fun grant => and_congr_right fun _ => ?_
  cases r
  simp

/-- With no report on its way the grants are those of the purchases exactly when
these agree. -/
theorem Logged.allGranted_iff {log : List Report} (h : Logged log s bought)
    (hempty : s.inFlight = []) : AllGranted bought s ↔ AgreeOnIds bought := by
  have hperm : log.Perm bought := by
    simpa [hempty] using h.complete
  have hmem (e : U8Array 16 × Report) : e ∈ log.map entry ↔ e ∈ bought.map entry :=
    (hperm.map entry).mem_iff
  calc AllGranted bought s
      ↔ ∀ r ∈ bought, s.gate.granted r.txId = some r :=
        forall₂_congr fun r _ => granted_eq_some.symm
    _ ↔ ∀ e ∈ log.map entry,
          (log.map entry).foldl WriteOnce.writeOnce (fun _ => none) e.1 = some e.2 := by
        rw [← h.granted]
        simp only [List.forall_mem_map, entry]
        exact forall_congr' fun r => imp_congr_left hperm.mem_iff.symm
    _ ↔ WriteOnce.Consistent (log.map entry) := WriteOnce.writeOnce_keeps_iff _
    _ ↔ WriteOnce.Consistent (bought.map entry) :=
        ⟨fun hc => hc.of_mem_iff hmem, fun hc => hc.of_mem_iff fun e => (hmem e).symm⟩
    _ ↔ AgreeOnIds bought := agreeOnIds_iff.symm

/-- In every run that delivered its reports, for apps that are active, each purchase
of access has its grant exactly when the purchases under one id agree. -/
theorem allGranted_iff_agreeOnIds (blake3 : List UInt8 → U8Array 32)
    (T : NullaRelay.ProofHub.Config A L) (U : NullaRelay.ScanProof.Config B M)
    (s : AccessLink L M) (is : List (Input A B U.maxRangeProofSize)) (hinit : Initial s)
    (hactive : ∀ e ∈ history (step blake3 T U) s is, DeliversToActive e)
    (hempty : (run (step blake3 T U) s is).inFlight = []) :
    AllGranted (accesses (history (step blake3 T U) s is)) (run (step blake3 T U) s is) ↔
      AgreeOnIds (accesses (history (step blake3 T U) s is)) := by
  obtain ⟨log, hlog⟩ := logged_run blake3 T U hinit is hactive
  exact hlog.allGranted_iff hempty

def appZero : AppSlot where
  name := BoundedVec.empty
  price := 1
  paymentAccount := U8Array.ofNat 32 3
  active := true

/-- AuthGate with the app zero. -/
def oneApp : AccessKeys.State :=
  { AccessKeys.genesis with
    appRegistry := insertAt AccessKeys.genesis.appRegistry (U8Array.zero 32) (some appZero) }

theorem oneApp_active : oneApp.AppActive (U8Array.zero 32) :=
  ⟨appZero, by simp [oneApp], rfl⟩

/-- ProofHub and AuthGate with the reports between them; nothing happens on ScanProof. -/
def marketLink (hub : NullaRelay.ProofHub.State (U8Array 32 → ℕ)) (gate : AccessKeys.State)
    (inFlight : List Message) : AccessLink (U8Array 32 → ℕ) (U8Array 32 → ℕ) where
  hub
  scan := NullaRelay.ScanProof.genesis fun _ => 0
  gate
  inFlight

/-- All chains over primitives that accept, and over points as vectors. -/
noncomputable abbrev acceptingStep (blake3 : List UInt8 → U8Array 32) :=
  step blake3 (NullaRelay.ProofHub.acceptingConfig blake3) NullaRelay.ScanProof.vectorConfig

/-- The purchase of access that is made twice. -/
def rebought (n : ℕ) : Report where
  appId := U8Array.zero 32
  nullifier := U8Array.ofNat 32 n
  txId := U8Array.zero 16
  accessKeyCommitment := U8Array.ofNat 32 n

def reboughtMessage (n : ℕ) : Message :=
  .proofHubAccess (U8Array.zero 32) (U8Array.ofNat 32 n) (U8Array.zero 16) (U8Array.ofNat 32 n)

theorem access_rebuyAccessCall {hub : NullaRelay.ProofHub.State (U8Array 32 → ℕ)} (n : ℕ) :
    hubAccess (NullaRelay.ProofHub.rebuyAccessCall hub n).2 = some (rebought n) := by
  rw [NullaRelay.ProofHub.rebuyAccessCall, hubAccess,
    NullaRelay.ProofHub.SpendPublicV2.decode_encode]
  rfl

theorem step_rebuyAccess {s : AccessLink (U8Array 32 → ℕ) (U8Array 32 → ℕ)}
    {hub : NullaRelay.ProofHub.State (U8Array 32 → ℕ)} {n : ℕ}
    (h : NullaRelay.ProofHub.apply (NullaRelay.ProofHub.acceptingConfig blake3) s.hub
      (NullaRelay.ProofHub.rebuyAccessCall s.hub n) = .ok hub) :
    acceptingStep blake3 s (.hub (NullaRelay.ProofHub.rebuyAccessCall s.hub n)) =
      .ok { s with hub, inFlight := s.inFlight ++ [reboughtMessage n] } := by
  have hsent := (NullaRelay.ProofHub.effect_of_apply h).sent
  rw [NullaRelay.ProofHub.rebuyAccessCall, NullaRelay.ProofHub.Call.footprint,
    NullaRelay.ProofHub.SpendPublicV2.decode_encode] at hsent
  refine step_hub_eq_ok.2 ⟨hub, h, ?_⟩
  rw [hsent, List.drop_left]
  rfl

theorem receive_rebought_active {gate : AccessKeys.State}
    (h : gate.AppActive (U8Array.zero 32)) (n : ℕ) :
    (receive blake3 gate (reboughtMessage n)).AppActive (U8Array.zero 32) := by
  obtain ⟨hreceive, -⟩ := @receive_report blake3 gate (reboughtMessage n) (rebought n) rfl
  rw [hreceive, State.AppActive, appRegistry_next]
  exact h

/-- Access is bought twice under the transaction id zero, and both reports arrive. -/
def reaccess (s₀ s₁ : NullaRelay.ProofHub.State (U8Array 32 → ℕ)) :
    List (Input (U8Array 32) (U8Array 32)
      NullaRelay.ScanProof.vectorConfig.maxRangeProofSize) :=
  [.hub (NullaRelay.ProofHub.rebuyAccessCall s₀ 1),
    .hub (NullaRelay.ProofHub.rebuyAccessCall s₁ 2), .deliver 0, .deliver 0]

theorem reaccess_run (blake3 : List UInt8 → U8Array 32) :
    ∃ s is, Initial s ∧
      (∀ e ∈ history (acceptingStep blake3) s is, DeliversToActive e) ∧
      (run (acceptingStep blake3) s is).inFlight = [] ∧
      accesses (history (acceptingStep blake3) s is) = [rebought 1, rebought 2] := by
  obtain ⟨s₀, s₁, s₂, -, -, h₁, h₂, -, -⟩ := NullaRelay.ProofHub.rebuyAccess_succeeds blake3
  obtain ⟨gate₁, hgate₁⟩ : ∃ gate, receive blake3 oneApp (reboughtMessage 1) = gate := ⟨_, rfl⟩
  obtain ⟨gate₂, hgate₂⟩ : ∃ gate, receive blake3 gate₁ (reboughtMessage 2) = gate := ⟨_, rfl⟩
  have hactive : gate₁.AppActive (U8Array.zero 32) := by
    rw [← hgate₁]
    exact receive_rebought_active oneApp_active 1
  have hbuy₁ : acceptingStep blake3 (marketLink s₀ oneApp [])
      (.hub (NullaRelay.ProofHub.rebuyAccessCall s₀ 1)) =
        .ok (marketLink s₁ oneApp [reboughtMessage 1]) := step_rebuyAccess h₁
  have hbuy₂ : acceptingStep blake3 (marketLink s₁ oneApp [reboughtMessage 1])
      (.hub (NullaRelay.ProofHub.rebuyAccessCall s₁ 2)) =
        .ok (marketLink s₂ oneApp [reboughtMessage 1, reboughtMessage 2]) := step_rebuyAccess h₂
  have hdeliver₁ : acceptingStep blake3
      (marketLink s₂ oneApp [reboughtMessage 1, reboughtMessage 2]) (.deliver 0) =
        .ok (marketLink s₂ gate₁ [reboughtMessage 2]) :=
    step_deliver_eq_ok.2 ⟨reboughtMessage 1, rfl, by rw [← hgate₁]; rfl⟩
  have hdeliver₂ : acceptingStep blake3 (marketLink s₂ gate₁ [reboughtMessage 2]) (.deliver 0) =
      .ok (marketLink s₂ gate₂ []) :=
    step_deliver_eq_ok.2 ⟨reboughtMessage 2, rfl, by rw [← hgate₂]; rfl⟩
  refine ⟨marketLink s₀ oneApp [], reaccess s₀ s₁, ⟨rfl, rfl⟩, ?_, ?_, ?_⟩
  · rw [reaccess, history_cons_ok hbuy₁, history_cons_ok hbuy₂, history_cons_ok hdeliver₁,
      history_cons_ok hdeliver₂, history_nil]
    intro e he k m r hk hm hr
    simp only [List.mem_cons, List.not_mem_nil, or_false] at he
    rcases he with rfl | rfl | rfl | rfl
    · cases hk
    · cases hk
    · cases hk
      cases hm
      cases hr
      exact oneApp_active
    · cases hk
      cases hm
      cases hr
      exact hactive
  · rw [reaccess, run_cons, next_ok hbuy₁, run_cons, next_ok hbuy₂, run_cons, next_ok hdeliver₁,
      run_cons, next_ok hdeliver₂, run_nil]
    rfl
  · rw [reaccess, history_cons_ok hbuy₁, history_cons_ok hbuy₂, history_cons_ok hdeliver₁,
      history_cons_ok hdeliver₂, history_nil]
    simp [accesses, Input.access, access_rebuyAccessCall]

/-- Access bought twice under one transaction id, and paid twice: one grant. -/
theorem reaccess_not_granted :
    ¬ ∀ s is, Initial s →
      (∀ e ∈ history (acceptingStep fun _ => U8Array.zero 32) s is, DeliversToActive e) →
      (run (acceptingStep fun _ => U8Array.zero 32) s is).inFlight = [] →
      AllGranted (accesses (history (acceptingStep fun _ => U8Array.zero 32) s is))
        (run (acceptingStep fun _ => U8Array.zero 32) s is) := by
  intro hclaim
  obtain ⟨s, is, hinit, hactive, hempty, hbought⟩ := reaccess_run fun _ => U8Array.zero 32
  have hgranted := hclaim s is hinit hactive hempty
  rw [hbought] at hgranted
  obtain ⟨grant, hgrant, -, hnf, -⟩ := hgranted (rebought 1) (by simp)
  obtain ⟨grant', hgrant', -, hnf', -⟩ := hgranted (rebought 2) (by simp)
  obtain rfl : grant = grant' := Option.some.inj (hgrant.symm.trans hgrant')
  have hsame : U8Array.ofNat 32 1 = U8Array.ofNat 32 2 := hnf.symm.trans hnf'
  exact absurd hsame (by decide)

theorem reaccess_granted_iff : ∃ s is,
    accesses (history (acceptingStep fun _ => U8Array.zero 32) s is) = [rebought 1, rebought 2] ∧
      (AllGranted (accesses (history (acceptingStep fun _ => U8Array.zero 32) s is))
        (run (acceptingStep fun _ => U8Array.zero 32) s is) ↔
          AgreeOnIds (accesses (history (acceptingStep fun _ => U8Array.zero 32) s is))) := by
  obtain ⟨s, is, hinit, hactive, hempty, hbought⟩ := reaccess_run fun _ => U8Array.zero 32
  exact ⟨s, is, hbought, allGranted_iff_agreeOnIds _ _ _ s is hinit hactive hempty⟩

end NullaRelay.Xcm.AccessLink

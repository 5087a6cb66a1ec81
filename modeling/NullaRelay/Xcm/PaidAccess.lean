import NullaRelay.AccessSales
import NullaRelay.AuthGate.SingleUse
import NullaRelay.Xcm.Grants

/-!
# No unpaid access

A key that is used on AuthGate was sold on one of the proof chains before: a nullifier
or a serial was marked there for the first time, and the pool paid the app's price to
its account. The sale chose the id and the commitment that the key's blinding opens,
and the id is not used again. Nobody but the proof chains can report a sale.
-/

namespace NullaRelay.Xcm.AccessLink

open NullaRelay.Frame Transition
open AuthGate AuthGate.AccessKeys

variable {A B L M : Type} {blake3 : List UInt8 → U8Array 32}
  {T : NullaRelay.ProofHub.Config A L} {U : NullaRelay.ScanProof.Config B M}
  {s s' : AccessLink L M} {r : Report}

variable (T U) in
/-- One of the proof chains sells what a report says. -/
def Sells (s s' : AccessLink L M) (r : Report) : Prop :=
  NullaRelay.ProofHub.AccessSale T s.hub s'.hub r.appId r.nullifier ∨
    NullaRelay.ScanProof.AccessSale U s.scan s'.scan r.appId r.nullifier

/-- What a step buys is sold by the step. -/
theorem sells_of_access {i : Input A B U.maxRangeProofSize} (hi : i.access = some r)
    (h : step blake3 T U s i = .ok s') : Sells T U s s' r := by
  cases i with
  | hub x =>
      obtain ⟨hub, hx, rfl⟩ := step_hub_eq_ok.1 h
      obtain ⟨o, call⟩ := x
      cases call with
      | purchaseAccess p pi =>
          obtain ⟨i, hdec, rfl⟩ := Option.map_eq_some_iff.1 hi
          exact .inl (NullaRelay.ProofHub.accessSale_of_purchaseAccess hdec hx)
      | purchaseAccessV2 auth pi p =>
          obtain ⟨i, hdec, rfl⟩ := Option.map_eq_some_iff.1 hi
          exact .inl (NullaRelay.ProofHub.accessSale_of_purchaseAccessV2 hdec hx)
      | _ => cases hi
  | scan x =>
      obtain ⟨scan, hx, rfl⟩ := step_scan_eq_ok.1 h
      have hcall := (NullaRelay.ScanProof.apply_eq_ok.1 hx).2
      rw [Input.access] at hi
      generalize x.call = call at hi hcall
      cases call with
      | purchaseAccess c p n id tx ac change =>
          cases hi
          exact .inr (NullaRelay.ScanProof.accessSale_of_purchaseAccess hcall)
      | purchaseAccessCoin pi p g =>
          obtain ⟨i, hdec, rfl⟩ := Option.map_eq_some_iff.1 hi
          exact .inr (NullaRelay.ScanProof.accessSale_of_purchaseAccessCoin hdec hcall)
      | _ => cases hi
  | gate o call => cases hi
  | deliver k => cases hi

variable (blake3 T U) in
/-- A report was sold by a step of the past. -/
def SoldIn (past : List (AccessLink L M × Input A B U.maxRangeProofSize)) (r : Report) : Prop :=
  ∃ p ∈ past, ∃ s', p.2.access = some r ∧ step blake3 T U p.1 p.2 = .ok s' ∧ Sells T U p.1 s' r

/-- The id of the key that a step uses. -/
def Input.usedTx {R : ℕ} : Input A B R → Option (U8Array 16)
  | .gate _ call => call.usedTx
  | _ => none

variable (blake3 T U) in
/-- The use of a key: nobody used it before, and its grant, which the blinding opens, is
of a sale. -/
def UsesSold (past : List (AccessLink L M × Input A B U.maxRangeProofSize))
    (e : AccessLink L M × Input A B U.maxRangeProofSize) : Prop :=
  ∀ o t blinding, e.2 = .gate o (.useAccessKey t blinding) →
    (∀ e' ∈ past, e'.2.usedTx ≠ some t) ∧
    ∃ r : Report, r.txId = t ∧ e.1.gate.granted t = some r ∧
      computeAccessKeyCommitment (authGateConfig blake3) r.appId blinding =
        r.accessKeyCommitment ∧
      SoldIn blake3 T U past r

variable (blake3 T U) in
/-- Every report on its way and every grant is of a sale, and the keys used so far are
marked. -/
structure AllSold (s : AccessLink L M)
    (past : List (AccessLink L M × Input A B U.maxRangeProofSize)) : Prop where
  inFlight : ∀ r ∈ s.inFlight.filterMap reportOf, SoldIn blake3 T U past r
  granted : ∀ t r, s.gate.granted t = some r → SoldIn blake3 T U past r
  marked : ∀ e ∈ past, ∀ t, e.2.usedTx = some t → s.gate.keyUsed t = true
  uses : ∀ earlier e later, past = earlier ++ e :: later → UsesSold blake3 T U earlier e

variable {past : List (AccessLink L M × Input A B U.maxRangeProofSize)}

theorem SoldIn.append (h : SoldIn blake3 T U past r)
    (e : AccessLink L M × Input A B U.maxRangeProofSize) : SoldIn blake3 T U (past ++ [e]) r := by
  obtain ⟨p, hp, hsale⟩ := h
  exact ⟨p, List.mem_append_left _ hp, hsale⟩

theorem soldIn_last {i : Input A B U.maxRangeProofSize} (hi : i.access = some r)
    (h : step blake3 T U s i = .ok s') : SoldIn blake3 T U (past ++ [(s, i)]) r :=
  ⟨(s, i), List.mem_append_right _ List.mem_cons_self, s', hi, h, sells_of_access hi h⟩

theorem Initial.allSold (h : Initial s) : AllSold blake3 T U s [] where
  inFlight r hr := by
    rw [h.inFlight] at hr
    cases hr
  granted t r hr := by
    rw [granted_eq_none.2 (congrFun h.accessGrants t)] at hr
    cases hr
  marked e he := by cases he
  uses earlier e later h := by simp at h

/-- What a step on a proof chain adds to the reports is what it sells. -/
theorem AllSold.sell (h : AllSold blake3 T U s past) {i : Input A B U.maxRangeProofSize}
    (hstep : step blake3 T U s i = .ok s') (hgate : s'.gate = s.gate) (hi : i.usedTx = none)
    {ms : List Message} (hflight : s'.inFlight = s.inFlight ++ toGate ms)
    (hms : ms.filterMap reportOf = i.access.toList) : AllSold blake3 T U s' (past ++ [(s, i)]) where
  inFlight r hr := by
    rw [hflight, List.filterMap_append, reports_toGate, hms] at hr
    rcases List.mem_append.1 hr with hold | hnew
    · exact (h.inFlight r hold).append _
    · exact soldIn_last (Option.mem_toList.1 hnew) hstep
  granted t r hr := (h.granted t r (hgate ▸ hr)).append _
  marked e he t ht := by
    rw [hgate]
    rcases List.mem_append.1 he with hold | hnew
    · exact h.marked e hold t ht
    · obtain rfl := List.mem_singleton.1 hnew
      rw [hi] at ht
      cases ht
  uses := past_append_singleton h.uses fun o t blinding hcall => by
    obtain rfl : i = _ := hcall
    cases hi

/-- A delivered report leaves the marks as they are, and a grant that it adds is it. -/
theorem receive_effect (gate : AccessKeys.State) (m : Message) :
    (receive blake3 gate m).keyUsed = gate.keyUsed ∧
      ∀ t r, (receive blake3 gate m).granted t = some r →
        gate.granted t = some r ∨ reportOf m = some r := by
  cases hm : reportOf m with
  | none =>
      rw [receive_other gate hm]
      exact ⟨rfl, fun t r hr => .inl hr⟩
  | some r =>
      obtain ⟨hreceive, -⟩ := @receive_report blake3 gate m r hm
      rw [hreceive]
      cases hstep : AccessKeys.dispatch (authGateConfig blake3) gate
          (.signed (siblingAccount m.sender)) r.call with
      | error e =>
          rw [next_error hstep]
          exact ⟨rfl, fun t r hr => .inl hr⟩
      | ok gate' =>
          rw [next_ok hstep]
          have heff := effect_of_dispatch hstep
          refine ⟨?_, fun t r' hr' => ?_⟩
          · obtain ⟨-, -, -, rfl⟩ := xcmRecordAccessGrant_eq_ok.1 hstep
            rfl
          · rcases heff.granted_eq hr' with hold | ⟨-, hcall⟩
            · exact .inl hold
            · cases r
              cases r'
              cases hcall
              exact .inr rfl

theorem AllSold.deliver (h : AllSold blake3 T U s past) {k : ℕ}
    (hstep : step blake3 T U s (.deliver k) = .ok s') :
    AllSold blake3 T U s' (past ++ [(s, .deliver k)]) := by
  obtain ⟨m, hm, rfl⟩ := step_deliver_eq_ok.1 hstep
  obtain ⟨hmarks, hgrants⟩ := @receive_effect blake3 s.gate m
  refine ⟨fun r hr => ?_, fun t r hr => ?_, fun e he t ht => ?_,
    past_append_singleton h.uses fun o t blinding hcall => by cases hcall⟩
  · have hsub := (List.eraseIdx_sublist s.inFlight k).filterMap reportOf
    exact (h.inFlight r (hsub.subset hr)).append _
  · rcases hgrants t r hr with hold | hnew
    · exact (h.granted t r hold).append _
    · exact (h.inFlight r (List.mem_filterMap.2 ⟨m, List.mem_of_getElem? hm, hnew⟩)).append _
  · change (receive blake3 s.gate m).keyUsed t = true
    rw [hmarks]
    rcases List.mem_append.1 he with hold | hlast
    · exact h.marked e hold t ht
    · obtain rfl := List.mem_singleton.1 hlast
      cases ht

/-- A call on AuthGate adds no grant, and uses a key that was not used. -/
theorem AllSold.call (h : AllSold blake3 T U s past) {o : Origin AccessKeys.AccountId}
    {call : AccessKeys.Call} (hstep : step blake3 T U s (.gate o call) = .ok s') :
    AllSold blake3 T U s' (past ++ [(s, .gate o call)]) := by
  obtain ⟨ho, gate, hcall, rfl⟩ := step_gate_eq_ok.1 hstep
  have heff := effect_of_dispatch hcall
  have hgrants := granted_of_dispatch hcall ho
  refine ⟨fun r hr => (h.inFlight r hr).append _, fun t r hr => ?_, fun e he t ht => ?_,
    past_append_singleton h.uses fun o' t blinding hin => ?_⟩
  · change gate.granted t = some r at hr
    rw [hgrants] at hr
    exact (h.granted t r hr).append _
  · rcases List.mem_append.1 he with hold | hlast
    · exact heff.keyUsed (h.marked e hold t ht)
    · obtain rfl := List.mem_singleton.1 hlast
      obtain ⟨r, rfl, -, hused⟩ := heff.of_usedTx ht
      change gate.keyUsed r.txId = true
      rw [hused, insertAt, Function.update_self]
  · obtain ⟨rfl, rfl⟩ := Input.gate.inj hin
    cases heff with
    | administered hnone => cases hnone
    | used r _ hfresh hgrant hopens =>
        have hgranted : s.gate.granted r.txId = some r := by
          rw [State.granted, hgrant]
          rfl
        refine ⟨fun e he hused => ?_, r, rfl, hgranted, hopens, h.granted _ _ hgranted⟩
        have hmark := h.marked e he _ hused
        rw [hfresh] at hmark
        cases hmark

theorem AllSold.step (h : AllSold blake3 T U s past) {i : Input A B U.maxRangeProofSize}
    (hstep : AccessLink.step blake3 T U s i = .ok s') :
    AllSold blake3 T U s' (past ++ [(s, i)]) := by
  cases i with
  | hub x =>
      obtain ⟨hub, hx, rfl⟩ := step_hub_eq_ok.1 hstep
      refine h.sell hstep rfl rfl rfl ?_
      rw [(NullaRelay.ProofHub.effect_of_apply hx).sent, List.drop_left]
      exact hubMessage_report x.2 s.hub
  | scan x =>
      obtain ⟨scan, hx, rfl⟩ := step_scan_eq_ok.1 hstep
      refine h.sell hstep rfl rfl rfl ?_
      rw [NullaRelay.ScanProof.apply_sent hx, List.drop_left]
      exact scanMessage_report x.call s.scan
  | gate o call => exact h.call hstep
  | deliver k => exact h.deliver hstep

/-- In every run, in whatever order the reports arrive: a key is used once at most, after
one of the proof chains sold the access for its price. -/
theorem no_unpaid_access (blake3 : List UInt8 → U8Array 32) (T : NullaRelay.ProofHub.Config A L)
    (U : NullaRelay.ScanProof.Config B M) (s : AccessLink L M) (hinit : Initial s)
    (is : List (Input A B U.maxRangeProofSize)) (earlier later)
    (e : AccessLink L M × Input A B U.maxRangeProofSize)
    (hsplit : history (step blake3 T U) s is = earlier ++ e :: later) :
    UsesSold blake3 T U earlier e := by
  have hstep (s : AccessLink L M) (i : Input A B U.maxRangeProofSize) (s' : AccessLink L M)
      (past : List (AccessLink L M × Input A B U.maxRangeProofSize))
      (hpast : AllSold blake3 T U s past) (_ : True)
      (hs : AccessLink.step blake3 T U s i = .ok s') :
      AllSold blake3 T U s' (past ++ [(s, i)]) := hpast.step hs
  have hrun := history_invariant hstep s is [] hinit.allSold fun _ _ => trivial
  exact hrun.uses earlier e later hsplit

section Example

/-- AuthGate with the app zero and the grant that the first purchase reports. -/
def oneGrant : AccessKeys.State :=
  AccessKeys.State.deposit { oneApp with
      accessGrants := insertAt oneApp.accessGrants (U8Array.zero 16)
        (some ((rebought 1).grant false)) }
    (.accessGrantReceived (U8Array.zero 16) (U8Array.zero 32) (U8Array.ofNat 32 1)
      (U8Array.ofNat 32 1))

theorem receive_oneApp : receive blake3 oneApp (reboughtMessage 1) = oneGrant := by
  obtain ⟨hreceive, -⟩ := @receive_report blake3 oneApp (reboughtMessage 1) (rebought 1) rfl
  rw [hreceive]
  exact next_ok (xcmRecordAccessGrant_eq_ok.2 ⟨.inl rfl, oneApp_active, rfl, rfl⟩)

/-- Where every blinding opens the commitment, the grant can be used. -/
theorem oneGrant_used : ∃ gate, AccessKeys.dispatch (authGateConfig fun _ => U8Array.ofNat 32 1)
    oneGrant (.signed (U8Array.zero 32)) (.useAccessKey (U8Array.zero 16) (U8Array.zero 32)) =
      .ok gate := ⟨_, rfl⟩

/-- Access is bought, reported and used. -/
theorem paidUse_run : ∃ s is earlier e, Initial s ∧
    history (acceptingStep fun _ => U8Array.ofNat 32 1) s is = earlier ++ [e] ∧
      e.2 = .gate (.signed (U8Array.zero 32))
        (.useAccessKey (U8Array.zero 16) (U8Array.zero 32)) := by
  obtain ⟨s₀, s₁, _, -, -, h₁, -⟩ :=
    NullaRelay.ProofHub.rebuyAccess_succeeds fun _ => U8Array.ofNat 32 1
  obtain ⟨gate, hgate⟩ := oneGrant_used
  have hbuy : acceptingStep (fun _ => U8Array.ofNat 32 1) (marketLink s₀ oneApp [])
      (.hub (NullaRelay.ProofHub.rebuyAccessCall s₀ 1)) =
        .ok (marketLink s₁ oneApp [reboughtMessage 1]) := step_rebuyAccess h₁
  have hdeliver : acceptingStep (fun _ => U8Array.ofNat 32 1)
      (marketLink s₁ oneApp [reboughtMessage 1]) (.deliver 0) =
        .ok (marketLink s₁ oneGrant []) :=
    step_deliver_eq_ok.2 ⟨reboughtMessage 1, rfl, by rw [← receive_oneApp]; rfl⟩
  have huse : acceptingStep (fun _ => U8Array.ofNat 32 1) (marketLink s₁ oneGrant [])
      (.gate (.signed (U8Array.zero 32)) (.useAccessKey (U8Array.zero 16) (U8Array.zero 32))) =
        .ok (marketLink s₁ gate []) :=
    step_gate_eq_ok.2 ⟨by decide, gate, hgate, rfl⟩
  refine ⟨marketLink s₀ oneApp [], [.hub (NullaRelay.ProofHub.rebuyAccessCall s₀ 1), .deliver 0,
      .gate (.signed (U8Array.zero 32)) (.useAccessKey (U8Array.zero 16) (U8Array.zero 32))],
    [(marketLink s₀ oneApp [], .hub (NullaRelay.ProofHub.rebuyAccessCall s₀ 1)),
      (marketLink s₁ oneApp [reboughtMessage 1], .deliver 0)],
    (marketLink s₁ oneGrant [], .gate (.signed (U8Array.zero 32))
      (.useAccessKey (U8Array.zero 16) (U8Array.zero 32))), ⟨rfl, rfl⟩, ?_, rfl⟩
  rw [history_cons_ok hbuy, history_cons_ok hdeliver, history_cons_ok huse, history_nil]
  rfl

theorem paidUse_sold : ∃ s is earlier e, Initial s ∧
    history (acceptingStep fun _ => U8Array.ofNat 32 1) s is = earlier ++ [e] ∧
      e.2 = .gate (.signed (U8Array.zero 32))
        (.useAccessKey (U8Array.zero 16) (U8Array.zero 32)) ∧
      UsesSold (fun _ => U8Array.ofNat 32 1)
        (NullaRelay.ProofHub.acceptingConfig fun _ => U8Array.ofNat 32 1)
        NullaRelay.ScanProof.vectorConfig earlier e := by
  obtain ⟨s, is, earlier, e, hinit, hrun, he⟩ := paidUse_run
  exact ⟨s, is, earlier, e, hinit, hrun, he, no_unpaid_access _ _ _ s hinit is earlier [] e hrun⟩

end Example

end NullaRelay.Xcm.AccessLink

import NullaRelay.AuthGate.Grants

/-!
# Access keys are used once

A successful call does one of three things to the grants: nothing, when the
administrator sends it; it records a report of a proof chain under a free id; or it
uses the key of a grant whose blinding it reveals. The two marks of a used key are
set together, so that they agree in every state, a report stays as it was recorded,
and each key is used once at most, after its report.
-/

namespace NullaRelay.AuthGate.AccessKeys

open NullaRelay.Frame Transition

variable {cfg : Config} {s s' : State} {o : Origin AccountId} {call : Call}

/-- A call with its origin. -/
abbrev Input := Origin AccountId × Call

/-- One call of anybody. -/
def apply (cfg : Config) (s : State) (x : Input) : Result := dispatch cfg s x.1 x.2

/-- One of the two accounts that stand for the proof chains. -/
def IsSovereign (cfg : Config) (o : Origin AccountId) : Prop :=
  o = .signed cfg.proofHubSovereign ∨ o = .signed cfg.proofHubSovereign2

/-- The id of the grant whose key a call uses. -/
def Call.usedTx : Call → Option (U8Array 16)
  | .useAccessKey txId _ => some txId
  | _ => none

/-- The grant that a report leaves. -/
def Report.grant (r : Report) (used : Bool) : AccessGrant :=
  { appId := r.appId, nullifier := r.nullifier, accessKeyCommitment := r.accessKeyCommitment, used }

/-- What a successful call does to the grants and the marks. -/
inductive Effect (cfg : Config) (s : State) (o : Origin AccountId) : Call → State → Prop
  | administered {call : Call} {s' : State} (hcall : call.usedTx = none)
      (hgrants : s'.accessGrants = s.accessGrants) (hused : s'.keyUsed = s.keyUsed) :
      Effect cfg s o call s'
  | recorded {s' : State} (r : Report) (hwho : IsSovereign cfg o)
      (hfree : s.accessGrants r.txId = none)
      (hgrants : s'.accessGrants = insertAt s.accessGrants r.txId (some (r.grant false)))
      (hused : s'.keyUsed = s.keyUsed) : Effect cfg s o r.call s'
  | used {s' : State} (r : Report) (blinding : U8Array 32) (hfresh : s.keyUsed r.txId = false)
      (hgrant : s.accessGrants r.txId = some (r.grant false))
      (hopens : computeAccessKeyCommitment cfg r.appId blinding = r.accessKeyCommitment)
      (hgrants : s'.accessGrants = insertAt s.accessGrants r.txId (some (r.grant true)))
      (hused : s'.keyUsed = insertAt s.keyUsed r.txId true) :
      Effect cfg s o (.useAccessKey r.txId blinding) s'

theorem effect_of_dispatch (h : dispatch cfg s o call = .ok s') : Effect cfg s o call s' := by
  cases call with
  | listAccessSlot =>
      simp only [dispatch, listAccessSlot, bind_eq_ok, pure_eq_ok] at h
      obtain ⟨-, -, rfl⟩ := h
      exact .administered rfl rfl rfl
  | updateAccessSlot =>
      simp only [dispatch, updateAccessSlot, bind_eq_ok, pure_eq_ok] at h
      obtain ⟨-, -, -, -, rfl⟩ := h
      exact .administered rfl rfl rfl
  | xcmRecordAccessGrant appId nullifier txId accessKeyCommitment =>
      obtain ⟨hwho, -, hfree, rfl⟩ := xcmRecordAccessGrant_eq_ok.1 h
      exact .recorded ⟨appId, nullifier, txId, accessKeyCommitment⟩ hwho hfree rfl rfl
  | useAccessKey txId blinding =>
      simp only [dispatch, useAccessKey, bind_eq_ok, okOr_eq_ok, ensure_eq_ok, pure_eq_ok,
        exists_const] at h
      obtain ⟨_, -, hfresh, grant, hgrant, hunused, hopens, rfl⟩ := h
      obtain ⟨appId, nullifier, accessKeyCommitment, used⟩ := grant
      obtain rfl : used = false := hunused
      exact .used ⟨appId, nullifier, txId, accessKeyCommitment⟩ blinding hfresh hgrant hopens
        rfl rfl

/-- The two marks of a used key agree. -/
def Agree (s : State) : Prop :=
  ∀ t, s.keyUsed t = true ↔ ∃ grant, s.accessGrants t = some grant ∧ grant.used = true

theorem agree_genesis : Agree genesis := by
  intro t
  simp [genesis]

theorem Effect.agree (h : Effect cfg s o call s') (hs : Agree s) : Agree s' := by
  intro t
  cases h with
  | administered _ hgrants hused => rw [hgrants, hused, hs t]
  | recorded r _ hfree hgrants hused =>
      rw [hgrants, hused, hs t]
      by_cases ht : t = r.txId
      · subst ht
        simp [hfree, Report.grant]
      · rw [insertAt, Function.update_of_ne ht]
  | used r blinding _ _ _ hgrants hused =>
      rw [hgrants, hused]
      by_cases ht : t = r.txId
      · subst ht
        simp [Report.grant]
      · rw [insertAt, insertAt, Function.update_of_ne ht, Function.update_of_ne ht, hs t]

/-- A grant that is recorded keeps its app, its nullifier and its commitment. -/
theorem Effect.granted (h : Effect cfg s o call s') {t : U8Array 16} {r : Report}
    (hr : s.granted t = some r) : s'.granted t = some r := by
  cases h with
  | administered _ hgrants => rwa [State.granted, hgrants]
  | recorded r' _ hfree hgrants =>
      have ht : t ≠ r'.txId := by
        rintro rfl
        rw [granted_eq_none.2 hfree] at hr
        cases hr
      rwa [State.granted, hgrants, insertAt, Function.update_of_ne ht]
  | used r' _ _ hgrant _ hgrants =>
      by_cases ht : t = r'.txId
      · subst ht
        rw [State.granted, hgrants, insertAt, Function.update_self]
        rwa [State.granted, hgrant] at hr
      · rwa [State.granted, hgrants, insertAt, Function.update_of_ne ht]

/-- A grant that a call adds is its report. -/
theorem Effect.granted_eq (h : Effect cfg s o call s') {t : U8Array 16} {r : Report}
    (hr : s'.granted t = some r) : s.granted t = some r ∨ IsSovereign cfg o ∧ call = r.call := by
  cases h with
  | administered _ hgrants => exact .inl (by rwa [State.granted, hgrants] at hr)
  | recorded r' hwho _ hgrants =>
      by_cases ht : t = r'.txId
      · subst ht
        rw [State.granted, hgrants, insertAt, Function.update_self] at hr
        obtain rfl : r' = r := Option.some.inj hr
        exact .inr ⟨hwho, rfl⟩
      · rw [State.granted, hgrants, insertAt, Function.update_of_ne ht] at hr
        exact .inl hr
  | used r' _ _ hgrant _ hgrants =>
      by_cases ht : t = r'.txId
      · subst ht
        rw [State.granted, hgrants, insertAt, Function.update_self] at hr
        exact .inl (by rwa [State.granted, hgrant])
      · rw [State.granted, hgrants, insertAt, Function.update_of_ne ht] at hr
        exact .inl hr

/-- The mark of a used key is never cleared. -/
theorem Effect.keyUsed (h : Effect cfg s o call s') {t : U8Array 16} (ht : s.keyUsed t = true) :
    s'.keyUsed t = true := by
  cases h with
  | administered _ _ hused => rwa [hused]
  | recorded _ _ _ _ hused => rwa [hused]
  | used r _ _ _ _ _ hused =>
      rw [hused]
      by_cases heq : t = r.txId
      · rw [heq, insertAt, Function.update_self]
      · rwa [insertAt, Function.update_of_ne heq]

/-- The use of a key finds it unmarked and marks it. -/
theorem Effect.of_usedTx (h : Effect cfg s o call s') {t : U8Array 16}
    (ht : call.usedTx = some t) : ∃ r : Report, r.txId = t ∧ s.keyUsed r.txId = false ∧
      s'.keyUsed = insertAt s.keyUsed r.txId true := by
  cases h with
  | administered hcall =>
      rw [hcall] at ht
      cases ht
  | recorded r => cases ht
  | used r _ hfresh _ _ _ hused => exact ⟨r, Option.some.inj ht, hfresh, hused⟩

/-- A key is marked by the call that uses it, and was not marked before. -/
theorem keyMark (cfg : Config) : KeyMark (apply cfg) (fun _ => True) (fun _ _ => True)
    (fun _ x => x.2.usedTx) (fun s t => s.keyUsed t = true) where
  invariant _ _ _ _ _ _ := trivial
  fresh s x s' t _ _ h hkey := by
    obtain ⟨r, rfl, hfresh, -⟩ := (effect_of_dispatch h).of_usedTx hkey
    rw [hfresh]
    decide
  marks s x s' t _ _ h hkey := by
    obtain ⟨r, rfl, -, hused⟩ := (effect_of_dispatch h).of_usedTx hkey
    rw [hused, insertAt, Function.update_self]
  kept _ _ _ _ _ _ h hused := (effect_of_dispatch h).keyUsed hused

/-- The use of a key: its grant was reported before by a proof chain, and the blinding
opens the commitment of that report. -/
def UsesReported (cfg : Config) (past : List (State × Input)) (e : State × Input) : Prop :=
  ∀ t blinding, e.2.2 = .useAccessKey t blinding →
    ∃ r : Report, r.txId = t ∧ e.1.granted t = some r ∧
      (∃ e' ∈ past, IsSovereign cfg e'.2.1 ∧ e'.2.2 = r.call) ∧
      computeAccessKeyCommitment cfg r.appId blinding = r.accessKeyCommitment

/-- What holds of a state and the calls that led to it. -/
structure Recorded (cfg : Config) (s : State) (past : List (State × Input)) : Prop where
  agree : Agree s
  reported : ∀ t r, s.granted t = some r → ∃ e ∈ past, IsSovereign cfg e.2.1 ∧ e.2.2 = r.call
  uses : ∀ earlier e later, past = earlier ++ e :: later → UsesReported cfg earlier e

theorem recorded_genesis (cfg : Config) : Recorded cfg genesis [] where
  agree := agree_genesis
  reported t r h := by cases h
  uses earlier e later h := by simp at h

theorem Recorded.step {past : List (State × Input)} (h : Recorded cfg s past) {x : Input}
    (hx : apply cfg s x = .ok s') : Recorded cfg s' (past ++ [(s, x)]) where
  agree := (effect_of_dispatch hx).agree h.agree
  reported t r hr := by
    rcases (effect_of_dispatch hx).granted_eq hr with hold | ⟨hwho, hcall⟩
    · obtain ⟨e, he, hreport⟩ := h.reported t r hold
      exact ⟨e, by simp [he], hreport⟩
    · exact ⟨(s, x), by simp, hwho, hcall⟩
  uses := by
    refine past_append_singleton h.uses fun t blinding hcall => ?_
    have heffect := effect_of_dispatch hx
    rw [show x.2 = .useAccessKey t blinding from hcall] at heffect
    cases heffect with
    | administered hnone => cases hnone
    | used r _ _ hgrant hopens =>
        have hgranted : s.granted r.txId = some r := by
          rw [State.granted, hgrant]
          rfl
        exact ⟨r, rfl, hgranted, h.reported r.txId r hgranted, hopens⟩

theorem recorded_run (cfg : Config) (is : List Input) :
    Recorded cfg (run (apply cfg) genesis is) (history (apply cfg) genesis is) := by
  have hstep (s : State) (x : Input) (s' : State) (past : List (State × Input))
      (hpast : Recorded cfg s past) (_ : True) (hx : apply cfg s x = .ok s') :
      Recorded cfg s' (past ++ [(s, x)]) := hpast.step hx
  exact history_invariant hstep genesis is [] (recorded_genesis cfg) fun _ _ => trivial

/-- No run changes what a recorded grant says. -/
theorem granted_run {t : U8Array 16} {r : Report} (h : s.granted t = some r) (is : List Input) :
    (run (apply cfg) s is).granted t = some r := by
  have hstep (s : State) (x : Input) (s' : State) (_ : List (State × Input))
      (hs : s.granted t = some r) (_ : True) (hx : apply cfg s x = .ok s') :
      s'.granted t = some r := (effect_of_dispatch hx).granted hs
  exact history_invariant (P := fun s _ => s.granted t = some r) hstep s is [] h
    fun _ _ => trivial

/-- In every run from genesis, by whatever callers: the two marks of a used key agree, a
recorded grant keeps its app, nullifier and commitment, a key is used at most once, and
only after a proof chain reported its grant and with a blinding that opens it. -/
theorem access_keys_single_use (cfg : Config) (is js : List Input) :
    Agree (run (apply cfg) genesis is) ∧
    (∀ t r, (run (apply cfg) genesis is).granted t = some r →
      (run (apply cfg) genesis (is ++ js)).granted t = some r) ∧
    ((history (apply cfg) genesis is).filterMap fun e => e.2.2.usedTx).Nodup ∧
    ∀ past e later, history (apply cfg) genesis is = past ++ e :: later →
      UsesReported cfg past e := by
  refine ⟨(recorded_run cfg is).agree, fun t r h => ?_, ?_, (recorded_run cfg is).uses⟩
  · rw [run_append]
    exact granted_run h js
  · exact (keyMark cfg).nodup_history trivial fun _ _ => trivial

end NullaRelay.AuthGate.AccessKeys

import NullaRelay.Frame.Balances
import NullaRelay.ProofHub.Books

/-!
# The pool is solvent

The pool account holds at least the value of all unspent v2 notes, after every step of
every run: deposits pay their amount in before their note joins, and what the pool pays
out was shown to be in a note that is spent. The rest of the chain may move money as it
likes as long as it does not take it from the pool. From genesis the first lane has no
notes, since its deposits are disabled, and so none of its calls is ever accepted.
-/

namespace NullaRelay.ProofHub

open NullaRelay.Frame V2 Transition

variable {A L : Type} {T : Config A L} {s s' : State L}

/-- The calls that spend notes of the first lane. -/
def Call.IsLegacySpend : Call → Prop
  | .purchaseRwa .. | .withdrawPrivate .. | .relistPrivate .. | .purchaseAccess .. => True
  | _ => False

/-- Without a registered tag the calls of the first lane are refused. -/
theorem not_legacySpend_of_ok {x : Extrinsic A} (htags : ∀ t, s.spendTagCommitments t = none)
    (h : apply T s x = .ok s') : ¬ x.2.IsLegacySpend := by
  obtain ⟨o, call⟩ := x
  intro hlegacy
  cases call with
  | purchaseRwa p pi =>
      obtain ⟨-, inputs, rp, hspend, -⟩ := purchaseRwa_eq_ok.1 h
      have hreg := hspend.registered
      rw [htags] at hreg
      cases hreg
  | purchaseAccess p pi =>
      obtain ⟨-, inputs, cfg, rp, -, hspend, -⟩ := purchaseAccess_eq_ok.1 h
      have hreg := hspend.registered
      rw [htags] at hreg
      cases hreg
  | withdrawPrivate p pi =>
      obtain ⟨-, inputs, -, -, -, ⟨stored, hstored, -⟩, -⟩ := withdrawPrivate_eq_ok.1 h
      rw [htags] at hstored
      cases hstored
  | relistPrivate inputs =>
      obtain ⟨-, change, hrelist, -⟩ := relistPrivate_eq_ok.1 h
      obtain ⟨stored, hstored, -⟩ := hrelist.opened
      rw [htags] at hstored
      cases hstored
  | _ => exact hlegacy

/-- No other call registers a tag. -/
theorem registered_of_not_legacySpend {c : Call} (h : ¬ c.IsLegacySpend) :
    c.registered s = [] := by
  cases c <;> first | rfl | exact absurd trivial h

theorem noTags_step {x : Extrinsic A} (htags : ∀ t, s.spendTagCommitments t = none)
    (h : apply T s x = .ok s') : ∀ t, s'.spendTagCommitments t = none := by
  rw [spendTagCommitments_of_apply h,
    registered_of_not_legacySpend (not_legacySpend_of_ok htags h)]
  exact htags

/-- What a call takes out of the pool: withdrawals and payments to apps. The price of an
asset stays in the pool. -/
def Call.paidOut (s : State L) (c : Call) : ℕ := c.withdrawn + c.paidToApp s

/-- What a v2 call does to the balances: a deposit pays in, a withdrawal and a purchase of
access pay out, the others leave the ledger alone. -/
theorem ledger_of_apply {x : Extrinsic A} (htags : ∀ t, s.spendTagCommitments t = none)
    (h : apply T s x = .ok s') :
    (∃ who, x.1 = .signed who ∧ T.currency.transfer s.ledger who T.poolAccount x.2.deposited
        .keepAlive = some s'.ledger ∧ x.2.paidOut s = 0) ∨
      (∃ dest, T.currency.transfer s.ledger T.poolAccount dest (x.2.paidOut s) .allowDeath =
        some s'.ledger ∧ x.2.deposited = 0) ∨
      s'.ledger = s.ledger ∧ x.2.deposited = 0 ∧ x.2.paidOut s = 0 := by
  have hlegacy := not_legacySpend_of_ok htags h
  obtain ⟨o, call⟩ := x
  cases call with
  | depositPublic c rp rpc t hints => simp [apply, dispatch, depositPublic] at h
  | purchaseRwa p pi | purchaseAccess p pi | withdrawPrivate p pi | relistPrivate inputs =>
      exact absurd trivial hlegacy
  | setRwaPrice id price | setAccessConfig id price acc =>
      obtain ⟨_, -, hs⟩ := bind_eq_ok.1 h
      cases hs
      exact .inr (.inr ⟨rfl, rfl, rfl⟩)
  | depositV2 leaf amount p hints =>
      obtain ⟨who, hwho, -, ledger, hpay, s₁, hins, rfl⟩ := depositV2_eq_ok.1 h
      obtain ⟨-, frontier, newRoot, -, rfl⟩ := v2Insert_eq_ok.1 hins
      exact .inl ⟨who, hwho, hpay, rfl⟩
  | purchaseRwaV2 auth pi p =>
      obtain ⟨-, inputs, -, -, -, s₁, hins, rfl⟩ := purchaseRwaV2_eq_ok.1 h
      obtain ⟨-, frontier, newRoot, -, rfl⟩ := v2Insert_eq_ok.1 hins
      exact .inr (.inr ⟨rfl, rfl, rfl⟩)
  | purchaseAccessV2 auth pi p =>
      obtain ⟨-, inputs, cfg, hdec, hcfg, -, -, s₁, hins, s₂, hpool, rfl⟩ :=
        purchaseAccessV2_eq_ok.1 h
      obtain ⟨-, frontier, newRoot, -, rfl⟩ := v2Insert_eq_ok.1 hins
      obtain ⟨dest, -, ledger, hpay, rfl⟩ := payFromPool_eq_ok.1 hpool
      refine .inr (.inl ⟨dest, ?_, rfl⟩)
      simp only [Call.paidOut, Call.withdrawn, Call.paidToApp, hdec, hcfg, Option.elim_some,
        zero_add]
      exact hpay
  | withdrawV2 auth pi p =>
      obtain ⟨-, inputs, hdec, -, s₁, hpool, rfl⟩ := withdrawV2_eq_ok.1 h
      obtain ⟨dest, -, ledger, hpay, rfl⟩ := payFromPool_eq_ok.1 hpool
      refine .inr (.inl ⟨dest, ?_, rfl⟩)
      simp only [Call.paidOut, Call.withdrawn, Call.paidToApp, hdec, Option.elim_some, add_zero]
      exact hpay

theorem total_append (f : State L → Call → ℕ) (past : List (State L × Extrinsic A))
    (e : State L × Extrinsic A) : total f (past ++ [e]) = total f past + f e.1 e.2.2 := by
  simp [total]

section Pool

variable [DecidableEq A] {free : L → A → ℕ}

/-- The pool gains what is deposited and loses no more than what is paid out. The pool
account itself signs no call: it has no key. -/
theorem pool_of_apply (hmoves : T.currency.Moves free) {x : Extrinsic A}
    (htags : ∀ t, s.spendTagCommitments t = none) (hsigner : x.1 ≠ .signed T.poolAccount)
    (h : apply T s x = .ok s') :
    free s.ledger T.poolAccount + x.2.deposited ≤
      free s'.ledger T.poolAccount + x.2.paidOut s := by
  rcases ledger_of_apply htags h with
    ⟨who, hwho, hpay, hout⟩ | ⟨dest, hpay, hin⟩ | ⟨hsame, hin, hout⟩
  · have hne : who ≠ T.poolAccount := by
      rintro rfl
      exact hsigner hwho
    rw [hmoves.paid hpay hne, hout]
    exact le_rfl
  · rw [hin]
    exact hmoves.pays hpay
  · rw [hsame, hin, hout]

variable (T free) in
/-- The step leaves the pool to the pallet: no call is signed by the pool account, and
what happens elsewhere does not take from it. -/
def ChainStep.LeavesPool (s : State L) : ChainStep A L → Prop
  | .call x => x.1 ≠ .signed T.poolAccount
  | .elsewhere ledger => free s.ledger T.poolAccount ≤ free ledger T.poolAccount

/-- Over a run from genesis the pool keeps what it had, with the deposits and without
what was paid out. -/
theorem pool_run (hmoves : T.currency.Moves free) (ledger : L) (steps : List (ChainStep A L))
    (hpool : ∀ e ∈ history (chainStep T) (genesis ledger) steps, e.2.LeavesPool T free e.1) :
    free ledger T.poolAccount + total (fun _ c => c.deposited) (accepted T ledger steps) ≤
      free (reached T ledger steps).ledger T.poolAccount +
        total (fun s c => c.paidOut s) (accepted T ledger steps) := by
  have hrun := @history_invariant _ _ _ (chainStep T) (fun s step => step.LeavesPool T free s)
    (fun s past => (∀ t, s.spendTagCommitments t = none) ∧
      free ledger T.poolAccount + total (fun _ c => c.deposited) (calls past) ≤
        free s.ledger T.poolAccount + total (fun s c => c.paidOut s) (calls past))
    (fun s step s' past ⟨htags, hbooks⟩ hstep hs => by
      cases step with
      | call x =>
          have hpaid := pool_of_apply hmoves htags hstep hs
          refine ⟨noTags_step htags hs, ?_⟩
          rw [calls_call, total_append, total_append]
          dsimp only
          omega
      | elsewhere ledger' =>
          obtain rfl := Except.ok.inj hs
          rw [calls_elsewhere]
          exact ⟨htags, hbooks.trans (Nat.add_le_add_right hstep _)⟩)
    (genesis ledger) steps [] ⟨fun _ => rfl, le_rfl⟩ hpool
  exact hrun.2

/-- Where nothing collides, the pool covers what it had at genesis, the prices of the
assets sold and the value of every unspent note. -/
theorem solvent_of_not_collides {P : Verifier.Primitives} (W : StarkExtractor P)
    (T : Config A L) (hmoves : T.currency.Moves free) (ledger : L) (steps : List (ChainStep A L))
    (hpool : ∀ e ∈ history (chainStep (T.wired P)) (genesis ledger) steps,
      e.2.LeavesPool T free e.1)
    (hcanon : ∀ e ∈ accepted (T.wired P) ledger steps, CanonicalNullifier e.2.2)
    (hcoll : ¬ W.extractor.CollidesIn (T.wired P) (accepted (T.wired P) ledger steps)) :
    free ledger T.poolAccount +
          total (fun s c => c.paidForRwa s) (accepted (T.wired P) ledger steps) +
          W.extractor.unspentValue (v2Steps (T.wired P) (accepted (T.wired P) ledger steps)) ≤
        free (reached (T.wired P) ledger steps).ledger T.poolAccount := by
  have hbal := balanced_of_not_collides W T ledger steps hcanon hcoll
  have hkept := pool_run (T := T.wired P) hmoves ledger steps hpool
  have hpaid : total (fun s c => c.paidOut s) (accepted (T.wired P) ledger steps) =
      total (fun _ c => c.withdrawn) (accepted (T.wired P) ledger steps) +
        total (fun s c => c.paidToApp s) (accepted (T.wired P) ledger steps) := total_add _ _ _
  have hidentity : total (fun _ c => c.deposited) (accepted (T.wired P) ledger steps) =
      total (fun s c => c.paidOut s) (accepted (T.wired P) ledger steps) +
        total (fun s c => c.paidForRwa s) (accepted (T.wired P) ledger steps) +
        W.extractor.unspentValue (v2Steps (T.wired P) (accepted (T.wired P) ledger steps)) := by
    rw [hpaid]
    exact (hbal.accounted (T := (T.wired P).canonical)).identity
  have hsame : (T.wired P).poolAccount = T.poolAccount := rfl
  rw [hsame] at hkept
  omega

/-- In every run of the runtime the pool holds what it had at genesis, the prices of the
assets sold and the value of every unspent note, or the notes or tree nodes of the run
collide. -/
theorem pool_solvent {P : Verifier.Primitives} (W : StarkExtractor P) (T : Config A L)
    (hmoves : T.currency.Moves free) (ledger : L) (steps : List (ChainStep A L))
    (hpool : ∀ e ∈ history (chainStep (T.wired P)) (genesis ledger) steps,
      e.2.LeavesPool T free e.1)
    (hcanon : ∀ e ∈ accepted (T.wired P) ledger steps, CanonicalNullifier e.2.2) :
    free ledger T.poolAccount +
          total (fun s c => c.paidForRwa s) (accepted (T.wired P) ledger steps) +
          W.extractor.unspentValue (v2Steps (T.wired P) (accepted (T.wired P) ledger steps)) ≤
        free (reached (T.wired P) ledger steps).ledger T.poolAccount ∨
      W.extractor.CollidesIn (T.wired P) (accepted (T.wired P) ledger steps) :=
  or_iff_not_imp_right.2 (solvent_of_not_collides W T hmoves ledger steps hpool hcanon)

end Pool

theorem marketRun_leavesPool :
    ∀ e ∈ history (chainStep marketConfig) (genesis tenEach) marketRun,
      e.2.LeavesPool (acceptingConfig oneBlake3) id e.1 := by
  intro e he
  have hstep : e.2 ∈ marketRun := mem_of_mem_history he
  have hne : U8Array.ofNat 32 1 ≠ U8Array.zero 32 := by decide
  simp only [marketRun, List.mem_cons, List.not_mem_nil, or_false] at hstep
  rcases hstep with h | h | h | h <;> rw [h] <;> intro hsigned
  · cases hsigned
  · cases hsigned
  · exact hne (Origin.signed.inj hsigned)
  · cases hsigned

/-- After the market the seven are unspent, and the pool holds them beside the ten that
it had and the price of the asset. -/
theorem marketRun_solvent :
    marketExtractor.extractor.unspentValue
        (v2Steps marketConfig (accepted marketConfig tenEach marketRun)) = 7 ∧
      tenEach (U8Array.zero 32) +
          total (fun s c => c.paidForRwa s) (accepted marketConfig tenEach marketRun) +
          marketExtractor.extractor.unspentValue
            (v2Steps marketConfig (accepted marketConfig tenEach marketRun)) ≤
        (reached marketConfig tenEach marketRun).ledger (U8Array.zero 32) := by
  refine ⟨?_, (pool_solvent marketExtractor (acceptingConfig oneBlake3) balances_moves tenEach
    marketRun marketRun_leavesPool marketRun_canonical).resolve_right marketRun_not_collides⟩
  rw [marketRun_reached.steps, Extractor.unspentValue, market_notes, Extractor.consumed,
    market_openings]
  rfl

end NullaRelay.ProofHub

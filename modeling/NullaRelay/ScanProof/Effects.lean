import NullaRelay.ScanProof.CoinPurchases

/-!
# What the ScanProof calls store

One statement for all calls: the notes that join the note tree, all under one new
root, and the coin that joins the open group. The rest of the two stores is as
before.
-/

namespace NullaRelay.ScanProof

open NullaRelay.Frame

variable {A L : Type} {T : Config A L} {s s' : State L} {o : Origin A}

/-- The storage of the note tree. -/
structure NoteStore where
  merkleRoot : U8Array 32
  currentRoot : U8Array 32
  recentRoots : BoundedVec (U8Array 32) 64
  leaves : BoundedVec (U8Array 32) 1048576
  rootLeafCount : U8Array 32 → UInt32
  commitmentIndex : U8Array 32 → Option UInt32

def State.notes (s : State L) : NoteStore where
  merkleRoot := s.merkleRoot
  currentRoot := s.currentRoot
  recentRoots := s.recentRoots
  leaves := s.leaves
  rootLeafCount := s.rootLeafCount
  commitmentIndex := s.commitmentIndex

/-- The storage of the coin groups. -/
structure CoinStore where
  coinGroups : UInt32 → Option (BoundedVec (U8Array 32) 1024)
  currentGroup : UInt32
  coinLocation : U8Array 32 → Option (UInt32 × UInt32)

def State.coins (s : State L) : CoinStore where
  coinGroups := s.coinGroups
  currentGroup := s.currentGroup
  coinLocation := s.coinLocation

variable (T) in
/-- The new commitments join the tree one after the other, under one new root. -/
structure Inserts (n n' : NoteStore) (cs : List (U8Array 32)) : Prop where
  fresh : ∀ c ∈ cs, n.commitmentIndex c = none
  nodup : cs.Nodup
  leaves : n'.leaves.val = n.leaves.val ++ cs.map (leafHash T)
  commitmentIndex :
    n'.commitmentIndex = NoteTree.indexAll n.commitmentIndex n.leaves.val.length cs
  currentRoot : n'.currentRoot = computeMerkleRoot T n'.leaves.val
  merkleRoot : n'.merkleRoot = computeMerkleRoot T n'.leaves.val
  rootLeafCount : n'.rootLeafCount =
    insertAt n.rootLeafCount n'.currentRoot (UInt32.ofNat n'.leaves.val.length)
  recentRoots : n'.recentRoots = NoteTree.pushRoot n.recentRoots n.currentRoot

/-- What a call does to the note tree, given the notes that it inserts; without
notes there is no new root. -/
def NoteEffect (T : Config A L) (n n' : NoteStore) : Option (List (U8Array 32)) → Prop
  | none => n' = n
  | some cs => Inserts T n n' cs

/-- The new coin joins the open group of the state. -/
structure Joins (s : State L) (k' : CoinStore) (coin : U8Array 32) : Prop where
  fresh : s.coinLocation coin = none
  coinGroups : ∃ group, (s.coinGroup (openGroup s)).tryPush coin = some group ∧
    k'.coinGroups = insertAt s.coinGroups (openGroup s) (some group)
  currentGroup : k'.currentGroup = openGroup s
  coinLocation : k'.coinLocation = insertAt s.coinLocation coin
    (some (openGroup s, UInt32.ofNat (s.coinGroup (openGroup s)).val.length))

/-- What a call does to the coin groups, given the coin that it adds. -/
def CoinEffect (s : State L) (k' : CoinStore) : Option (U8Array 32) → Prop
  | none => k' = s.coins
  | some coin => Joins s k' coin

/-- The notes that a call inserts under a new root. -/
def Call.newNotes {R : ℕ} : Call R → Option (List (U8Array 32))
  | .depositPublic commitment _ _ => (copyFromSlice 32 commitment).map fun c => [c]
  | .submitProof _ _ pi _ =>
      (ProofPublicInputs.decode pi).map ProofPublicInputs.newCommitments
  | .purchaseRwa _ _ _ _ _ _ change | .purchaseAccess _ _ _ _ _ _ change =>
      change.map fun c => [c]
  | _ => none

/-- The coin that a call adds. -/
def Call.newCoin {R : ℕ} : Call R → Option (U8Array 32)
  | .depositCoin coin _ _ => some coin
  | .purchaseCoin pi _ _ | .purchaseAccessCoin pi _ _ =>
      (CoinSpendPublic.decode pi).bind CoinSpendPublic.newCoin
  | _ => none

theorem insertNote_inserts {c : U8Array 32} (hnew : s.commitmentIndex c = none)
    (h : insertNote T s c = .ok s') : Inserts T s.notes s'.notes [c] ∧ s'.coins = s.coins := by
  obtain ⟨leaves, hpush, rfl⟩ := insertNote_eq_ok.1 h
  have hleaves := (BoundedVec.tryPush_eq_some.1 hpush).2
  refine ⟨?_, rfl⟩
  constructor
  · intro c' hc'
    obtain rfl := List.mem_singleton.1 hc'
    exact hnew
  · exact List.nodup_singleton c
  · exact hleaves
  all_goals rfl

theorem insertChange_effect {change : Option (U8Array 32)}
    (hnew : ∀ c ∈ change, s.commitmentIndex c = none) (h : insertChange T s change = .ok s') :
    NoteEffect T s.notes s'.notes (change.map fun c => [c]) ∧ s'.coins = s.coins := by
  cases change with
  | none =>
      cases h
      exact ⟨rfl, rfl⟩
  | some c => exact insertNote_inserts (hnew c rfl) h

theorem payApp_stores {cfg : AppConfig} (h : payApp T s cfg = .ok s') :
    s'.notes = s.notes ∧ s'.coins = s.coins := by
  obtain ⟨_, -, _, -, rfl⟩ := payApp_eq_ok.1 h
  exact ⟨rfl, rfl⟩

theorem registerNew_effect {pi g : List UInt8} {inputs : CoinSpendPublic}
    (hconv : ChangeConverted T s pi inputs g) (h : registerNew s inputs.newCoin = .ok s') :
    CoinEffect s s'.coins inputs.newCoin ∧ s'.notes = s.notes := by
  unfold ChangeConverted at hconv
  cases hcoin : inputs.newCoin with
  | none =>
      rw [hcoin] at h
      cases h
      exact ⟨rfl, rfl⟩
  | some coin =>
      rw [hcoin] at h hconv
      obtain ⟨group, hpush, rfl⟩ := registerCoin_eq_ok.1 h
      exact ⟨⟨(hconv coin rfl).1, ⟨group, hpush, rfl⟩, rfl, rfl⟩, rfl⟩

theorem spendCoin_effect {pi p g : List UInt8} {inputs : CoinSpendPublic} {price : UInt64}
    (h : spendCoin T s pi inputs price p g = .ok s') :
    CoinEffect s s'.coins inputs.newCoin ∧ s'.notes = s.notes := by
  obtain ⟨-, -, hconv, t, ht, rfl⟩ := spendCoin_eq_ok.1 h
  have heff := registerNew_effect hconv ht
  exact heff

variable (T s s') in
/-- The two stores change by the notes and the coin of the call. -/
structure Effect {R : ℕ} (call : Call R) : Prop where
  notes : NoteEffect T s.notes s'.notes call.newNotes
  coins : CoinEffect s s'.coins call.newCoin

/-- A call that succeeds changes the stores by what it adds. -/
theorem dispatch_effect {call : Call T.maxRangeProofSize} (h : dispatch T s o call = .ok s') :
    Effect T s s' call := by
  cases call with
  | depositPublic commitment rp hints =>
      obtain ⟨_, -, c, rfl, _, _, -, -, ledger, -, hnew, t, ht, rfl⟩ := depositPublic_eq_ok.1 h
      have hins := insertNote_inserts (T := T) (s := { s with ledger }) hnew ht
      have hcopy : copyFromSlice 32 c.toList = some c := copyFromSlice_eq_some.2 rfl
      constructor
      · rw [Call.newNotes, hcopy]
        exact hins.1
      · exact hins.2
  | submitProof p rp pi hints =>
      obtain ⟨inputs, leaves, hcheck, hleaves, rfl⟩ := submitProof_of_ok h
      constructor
      · rw [Call.newNotes, hcheck.decoded]
        exact ⟨hcheck.unindexed, hcheck.distinct, hleaves, rfl, rfl, rfl, rfl, rfl⟩
      · rfl
  | purchaseRwa c p n id tx oc change =>
      obtain ⟨-, -, -, -, hnew, -, t, ht, rfl⟩ := purchaseRwa_eq_ok.1 h
      have heff := insertChange_effect (s := markNullifier s n) hnew ht
      exact ⟨heff.1, heff.2⟩
  | withdrawPrivate c n p dest v =>
      obtain ⟨-, -, -, -, -, _, -, _, -, rfl⟩ := withdrawPrivate_eq_ok.1 h
      exact ⟨rfl, rfl⟩
  | setRwaPrice id price =>
      obtain ⟨_, -, hs⟩ := bind_eq_ok.1 h
      cases hs
      exact ⟨rfl, rfl⟩
  | setAccessConfig id price acc =>
      obtain ⟨_, -, hs⟩ := bind_eq_ok.1 h
      cases hs
      exact ⟨rfl, rfl⟩
  | purchaseAccess c p n id tx ac change =>
      obtain ⟨-, -, -, cfg, -, -, hnew, -, t, ht, u, hu, rfl⟩ := purchaseAccess_eq_ok.1 h
      obtain ⟨hnotes, hcoins⟩ := payApp_stores ht
      have hindex : t.commitmentIndex = s.commitmentIndex :=
        congrArg NoteStore.commitmentIndex hnotes
      have heff := insertChange_effect (s := t) (by rwa [hindex]) hu
      rw [hnotes, hcoins] at heff
      exact ⟨heff.1, heff.2⟩
  | depositCoin coin amount p =>
      obtain ⟨_, -, hnew, -, ledger, -, ht⟩ := depositCoin_eq_ok.1 h
      obtain ⟨group, hpush, rfl⟩ := registerCoin_eq_ok.1 ht
      exact ⟨rfl, hnew, ⟨group, hpush, rfl⟩, rfl, rfl⟩
  | purchaseCoin pi p g =>
      obtain ⟨-, inputs, hdec, -, -, -, t, ht, rfl⟩ := purchaseCoin_eq_ok.1 h
      obtain ⟨hcoins, hnotes⟩ := spendCoin_effect ht
      constructor
      · exact hnotes
      · rw [Call.newCoin, hdec]
        exact hcoins
  | withdrawCoin pi p =>
      obtain ⟨-, inputs, -, -, -, -, _, -, _, -, rfl⟩ := withdrawCoin_eq_ok.1 h
      exact ⟨rfl, rfl⟩
  | purchaseAccessCoin pi p g =>
      obtain ⟨-, inputs, hdec, -, -, cfg, -, -, t, ht, u, hu, rfl⟩ := purchaseAccessCoin_eq_ok.1 h
      obtain ⟨hcoins, hnotes⟩ := spendCoin_effect ht
      obtain ⟨hnotes', hcoins'⟩ := payApp_stores hu
      constructor
      · exact hnotes'.trans hnotes
      · rw [Call.newCoin, hdec]
        rw [← hcoins'] at hcoins
        exact hcoins

theorem apply_effect {x : Extrinsic A T.maxRangeProofSize} (h : apply T s x = .ok s') :
    Effect T s s' x.call :=
  dispatch_effect (apply_eq_ok.1 h).2

end NullaRelay.ScanProof

import NullaRelay.RwaParachain.Runtime

/-!
# The ids of the registry

An asset is stored under the counter, which saturates: after `n` assets it stands at
the smaller of `n` and the last id, and the ids below `n` have an asset. A registration
is fresh as long as `n` is an id; the next one overwrites the last asset. What is
stored at genesis keeps the id that the configuration wrote into it, whatever the index
it is stored under.
-/

namespace NullaRelay.RwaParachain.Registry

open NullaRelay.Frame Transition

variable {s s' : State} {assets : List RWAAsset} {company : Option CompanyInfo} {n : ℕ}
  {k : UInt32}

/-- A call with its origin. -/
abbrev Input := Origin AccountId × Call

/-- One call of anybody. -/
def step (s : State) (x : Input) : Result := dispatch s x.1 x.2

/-- The id that an asset carries, by the id it is stored under. -/
def State.carried (s : State) (k : UInt32) : Option UInt32 := (s.assets k).map RWAAsset.assetId

/-- A registration, which only the administrator makes. -/
def Registers (x : Input) : Prop := x.1 = .root ∧ x.2.registers = true

instance : DecidablePred Registers := fun x =>
  inferInstanceAs (Decidable (x.1 = .root ∧ x.2.registers = true))

/-- How many registrations a run makes. -/
def registrations (is : List Input) : ℕ := is.countP fun x => decide (Registers x)

/-- The id that a registration takes. -/
def registeredId (s : State) (x : Input) : Option UInt32 :=
  if x.2.registers then some s.nextAssetId else none

theorem carried_isSome : (s.carried k).isSome = (s.assets k).isSome := by
  rw [State.carried, Option.isSome_map]

/-- What a call does to the ids. -/
inductive IdStep (s : State) : Input → State → Prop
  | registered {x : Input} {s' : State} (hx : Registers x)
      (hcarried : s'.carried = insertAt s.carried s.nextAssetId (some s.nextAssetId))
      (hnext : s'.nextAssetId = saturatingSucc s.nextAssetId) : IdStep s x s'
  | kept {x : Input} {s' : State} (hx : x.2.registers = false) (hcarried : s'.carried = s.carried)
      (hnext : s'.nextAssetId = s.nextAssetId) : IdStep s x s'

/-- An edit of an asset that leaves its id. -/
theorem carried_of_mutateAsset {a : UInt32}
    {f : RWAAsset → Except (DispatchError Error) RWAAsset} (h : s.mutateAsset a f = .ok s')
    (hf : ∀ asset asset', f asset = .ok asset' → asset'.assetId = asset.assetId) :
    s'.carried = s.carried ∧ s'.nextAssetId = s.nextAssetId := by
  obtain ⟨asset, asset', hasset, hedit, rfl⟩ := mutateAsset_eq_ok.1 h
  refine ⟨?_, rfl⟩
  funext k
  by_cases hk : k = a
  · subst hk
    simp [State.carried, hasset, hf asset asset' hedit]
  · simp [State.carried, hk]

theorem idStep_of_step {x : Input} (h : step s x = .ok s') : IdStep s x s' := by
  obtain ⟨o, call⟩ := x
  cases call with
  | registerAsset owner name description category usdValueCents metadata =>
      simp only [step, dispatch, registerAsset, bind_eq_ok, ensureRoot_eq_ok, pure_eq_ok] at h
      obtain ⟨-, rfl, rfl⟩ := h
      refine .registered ⟨rfl, rfl⟩ ?_ rfl
      funext k
      by_cases hk : k = s.nextAssetId
      · subst hk
        simp [State.carried, State.deposit]
      · simp [State.carried, State.deposit, hk]
  | lockForSale a =>
      simp only [step, dispatch, lockForSale, bind_eq_ok, pure_eq_ok] at h
      obtain ⟨-, -, t, hmut, rfl⟩ := h
      obtain ⟨hcarried, hnext⟩ := carried_of_mutateAsset hmut fun asset asset' hedit => by
        simp only [bind_eq_ok, ensure_eq_ok, pure_eq_ok, exists_const] at hedit
        rw [← hedit.2]
      exact .kept rfl hcarried hnext
  | markSold a =>
      simp only [step, dispatch, markSold, bind_eq_ok, pure_eq_ok] at h
      obtain ⟨-, -, t, hmut, rfl⟩ := h
      obtain ⟨hcarried, hnext⟩ := carried_of_mutateAsset hmut fun asset asset' hedit => by
        simp only [bind_eq_ok, ensure_eq_ok, pure_eq_ok, exists_const] at hedit
        rw [← hedit.2]
      exact .kept rfl hcarried hnext
  | releaseAfterRedemption a =>
      simp only [step, dispatch, releaseAfterRedemption, bind_eq_ok, pure_eq_ok] at h
      obtain ⟨-, -, t, hmut, rfl⟩ := h
      obtain ⟨hcarried, hnext⟩ := carried_of_mutateAsset hmut fun asset asset' hedit => by
        simp only [bind_eq_ok, ensure_eq_ok, pure_eq_ok, exists_const] at hedit
        rw [← hedit.2]
      exact .kept rfl hcarried hnext
  | setCompanyInfo name disclaimer =>
      simp only [step, dispatch, setCompanyInfo, bind_eq_ok, pure_eq_ok] at h
      obtain ⟨-, -, rfl⟩ := h
      exact .kept rfl rfl rfl

/-- The administrator's registration never fails. -/
theorem exists_of_registers {x : Input} (h : Registers x) : ∃ s', step s x = .ok s' := by
  obtain ⟨o, call⟩ := x
  obtain ⟨rfl, hcall⟩ : o = .root ∧ call.registers = true := h
  cases call with
  | registerAsset => exact ⟨_, rfl⟩
  | _ => cases hcall

section Counter

/-- The counter after `n` assets, and the ids that have one. -/
structure Counted (s : State) (n : ℕ) : Prop where
  next : s.nextAssetId.toNat = min n (2 ^ 32 - 1)
  occupied : ∀ k, (s.carried k).isSome ↔ k.toNat < n

theorem saturatingSucc_eq (h : k.toNat = min n (2 ^ 32 - 1)) :
    (saturatingSucc k).toNat = min (n + 1) (2 ^ 32 - 1) := by
  have hlt : k.toNat < 2 ^ 32 := k.toNat_lt
  by_cases hroom : k.toNat + 1 < 2 ^ 32
  · rw [saturatingSucc_toNat hroom]
    omega
  · rw [saturatingSucc, if_neg hroom]
    omega

/-- One more asset under the counter. -/
theorem Counted.succ (h : Counted s n)
    (hcarried : ∃ i, s'.carried = insertAt s.carried s.nextAssetId (some i))
    (hnext : s'.nextAssetId = saturatingSucc s.nextAssetId) : Counted s' (n + 1) where
  next := by rw [hnext, saturatingSucc_eq h.next]
  occupied k := by
    obtain ⟨i, hi⟩ := hcarried
    have hlt : k.toNat < 2 ^ 32 := k.toNat_lt
    have hkey := h.next
    rw [hi]
    by_cases hk : k = s.nextAssetId
    · subst hk
      rw [insertAt, Function.update_self, Option.isSome_some, iff_true_left rfl]
      omega
    · have hne : k.toNat ≠ s.nextAssetId.toNat := fun h => hk (UInt32.toNat_inj.1 h)
      rw [insertAt, Function.update_of_ne hk, h.occupied k]
      omega

theorem Counted.step {x : Input} (h : Counted s n) (hx : Registry.step s x = .ok s') :
    Counted s' (n + if Registers x then 1 else 0) := by
  cases idStep_of_step hx with
  | registered hreg hcarried hnext =>
      rw [if_pos hreg]
      exact h.succ ⟨_, hcarried⟩ hnext
  | kept hreg hcarried hnext =>
      rw [if_neg fun hx => by simp [hx.2] at hreg]
      exact ⟨by rw [hnext, h.next, Nat.add_zero],
        fun k => by rw [hcarried, h.occupied k, Nat.add_zero]⟩

/-- The next id is free as long as the number of assets is an id. -/
theorem Counted.free_iff (h : Counted s n) : s.assets s.nextAssetId = none ↔ n < 2 ^ 32 := by
  have hnext := h.next
  rw [← Option.not_isSome_iff_eq_none, ← carried_isSome, h.occupied]
  omega

theorem genesis_append (asset : RWAAsset) :
    (genesis (assets ++ [asset]) company).assets =
        insertAt (genesis assets company).assets (genesis assets company).nextAssetId
          (some asset) ∧
      (genesis (assets ++ [asset]) company).nextAssetId =
        saturatingSucc (genesis assets company).nextAssetId := by
  rw [genesis, List.foldl_append]
  exact ⟨rfl, rfl⟩

theorem counted_genesis (assets : List RWAAsset) (company : Option CompanyInfo) :
    Counted (genesis assets company) assets.length := by
  induction assets using List.reverseRecOn with
  | nil => exact ⟨rfl, fun k => by simp [State.carried, genesis]⟩
  | append_singleton assets asset ih =>
      obtain ⟨hassets, hnext⟩ := @genesis_append assets company asset
      rw [List.length_append, List.length_singleton]
      refine ih.succ ⟨asset.assetId, ?_⟩ hnext
      funext k
      rw [State.carried, hassets]
      by_cases hk : k = (genesis assets company).nextAssetId
      · rw [hk, insertAt, insertAt, Function.update_self, Function.update_self]
        rfl
      · rw [insertAt, insertAt, Function.update_of_ne hk, Function.update_of_ne hk]
        rfl

/-- The asset that the genesis configuration leaves under an id. -/
theorem genesis_assets (assets : List RWAAsset) (company : Option CompanyInfo) (k : UInt32) :
    (genesis assets company).assets k =
      if k.toNat + 1 < 2 ^ 32 then assets[k.toNat]?
      else if assets.length < 2 ^ 32 then none else assets.getLast? := by
  induction assets using List.reverseRecOn with
  | nil => simp [genesis]
  | append_singleton assets asset ih =>
      have hlt : k.toNat < 2 ^ 32 := k.toNat_lt
      have hnext := (counted_genesis assets company).next
      rw [(genesis_append asset).1, List.length_append, List.length_singleton,
        List.getLast?_concat]
      by_cases hk : k = (genesis assets company).nextAssetId
      · subst hk
        rw [insertAt, Function.update_self]
        by_cases hroom : assets.length + 1 < 2 ^ 32
        · have hlast : (genesis assets company).nextAssetId.toNat = assets.length := by omega
          rw [if_pos (by omega), hlast, List.getElem?_concat_length]
        · rw [if_neg (by omega), if_neg (by omega)]
      · have hne : k.toNat ≠ (genesis assets company).nextAssetId.toNat :=
          fun h => hk (UInt32.toNat_inj.1 h)
        rw [insertAt, Function.update_of_ne hk, ih]
        by_cases hlow : k.toNat + 1 < 2 ^ 32
        · rw [if_pos hlow, if_pos hlow]
          by_cases hin : k.toNat < assets.length
          · rw [List.getElem?_append_left hin]
          · rw [List.getElem?_eq_none (by omega), List.getElem?_eq_none (by simp; omega)]
        · rw [if_neg hlow, if_neg hlow, if_pos (by omega), if_pos (by omega)]

end Counter

section Runs

variable {is : List Input}

theorem registrations_cons (x : Input) (is : List Input) :
    registrations (x :: is) = registrations is + if Registers x then 1 else 0 := by
  simp [registrations, List.countP_cons]

/-- Every registration of a run finds no asset under the id it takes. -/
def TakesFree (s : State) (is : List Input) : Prop :=
  ∀ e ∈ history step s is, ∀ k, registeredId e.1 e.2 = some k → e.1.assets k = none

theorem registeredId_of_registers {x : Input} (h : Registers x) :
    registeredId s x = some s.nextAssetId := if_pos h.2

/-- No registration overwrites an asset exactly when the assets fit the ids. -/
theorem takesFree_iff (h : Counted s n) (is : List Input) :
    TakesFree s is ↔ registrations is = 0 ∨ n + registrations is ≤ 2 ^ 32 := by
  induction is generalizing s n with
  | nil => simp [TakesFree, registrations]
  | cons x is ih =>
      rw [registrations_cons]
      cases hx : step s x with
      | ok s' =>
          have hrest := ih (h.step hx)
          rw [TakesFree] at hrest ⊢
          rw [history_cons_ok hx, List.forall_mem_cons, hrest]
          by_cases hreg : Registers x
          · simp only [if_pos hreg, registeredId_of_registers hreg, Option.some.injEq,
              forall_eq', h.free_iff]
            omega
          · have hnone : registeredId s x = none := by
              cases idStep_of_step hx with
              | registered hx' => exact absurd hx' hreg
              | kept hcall => rw [registeredId, if_neg (by simp [hcall])]
            simp [if_neg hreg, hnone]
      | error e =>
          have hreg : ¬ Registers x := fun hreg => by
            obtain ⟨s', hs'⟩ := exists_of_registers hreg
            rw [hx] at hs'
            cases hs'
          rw [TakesFree, history_cons_error hx, if_neg hreg, Nat.add_zero]
          exact ih h

/-- An id that is taken stays taken, and a registration takes a free one. -/
theorem idMark : KeyMark step (fun _ => True)
    (fun s x => ∀ k, registeredId s x = some k → s.assets k = none)
    registeredId fun s k => (s.carried k).isSome where
  invariant _ _ _ _ _ _ := trivial
  fresh s x s' k _ hfree _ hk := by
    rw [carried_isSome, hfree k hk]
    decide
  marks s x s' k _ _ hx hk := by
    cases idStep_of_step hx with
    | registered hreg hcarried =>
        obtain rfl : s.nextAssetId = k :=
          Option.some.inj ((registeredId_of_registers hreg).symm.trans hk)
        rw [hcarried, insertAt, Function.update_self, Option.isSome_some]
    | kept hcall =>
        rw [registeredId, if_neg (by simp [hcall])] at hk
        cases hk
  kept s x s' k _ _ hx hmark := by
    cases idStep_of_step hx with
    | registered _ hcarried =>
        by_cases hk : k = s.nextAssetId
        · rw [hcarried, hk, insertAt, Function.update_self, Option.isSome_some]
        · rwa [hcarried, insertAt, Function.update_of_ne hk]
    | kept _ hcarried => rwa [hcarried]

/-- Every asset carries the id that it is stored under. -/
def KeysAgree (s : State) : Prop := ∀ k asset, s.assets k = some asset → asset.assetId = k

theorem keysAgree_iff : KeysAgree s ↔ ∀ k i, s.carried k = some i → i = k := by
  simp only [KeysAgree, State.carried, Option.map_eq_some_iff]
  constructor
  · rintro h k _ ⟨asset, hasset, rfl⟩
    exact h k asset hasset
  · intro h k asset hasset
    exact h k _ ⟨asset, hasset, rfl⟩

theorem KeysAgree.step {x : Input} (h : KeysAgree s) (hx : Registry.step s x = .ok s') :
    KeysAgree s' := by
  rw [keysAgree_iff] at h ⊢
  cases idStep_of_step hx with
  | registered _ hcarried =>
      intro k i hi
      rw [hcarried] at hi
      by_cases hk : k = s.nextAssetId
      · subst hk
        rw [insertAt, Function.update_self] at hi
        exact (Option.some.inj hi).symm
      · rw [insertAt, Function.update_of_ne hk] at hi
        exact h k i hi
  | kept _ hcarried => rwa [hcarried]

theorem KeysAgree.run (h : KeysAgree s) (is : List Input) :
    KeysAgree (Transition.run Registry.step s is) := by
  have hstep (s : State) (x : Input) (s' : State) (_ : List (State × Input)) (hs : KeysAgree s)
      (_ : True) (hx : Registry.step s x = .ok s') : KeysAgree s' := hs.step hx
  exact history_invariant (P := fun s _ => KeysAgree s) hstep s is [] h fun _ _ => trivial

/-- The configured assets carry their index, and one stored under the last id in place of
others carries that. -/
structure GenesisIds (assets : List RWAAsset) : Prop where
  index : ∀ i asset, i + 1 < 2 ^ 32 → assets[i]? = some asset → asset.assetId.toNat = i
  last : 2 ^ 32 ≤ assets.length → ∀ asset, assets.getLast? = some asset →
    asset.assetId.toNat = 2 ^ 32 - 1

theorem keysAgree_genesis_iff : KeysAgree (genesis assets company) ↔ GenesisIds assets := by
  simp only [KeysAgree, genesis_assets]
  constructor
  · intro h
    constructor
    · intro i asset hi hasset
      have hkey : (UInt32.ofNat i).toNat = i := by
        rw [UInt32.toNat_ofNat']
        omega
      rw [h (UInt32.ofNat i) asset (by rwa [hkey, if_pos hi]), hkey]
    · intro hlong asset hasset
      have hkey : (UInt32.ofNat (2 ^ 32 - 1)).toNat = 2 ^ 32 - 1 := by decide
      rw [h (UInt32.ofNat (2 ^ 32 - 1)) asset
        (by rwa [hkey, if_neg (by decide), if_neg (by omega)]), hkey]
  · intro h k asset hasset
    have hlt : k.toNat < 2 ^ 32 := k.toNat_lt
    apply UInt32.toNat_inj.1
    by_cases hlow : k.toNat + 1 < 2 ^ 32
    · rw [if_pos hlow] at hasset
      exact h.index k.toNat asset hlow hasset
    · rw [if_neg hlow] at hasset
      by_cases hshort : assets.length < 2 ^ 32
      · rw [if_pos hshort] at hasset
        cases hasset
      · rw [if_neg hshort] at hasset
        rw [h.last (by omega) asset hasset]
        omega

/-- No call overwrites an asset, each registration takes an id that no other and no
configured asset has, and in every state all assets carry the id they are stored under. -/
structure IdsConsistent (s : State) (is : List Input) : Prop where
  free : TakesFree s is
  nodup : ((history step s is).filterMap fun e => registeredId e.1 e.2).Nodup
  unused : ∀ k ∈ (history step s is).filterMap (fun e => registeredId e.1 e.2), s.assets k = none
  agree : ∀ is', is' <+: is → KeysAgree (run step s is')

/-- A run from a genesis configuration keeps the ids fresh and consistent exactly when the
configured assets carry the ids they get and the registrations fit the counter. -/
theorem idsConsistent_iff (assets : List RWAAsset) (company : Option CompanyInfo)
    (is : List Input) : IdsConsistent (genesis assets company) is ↔
      GenesisIds assets ∧ (registrations is = 0 ∨ assets.length + registrations is ≤ 2 ^ 32) := by
  constructor
  · intro h
    exact ⟨keysAgree_genesis_iff.1 (h.agree [] List.nil_prefix),
      (takesFree_iff (counted_genesis assets company) is).1 h.free⟩
  · rintro ⟨hids, hroom⟩
    have hfree := (takesFree_iff (counted_genesis assets company) is).2 hroom
    obtain ⟨hnodup, hunused⟩ := idMark.nodup_and_fresh (genesis assets company) is trivial hfree
    refine ⟨hfree, hnodup, fun k hk => ?_, fun is' _ => ?_⟩
    · rw [← Option.not_isSome_iff_eq_none, ← carried_isSome]
      exact hunused k hk
    · exact (keysAgree_genesis_iff.2 hids).run is'

/-- An asset that carries the id 7. -/
def misnumbered : RWAAsset where
  assetId := 7
  name := .empty
  description := .empty
  category := .commodity
  usdValueCents := ⟨1, by norm_num⟩
  owner := U8Array.zero 32
  isLocked := true
  isSold := false
  metadata := .empty

/-- A registration by the administrator. -/
def plainRegistration : Input :=
  (.root, .registerAsset (U8Array.zero 32) .empty .empty .commodity misnumbered.usdValueCents
    .empty)

/-- A configured asset that carries another id than its index, and one registration more
than there are ids. -/
theorem ids_reused : (∃ is, ¬ IdsConsistent (genesis [misnumbered] none) is) ∧
    ∃ is, (∀ x ∈ is, x = plainRegistration) ∧ ¬ IdsConsistent (genesis [] none) is := by
  constructor
  · refine ⟨[], fun h => ?_⟩
    have hseven := h.agree [] List.nil_prefix 0 misnumbered rfl
    exact absurd hseven (by decide)
  · refine ⟨List.replicate (2 ^ 32 + 1) plainRegistration, fun x hx => List.eq_of_mem_replicate hx,
      fun h => ?_⟩
    have hcount : registrations (List.replicate (2 ^ 32 + 1) plainRegistration) = 2 ^ 32 + 1 := by
      rw [registrations, List.countP_replicate]
      rfl
    have hroom := (takesFree_iff (counted_genesis [] none) _).1 h.free
    rw [hcount] at hroom
    simp at hroom

end Runs

end NullaRelay.RwaParachain.Registry

import NullaRelay.Foundations.Chunks
import NullaRelay.Foundations.Transition
import NullaRelay.ScanProof.Effects

/-!
# The coin groups over a whole run

The groups are the chunks of the coins registered so far, in order: 1024 coins to a
group, and `coinLocation` names the place of each. A full `u32` of groups takes no
more coins, since the group after the last one is the first, which is full. A group
is padded to a power of two for the verifier.
-/

namespace NullaRelay.ScanProof

open NullaRelay.Frame Transition Chunks Verifier

variable {A L : Type} {T : Config A L} {s s' : State L} {coins : List (U8Array 32)}

/-- The coins that a history registers, in order. -/
def registeredCoins {R : ℕ} (past : List (State L × Extrinsic A R)) : List (U8Array 32) :=
  past.filterMap fun e => e.2.call.newCoin

/-- The groups of the state are the chunks of the coins. -/
structure Grouped (s : State L) (coins : List (U8Array 32)) : Prop where
  nodup : coins.Nodup
  length_le : coins.length ≤ 1024 * 2 ^ 32
  coinGroup : ∀ g, (s.coinGroup g).val = chunk 1024 coins g.toNat
  currentGroup : s.currentGroup.toNat = (coins.length - 1) / 1024
  coinLocation : ∀ c g i,
    s.coinLocation c = some (g, i) ↔ (chunk 1024 coins g.toNat)[i.toNat]? = some c

theorem grouped_genesis (ledger : L) : Grouped (genesis ledger) [] := by
  constructor
  · exact List.nodup_nil
  · simp
  · intro g
    simp [genesis, State.coinGroup, chunk]
  · rfl
  · intro c g i
    simp [genesis, chunk]

theorem Grouped.congr (h : Grouped s coins) (heq : s'.coins = s.coins) : Grouped s' coins := by
  have hgroups : s'.coinGroups = s.coinGroups := congrArg CoinStore.coinGroups heq
  have hcurrent : s'.currentGroup = s.currentGroup := congrArg CoinStore.currentGroup heq
  have hlocation : s'.coinLocation = s.coinLocation := congrArg CoinStore.coinLocation heq
  constructor
  · exact h.nodup
  · exact h.length_le
  · intro g
    rw [State.coinGroup, hgroups]
    exact h.coinGroup g
  · rw [hcurrent]
    exact h.currentGroup
  · intro c g i
    rw [hlocation]
    exact h.coinLocation c g i

/-- The place of a coin as group and index. -/
theorem Grouped.exists_place (h : Grouped s coins) {c : U8Array 32} (hc : c ∈ coins) :
    ∃ g i : UInt32, (chunk 1024 coins g.toNat)[i.toNat]? = some c := by
  obtain ⟨k, i, hk, hget⟩ := exists_getElem?_chunk (n := 1024) (by decide) hc
  have hlen := h.length_le
  have hi : i < 1024 := (getElem?_chunk_eq_some.1 hget).1
  have hk32 : k < 2 ^ 32 := by omega
  have hi32 : i < 2 ^ 32 := by omega
  refine ⟨UInt32.ofNat k, UInt32.ofNat i, ?_⟩
  rwa [UInt32.toNat_ofNat_of_lt' hk32, UInt32.toNat_ofNat_of_lt' hi32]

theorem Grouped.notMem_of_fresh (h : Grouped s coins) {c : U8Array 32}
    (hnew : s.coinLocation c = none) : c ∉ coins := by
  intro hc
  obtain ⟨g, i, hget⟩ := h.exists_place hc
  rw [(h.coinLocation c g i).2 hget] at hnew
  cases hnew

/-- Where the open group has room, its end is the end of the list. -/
theorem Grouped.length_eq (h : Grouped s coins)
    (hroom : (s.coinGroup (openGroup s)).val.length < 1024) :
    coins.length = 1024 * (openGroup s).toNat + (s.coinGroup (openGroup s)).val.length := by
  have hlen := h.length_le
  have hcurrent := h.currentGroup
  have hsize := s.currentGroup.toNat_lt
  rw [h.coinGroup, length_chunk] at hroom ⊢
  unfold openGroup at hroom ⊢
  rw [h.coinGroup, length_chunk] at hroom ⊢
  split_ifs at hroom ⊢ with hfull
  · rw [UInt32.toNat_add, UInt32.toNat_one] at hroom ⊢
    omega
  · omega

/-- A new coin joins the open group. -/
theorem Grouped.joins (h : Grouped s coins) {coin : U8Array 32} (hjoins : Joins s s'.coins coin) :
    Grouped s' (coins ++ [coin]) := by
  obtain ⟨group, hpush, hgroups⟩ := hjoins.coinGroups
  obtain ⟨hroom, hgroup⟩ := BoundedVec.tryPush_eq_some.1 hpush
  have hlen := h.length_eq hroom
  have hcurrent : s'.currentGroup = openGroup s := hjoins.currentGroup
  have hlocation : s'.coinLocation = _ := hjoins.coinLocation
  have hopen := (openGroup s).toNat_lt
  have hnew := h.notMem_of_fresh hjoins.fresh
  have hnodup : (coins ++ [coin]).Nodup := by
    rw [List.nodup_append]
    refine ⟨h.nodup, List.nodup_singleton coin, ?_⟩
    intro c hc c' hc'
    obtain rfl := List.mem_singleton.1 hc'
    rintro rfl
    exact hnew hc
  have hplace : (chunk 1024 (coins ++ [coin])
      (openGroup s).toNat)[(s.coinGroup (openGroup s)).val.length]? = some coin := by
    rw [getElem?_chunk hroom, ← hlen, List.getElem?_concat_length]
  constructor
  · exact hnodup
  · rw [List.length_append, List.length_singleton]
    omega
  · intro g
    have hstored : s'.coinGroups = insertAt s.coinGroups (openGroup s) (some group) := hgroups
    rw [State.coinGroup, hstored]
    by_cases hg : g = openGroup s
    · subst hg
      rw [insertAt, Function.update_self, Option.getD_some, hgroup, h.coinGroup,
        chunk_append_singleton hroom hlen]
    · have hne : g.toNat ≠ (openGroup s).toNat := fun heq => hg (UInt32.toNat_inj.1 heq)
      rw [insertAt, Function.update_of_ne hg, chunk_append_singleton_of_ne hroom hlen hne,
        ← h.coinGroup]
      rfl
  · rw [hcurrent, List.length_append, List.length_singleton]
    omega
  · intro c g i
    rw [hlocation]
    by_cases hc : c = coin
    · subst hc
      rw [insertAt, Function.update_self, Option.some_inj, Prod.mk.injEq]
      have hidx32 : (s.coinGroup (openGroup s)).val.length < 2 ^ 32 := hroom.trans (by decide)
      have hidx := UInt32.toNat_ofNat_of_lt' hidx32
      constructor
      · rintro ⟨rfl, rfl⟩
        rw [hidx]
        exact hplace
      · intro hget
        obtain ⟨hg, hi⟩ := chunk_unique hnodup hplace hget
        exact ⟨UInt32.toNat_inj.1 hg, UInt32.toNat_inj.1 (hidx.trans hi)⟩
    · rw [insertAt, Function.update_of_ne hc, getElem?_chunk_append_singleton hc]
      exact h.coinLocation c g i

theorem Grouped.step (h : Grouped s coins) {x : Extrinsic A T.maxRangeProofSize}
    (hok : apply T s x = .ok s') : Grouped s' (coins ++ x.call.newCoin.toList) := by
  have heff := (apply_effect hok).coins
  cases hcoin : x.call.newCoin with
  | none =>
      rw [hcoin] at heff
      rw [Option.toList_none, List.append_nil]
      exact h.congr heff
  | some coin =>
      rw [hcoin] at heff
      exact h.joins heff

theorem registeredCoins_append_singleton {R : ℕ} (past : List (State L × Extrinsic A R))
    (e : State L × Extrinsic A R) :
    registeredCoins (past ++ [e]) = registeredCoins past ++ e.2.call.newCoin.toList := by
  rw [registeredCoins, List.filterMap_append]
  cases hcoin : e.2.call.newCoin with
  | none => simp [registeredCoins, hcoin]
  | some coin => simp [registeredCoins, hcoin]

/-- The groups after a run, from a state whose groups are the coins of its past. -/
theorem grouped_run {past : List (State L × Extrinsic A T.maxRangeProofSize)}
    (h : Grouped s (registeredCoins past)) (xs : List (Extrinsic A T.maxRangeProofSize)) :
    Grouped (run (apply T) s xs) (registeredCoins (past ++ history (apply T) s xs)) :=
  history_invariant (Q := fun _ _ => True) (P := fun s past => Grouped s (registeredCoins past))
    (fun s x s' past hpast _ (hok : apply T s x = .ok s') => by
      rw [registeredCoins_append_singleton]
      exact hpast.step hok) s xs past h fun _ _ => trivial

section Padding

variable {V : Type} (P : Primitives V)

/-- What `verify` asks of a group: a power of two between 2 and 1024. -/
def WellShaped (group : List (U8Array 32)) : Prop :=
  2 ≤ group.length ∧ group.length = 2 ^ group.length.log2 ∧ group.length ≤ 1024

theorem length_padGroup (group : List (U8Array 32)) (g : UInt32) :
    (OneOfMany.padGroup P group g).length = 2 ^ Nat.clog 2 (max group.length 2) := by
  have hle : max group.length 2 ≤ 2 ^ Nat.clog 2 (max group.length 2) :=
    Nat.le_pow_clog one_lt_two _
  rw [OneOfMany.padGroup, List.length_append, List.length_map, List.length_range,
    nextPowerOfTwo_eq]
  omega

theorem wellShaped_padGroup {group : List (U8Array 32)} (hlen : group.length ≤ 1024)
    (g : UInt32) : WellShaped (OneOfMany.padGroup P group g) := by
  have hpos : 0 < Nat.clog 2 (max group.length 2) :=
    Nat.clog_pos one_lt_two (lt_of_lt_of_le one_lt_two (le_max_right _ _))
  have hten : Nat.clog 2 (max group.length 2) ≤ 10 :=
    Nat.clog_le_of_le_pow (max_le (by simpa using hlen) (by decide))
  rw [WellShaped, length_padGroup, Nat.log2_two_pow]
  refine ⟨?_, rfl, ?_⟩
  · exact Nat.pow_le_pow_right two_pos hpos
  · exact Nat.pow_le_pow_right two_pos hten

/-- The places of the coins of the groups are exact, and each group is well shaped
once it is padded. -/
structure GroupsExact (s : State L) (coins : List (U8Array 32)) : Prop where
  located : ∀ c g i, s.coinLocation c = some (g, i) ↔ (s.coinGroup g).val[i.toNat]? = some c
  placed : ∀ c ∈ coins, ∃! place : UInt32 × ℕ, (s.coinGroup place.1).val[place.2]? = some c
  registered : ∀ g, ∀ c ∈ (s.coinGroup g).val, c ∈ coins
  below : ∀ g < s.currentGroup, (s.coinGroup g).val.length = 1024
  above : ∀ g > s.currentGroup, (s.coinGroup g).val = []
  padded : ∀ g, (s.coinGroup g).val <+: OneOfMany.padGroup P (s.coinGroup g).val g ∧
    WellShaped (OneOfMany.padGroup P (s.coinGroup g).val g)

/-- No coin of the first state is moved or removed in the second. -/
structure CoinsKept (s s' : State L) : Prop where
  groups : ∀ g, (s.coinGroup g).val <+: (s'.coinGroup g).val
  locations : ∀ c place, s.coinLocation c = some place → s'.coinLocation c = some place

theorem Grouped.exact (h : Grouped s coins) : GroupsExact P s coins := by
  have hcurrent := h.currentGroup
  constructor
  · intro c g i
    rw [h.coinGroup]
    exact h.coinLocation c g i
  · intro c hc
    obtain ⟨g, i, hget⟩ := h.exists_place hc
    refine ⟨(g, i.toNat), ?_, ?_⟩
    · simpa only [h.coinGroup] using hget
    · intro place hplace
      simp only [h.coinGroup] at hplace
      obtain ⟨hg, hi⟩ := chunk_unique h.nodup hplace hget
      exact Prod.ext (UInt32.toNat_inj.1 hg) hi
  · intro g c hc
    rw [h.coinGroup] at hc
    exact List.mem_of_mem_drop (List.mem_of_mem_take hc)
  · intro g hg
    have hlt := UInt32.lt_iff_toNat_lt.1 hg
    rw [h.coinGroup, length_chunk]
    omega
  · intro g hg
    have hlt := UInt32.lt_iff_toNat_lt.1 hg
    rw [h.coinGroup, ← List.length_eq_zero_iff, length_chunk]
    omega
  · intro g
    exact ⟨List.prefix_append _ _, wellShaped_padGroup P (s.coinGroup g).property g⟩

theorem Grouped.kept {more : List (U8Array 32)} (h : Grouped s coins)
    (h' : Grouped s' (coins ++ more)) : CoinsKept s s' := by
  constructor
  · intro g
    rw [h.coinGroup, h'.coinGroup]
    exact chunk_prefix 1024 coins more g.toNat
  · intro c place hplace
    have hget := (h.coinLocation c place.1 place.2).1 hplace
    obtain ⟨t, ht⟩ := chunk_prefix 1024 coins more place.1.toNat
    have hlt := (List.getElem?_eq_some_iff.1 hget).1
    refine (h'.coinLocation c place.1 place.2).2 ?_
    rw [← ht, List.getElem?_append_left hlt]
    exact hget

/-- The coin groups after any run from genesis: every coin is in the one place that
its location names, groups below the current one are full and groups above it empty,
and no later call moves or removes a coin. -/
theorem coin_groups_exact (ledger : L) (xs ys : List (Extrinsic A T.maxRangeProofSize)) :
    GroupsExact P (run (apply T) (genesis ledger) xs)
        (registeredCoins (history (apply T) (genesis ledger) xs)) ∧
      CoinsKept (run (apply T) (genesis ledger) xs)
        (run (apply T) (genesis ledger) (xs ++ ys)) := by
  have hxs := @grouped_run A L T _ [] (grouped_genesis ledger) xs
  have hys := grouped_run (T := T) hxs ys
  rw [← run_append, registeredCoins, List.filterMap_append] at hys
  exact ⟨hxs.exact P, hxs.kept hys⟩

end Padding

end NullaRelay.ScanProof

import NullaRelay.Foundations.EventLog
import NullaRelay.ScanProof.CoinGroups

/-!
# Reading the two lanes from the events

A proof for a coin is made over its whole group, so a wallet needs every coin of it in
order, and reads them from the events. A registration announces its coin wherever it is
made, as a deposit or as the change of a purchase: the groups and the places that the
events give are those of the pallet in every state. The note lane is not like that.
Deposits and transfers name the notes that they insert, and a purchase is silent about
its change: the events give the leaves of the tree as long as no purchase left change.
-/

namespace NullaRelay.ScanProof

open NullaRelay.Frame Transition

variable {A L : Type} {T : Config A L} {s s' : State L} {o : Origin A}

/-- A coin as an event announces it. -/
structure CoinNote where
  coin : U8Array 32
  groupId : UInt32
  indexInGroup : UInt32

def Event.coinNote : Event → Option CoinNote
  | .coinDeposited coin groupId indexInGroup => some { coin, groupId, indexInGroup }
  | _ => none

/-- The notes that an event names. -/
def Event.shownNotes : Event → List (U8Array 32)
  | .depositAccepted commitment _ _ => [commitment]
  | .proofAccepted _ _ outputs _ => outputs
  | _ => []

/-- The coins that the events announce, in order. -/
def State.coinNotes (s : State L) : List CoinNote := s.events.filterMap Event.coinNote

/-- The notes that the events name, in order. -/
def State.shownNotes (s : State L) : List (U8Array 32) := s.events.flatMap Event.shownNotes

/-- The group that the announcements give: the coins that are named for it, in order. -/
def groupFrom (notes : List CoinNote) (g : UInt32) : List (U8Array 32) :=
  (notes.filter fun n => n.groupId = g).map CoinNote.coin

/-- The announcement of a coin that joins the open group. -/
def State.joinNote (s : State L) (coin : U8Array 32) : CoinNote where
  coin
  groupId := openGroup s
  indexInGroup := UInt32.ofNat (s.coinGroup (openGroup s)).val.length

def CoinNote.event (n : CoinNote) : Event := .coinDeposited n.coin n.groupId n.indexInGroup

@[simp] theorem CoinNote.event_coinNote (n : CoinNote) : n.event.coinNote = some n := rfl

@[simp] theorem CoinNote.event_shownNotes (n : CoinNote) : n.event.shownNotes = [] := rfl

/-- The call inserts a note that no event names. -/
def Call.HidesNote {R : ℕ} : Call R → Prop
  | .purchaseRwa _ _ _ _ _ _ change | .purchaseAccess _ _ _ _ _ _ change => change.isSome
  | _ => False

/-- The notes of a call, where its event names them. -/
def Call.shownNotes {R : ℕ} : Call R → List (U8Array 32)
  | .purchaseRwa .. | .purchaseAccess .. => []
  | call => call.newNotes.getD []

theorem groupFrom_append_singleton (notes : List CoinNote) (n : CoinNote) (g : UInt32) :
    groupFrom (notes ++ [n]) g = groupFrom notes g ++ if n.groupId = g then [n.coin] else [] := by
  by_cases h : n.groupId = g <;> simp [groupFrom, h]

theorem insertNote_events {c : U8Array 32} (h : insertNote T s c = .ok s') :
    s'.events = s.events := by
  obtain ⟨leaves, -, rfl⟩ := insertNote_eq_ok.1 h
  rfl

theorem insertChange_events {change : Option (U8Array 32)}
    (h : insertChange T s change = .ok s') : s'.events = s.events := by
  cases change with
  | none =>
      obtain rfl : s = s' := by simpa [insertChange] using h
      rfl
  | some c => exact insertNote_events h

theorem payApp_events {cfg : AppConfig} (h : payApp T s cfg = .ok s') :
    s'.events = s.events := by
  obtain ⟨_, -, _, -, rfl⟩ := payApp_eq_ok.1 h
  rfl

theorem registerCoin_events {coin : U8Array 32} (h : registerCoin s coin = .ok s') :
    s'.events = s.events ++ [(s.joinNote coin).event] := by
  obtain ⟨_, -, rfl⟩ := registerCoin_eq_ok.1 h
  rfl

theorem registerNew_events {coin : Option (U8Array 32)} (h : registerNew s coin = .ok s') :
    s'.events = s.events ++ coin.toList.map fun c => (s.joinNote c).event := by
  cases coin with
  | none =>
      obtain rfl : s = s' := Except.ok.inj h
      exact (List.append_nil _).symm
  | some coin => exact registerCoin_events h

theorem spendCoin_events {pi g : List UInt8} {inputs : CoinSpendPublic} {price : UInt64}
    {proof : List UInt8} (h : spendCoin T s pi inputs price proof g = .ok s') :
    s'.events = s.events ++ inputs.newCoin.toList.map fun c => (s.joinNote c).event := by
  obtain ⟨-, -, -, t, ht, rfl⟩ := spendCoin_eq_ok.1 h
  have hevents := registerNew_events ht
  exact hevents

variable (s s') in
/-- The events of a call announce the coin that it adds and the notes that it shows. -/
structure Announces {R : ℕ} (call : Call R) : Prop where
  coins : s'.coinNotes = s.coinNotes ++ call.newCoin.toList.map s.joinNote
  notes : s'.shownNotes = s.shownNotes ++ call.shownNotes

theorem announces_of_events {R : ℕ} {call : Call R} {es : List Event}
    (hevents : s'.events = s.events ++ es)
    (hcoins : es.filterMap Event.coinNote = call.newCoin.toList.map s.joinNote)
    (hnotes : es.flatMap Event.shownNotes = call.shownNotes) : Announces s s' call := by
  constructor
  · rw [State.coinNotes, hevents, List.filterMap_append, hcoins]
    rfl
  · rw [State.shownNotes, hevents, List.flatMap_append, hnotes]
    rfl

/-- A coin spend announces the change coin, and then reports the purchase. -/
theorem announces_of_spend {R : ℕ} {call : Call R} {inputs : CoinSpendPublic} {e : Event}
    (hevents : s'.events =
      s.events ++ (inputs.newCoin.toList.map fun c => (s.joinNote c).event) ++ [e])
    (he : e.coinNote = none ∧ e.shownNotes = []) (hcoin : call.newCoin = inputs.newCoin)
    (hnotes : call.shownNotes = []) : Announces s s' call := by
  rw [List.append_assoc] at hevents
  refine announces_of_events hevents ?_ ?_
  · rw [hcoin]
    cases inputs.newCoin with
    | none => simp [he.1]
    | some c => simp [he.1]
  · rw [hnotes]
    cases inputs.newCoin with
    | none => simp [he.2]
    | some c => simp [he.2]

/-- A call that succeeds announces the coin that it adds and the notes that it shows. -/
theorem dispatch_announces {call : Call T.maxRangeProofSize}
    (h : dispatch T s o call = .ok s') : Announces s s' call := by
  cases call with
  | depositPublic commitment rp hints =>
      obtain ⟨_, -, c, rfl, _, _, -, -, ledger, -, -, t, ht, rfl⟩ := depositPublic_eq_ok.1 h
      have hcopy : copyFromSlice 32 c.toList = some c := copyFromSlice_eq_some.2 rfl
      have hinserted := insertNote_events ht
      refine announces_of_events (congrArg (· ++ _) hinserted) rfl ?_
      simp [Event.shownNotes, Call.shownNotes, Call.newNotes, hcopy]
  | submitProof p rp pi hints =>
      obtain ⟨inputs, leaves, hcheck, -, rfl⟩ := submitProof_of_ok h
      refine announces_of_events rfl rfl ?_
      simp [Event.shownNotes, Call.shownNotes, Call.newNotes, hcheck.decoded]
  | purchaseRwa c p n id tx oc change =>
      obtain ⟨-, -, -, -, -, -, t, ht, rfl⟩ := purchaseRwa_eq_ok.1 h
      have hinserted := insertChange_events ht
      exact announces_of_events (congrArg (· ++ _) hinserted) rfl rfl
  | withdrawPrivate c n p dest v =>
      obtain ⟨-, -, -, -, -, _, -, _, -, rfl⟩ := withdrawPrivate_eq_ok.1 h
      exact announces_of_events rfl rfl rfl
  | setRwaPrice id price =>
      obtain ⟨_, -, hs⟩ := bind_eq_ok.1 h
      cases hs
      exact announces_of_events rfl rfl rfl
  | setAccessConfig id price acc =>
      obtain ⟨_, -, hs⟩ := bind_eq_ok.1 h
      cases hs
      exact announces_of_events rfl rfl rfl
  | purchaseAccess c p n id tx ac change =>
      obtain ⟨-, -, -, cfg, -, -, -, -, t, ht, u, hu, rfl⟩ := purchaseAccess_eq_ok.1 h
      have hinserted := (insertChange_events hu).trans (payApp_events ht)
      exact announces_of_events (congrArg (· ++ _) hinserted) rfl rfl
  | depositCoin coin amount p =>
      obtain ⟨_, -, -, -, ledger, -, ht⟩ := depositCoin_eq_ok.1 h
      have hregistered := registerCoin_events ht
      exact announces_of_events hregistered rfl rfl
  | purchaseCoin pi p g =>
      obtain ⟨-, inputs, hdec, -, -, -, t, ht, rfl⟩ := purchaseCoin_eq_ok.1 h
      have hspent := spendCoin_events ht
      refine announces_of_spend (congrArg (· ++ _) hspent) ⟨rfl, rfl⟩ ?_ rfl
      rw [Call.newCoin, hdec]
      rfl
  | withdrawCoin pi p =>
      obtain ⟨-, inputs, -, -, -, -, _, -, _, -, rfl⟩ := withdrawCoin_eq_ok.1 h
      exact announces_of_events rfl rfl rfl
  | purchaseAccessCoin pi p g =>
      obtain ⟨-, inputs, hdec, -, -, cfg, -, -, t, ht, u, hu, rfl⟩ := purchaseAccessCoin_eq_ok.1 h
      have hspent := (payApp_events hu).trans (spendCoin_events ht)
      refine announces_of_spend (congrArg (· ++ _) hspent) ⟨rfl, rfl⟩ ?_ rfl
      rw [Call.newCoin, hdec]
      rfl

theorem announces_of_apply {x : Extrinsic A T.maxRangeProofSize} (h : apply T s x = .ok s') :
    Announces s s' x.call :=
  dispatch_announces (apply_eq_ok.1 h).2

variable (s) in
/-- The groups and the places of the coins are those that the events give. -/
structure EventsRebuildGroups : Prop where
  groups : ∀ g, (s.coinGroup g).val = groupFrom s.coinNotes g
  locations : ∀ c g i, s.coinLocation c = some (g, i) ↔ ⟨c, g, i⟩ ∈ s.coinNotes

theorem EventsRebuildGroups.congr (h : EventsRebuildGroups s) (hcoins : s'.coins = s.coins)
    (hnotes : s'.coinNotes = s.coinNotes) : EventsRebuildGroups s' := by
  have hgroups : s'.coinGroups = s.coinGroups := congrArg CoinStore.coinGroups hcoins
  have hlocation : s'.coinLocation = s.coinLocation := congrArg CoinStore.coinLocation hcoins
  constructor
  · intro g
    rw [State.coinGroup, hgroups, hnotes]
    exact h.groups g
  · intro c g i
    rw [hlocation, hnotes]
    exact h.locations c g i

/-- A coin without a place has not been announced. -/
theorem EventsRebuildGroups.not_announced (h : EventsRebuildGroups s) {c : U8Array 32}
    (hnew : s.coinLocation c = none) (g i : UInt32) : ⟨c, g, i⟩ ∉ s.coinNotes := by
  intro hmem
  rw [(h.locations c g i).2 hmem] at hnew
  cases hnew

/-- A new coin joins the groups of the state and those of the events alike. -/
theorem EventsRebuildGroups.joins (h : EventsRebuildGroups s) {coin : U8Array 32}
    (hjoins : Joins s s'.coins coin) (hnotes : s'.coinNotes = s.coinNotes ++ [s.joinNote coin]) :
    EventsRebuildGroups s' := by
  obtain ⟨group, hpush, hgroups⟩ := hjoins.coinGroups
  have hgroup := (BoundedVec.tryPush_eq_some.1 hpush).2
  have hstored : s'.coinGroups = insertAt s.coinGroups (openGroup s) (some group) := hgroups
  have hlocation : s'.coinLocation = _ := hjoins.coinLocation
  constructor
  · intro g
    rw [State.coinGroup, hstored, hnotes, groupFrom_append_singleton, ← h.groups]
    by_cases hg : openGroup s = g
    · subst hg
      rw [insertAt, Function.update_self, Option.getD_some, hgroup, State.joinNote, if_pos rfl]
    · rw [insertAt, Function.update_of_ne (Ne.symm hg), State.joinNote, if_neg hg,
        List.append_nil]
      rfl
  · intro c g i
    rw [hlocation, hnotes, List.mem_append, List.mem_singleton, State.joinNote,
      CoinNote.mk.injEq]
    by_cases hc : c = coin
    · subst hc
      rw [insertAt, Function.update_self, Option.some_inj, Prod.mk.injEq]
      constructor
      · rintro ⟨rfl, rfl⟩
        exact .inr ⟨rfl, rfl, rfl⟩
      · rintro (hold | ⟨-, rfl, rfl⟩)
        · exact absurd hold (h.not_announced hjoins.fresh g i)
        · exact ⟨rfl, rfl⟩
    · rw [insertAt, Function.update_of_ne hc, h.locations]
      exact ⟨.inl, fun hmem => hmem.resolve_right fun heq => hc heq.1⟩

theorem EventsRebuildGroups.step (h : EventsRebuildGroups s)
    {x : Extrinsic A T.maxRangeProofSize} (hok : apply T s x = .ok s') :
    EventsRebuildGroups s' := by
  have heff := (apply_effect hok).coins
  have hnotes := (announces_of_apply hok).coins
  cases hcoin : x.call.newCoin with
  | none =>
      rw [hcoin] at heff hnotes
      exact h.congr heff (hnotes.trans (List.append_nil _))
  | some coin =>
      rw [hcoin] at heff hnotes
      exact h.joins heff hnotes

theorem eventsRebuildGroups_run (T : Config A L) (ledger : L)
    (xs : List (Extrinsic A T.maxRangeProofSize)) :
    EventsRebuildGroups (run (apply T) (genesis ledger) xs) := by
  have hstart : EventsRebuildGroups (genesis ledger) := by
    constructor
    · intro g
      simp [genesis, State.coinGroup, State.coinNotes, groupFrom]
    · intro c g i
      simp [genesis, State.coinNotes]
  exact run_invariant (fun s x s' h hok => h.step hok) hstart xs

/-- The coins are announced in the order in which the calls registered them. -/
theorem coinNotes_run (T : Config A L) (ledger : L)
    (xs : List (Extrinsic A T.maxRangeProofSize)) :
    (run (apply T) (genesis ledger) xs).coinNotes.map CoinNote.coin =
      registeredCoins (history (apply T) (genesis ledger) xs) := by
  have hlog := run_log (fun s => s.coinNotes.map CoinNote.coin)
    (fun _ (x : Extrinsic A T.maxRangeProofSize) => x.call.newCoin.toList) (fun s x s' hok => by
      rw [(announces_of_apply (T := T) hok).coins, List.map_append, List.map_map]
      exact congrArg (_ ++ ·) (List.map_id _)) (genesis ledger) xs
  rw [hlog, registeredCoins, List.filterMap_eq_flatMap_toList]
  rfl

theorem leaves_of_apply {x : Extrinsic A T.maxRangeProofSize} (h : apply T s x = .ok s') :
    s'.leaves.val = s.leaves.val ++ (x.call.newNotes.getD []).map (leafHash T) := by
  have heff := (apply_effect h).notes
  cases hnotes : x.call.newNotes with
  | none =>
      rw [hnotes] at heff
      have hleaves : s'.leaves = s.leaves := congrArg NoteStore.leaves heff
      rw [hleaves]
      exact (List.append_nil _).symm
  | some cs =>
      rw [hnotes] at heff
      exact heff.leaves

/-- The leaves of the tree after a run are those of the notes that its calls inserted. -/
theorem leaves_run (T : Config A L) (ledger : L) (xs : List (Extrinsic A T.maxRangeProofSize)) :
    (run (apply T) (genesis ledger) xs).leaves.val =
      ((history (apply T) (genesis ledger) xs).flatMap fun e =>
        e.2.call.newNotes.getD []).map (leafHash T) := by
  have hlog : (run (apply T) (genesis ledger) xs).leaves.val = _ :=
    run_log (fun s => s.leaves.val)
      (fun _ (x : Extrinsic A T.maxRangeProofSize) => (x.call.newNotes.getD []).map (leafHash T))
      (fun _ _ _ hok => leaves_of_apply hok) (genesis ledger) xs
  rw [hlog, List.map_flatMap]
  rfl

theorem shownNotes_run (T : Config A L) (ledger : L)
    (xs : List (Extrinsic A T.maxRangeProofSize)) :
    (run (apply T) (genesis ledger) xs).shownNotes =
      (history (apply T) (genesis ledger) xs).flatMap fun e => e.2.call.shownNotes :=
  run_log State.shownNotes (fun _ (x : Extrinsic A T.maxRangeProofSize) => x.call.shownNotes)
    (fun _ _ _ hok => (announces_of_apply hok).notes) (genesis ledger) xs

theorem shownNotes_of_not_hides {R : ℕ} {call : Call R} (h : ¬ call.HidesNote) :
    call.shownNotes = call.newNotes.getD [] := by
  cases call with
  | purchaseRwa c p n id tx oc change =>
      cases change with
      | none => rfl
      | some cc => exact absurd rfl h
  | purchaseAccess c p n id tx ac change =>
      cases change with
      | none => rfl
      | some cc => exact absurd rfl h
  | _ => rfl

theorem length_shownNotes_lt {R : ℕ} {call : Call R} (h : call.HidesNote) :
    call.shownNotes.length < (call.newNotes.getD []).length := by
  cases call with
  | purchaseRwa c p n id tx oc change =>
      obtain ⟨cc, rfl⟩ := Option.isSome_iff_exists.1 h
      exact Nat.one_pos
  | purchaseAccess c p n id tx ac change =>
      obtain ⟨cc, rfl⟩ := Option.isSome_iff_exists.1 h
      exact Nat.one_pos
  | _ => exact h.elim

theorem shows_history {R : ℕ} (past : List (State L × Extrinsic A R)) :
    Shows (fun e => e.2.call.shownNotes) (fun e => e.2.call.newNotes.getD [])
      (fun e => e.2.call.HidesNote) past :=
  ⟨fun _ _ => shownNotes_of_not_hides, fun _ _ => length_shownNotes_lt⟩

/-- In every run from genesis the events announce the coins in the order in which the
calls registered them and give the groups and places of the pallet; the notes that they
name give the leaves of the tree exactly when no purchase left a change note. -/
theorem events_rebuild_lanes (T : Config A L) (ledger : L)
    (xs : List (Extrinsic A T.maxRangeProofSize)) :
    EventsRebuildGroups (run (apply T) (genesis ledger) xs) ∧
      (run (apply T) (genesis ledger) xs).coinNotes.map CoinNote.coin =
        registeredCoins (history (apply T) (genesis ledger) xs) ∧
      ((run (apply T) (genesis ledger) xs).shownNotes.map (leafHash T) =
          (run (apply T) (genesis ledger) xs).leaves.val ↔
        ∀ e ∈ history (apply T) (genesis ledger) xs, ¬ e.2.call.HidesNote) := by
  have hshows := shows_history (history (apply T) (genesis ledger) xs)
  refine ⟨eventsRebuildGroups_run T ledger xs, coinNotes_run T ledger xs, ?_⟩
  rw [leaves_run, shownNotes_run]
  constructor
  · intro heq
    have hlen := congrArg List.length heq
    rw [List.length_map, List.length_map] at hlen
    exact hshows.not_hides hlen
  · intro hvisible
    rw [hshows.flatMap_eq hvisible]

end NullaRelay.ScanProof

import Mathlib.Data.List.Nodup

/-!
# Runs of a fallible step function

A step function `step : σ → ι → Except ε σ` either fails, and then the state
stays as it was, or returns the next state. `run` folds it over a list of
inputs, and `history` keeps the inputs that succeeded, each with the state it
was applied to. Two induction rules are packaged here: an invariant of the
state, which may also speak about the history so far, and the one-time-key
rule, which says that keys guarded by a monotone "used" predicate occur at most
once in a whole history.
-/

namespace NullaRelay.Transition

variable {σ ι ε κ : Type*}

/-- The state after one input: a failing step changes nothing. -/
def next (step : σ → ι → Except ε σ) (s : σ) (i : ι) : σ :=
  match step s i with
  | .ok s' => s'
  | .error _ => s

/-- The state after a list of inputs. -/
def run (step : σ → ι → Except ε σ) : σ → List ι → σ
  | s, [] => s
  | s, i :: is => run step (next step s i) is

/-- The inputs that succeeded, in order, each with the state before it. -/
def history (step : σ → ι → Except ε σ) : σ → List ι → List (σ × ι)
  | _, [] => []
  | s, i :: is =>
      match step s i with
      | .ok s' => (s, i) :: history step s' is
      | .error _ => history step s is

@[simp] theorem run_nil (step : σ → ι → Except ε σ) (s : σ) :
    run step s [] = s := rfl

theorem run_cons (step : σ → ι → Except ε σ) (s : σ) (i : ι) (is : List ι) :
    run step s (i :: is) = run step (next step s i) is := rfl

theorem next_ok {step : σ → ι → Except ε σ} {s s' : σ} {i : ι}
    (h : step s i = .ok s') : next step s i = s' := by
  simp [next, h]

theorem next_error {step : σ → ι → Except ε σ} {s : σ} {i : ι} {e : ε}
    (h : step s i = .error e) : next step s i = s := by
  simp [next, h]

@[simp] theorem history_nil (step : σ → ι → Except ε σ) (s : σ) :
    history step s [] = [] := rfl

theorem history_cons_ok {step : σ → ι → Except ε σ} {s s' : σ} {i : ι}
    (h : step s i = .ok s') (is : List ι) :
    history step s (i :: is) = (s, i) :: history step s' is := by
  simp [history, h]

theorem history_cons_error {step : σ → ι → Except ε σ} {s : σ} {i : ι} {e : ε}
    (h : step s i = .error e) (is : List ι) :
    history step s (i :: is) = history step s is := by
  simp [history, h]

theorem mem_of_mem_history {step : σ → ι → Except ε σ} :
    ∀ {s : σ} {is : List ι} {e : σ × ι}, e ∈ history step s is → e.2 ∈ is
  | s, [], e, he => by simp at he
  | s, i :: is, e, he => by
      cases hs : step s i with
      | ok s' =>
          rw [history_cons_ok hs, List.mem_cons] at he
          rcases he with rfl | he
          · simp
          · exact List.mem_cons_of_mem i (mem_of_mem_history he)
      | error err =>
          rw [history_cons_error hs] at he
          exact List.mem_cons_of_mem i (mem_of_mem_history he)

theorem ok_of_mem_history {step : σ → ι → Except ε σ} :
    ∀ {s : σ} {is : List ι} {e : σ × ι}, e ∈ history step s is → ∃ s', step e.1 e.2 = .ok s'
  | s, [], e, he => by simp at he
  | s, i :: is, e, he => by
      cases hs : step s i with
      | ok s' =>
          rw [history_cons_ok hs, List.mem_cons] at he
          rcases he with rfl | he
          · exact ⟨s', hs⟩
          · exact ok_of_mem_history he
      | error err =>
          rw [history_cons_error hs] at he
          exact ok_of_mem_history he

theorem run_append (step : σ → ι → Except ε σ) (s : σ) (is js : List ι) :
    run step s (is ++ js) = run step (run step s is) js := by
  induction is generalizing s with
  | nil => rfl
  | cons i is ih => exact ih (next step s i)

theorem history_append (step : σ → ι → Except ε σ) (s : σ) (is js : List ι) :
    history step s (is ++ js) = history step s is ++ history step (run step s is) js := by
  induction is generalizing s with
  | nil => rfl
  | cons i is ih =>
      rw [List.cons_append, run_cons]
      cases hs : step s i with
      | ok s' => rw [history_cons_ok hs, history_cons_ok hs, next_ok hs, ih, List.cons_append]
      | error e => rw [history_cons_error hs, history_cons_error hs, next_error hs, ih]

/-- An invariant of the state and of the history so far. The step hypothesis
sees only the inputs that succeeded, and of these only the ones in `Q`. -/
theorem history_invariant {step : σ → ι → Except ε σ} {Q : σ → ι → Prop}
    {P : σ → List (σ × ι) → Prop}
    (hstep : ∀ s i s' past, P s past → Q s i → step s i = .ok s' →
      P s' (past ++ [(s, i)])) :
    ∀ (s : σ) (is : List ι) (past : List (σ × ι)), P s past →
      (∀ e ∈ history step s is, Q e.1 e.2) →
      P (run step s is) (past ++ history step s is)
  | s, [], past, h, _ => by simpa using h
  | s, i :: is, past, h, hQ => by
      cases hs : step s i with
      | ok s' =>
          rw [history_cons_ok hs] at hQ ⊢
          have hhead : Q s i := hQ (s, i) (by simp)
          have h' := hstep s i s' past h hhead hs
          have ih := history_invariant hstep s' is (past ++ [(s, i)]) h'
            fun e he => hQ e (by simp [he])
          rw [run_cons, next_ok hs]
          simpa using ih
      | error e =>
          rw [history_cons_error hs] at hQ ⊢
          rw [run_cons, next_error hs]
          exact history_invariant hstep s is past h hQ

/-- Each input of the history was applied to a state that an invariant holds
of. -/
theorem history_forall {step : σ → ι → Except ε σ} {P : σ → Prop}
    (hstep : ∀ s i s', P s → step s i = .ok s' → P s') :
    ∀ (s : σ) (is : List ι), P s → ∀ e ∈ history step s is, P e.1
  | s, [], _, e, he => by simp at he
  | s, i :: is, h, e, he => by
      cases hs : step s i with
      | ok s' =>
          rw [history_cons_ok hs] at he
          rcases List.mem_cons.1 he with rfl | he
          · exact h
          · exact history_forall hstep s' is (hstep s i s' h hs) e he
      | error err =>
          rw [history_cons_error hs] at he
          exact history_forall hstep s is h e he

/-- What every step keeps, a run keeps. -/
theorem run_invariant {step : σ → ι → Except ε σ} {P : σ → Prop}
    (hstep : ∀ s i s', P s → step s i = .ok s' → P s') {s : σ} (h : P s) (is : List ι) :
    P (run step s is) := by
  induction is generalizing s with
  | nil => exact h
  | cons i is ih =>
      rw [run_cons]
      cases hs : step s i with
      | ok s' =>
          rw [next_ok hs]
          exact ih (hstep s i s' h hs)
      | error e =>
          rw [next_error hs]
          exact ih h

/-- A part of the state that follows steps of its own, at its own inputs, runs like a
machine that is alone. -/
theorem run_part {τ ι' ε' : Type*} {step : σ → ι → Except ε σ} {alone : τ → ι' → Except ε' τ}
    (part : σ → τ) (own : ι → Option ι')
    (hstep : ∀ s i, part (next step s i) = (own i).elim (part s) (next alone (part s)))
    (s : σ) (is : List ι) : part (run step s is) = run alone (part s) (is.filterMap own) := by
  induction is generalizing s with
  | nil => rfl
  | cons i is ih =>
      rw [run_cons, ih, hstep]
      cases hi : own i with
      | none => rw [List.filterMap_cons_none hi, Option.elim_none]
      | some j => rw [List.filterMap_cons_some hi, run_cons, Option.elim_some]

/-- A stricter step function runs like the other one, as long as it accepts all that
the other accepts on the way. -/
theorem history_of_stricter {step strict : σ → ι → Except ε σ} {Q : σ → ι → Prop}
    (hstrict : ∀ s i s', strict s i = .ok s' ↔ step s i = .ok s' ∧ Q s i) :
    ∀ (s : σ) (is : List ι), (∀ e ∈ history step s is, Q e.1 e.2) →
      history strict s is = history step s is ∧ run strict s is = run step s is
  | s, [], _ => ⟨rfl, rfl⟩
  | s, i :: is, hQ => by
      rw [run_cons, run_cons]
      cases hs : step s i with
      | ok s' =>
          rw [history_cons_ok hs] at hQ ⊢
          have hs' := (hstrict s i s').2 ⟨hs, hQ (s, i) List.mem_cons_self⟩
          obtain ⟨hhistory, hrun⟩ := history_of_stricter hstrict s' is
            fun e he => hQ e (List.mem_cons_of_mem _ he)
          rw [history_cons_ok hs', next_ok hs, next_ok hs', hhistory, hrun]
          exact ⟨rfl, rfl⟩
      | error e =>
          rw [history_cons_error hs] at hQ ⊢
          obtain ⟨e', hs'⟩ : ∃ e', strict s i = .error e' := by
            cases hs' : strict s i with
            | error e' => exact ⟨e', rfl⟩
            | ok s' =>
                have hok := ((hstrict s i s').1 hs').1
                rw [hs] at hok
                cases hok
          rw [history_cons_error hs', next_error hs, next_error hs']
          exact history_of_stricter hstrict s is hQ

/-- `keys` are the one-time keys of an input and `used` marks the spent ones.
The guard of an accepted input (in `Q`) sees only fresh keys, marks them, and
no step ever clears a mark. -/
structure KeyGuard (step : σ → ι → Except ε σ) (Q : σ → ι → Prop)
    (keys : σ → ι → List κ) (used : σ → κ → Prop) : Prop where
  nodup : ∀ s i s', Q s i → step s i = .ok s' → (keys s i).Nodup
  fresh : ∀ s i s', Q s i → step s i = .ok s' → ∀ k ∈ keys s i, ¬ used s k
  marked : ∀ s i s', Q s i → step s i = .ok s' → ∀ k ∈ keys s i, used s' k
  kept : ∀ s i s' k, step s i = .ok s' → used s k → used s' k

namespace KeyGuard

variable {step : σ → ι → Except ε σ} {Q : σ → ι → Prop}
  {keys : σ → ι → List κ} {used : σ → κ → Prop}

/-- A key that is used already never occurs later in a history. -/
theorem not_used_of_mem (g : KeyGuard step Q keys used) :
    ∀ (s : σ) (is : List ι), (∀ e ∈ history step s is, Q e.1 e.2) →
      ∀ k ∈ (history step s is).flatMap (fun e => keys e.1 e.2), ¬ used s k
  | s, [], _, k, hk => by simp at hk
  | s, i :: is, hQ, k, hk => by
      cases hs : step s i with
      | ok s' =>
          rw [history_cons_ok hs] at hQ hk
          rw [List.flatMap_cons, List.mem_append] at hk
          rcases hk with hk | hk
          · exact g.fresh s i s' (hQ (s, i) (by simp)) hs k hk
          · intro hused
            exact not_used_of_mem g s' is (fun e he => hQ e (by simp [he])) k hk
              (g.kept s i s' k hs hused)
      | error e =>
          rw [history_cons_error hs] at hQ hk
          exact not_used_of_mem g s is hQ k hk

/-- The one-time-key rule: over a whole history every key occurs at most
once. -/
theorem nodup_history (g : KeyGuard step Q keys used) :
    ∀ (s : σ) (is : List ι), (∀ e ∈ history step s is, Q e.1 e.2) →
      ((history step s is).flatMap fun e => keys e.1 e.2).Nodup
  | s, [], _ => by simp
  | s, i :: is, hQ => by
      cases hs : step s i with
      | ok s' =>
          rw [history_cons_ok hs] at hQ ⊢
          have hhead : Q s i := hQ (s, i) (by simp)
          have htail : ∀ e ∈ history step s' is, Q e.1 e.2 :=
            fun e he => hQ e (by simp [he])
          rw [List.flatMap_cons, List.nodup_append]
          refine ⟨g.nodup s i s' hhead hs, nodup_history g s' is htail, ?_⟩
          rintro k hk _ hk' rfl
          exact g.not_used_of_mem s' is htail k hk' (g.marked s i s' hhead hs k hk)
      | error e =>
          rw [history_cons_error hs] at hQ ⊢
          exact nodup_history g s is hQ

/-- The guard where a step marks exactly the keys of its input. -/
theorem of_used_iff (hnodup : ∀ s i s', step s i = .ok s' → (keys s i).Nodup)
    (hfresh : ∀ s i s', step s i = .ok s' → ∀ k ∈ keys s i, ¬ used s k)
    (hused : ∀ s i s' k, step s i = .ok s' → (used s' k ↔ used s k ∨ k ∈ keys s i)) :
    KeyGuard step Q keys used where
  nodup s i s' _ h := hnodup s i s' h
  fresh s i s' _ h := hfresh s i s' h
  marked s i s' _ h k hk := (hused s i s' k h).2 (.inr hk)
  kept s i s' k h hk := (hused s i s' k h).2 (.inl hk)

/-- Two inputs with the same keys go through only if they have none. -/
theorem repeated_keys (g : KeyGuard step Q keys used) (s : σ) (is : List ι)
    (hQ : ∀ e ∈ history step s is, Q e.1 e.2) :
    (history step s is).Pairwise fun e e' => keys e.1 e.2 = keys e'.1 e'.2 → keys e.1 e.2 = [] := by
  refine (List.nodup_flatMap.1 (g.nodup_history s is hQ)).2.imp fun {e e'} hdisj heq => ?_
  refine List.eq_nil_iff_forall_not_mem.2 fun k hk => ?_
  have hk' : k ∈ keys e'.1 e'.2 := heq ▸ hk
  exact hdisj hk hk'

/-- Keys of two kinds, each guarded by its own marks, are guarded together. -/
theorem sum {κ' : Type*} {keys' : σ → ι → List κ'} {used' : σ → κ' → Prop}
    (g : KeyGuard step Q keys used) (g' : KeyGuard step Q keys' used') :
    KeyGuard step Q (fun s i => (keys s i).map Sum.inl ++ (keys' s i).map Sum.inr)
      (fun s => Sum.elim (used s) (used' s)) where
  nodup s i s' hQ h := by
    refine List.nodup_append.2 ⟨?_, ?_, ?_⟩
    · exact (g.nodup s i s' hQ h).map fun _ _ => Sum.inl.inj
    · exact (g'.nodup s i s' hQ h).map fun _ _ => Sum.inr.inj
    · simp
  fresh s i s' hQ h k hk := by
    cases k with
    | inl k => exact g.fresh s i s' hQ h k (by simpa using hk)
    | inr k => exact g'.fresh s i s' hQ h k (by simpa using hk)
  marked s i s' hQ h k hk := by
    cases k with
    | inl k => exact g.marked s i s' hQ h k (by simpa using hk)
    | inr k => exact g'.marked s i s' hQ h k (by simpa using hk)
  kept s i s' k h hk := by
    cases k with
    | inl k => exact g.kept s i s' k h hk
    | inr k => exact g'.kept s i s' k h hk

end KeyGuard

/-- A one-time key under an invariant: of the accepted inputs (in `Q`) in states of
`J`, each sees its key unmarked and marks it, and none clears a mark. -/
structure KeyMark (step : σ → ι → Except ε σ) (J : σ → Prop) (Q : σ → ι → Prop)
    (key : σ → ι → Option κ) (marked : σ → κ → Prop) : Prop where
  invariant : ∀ s i s', J s → Q s i → step s i = .ok s' → J s'
  fresh : ∀ s i s' k, J s → Q s i → step s i = .ok s' → key s i = some k → ¬ marked s k
  marks : ∀ s i s' k, J s → Q s i → step s i = .ok s' → key s i = some k → marked s' k
  kept : ∀ s i s' k, J s → Q s i → step s i = .ok s' → marked s k → marked s' k

namespace KeyMark

variable {step : σ → ι → Except ε σ} {J : σ → Prop} {Q : σ → ι → Prop}
  {key : σ → ι → Option κ} {marked : σ → κ → Prop}

/-- Over a whole history every key occurs at most once, and none that was marked at
its start. -/
theorem nodup_and_fresh (g : KeyMark step J Q key marked) :
    ∀ (s : σ) (is : List ι), J s → (∀ e ∈ history step s is, Q e.1 e.2) →
      ((history step s is).filterMap fun e => key e.1 e.2).Nodup ∧
        ∀ k ∈ (history step s is).filterMap (fun e => key e.1 e.2), ¬ marked s k
  | s, [], _, _ => by simp
  | s, i :: is, hJ, hQ => by
      cases hs : step s i with
      | ok s' =>
          rw [history_cons_ok hs] at hQ ⊢
          have hhead : Q s i := hQ (s, i) (by simp)
          obtain ⟨hnodup, hfresh⟩ := g.nodup_and_fresh s' is (g.invariant s i s' hJ hhead hs)
            fun e he => hQ e (by simp [he])
          have hlater : ∀ k ∈ (history step s' is).filterMap (fun e => key e.1 e.2),
              ¬ marked s k :=
            fun k hk hused => hfresh k hk (g.kept s i s' k hJ hhead hs hused)
          cases hkey : key s i with
          | none =>
              rw [List.filterMap_cons_none (by exact hkey)]
              exact ⟨hnodup, hlater⟩
          | some k =>
              rw [List.filterMap_cons_some (by exact hkey), List.nodup_cons]
              have hmarks := g.marks s i s' k hJ hhead hs hkey
              refine ⟨⟨fun hk => hfresh k hk hmarks, hnodup⟩, fun k' hk' => ?_⟩
              rcases List.mem_cons.1 hk' with rfl | hk'
              · exact g.fresh s i s' k' hJ hhead hs hkey
              · exact hlater k' hk'
      | error e =>
          rw [history_cons_error hs] at hQ ⊢
          exact g.nodup_and_fresh s is hJ hQ

theorem nodup_history (g : KeyMark step J Q key marked) {s : σ} {is : List ι} (hJ : J s)
    (hQ : ∀ e ∈ history step s is, Q e.1 e.2) :
    ((history step s is).filterMap fun e => key e.1 e.2).Nodup :=
  (g.nodup_and_fresh s is hJ hQ).1

end KeyMark

/-- What every entry of a history has to do with the entries before it, entry by
entry. -/
theorem past_append_singleton {τ : Type*} {R : List τ → τ → Prop} {h : List τ}
    (hh : ∀ past e later, h = past ++ e :: later → R past e) {e : τ} (he : R h e) :
    ∀ past e' later, h ++ [e] = past ++ e' :: later → R past e' := by
  intro past e' later hsplit
  rcases List.eq_nil_or_concat later with rfl | ⟨later, last, rfl⟩
  · obtain ⟨rfl, hlast⟩ := List.append_inj' hsplit rfl
    obtain rfl := List.singleton_inj.1 hlast
    exact he
  · rw [List.concat_eq_append, ← List.cons_append, ← List.append_assoc] at hsplit
    obtain ⟨rfl, -⟩ := List.append_inj' hsplit rfl
    exact hh past e' later rfl

end NullaRelay.Transition

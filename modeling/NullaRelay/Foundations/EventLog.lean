import Mathlib.Algebra.Order.BigOperators.Group.List
import Mathlib.Algebra.Order.Ring.Nat
import NullaRelay.Foundations.Transition

/-!
# Logs

A log that the steps of a run extend holds what each accepted step adds to it. Where
some entries show less than there is, the log is as long as the whole only if no entry
is one of those.
-/

namespace NullaRelay.Transition

variable {σ ι ε α β : Type*}

/-- A log that each step extends holds, after a run, what the history added. -/
theorem run_log {step : σ → ι → Except ε σ} (log : σ → List α) (out : σ → ι → List α)
    (hstep : ∀ s i s', step s i = .ok s' → log s' = log s ++ out s i)
    (s : σ) (is : List ι) :
    log (run step s is) = log s ++ (history step s is).flatMap fun e => out e.1 e.2 := by
  induction is generalizing s with
  | nil => simp
  | cons i is ih =>
      rw [run_cons]
      cases hs : step s i with
      | ok s' =>
          rw [next_ok hs, history_cons_ok hs, List.flatMap_cons, ih, hstep s i s' hs,
            List.append_assoc]
      | error e => rw [next_error hs, history_cons_error hs, ih]

/-- What is shown of each entry of a history: all that belongs to it, and less where it
hides a part. -/
structure Shows (shown whole : α → List β) (Hides : α → Prop) (l : List α) : Prop where
  all : ∀ a ∈ l, ¬ Hides a → shown a = whole a
  less : ∀ a ∈ l, Hides a → (shown a).length < (whole a).length

variable {shown whole : α → List β} {Hides : α → Prop} {l : List α}

theorem Shows.entry_le (h : Shows shown whole Hides l) {a : α} (ha : a ∈ l) :
    (shown a).length ≤ (whole a).length := by
  by_cases hhides : Hides a
  · exact (h.less a ha hhides).le
  · exact (congrArg List.length (h.all a ha hhides)).le

theorem Shows.length_le (h : Shows shown whole Hides l) :
    (l.flatMap shown).length ≤ (l.flatMap whole).length := by
  rw [List.length_flatMap, List.length_flatMap]
  exact List.sum_le_sum fun a ha => h.entry_le ha

/-- Where no entry hides anything, all is shown. -/
theorem Shows.flatMap_eq (h : Shows shown whole Hides l) (hnone : ∀ a ∈ l, ¬ Hides a) :
    l.flatMap shown = l.flatMap whole :=
  List.flatMap_congr fun a ha => h.all a ha (hnone a ha)

/-- One entry that hides a part leaves the shown list shorter. -/
theorem Shows.not_hides (h : Shows shown whole Hides l)
    (hlen : (l.flatMap shown).length = (l.flatMap whole).length) : ∀ a ∈ l, ¬ Hides a := by
  intro a ha hhides
  have hshort := List.sum_lt_sum (fun a => (shown a).length) (fun a => (whole a).length)
    (fun a ha => h.entry_le ha) ⟨a, ha, h.less a ha hhides⟩
  rw [List.length_flatMap, List.length_flatMap] at hlen
  exact hshort.ne hlen

end NullaRelay.Transition

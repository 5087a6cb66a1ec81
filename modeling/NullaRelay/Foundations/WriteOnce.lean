import Mathlib.Data.List.Nodup
import Mathlib.Logic.Function.Basic

/-!
# Tables with two write policies

A log of entries, each a key with its value, fills a table. Where the table
overwrites, the last entry under a key stands; where it writes once, the first
one does. Every entry of a log is found in a write-once table exactly when the
log is consistent, and the two tables agree when no key is logged twice.
-/

namespace NullaRelay.WriteOnce

variable {κ ν : Type*} [DecidableEq κ]

/-- The key gets the value, whatever it had. -/
def overwrite (m : κ → Option ν) (e : κ × ν) : κ → Option ν :=
  Function.update m e.1 (some e.2)

/-- The key gets the value unless it has one. -/
def writeOnce (m : κ → Option ν) (e : κ × ν) : κ → Option ν :=
  if m e.1 = none then Function.update m e.1 (some e.2) else m

/-- Entries under one key carry one value. -/
def Consistent (l : List (κ × ν)) : Prop :=
  ∀ e ∈ l, ∀ e' ∈ l, e.1 = e'.1 → e.2 = e'.2

theorem overwrite_apply (m : κ → Option ν) (e : κ × ν) (k : κ) :
    overwrite m e k = if k = e.1 then some e.2 else m k := Function.update_apply ..

theorem writeOnce_apply (m : κ → Option ν) (e : κ × ν) (k : κ) :
    writeOnce m e k = (m k).or (if k = e.1 then some e.2 else none) := by
  unfold writeOnce
  split_ifs with hnone hk hk
  · subst hk
    simp [hnone]
  · simp [Function.update_of_ne hk]
  · subst hk
    obtain ⟨v, hv⟩ := Option.ne_none_iff_exists'.1 hnone
    simp [hv]
  · simp

/-- The last entry under a key stands. -/
theorem foldl_overwrite_apply (m : κ → Option ν) (l : List (κ × ν)) (k : κ) :
    l.foldl overwrite m k = (l.reverse.lookup k).or (m k) := by
  induction l generalizing m with
  | nil => simp
  | cons e l ih =>
      obtain ⟨key, v⟩ := e
      rw [List.foldl_cons, ih, List.reverse_cons, List.lookup_append, Option.or_assoc,
        overwrite_apply, List.lookup_cons, List.lookup_nil]
      by_cases hk : k = key
      · simp [hk]
      · have hne : (k == key) = false := beq_false_of_ne hk
        simp [hk, hne]

/-- The first entry under a key stands. -/
theorem foldl_writeOnce_apply (m : κ → Option ν) (l : List (κ × ν)) (k : κ) :
    l.foldl writeOnce m k = (m k).or (l.lookup k) := by
  induction l generalizing m with
  | nil => simp
  | cons e l ih =>
      obtain ⟨key, v⟩ := e
      rw [List.foldl_cons, ih, writeOnce_apply, Option.or_assoc, List.lookup_cons]
      by_cases hk : k = key
      · simp [hk]
      · have hne : (k == key) = false := beq_false_of_ne hk
        simp [hk, hne]

theorem mem_of_lookup_eq_some {l : List (κ × ν)} {k : κ} {v : ν} (h : l.lookup k = some v) :
    (k, v) ∈ l := by
  obtain ⟨l₁, l₂, rfl, -⟩ := List.lookup_eq_some_iff.1 h
  simp

theorem lookup_of_mem {l : List (κ × ν)} (hl : Consistent l) {e : κ × ν} (he : e ∈ l) :
    l.lookup e.1 = some e.2 := by
  have hsome : (l.lookup e.1).isSome := List.lookup_isSome_iff.2 ⟨e, he, by simp⟩
  obtain ⟨v, hv⟩ := Option.isSome_iff_exists.1 hsome
  rw [hv, hl _ he _ (mem_of_lookup_eq_some hv) rfl]

/-- A write-once table keeps every entry of its log exactly when the log is
consistent. -/
theorem writeOnce_keeps_iff (l : List (κ × ν)) :
    (∀ e ∈ l, l.foldl writeOnce (fun _ => none) e.1 = some e.2) ↔ Consistent l := by
  constructor
  · intro h e he e' he' hkey
    have hfound := h e he
    rw [hkey, h e' he'] at hfound
    exact (Option.some.inj hfound).symm
  · intro hl e he
    rw [foldl_writeOnce_apply]
    exact lookup_of_mem hl he

omit [DecidableEq κ] in
theorem consistent_of_nodup {l : List (κ × ν)} (hl : (l.map Prod.fst).Nodup) : Consistent l := by
  intro e he e' he' hkey
  rw [List.inj_on_of_nodup_map hl he he' hkey]

omit [DecidableEq κ] in
theorem Consistent.of_mem_iff {l l' : List (κ × ν)} (h : ∀ e, e ∈ l ↔ e ∈ l')
    (hl : Consistent l) : Consistent l' :=
  fun e he e' he' => hl e ((h e).2 he) e' ((h e').2 he')

/-- The entries of a consistent log are the entries of its write-once table, -/
theorem foldl_writeOnce_eq_some {l : List (κ × ν)} (hl : Consistent l) {k : κ} {v : ν} :
    l.foldl writeOnce (fun _ => none) k = some v ↔ (k, v) ∈ l := by
  rw [foldl_writeOnce_apply, Option.none_or]
  exact ⟨mem_of_lookup_eq_some, fun hmem => lookup_of_mem hl hmem⟩

/-- and those of the table that it overwrites. -/
theorem foldl_overwrite_eq_some {l : List (κ × ν)} (hl : Consistent l) {k : κ} {v : ν} :
    l.foldl overwrite (fun _ => none) k = some v ↔ (k, v) ∈ l := by
  have hrev : Consistent l.reverse := hl.of_mem_iff fun e => List.mem_reverse.symm
  rw [foldl_overwrite_apply, Option.or_none, ← List.mem_reverse]
  exact ⟨mem_of_lookup_eq_some, fun hmem => lookup_of_mem hrev hmem⟩

end NullaRelay.WriteOnce

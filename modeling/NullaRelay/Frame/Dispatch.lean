import NullaRelay.Foundations.LittleEndian
import Mathlib.Logic.Function.Basic
import Mathlib.Data.Finset.Basic

/-!
# Dispatching a pallet call

The part of the runtime framework that every pallet here stands on: origins and
their checks, the errors of a dispatched call, bounded vectors and the currency.
A call is an `Except` computation on the pallet's storage; a call that fails
leaves no trace, because the framework rolls its storage layer back.
-/

namespace NullaRelay.Frame

variable {α β ε A L E : Type}

/-- Who sent a call. -/
inductive Origin (A : Type)
  | signed (who : A)
  | none
  | root
  deriving DecidableEq, Repr

/-- Why a call failed: an error of the pallet, a wrong origin, an error of the
currency, or a trap (the runtime code panicked). -/
inductive DispatchError (E : Type)
  | module (error : E)
  | badOrigin
  | token
  | trap
  deriving DecidableEq, Repr

/-- The error of a pallet called by another, in the caller's error type. -/
def DispatchError.map {E' : Type} (f : E → E') : DispatchError E → DispatchError E'
  | .module e => .module (f e)
  | .badOrigin => .badOrigin
  | .token => .token
  | .trap => .trap

/-- A condition on the entries of a list is decided entry by entry, also where
the type of the entries is finite. -/
instance (priority := high) decidableForallMemList {p : α → Prop} [DecidablePred p]
    (l : List α) : Decidable (∀ a ∈ l, p a) := List.decidableBAll p l

instance (priority := high) decidableForallMemOption {p : α → Prop} [DecidablePred p]
    (o : Option α) : Decidable (∀ a ∈ o, p a) := Option.decidableForallMem o

/-- `ensure!(condition, error)`. -/
def ensure (condition : Prop) [Decidable condition] (error : ε) : Except ε Unit :=
  if condition then .ok () else .error error

/-- `option.ok_or(error)?`. -/
def okOr (value : Option α) (error : ε) : Except ε α :=
  match value with
  | some a => .ok a
  | none => .error error

def ensureSigned : Origin A → Except (DispatchError E) A
  | .signed who => .ok who
  | _ => .error .badOrigin

def ensureNone : Origin A → Except (DispatchError E) Unit
  | .none => .ok ()
  | _ => .error .badOrigin

def ensureRoot : Origin A → Except (DispatchError E) Unit
  | .root => .ok ()
  | _ => .error .badOrigin

@[simp] theorem bind_eq_ok {x : Except ε α} {f : α → Except ε β} {b : β} :
    (x >>= f) = .ok b ↔ ∃ a, x = .ok a ∧ f a = .ok b := by
  cases x <;> simp [bind, Except.bind]

@[simp] theorem pure_eq_ok {a b : α} : (pure a : Except ε α) = .ok b ↔ a = b := by
  simp [pure, Except.pure]

@[simp] theorem map_eq_ok {x : Except ε α} {f : α → β} {b : β} :
    (f <$> x) = .ok b ↔ ∃ a, x = .ok a ∧ f a = b := by
  cases x <;> simp [Functor.map, Except.map]

theorem mapM_eq_ok {as : List α} {f : α → Except ε β} {bs : List β} :
    as.mapM f = .ok bs ↔ List.Forall₂ (fun a b => f a = .ok b) as bs := by
  induction as generalizing bs with
  | nil => cases bs <;> simp
  | cons a as ih =>
      cases bs with
      | nil => simp [List.mapM_cons]
      | cons b bs => simp [List.mapM_cons, ih]

theorem exists_mapM_eq_ok {as : List α} {f : α → Except ε β} (h : ∀ a ∈ as, ∃ b, f a = .ok b) :
    ∃ bs, as.mapM f = .ok bs := by
  induction as with
  | nil => exact ⟨[], rfl⟩
  | cons a as ih =>
      obtain ⟨b, hb⟩ := h a List.mem_cons_self
      obtain ⟨bs, hbs⟩ := ih fun a' ha' => h a' (List.mem_cons_of_mem a ha')
      exact ⟨b :: bs, by simp [List.mapM_cons, hb, hbs]⟩

@[simp] theorem ok_bind (a : α) (f : α → Except ε β) : (Except.ok a >>= f) = f a := rfl

@[simp] theorem error_bind (e : ε) (f : α → Except ε β) :
    ((Except.error e : Except ε α) >>= f) = .error e := rfl

@[simp] theorem ensure_eq_ok {c : Prop} [Decidable c] {e : ε} {u : Unit} :
    ensure c e = .ok u ↔ c := by
  by_cases h : c <;> simp [ensure, h]

theorem bind_eq_error {x : Except ε α} {f : α → Except ε β} {e : ε} :
    (x >>= f) = .error e ↔ x = .error e ∨ ∃ a, x = .ok a ∧ f a = .error e := by
  cases x <;> simp [bind, Except.bind]

theorem ensure_eq_error {c : Prop} [Decidable c] {e e' : ε} :
    ensure c e = .error e' ↔ ¬ c ∧ e = e' := by
  by_cases h : c <;> simp [ensure, h]

theorem pure_ne_error {a : α} {e : ε} : (pure a : Except ε α) ≠ .error e := nofun

theorem ensure_pos {c : Prop} [Decidable c] (h : c) (e : ε) :
    ensure c e = .ok () := if_pos h

@[simp] theorem okOr_eq_ok {o : Option α} {e : ε} {a : α} :
    okOr o e = .ok a ↔ o = some a := by
  cases o <;> simp [okOr]

theorem okOr_eq_error {o : Option α} {e e' : ε} :
    okOr o e = .error e' ↔ o = none ∧ e = e' := by
  cases o <;> simp [okOr]

@[simp] theorem okOr_some (a : α) (e : ε) : okOr (some a) e = .ok a := rfl

@[simp] theorem mapError_eq_ok {ε' : Type} {f : ε → ε'} {x : Except ε α} {a : α} :
    x.mapError f = .ok a ↔ x = .ok a := by
  cases x <;> simp [Except.mapError]

@[simp] theorem ensureSigned_eq_ok {o : Origin A} {who : A} :
    (ensureSigned o : Except (DispatchError E) A) = .ok who ↔ o = .signed who := by
  cases o <;> simp [ensureSigned]

@[simp] theorem ensureNone_eq_ok {o : Origin A} {u : Unit} :
    (ensureNone o : Except (DispatchError E) Unit) = .ok u ↔ o = .none := by
  cases o <;> simp [ensureNone]

@[simp] theorem ensureRoot_eq_ok {o : Origin A} {u : Unit} :
    (ensureRoot o : Except (DispatchError E) Unit) = .ok u ↔ o = .root := by
  cases o <;> simp [ensureRoot]

/-- `BoundedVec<T, ConstU32<n>>`: a vector of at most `n` entries. -/
abbrev BoundedVec (α : Type) (n : ℕ) := { l : List α // l.length ≤ n }

namespace BoundedVec

variable {n : ℕ}

/-- `BoundedVec::default()`. -/
def empty : BoundedVec α n := ⟨[], by simp⟩

/-- `try_push`: refused when the vector is full. -/
def tryPush (v : BoundedVec α n) (a : α) : Option (BoundedVec α n) :=
  if h : v.val.length < n then
    some ⟨v.val ++ [a], by simpa using h⟩
  else none

/-- `let _ = v.try_push(a)`: a full vector stays as it was. -/
def pushOrKeep (v : BoundedVec α n) (a : α) : BoundedVec α n := (v.tryPush a).getD v

@[simp] theorem empty_val : (empty : BoundedVec α n).val = [] := rfl

theorem tryPush_eq_some {v w : BoundedVec α n} {a : α} :
    v.tryPush a = some w ↔ v.val.length < n ∧ w.val = v.val ++ [a] := by
  unfold tryPush
  split_ifs with h
  · simp [Subtype.ext_iff, h, eq_comm]
  · simp [h]

theorem tryPush_of_lt {v : BoundedVec α n} (h : v.val.length < n) (a : α) :
    v.tryPush a = some ⟨v.val ++ [a], by simpa using h⟩ := dif_pos h

end BoundedVec

/-- `ExistenceRequirement` of a transfer. -/
inductive ExistenceRequirement
  | keepAlive
  | allowDeath
  deriving DecidableEq, Repr

/-- The currency as the pallets use it: `transfer from to amount` on a ledger,
with `none` where it fails. -/
structure Currency (A L : Type) where
  transfer : L → A → A → ℕ → ExistenceRequirement → Option L

/-- `T::Currency::transfer(&from, &to, amount, requirement)?`. -/
def Currency.transferOrFail (c : Currency A L) (ledger : L) (source dest : A) (amount : ℕ)
    (requirement : ExistenceRequirement) : Except (DispatchError E) L :=
  okOr (c.transfer ledger source dest amount requirement) .token

@[simp] theorem Currency.transferOrFail_eq_ok {c : Currency A L} {l l' : L} {a b : A} {n : ℕ}
    {er : ExistenceRequirement} :
    (c.transferOrFail l a b n er : Except (DispatchError E) L) = .ok l' ↔
      c.transfer l a b n er = some l' := by
  simp [transferOrFail]

/-- The balances after `amount` went from `source` to `dest`. -/
def moveBalance [DecidableEq A] (free : A → ℕ) (source dest : A) (amount : ℕ) : A → ℕ :=
  let debited := Function.update free source (free source - amount)
  Function.update debited dest (debited dest + amount)

/-- Free balances without an existential deposit, the ledger of a test runtime:
a transfer fails when the balance is too small. -/
def balances [DecidableEq A] : Currency A (A → ℕ) where
  transfer free source dest amount _ :=
    if amount ≤ free source then some (moveBalance free source dest amount) else none

theorem balances_transfer_of_le [DecidableEq A] {free : A → ℕ} {source : A} {amount : ℕ}
    (h : amount ≤ free source) (dest : A) (er : ExistenceRequirement) :
    balances.transfer free source dest amount er = some (moveBalance free source dest amount) :=
  if_pos h

theorem moveBalance_dest [DecidableEq A] {free : A → ℕ} {source dest : A} (h : source ≠ dest)
    (amount : ℕ) : moveBalance free source dest amount dest = free dest + amount := by
  simp [moveBalance, h.symm]

theorem moveBalance_source [DecidableEq A] {free : A → ℕ} {source dest : A} (h : source ≠ dest)
    (amount : ℕ) : moveBalance free source dest amount source = free source - amount := by
  simp [moveBalance, h]

/-- A storage map after `insert`. -/
abbrev insertAt [DecidableEq α] (m : α → β) (k : α) (v : β) : α → β := Function.update m k v

/-- `copy_from_slice` of a list that has the array's length; a panic otherwise. -/
def copyFromSlice (n : ℕ) (bs : List UInt8) : Option (U8Array n) :=
  if h : bs.length = n then some ⟨bs, h⟩ else none

theorem copyFromSlice_eq_some {n : ℕ} {bs : List UInt8} {a : U8Array n} :
    copyFromSlice n bs = some a ↔ bs = a.toList := by
  obtain ⟨l, rfl⟩ := a
  unfold copyFromSlice
  split_ifs with h
  · constructor
    · rintro ⟨⟩
      rfl
    · rintro rfl
      rfl
  · constructor
    · rintro ⟨⟩
    · rintro rfl
      exact absurd rfl h

end NullaRelay.Frame

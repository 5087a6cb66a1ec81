import Mathlib.Algebra.Order.Ring.Nat

/-!
# Offsets in machine words

A read of `n` bytes at an offset inside a byte string compares the end of the read with
the length of the string, in words of `w` bits. Where the sum wraps around, the end
passes the comparison and lies before the offset; where it does not, what passes the
comparison is in the string.
-/

namespace NullaRelay.WordSize

variable {w a b : ℕ}

/-- The sum in words of `w` bits. -/
def wrapAdd (w a b : ℕ) : ℕ := (a + b) % 2 ^ w

theorem wrapAdd_of_lt (h : a + b < 2 ^ w) : wrapAdd w a b = a + b := Nat.mod_eq_of_lt h

theorem wrapAdd_of_le (ha : a < 2 ^ w) (hb : b < 2 ^ w) (h : 2 ^ w ≤ a + b) :
    wrapAdd w a b = a + b - 2 ^ w := by
  rw [wrapAdd, Nat.mod_eq_sub_mod h, Nat.mod_eq_of_lt (by omega)]

/-- A sum that does not lie below its first part did not wrap. -/
theorem wrapAdd_of_le_wrapAdd (ha : a < 2 ^ w) (hb : b < 2 ^ w) (h : a ≤ wrapAdd w a b) :
    wrapAdd w a b = a + b := by
  rcases Nat.lt_or_ge (a + b) (2 ^ w) with hfit | hwrap
  · exact wrapAdd_of_lt hfit
  · rw [wrapAdd_of_le ha hb hwrap] at h
    omega

/-- Why a read fails: it was refused, or the check passed and the range is none. -/
inductive ReadError
  | refused
  | panic
  deriving DecidableEq, Repr

variable {α : Type}

/-- `if off + n > len { return false }`, then `&bytes[off..off + n]` and `off += n`: the
bytes read and the next offset. -/
def readBytes (w : ℕ) (bytes : List α) (off n : ℕ) : Except ReadError (List α × ℕ) :=
  let stop := wrapAdd w off n
  if bytes.length < stop then .error .refused
  else if off ≤ stop then .ok ((bytes.take stop).drop off, stop)
  else .error .panic

variable {bytes : List α} {off n : ℕ}

theorem readBytes_of_lt (h : off + n < 2 ^ w) :
    readBytes w bytes off n =
      if off + n ≤ bytes.length then .ok ((bytes.drop off).take n, off + n)
      else .error .refused := by
  rw [readBytes, wrapAdd_of_lt h]
  split_ifs with hout hin hin
  · omega
  · rfl
  · rw [List.drop_take, Nat.add_sub_cancel_left]
  all_goals omega

theorem readBytes_of_le (hlen : bytes.length < 2 ^ w) (hoff : off ≤ bytes.length) (hn : n < 2 ^ w)
    (h : 2 ^ w ≤ off + n) : readBytes w bytes off n = .error .panic := by
  rw [readBytes, wrapAdd_of_le (hoff.trans_lt hlen) hn h, if_neg (by omega), if_neg (by omega)]

/-- A reader panics where the end of its first read wraps around, or behind this read. -/
theorem readBytes_bind_panic_iff {β : Type} {f : List α × ℕ → Except ReadError β}
    (hlen : bytes.length < 2 ^ w) (hoff : off ≤ bytes.length) (hn : n < 2 ^ w) :
    (readBytes w bytes off n >>= f) = .error .panic ↔ 2 ^ w ≤ off + n ∨
      (off + n ≤ bytes.length ∧ f ((bytes.drop off).take n, off + n) = .error .panic) := by
  rcases Nat.lt_or_ge (off + n) (2 ^ w) with hfit | hwrap
  · rw [readBytes_of_lt hfit]
    split_ifs with hin
    · simp [bind, Except.bind, hfit, hin]
    · simp [bind, Except.bind, hfit, hin]
  · rw [readBytes_of_le hlen hoff hn hwrap]
    simp [bind, Except.bind, hwrap]

end NullaRelay.WordSize

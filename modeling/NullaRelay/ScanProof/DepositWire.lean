import NullaRelay.Foundations.WordSize
import NullaRelay.ScanProof.Deposit

/-!
# The length field of a deposit

The range-proof bytes of a deposit are checked for thirteen bytes more than the length
field says, in the words of the runtime. Where this sum wraps around the check passes,
and the slice behind it traps; nothing else in a deposit does.
-/

namespace NullaRelay.ScanProof

open NullaRelay.Frame WordSize

variable {A L : Type} {T : Config A L} {rp : List UInt8}

variable (T) in
/-- The length field, with the bytes around the proof, fits into a word; where there is
no such field, nothing is asked. -/
def DepositLengthFits (rp : List UInt8) : Prop :=
  13 ≤ rp.length → rp.head? = some 1 → 13 + proofLength rp < 2 ^ T.usizeBits

theorem two_pow_le_usize : 2 ^ 32 ≤ 2 ^ T.usizeBits :=
  Nat.pow_le_pow_right two_pos T.usizeBits_ge

/-- Behind a length field that wraps around, the check passes and the slice traps. -/
theorem slice_trap_of_wraps (hlen : rp.length < 2 ^ 31) (hmin : 13 ≤ rp.length)
    (hwraps : 2 ^ T.usizeBits ≤ 13 + proofLength rp) :
    wrap T (wrap T (5 + proofLength rp) + 8) ≤ rp.length ∧
      slice rp 5 (wrap T (5 + proofLength rp)) = .error .trap := by
  have hword := two_pow_le_usize (T := T)
  have hfield : proofLength rp < 2 ^ T.usizeBits := (proofLength_lt rp).trans_le hword
  have hstop : wrap T (5 + proofLength rp) = wrapAdd T.usizeBits 5 (proofLength rp) := rfl
  have hend (n : ℕ) : wrap T (n + 8) = wrapAdd T.usizeBits n 8 := rfl
  rw [hend, hstop, slice]
  rcases Nat.lt_or_ge (5 + proofLength rp) (2 ^ T.usizeBits) with hfit | hwrap
  · rw [wrapAdd_of_lt hfit, wrapAdd_of_le hfit (by omega) (by omega)]
    exact ⟨by omega, if_neg (by omega)⟩
  · rw [wrapAdd_of_le (by omega) hfield hwrap, wrapAdd_of_lt (by omega)]
    exact ⟨by omega, if_neg (by omega)⟩

/-- A length field that fits is read in bounds. -/
theorem parseDeposit_ne_trap_of_fits (hfits : DepositLengthFits T rp) :
    parseDeposit T rp ≠ .error .trap := by
  intro htrap
  simp only [parseDeposit, bind_eq_error, ensure_eq_error, reduceCtorEq, and_false, false_or,
    ensure_eq_ok, exists_const, pure_ne_error, or_false] at htrap
  obtain ⟨hmin, hhead, hcheck, htrap⟩ := htrap
  have hfit := hfits hmin hhead
  have hstop : wrap T (5 + proofLength rp) = 5 + proofLength rp := Nat.mod_eq_of_lt (by omega)
  have hend (k : ℕ) (hk : k ≤ 8) :
      wrap T (5 + proofLength rp + k) = 5 + proofLength rp + k := Nat.mod_eq_of_lt (by omega)
  rw [hstop, hend 8 le_rfl] at hcheck
  rw [hstop] at htrap
  rcases htrap with hslice | ⟨bytes, -, hreads⟩
  · rw [slice, if_pos (by omega)] at hslice
    cases hslice
  · have hall : ∀ k ∈ List.range 8, ∃ b, okOr (rp[wrap T (5 + proofLength rp + k)]?)
        (DispatchError.trap (E := Error)) = .ok b := by
      intro k hk
      rw [List.mem_range] at hk
      have hin : 5 + proofLength rp + k < rp.length := by omega
      refine ⟨rp[5 + proofLength rp + k], ?_⟩
      rw [okOr_eq_ok, hend k hk.le, List.getElem?_eq_getElem hin]
    obtain ⟨bs, hbs⟩ := exists_mapM_eq_ok hall
    rw [hbs] at hreads
    cases hreads

theorem parseDeposit_trap_iff (hlen : rp.length < 2 ^ 31) :
    parseDeposit T rp = .error .trap ↔ ¬ DepositLengthFits T rp := by
  constructor
  · exact fun htrap hfits => parseDeposit_ne_trap_of_fits hfits htrap
  · intro hwraps
    simp only [DepositLengthFits, Classical.not_imp, Nat.not_lt] at hwraps
    obtain ⟨hmin, hhead, hwraps⟩ := hwraps
    obtain ⟨hcheck, hslice⟩ := slice_trap_of_wraps hlen hmin hwraps
    rw [parseDeposit, ensure_pos hmin, ok_bind, ensure_pos hhead, ok_bind]
    simp only [ensure_pos hcheck, hslice, ok_bind, error_bind]

theorem insertNote_ne_trap (s : State L) (c : U8Array 32) :
    insertNote T s c ≠ .error .trap := by
  intro htrap
  simp only [insertNote, pushLeaf, bind_eq_error, ensure_eq_error, okOr_eq_error, pure_ne_error,
    reduceCtorEq, and_false, exists_false, or_false] at htrap

/-- A deposit traps exactly where the slice behind a wrapped length field does. -/
theorem depositPublic_trap_iff {s : State L} {origin : Origin A} {commitment : List UInt8}
    {rp : BoundedVec UInt8 T.maxRangeProofSize} {hints : BoundedVec UInt8 4096} :
    depositPublic T s origin commitment rp hints = .error .trap ↔
      (∃ who, origin = .signed who) ∧ commitment.length = 32 ∧ ¬ DepositLengthFits T rp.val := by
  have hlen : rp.val.length < 2 ^ 31 := rp.property.trans_lt T.maxRangeProofSize_lt
  have hsigned : (ensureSigned origin : DispatchResult A) ≠ .error .trap := by
    cases origin <;> simp [ensureSigned]
  rw [← parseDeposit_trap_iff hlen]
  constructor
  · intro htrap
    simp only [depositPublic, bind_eq_error, ensureSigned_eq_ok, hsigned, okOr_eq_error,
      okOr_eq_ok, ensure_eq_error, reduceCtorEq, and_false, false_or, Currency.transferOrFail,
      insertNote_ne_trap, pure_ne_error, exists_false, or_false] at htrap
    obtain ⟨who, hwho, c, hc, hparse⟩ := htrap
    refine ⟨⟨who, hwho⟩, ?_, hparse⟩
    rw [copyFromSlice_eq_some.1 hc, List.Vector.toList_length]
  · rintro ⟨⟨who, rfl⟩, hcommitment, hparse⟩
    obtain ⟨c, hcopy⟩ : ∃ c, copyFromSlice 32 commitment = some c := ⟨_, dif_pos hcommitment⟩
    rw [depositPublic, hcopy]
    simp only [ensureSigned, okOr_some, ok_bind, hparse, error_bind]

/-- On a machine of more than 32 bits the length field always fits. -/
theorem depositLengthFits_of_lt (hword : 32 < T.usizeBits) : DepositLengthFits T rp := by
  intro _ _
  have hpow : 2 ^ 33 ≤ 2 ^ T.usizeBits := Nat.pow_le_pow_right two_pos hword
  have hfield := proofLength_lt rp
  omega

end NullaRelay.ScanProof

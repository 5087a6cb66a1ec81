import NullaRelay.Foundations.BlockStream
import NullaRelay.ScanProof.Prover

/-!
# The byte stream of the generator

The loop of `fill_bytes` copies what is left of the buffer, refills it and goes on,
with the slices and the subtraction that could panic written as checks. It ends within
as many steps as there are bytes to write and never panics. A generator stands at a
position of the stream of hashed blocks when, once its buffer is ready, it is the one
that belongs there; every request returns the stretch from this position on and leaves
the generator behind it.
-/

namespace NullaRelay.ScanProof.OneOfMany.DeterministicRng

open Verifier LittleEndian BlockStream

variable {V : Type} (P : Primitives V)

/-- `dest[written..written + need].copy_from_slice(&buf[idx..idx + need])`; a slice out
of range is a panic. -/
def copySlice (dest : List UInt8) (written : ℕ) (buf : List UInt8) (idx need : ℕ) :
    Option (List UInt8) := do
  guard (written + need ≤ dest.length ∧ idx + need ≤ buf.length)
  pure (dest.take written ++ ((buf.drop idx).take need ++ dest.drop (written + need)))

/-- `self.idx += need`. -/
def advance (rng : DeterministicRng) (need : ℕ) : DeterministicRng :=
  { rng with idx := rng.idx + need }

/-- The loop of `fill_bytes`, with a bound on its iterations; `buf.len() - idx` must not
underflow. -/
def fillLoop : (fuel : ℕ) → (dest : List UInt8) → (written : ℕ) → DeterministicRng →
    Option (List UInt8 × DeterministicRng)
  | 0, dest, written, rng => if written < dest.length then none else some (dest, rng)
  | fuel + 1, dest, written, rng =>
      if written < dest.length then do
        let rng := rng.ready P
        guard (rng.idx ≤ 64)
        let need := min (64 - rng.idx) (dest.length - written)
        let dest ← copySlice dest written rng.buf.toList rng.idx need
        fillLoop fuel dest (written + need) (rng.advance need)
      else some (dest, rng)

/-- `next_u32`. -/
def nextU32 (rng : DeterministicRng) : Option (UInt32 × DeterministicRng) := do
  let (b, rng) ← fillLoop P 4 (List.replicate 4 0) 0 rng
  pure (UInt32.ofNat (leNat b), rng)

/-- `next_u64`. -/
def nextU64 (rng : DeterministicRng) : Option (UInt64 × DeterministicRng) := do
  let (b, rng) ← fillLoop P 8 (List.replicate 8 0) 0 rng
  pure (UInt64.ofNat (leNat b), rng)

/-- A request, `fill_bytes` with the destination that it overwrites. -/
inductive Request
  | fillBytes (dest : List UInt8)
  | nextU32
  | nextU64

/-- What a request returns. -/
inductive Reply
  | bytes (dest : List UInt8)
  | u32 (x : UInt32)
  | u64 (x : UInt64)

/-- How many bytes a request draws. -/
def Request.size : Request → ℕ
  | .fillBytes dest => dest.length
  | .nextU32 => 4
  | .nextU64 => 8

/-- The bytes of a reply, an integer's in the order they are drawn. -/
def Reply.toBytes : Reply → List UInt8
  | .bytes dest => dest
  | .u32 x => leBytes 4 x.toNat
  | .u64 x => leBytes 8 x.toNat

/-- One request. -/
def answer (rng : DeterministicRng) : Request → Option (Reply × DeterministicRng)
  | .fillBytes dest => do
      let (dest, rng) ← fillLoop P dest.length dest 0 rng
      pure (.bytes dest, rng)
  | .nextU32 => do
      let (x, rng) ← nextU32 P rng
      pure (.u32 x, rng)
  | .nextU64 => do
      let (x, rng) ← nextU64 P rng
      pure (.u64 x, rng)

/-- Requests one after another. -/
def answers (rng : DeterministicRng) : List Request → Option (List Reply × DeterministicRng)
  | [] => some ([], rng)
  | r :: rs => do
      let (reply, rng) ← answer P rng r
      let (replies, rng) ← answers rng rs
      pure (reply :: replies, rng)

/-- `Blake2b512(seed, k)`, the counter written as 64 bits. -/
def block (seed : U8Array 32) (k : ℕ) : U8Array 64 :=
  P.blake2b512 (seed.toList ++ leBytes 8 k)

/-- The generator whose buffer holds the block of a position, and which reads there. -/
def readyAt (seed : U8Array 32) (pos : ℕ) : DeterministicRng :=
  { seed := seed
    ctr := UInt64.ofNat (pos / 64 + 1)
    buf := block P seed (pos / 64)
    idx := pos % 64 }

/-- The generator stands at a position of the stream. -/
def AtPosition (seed : U8Array 32) (pos : ℕ) (rng : DeterministicRng) : Prop :=
  rng.ready P = readyAt P seed pos

variable {P} {seed : U8Array 32} {pos n : ℕ} {rng : DeterministicRng}

/-- The bytes of a 64-bit counter. -/
theorem leBytes_ofNat (k : ℕ) : leBytes 8 (UInt64.ofNat k).toNat = leBytes 8 k := by
  refine leNat_inj (by simp) ?_
  rw [leNat_leBytes, leNat_leBytes, UInt64.toNat_ofNat']
  exact Nat.mod_mod k _

theorem atPosition_new : AtPosition P seed 0 (new seed) := rfl

theorem ready_of_lt (h : rng.idx < 64) : rng.ready P = rng := if_neg (not_le.2 h)

/-- Reading up to `need` bytes further in the block leads to the position behind them. -/
theorem atPosition_advance {need : ℕ} (h : pos % 64 + need ≤ 64) :
    AtPosition P seed (pos + need) ((readyAt P seed pos).advance need) := by
  have hpos : pos = 64 * (pos / 64) + pos % 64 := (Nat.div_add_mod pos 64).symm
  rcases h.lt_or_eq with hlt | heq
  · have hdiv : (pos + need) / 64 = pos / 64 := by omega
    have hmod : (pos + need) % 64 = pos % 64 + need := by omega
    have hready : ((readyAt P seed pos).advance need).ready P = (readyAt P seed pos).advance need :=
      ready_of_lt hlt
    rw [AtPosition, hready, readyAt, readyAt, advance, hdiv, hmod]
  · have hdiv : (pos + need) / 64 = pos / 64 + 1 := by omega
    have hmod : (pos + need) % 64 = 0 := by omega
    have hready : ((readyAt P seed pos).advance need).ready P =
        ((readyAt P seed pos).advance need).refill P := if_pos heq.ge
    have hctr : UInt64.ofNat (pos / 64 + 1) + 1 = UInt64.ofNat (pos / 64 + 1 + 1) :=
      (UInt64.ofNat_add _ 1).symm
    have hnext : readyAt P seed (pos + need) = ((readyAt P seed pos).advance need).refill P := by
      rw [readyAt, hdiv, hmod, block, ← leBytes_ofNat, ← hctr]
      rfl
    rw [AtPosition, hready, hnext]

/-- The copy of a slice within its ranges. -/
theorem copySlice_eq {dest buf : List UInt8} {written idx need : ℕ}
    (hdest : written + need ≤ dest.length) (hbuf : idx + need ≤ buf.length) :
    copySlice dest written buf idx need =
      some (dest.take written ++ ((buf.drop idx).take need ++ dest.drop (written + need))) := by
  rw [copySlice, guard, if_pos ⟨hdest, hbuf⟩]
  rfl

/-- One iteration writes the rest of the block, or as much of it as fits. -/
theorem fillLoop_succ {fuel written need : ℕ} {dest : List UInt8} (hat : AtPosition P seed pos rng)
    (hlt : written < dest.length)
    (hneed : need = min (64 - pos % 64) (dest.length - written)) :
    fillLoop P (fuel + 1) dest written rng =
      fillLoop P fuel
        (dest.take written ++ (segment (block P seed) pos need ++ dest.drop (written + need)))
        (written + need) ((readyAt P seed pos).advance need) := by
  have hready : rng.ready P = readyAt P seed pos := hat
  have hidx : (readyAt P seed pos).idx = pos % 64 := rfl
  have hbuf : (readyAt P seed pos).buf = block P seed (pos / 64) := rfl
  have hmod : pos % 64 < 64 := Nat.mod_lt pos (by decide)
  have hslice : segment (block P seed) pos need =
      ((block P seed (pos / 64)).toList.drop (pos % 64)).take need := segment_slice (by omega)
  rw [fillLoop, if_pos hlt, hready]
  dsimp only
  rw [hidx, hbuf, ← hneed, copySlice_eq (by omega)
    (by rw [List.Vector.toList_length]; omega), guard, if_pos hmod.le, hslice]
  rfl

theorem fillLoop_done (fuel : ℕ) {written : ℕ} {dest : List UInt8}
    (h : ¬ written < dest.length) : fillLoop P fuel dest written rng = some (dest, rng) := by
  cases fuel with
  | zero => rw [fillLoop, if_neg h]
  | succ fuel => rw [fillLoop, if_neg h]

/-- The loop writes the stretch of the stream behind what is written already. -/
theorem fillLoop_eq {fuel written : ℕ} {dest : List UInt8} (hat : AtPosition P seed pos rng)
    (hwritten : written ≤ dest.length) (hfuel : dest.length - written ≤ fuel) :
    ∃ last, AtPosition P seed (pos + (dest.length - written)) last ∧
      fillLoop P fuel dest written rng =
        some (dest.take written ++ segment (block P seed) pos (dest.length - written), last) := by
  induction fuel generalizing written dest pos rng with
  | zero =>
      have hend : written = dest.length := by omega
      refine ⟨rng, by rwa [hend, Nat.sub_self, Nat.add_zero], ?_⟩
      rw [fillLoop_done 0 hend.not_lt, hend, Nat.sub_self, segment_zero, List.append_nil,
        List.take_length]
  | succ fuel ih =>
      by_cases hlt : written < dest.length
      · have hmod : pos % 64 < 64 := Nat.mod_lt pos (by decide)
        obtain ⟨need, hneed⟩ : ∃ need, need = min (64 - pos % 64) (dest.length - written) :=
          ⟨_, rfl⟩
        -- the destination keeps its length, and its written part grows by the chunk
        obtain ⟨dest', hdest'⟩ : ∃ dest', dest' = dest.take written ++
            (segment (block P seed) pos need ++ dest.drop (written + need)) := ⟨_, rfl⟩
        have hlen : dest'.length = dest.length := by
          rw [hdest']
          simp
          omega
        have hprefix : dest'.take (written + need) =
            dest.take written ++ segment (block P seed) pos need := by
          rw [hdest', ← List.append_assoc]
          exact List.take_left' (by simp; omega)
        have hrest : dest.length - written = need + (dest'.length - (written + need)) := by omega
        have hnext : AtPosition P seed (pos + need) ((readyAt P seed pos).advance need) :=
          atPosition_advance (by omega)
        have hwritten' : written + need ≤ dest'.length := by omega
        have hfuel' : dest'.length - (written + need) ≤ fuel := by omega
        obtain ⟨last, hlast, hloop⟩ := ih hnext hwritten' hfuel'
        refine ⟨last, ?_, ?_⟩
        · rwa [hrest, ← Nat.add_assoc]
        · rw [fillLoop_succ hat hlt hneed, ← hdest', hloop, hprefix, hrest, segment_add,
            List.append_assoc]
      · have hend : written = dest.length := by omega
        refine ⟨rng, by rwa [hend, Nat.sub_self, Nat.add_zero], ?_⟩
        rw [fillLoop_done _ hlt, hend, Nat.sub_self, segment_zero, List.append_nil,
          List.take_length]

/-- The call of `fill_bytes`, which returns the next bytes of the stream in place of the old
content. -/
theorem fillLoop_full {fuel : ℕ} {dest : List UInt8} (hat : AtPosition P seed pos rng)
    (hfuel : dest.length ≤ fuel) :
    ∃ last, AtPosition P seed (pos + dest.length) last ∧
      fillLoop P fuel dest 0 rng = some (segment (block P seed) pos dest.length, last) := by
  have h := fillLoop_eq hat (Nat.zero_le dest.length) hfuel
  rwa [Nat.sub_zero, List.take_zero, List.nil_append] at h

theorem leBytes_leNat {k : ℕ} {bs : List UInt8} (h : bs.length = k) :
    leBytes k (leNat bs) = bs := by
  refine leNat_inj (by rw [length_leBytes, h]) ?_
  rw [leNat_leBytes_of_lt (h ▸ leNat_lt bs)]

/-- A request returns the next bytes of the stream. -/
theorem answer_eq (hat : AtPosition P seed pos rng) (r : Request) :
    ∃ reply last, AtPosition P seed (pos + r.size) last ∧ answer P rng r = some (reply, last) ∧
      reply.toBytes = segment (block P seed) pos r.size := by
  cases r with
  | fillBytes dest =>
      obtain ⟨last, hlast, hloop⟩ := fillLoop_full hat (le_refl dest.length)
      exact ⟨.bytes _, last, hlast, by rw [answer, hloop]; rfl, rfl⟩
  | nextU32 =>
      obtain ⟨last, hlast, hloop⟩ := fillLoop_full hat (le_refl (List.replicate 4 0).length)
      rw [List.length_replicate] at hlast hloop
      refine ⟨.u32 _, last, hlast, by rw [answer, nextU32, hloop]; rfl, ?_⟩
      have hlt : leNat (segment (block P seed) pos 4) < 2 ^ 32 := by
        have h := leNat_lt (segment (block P seed) pos 4)
        rwa [length_segment] at h
      rw [Reply.toBytes, UInt32.toNat_ofNat', Nat.mod_eq_of_lt hlt, leBytes_leNat (by simp),
        Request.size]
  | nextU64 =>
      obtain ⟨last, hlast, hloop⟩ := fillLoop_full hat (le_refl (List.replicate 8 0).length)
      rw [List.length_replicate] at hlast hloop
      refine ⟨.u64 _, last, hlast, by rw [answer, nextU64, hloop]; rfl, ?_⟩
      have hlt : leNat (segment (block P seed) pos 8) < 2 ^ 64 := by
        have h := leNat_lt (segment (block P seed) pos 8)
        rwa [length_segment] at h
      rw [Reply.toBytes, UInt64.toNat_ofNat', Nat.mod_eq_of_lt hlt, leBytes_leNat (by simp),
        Request.size]

/-- Requests one after another return the stream in chunks. -/
theorem answers_eq (hat : AtPosition P seed pos rng) (rs : List Request) :
    ∃ replies last, answers P rng rs = some (replies, last) ∧
      replies.map (fun reply => reply.toBytes.length) = rs.map Request.size ∧
      replies.flatMap Reply.toBytes = segment (block P seed) pos (rs.map Request.size).sum := by
  induction rs generalizing pos rng with
  | nil => exact ⟨[], rng, rfl, rfl, rfl⟩
  | cons r rs ih =>
      obtain ⟨reply, next, hnext, hanswer, hbytes⟩ := answer_eq hat r
      obtain ⟨replies, last, hanswers, hsizes, hrest⟩ := ih hnext
      refine ⟨reply :: replies, last, ?_, ?_, ?_⟩
      · simp only [answers, hanswer, hanswers, Option.bind_eq_bind, Option.bind_some,
          Option.pure_def]
      · rw [List.map_cons, List.map_cons, hsizes, hbytes, length_segment]
      · rw [List.flatMap_cons, hrest, hbytes, List.map_cons, List.sum_cons, segment_add]

/-- The model of `fill_bytes` that the provers draw from is the loop. -/
theorem fillBytes_eq (hat : AtPosition P seed pos rng) (n : ℕ) :
    (rng.fillBytes P n).1 = segment (block P seed) pos n ∧
      AtPosition P seed (pos + n) (rng.fillBytes P n).2 := by
  induction n using Nat.strong_induction_on generalizing pos rng with
  | _ n ih =>
    cases n with
    | zero =>
        rw [fillBytes]
        exact ⟨rfl, hat⟩
    | succ n =>
        have hmod : pos % 64 < 64 := Nat.mod_lt pos (by decide)
        have hready : rng.ready P = readyAt P seed pos := hat
        obtain ⟨need, hneed⟩ : ∃ need, need = min (64 - pos % 64) (n + 1) := ⟨_, rfl⟩
        have hslice : segment (block P seed) pos need =
            ((block P seed (pos / 64)).toList.drop (pos % 64)).take need :=
          segment_slice (by omega)
        have hstep : rng.fillBytes P (n + 1) =
            (segment (block P seed) pos need ++
                (((readyAt P seed pos).advance need).fillBytes P (n + 1 - need)).1,
              (((readyAt P seed pos).advance need).fillBytes P (n + 1 - need)).2) := by
          rw [fillBytes, hready, hslice, hneed]
          rfl
        have hnext : AtPosition P seed (pos + need) ((readyAt P seed pos).advance need) :=
          atPosition_advance (by omega)
        obtain ⟨hbytes, hlast⟩ := ih (n + 1 - need) (by omega) hnext
        have hrest : n + 1 = need + (n + 1 - need) := by omega
        rw [hstep, hbytes, ← segment_add, ← hrest]
        refine ⟨rfl, ?_⟩
        rwa [Nat.add_assoc, ← hrest] at hlast

/-- A generator that draws scalars only takes one block for each. -/
theorem scalarFromRng_block {k : ℕ} (hat : AtPosition P seed (64 * k) rng) :
    (scalarFromRng P rng).1 = Scalar.fromBytesModOrderWide (block P seed k) ∧
      AtPosition P seed (64 * (k + 1)) (scalarFromRng P rng).2 := by
  obtain ⟨hbytes, hlast⟩ := fillBytes_eq hat 64
  have hmod : 64 * k % 64 = 0 := Nat.mul_mod_right 64 k
  have hdiv : 64 * k / 64 = k := Nat.mul_div_cancel_left k (by decide)
  have hblock : (rng.fillBytes P 64).1 = (block P seed k).toList := by
    rw [hbytes, segment_slice (by rw [hmod]), hmod, hdiv, List.drop_zero,
      List.take_of_length_le (by simp)]
  refine ⟨?_, hlast⟩
  show Scalar.fromBytesModOrderWide (U8Array.padded 64 (rng.fillBytes P 64).1) = _
  rw [hblock]
  exact congrArg Scalar.fromBytesModOrderWide (sliceAt_toList (block P seed k))

/-- For every seed and every run of requests no call panics or runs on, each returns as many
bytes as it asks for, and all bytes together are a prefix of the hashed blocks. -/
theorem rng_stream (P : Primitives V) (seed : U8Array 32) (rs : List Request) :
    ∃ replies last, answers P (new seed) rs = some (replies, last) ∧
      replies.map (fun reply => reply.toBytes.length) = rs.map Request.size ∧
      ∀ k, (rs.map Request.size).sum ≤ 64 * k →
        replies.flatMap Reply.toBytes =
          ((List.range k).flatMap fun i => (P.blake2b512 (seed.toList ++ leBytes 8 i)).toList).take
            (rs.map Request.size).sum := by
  obtain ⟨replies, last, hanswers, hsizes, hbytes⟩ := answers_eq (atPosition_new (P := P)) rs
  exact ⟨replies, last, hanswers, hsizes, fun k hk => hbytes.trans (segment_eq_take hk)⟩

end NullaRelay.ScanProof.OneOfMany.DeterministicRng

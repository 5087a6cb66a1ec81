import NullaRelay.ProofHub.Openings

/-!
# The Poseidon hashes on natural numbers

The permutation and the hashes of the v2 lane on the integers below the modulus, with
every number reduced before the next one is begun, so that a proof can compute them.
They stand for those on the field, for any round constants and initial values. A tree
of two leaves hashes only what is on the left edges of its prefixes: where these hashes
are distinct, none of its pairs collide.
-/

namespace NullaRelay.ProofHub

open Air V2

/-- `f n` with the number evaluated first. -/
def eager {α : Type} (n : ℕ) (f : ℕ → α) : α :=
  match n with
  | 0 => f 0
  | k + 1 => f (k + 1)

theorem eager_eq {α : Type} (n : ℕ) (f : ℕ → α) : eager n f = f n := by
  cases n <;> rfl

/-- The modulus of the field, written out. -/
def natModulus : ℕ := 340282366920938463463374557953744961537

theorem natModulus_eq : natModulus = baseModulus := baseModulus_eq.symm

@[simp] theorem new_mod (x : ℕ) : BaseElement.new (x % natModulus) = BaseElement.new x := by
  rw [natModulus_eq]
  exact ZMod.natCast_mod x baseModulus

/-- The state of the permutation on natural numbers. -/
structure NatState where
  s0 : ℕ
  s1 : ℕ
  s2 : ℕ
  s3 : ℕ

def NatState.elements (s : NatState) : PoseidonState :=
  ![BaseElement.new s.s0, BaseElement.new s.s1, BaseElement.new s.s2, BaseElement.new s.s3]

/-- Two more numbers absorbed. -/
def NatState.absorb : NatState → ℕ → ℕ → NatState
  | ⟨s0, s1, s2, s3⟩, x, y => ⟨s0, s1 + x, s2 + y, s3⟩

/-- A pair of natural numbers as field elements. -/
def natPair (p : ℕ × ℕ) : Pair := (BaseElement.new p.1, BaseElement.new p.2)

theorem natPair_inj {p q : ℕ × ℕ} (hp : p.1 < baseModulus ∧ p.2 < baseModulus)
    (hq : q.1 < baseModulus ∧ q.2 < baseModulus) (h : natPair p = natPair q) : p = q :=
  Prod.ext (BaseElement.new_inj hp.1 hq.1 (congrArg Prod.fst h))
    (BaseElement.new_inj hp.2 hq.2 (congrArg Prod.snd h))

@[simp] theorem natPair_zero : natPair (0, 0) = (0, 0) := by
  simp [natPair, BaseElement.new]

def natCube (x : ℕ) : ℕ := x * x % natModulus * x % natModulus

theorem new_natCube (x : ℕ) :
    BaseElement.new (natCube x) = BaseElement.new x ^ 2 * BaseElement.new x := by
  rw [natCube, new_mod, BaseElement.new, Nat.cast_mul, ← BaseElement.new, new_mod]
  simp only [BaseElement.new, Nat.cast_mul]
  ring

section Rounds

variable (rc : ℕ → Fin 4 → ℕ) (iv : ℕ)

/-- One round; the elements but the first are cubed in the full rounds only. -/
def natRound (r : ℕ) : NatState → NatState
  | ⟨s0, s1, s2, s3⟩ =>
      eager (natCube (s0 + rc r 0)) fun b0 =>
      eager (bif isFullRound r then natCube (s1 + rc r 1) else s1 + rc r 1) fun b1 =>
      eager (bif isFullRound r then natCube (s2 + rc r 2) else s2 + rc r 2) fun b2 =>
      eager (bif isFullRound r then natCube (s3 + rc r 3) else s3 + rc r 3) fun b3 =>
      eager (b0 + b1 + b2 + b3) fun sum =>
      eager ((b0 + sum) % natModulus) fun t0 =>
      eager ((b1 + sum) % natModulus) fun t1 =>
      eager ((b2 + sum) % natModulus) fun t2 =>
      eager ((b3 + sum) % natModulus) fun t3 => ⟨t0, t1, t2, t3⟩

def natPerm (s : NatState) : NatState := steps (natRound rc) poseidonRounds s

def natOutput (s : NatState) : ℕ × ℕ :=
  match natPerm rc s with
  | ⟨_, s1, s2, _⟩ => (s1, s2)

/-- The hashes on pairs of numbers, each with its initial value. -/
def natNote (v : ℕ) (b pkd : ℕ × ℕ) : ℕ × ℕ :=
  natOutput rc ((natPerm rc ⟨iv, v, b.1, b.2⟩).absorb pkd.1 pkd.2)

def natNullifier (b : ℕ × ℕ) : ℕ × ℕ := natOutput rc ⟨iv, b.1, b.2, 0⟩

def natMerkle (l r : ℕ × ℕ) : ℕ × ℕ :=
  natOutput rc ((natPerm rc ⟨iv, l.1, l.2, r.1⟩).absorb r.2 0)

end Rounds

section Correct

variable {blake3 : List UInt8 → U8Array 32} {rc : ℕ → Fin 4 → ℕ} {iv : ℕ}

/-- The numbers stand for the round constants. -/
def StandsFor (blake3 : List UInt8 → U8Array 32) (rc : ℕ → Fin 4 → ℕ) : Prop :=
  ∀ r c, BaseElement.new (rc r c) = poseidonRc blake3 r c

theorem elements_natRound (h : StandsFor blake3 rc) (r : ℕ) (s : NatState) :
    (natRound rc r s).elements = poseidonEvalRoundBase blake3 r s.elements := by
  have hadd (x : ℕ) (c : Fin 4) :
      BaseElement.new (x + rc r c) = BaseElement.new x + poseidonRc blake3 r c := by
    rw [← h, BaseElement.new, Nat.cast_add]
    rfl
  have hsum (x y : ℕ) : BaseElement.new (x + y) = BaseElement.new x + BaseElement.new y :=
    Nat.cast_add x y
  obtain ⟨s0, s1, s2, s3⟩ := s
  funext i
  by_cases hfull : isFullRound r
  · fin_cases i <;>
      simp [natRound, eager_eq, NatState.elements, poseidonEvalRoundBase, poseidonRound, hfull,
        hadd, hsum, new_natCube]
  · fin_cases i <;>
      simp [natRound, eager_eq, NatState.elements, poseidonEvalRoundBase, poseidonRound, hfull,
        hadd, hsum, new_natCube, mask_neg]

theorem elements_natPerm (h : StandsFor blake3 rc) (s : NatState) :
    (natPerm rc s).elements = poseidonPerm blake3 s.elements := by
  have hsteps (n : ℕ) : (steps (natRound rc) n s).elements =
      steps (poseidonEvalRoundBase blake3) n s.elements := by
    induction n with
    | zero => rfl
    | succ n ih => rw [steps_succ, steps_succ, elements_natRound h, ih]
  exact hsteps poseidonRounds

theorem natPair_natOutput (h : StandsFor blake3 rc) (s : NatState) :
    natPair (natOutput rc s) = poseidonOutput blake3 s.elements := by
  rw [poseidonOutput, ← elements_natPerm h]
  rfl

theorem elements_absorb (s : NatState) (x y : ℕ) : (s.absorb x y).elements =
    ![s.elements 0, s.elements 1 + BaseElement.new x, s.elements 2 + BaseElement.new y,
      s.elements 3] := by
  simp [NatState.absorb, NatState.elements, BaseElement.new]

theorem natPair_natNote (h : StandsFor blake3 rc) (hiv : BaseElement.new iv = noteIv blake3)
    (v : UInt64) (b pkd : ℕ × ℕ) : natPair (natNote rc iv v.toNat b pkd) =
      (poseidonHashes blake3).note v (natPair b) (natPair pkd) := by
  rw [natNote, natPair_natOutput h, elements_absorb, elements_natPerm h]
  simp only [NatState.elements, poseidonHashes, natPair, hiv, ofU64]

theorem natPair_natNullifier (h : StandsFor blake3 rc)
    (hiv : BaseElement.new iv = nullifierIv blake3) (b : ℕ × ℕ) :
    natPair (natNullifier rc iv b) = (poseidonHashes blake3).nullifier (natPair b) := by
  have hzero : BaseElement.new 0 = 0 := Nat.cast_zero
  rw [natNullifier, natPair_natOutput h]
  simp only [NatState.elements, poseidonHashes, natPair, hiv, hzero]

theorem natPair_natMerkle (h : StandsFor blake3 rc) (hiv : BaseElement.new iv = merkleIv blake3)
    (l r : ℕ × ℕ) : natPair (natMerkle rc iv l r) =
      (poseidonHashes blake3).merkle (natPair l) (natPair r) := by
  have hzero : BaseElement.new 0 = 0 := Nat.cast_zero
  rw [natMerkle, natPair_natOutput h, elements_absorb, elements_natPerm h]
  simp only [NatState.elements, poseidonHashes, natPair, hiv, hzero, add_zero]

/-- The results are reduced. -/
theorem natOutput_lt (s : NatState) :
    (natOutput rc s).1 < baseModulus ∧ (natOutput rc s).2 < baseModulus := by
  have hpos : 0 < natModulus := by decide
  rw [natOutput, natPerm, poseidonRounds, steps_succ]
  obtain ⟨s0, s1, s2, s3⟩ := steps (natRound rc) 63 s
  simp only [natRound, eager_eq, ← natModulus_eq]
  exact ⟨Nat.mod_lt _ hpos, Nat.mod_lt _ hpos⟩

theorem natNote_lt (v : ℕ) (b pkd : ℕ × ℕ) :
    (natNote rc iv v b pkd).1 < baseModulus ∧ (natNote rc iv v b pkd).2 < baseModulus :=
  natOutput_lt _

end Correct

section Edges

open Merkle

variable {h : ℕ × ℕ → ℕ × ℕ → ℕ × ℕ} {f g : ℕ → ℕ × ℕ}

/-- The leaves of a tree that holds two. -/
def twoLeaves (x y : ℕ × ℕ) (i : ℕ) : ℕ × ℕ := if i = 0 then x else if i = 1 then y else (0, 0)

variable (h) in
/-- The hashes on the left edges of the trees over no leaf, one and two, from the bottom
up: `z`, `a` and `b` are the nodes of one height, `y` is the sibling of `b`. -/
def edgeHashes : ℕ → ℕ × ℕ → ℕ × ℕ → ℕ × ℕ → ℕ × ℕ → List (ℕ × ℕ) → List (ℕ × ℕ)
  | 0, _, _, _, _, acc => acc
  | n + 1, z, a, b, y, acc =>
      match h z z, h a z, h b y with
      | (z0, z1), (a0, a1), (b0, b1) =>
          edgeHashes n (z0, z1) (a0, a1) (b0, b1) (z0, z1)
            ((z0, z1) :: (a0, a1) :: (b0, b1) :: acc)

variable (h f g) in
/-- The pairs on these edges, from height `d` on. -/
def edgePairs (d : ℕ) : ℕ → List ((ℕ × ℕ) × (ℕ × ℕ))
  | 0 => []
  | n + 1 => edgePairs (d + 1) n ++
      [nodePair h (fun _ => (0, 0)) d 0, nodePair h f d 0, nodePair h g d 0]

theorem mem_edgePairs {d e n : ℕ} (hde : d ≤ e) (hen : e < d + n) :
    nodePair h (fun _ => (0, 0)) e 0 ∈ edgePairs h f g d n ∧
      nodePair h f e 0 ∈ edgePairs h f g d n ∧ nodePair h g e 0 ∈ edgePairs h f g d n := by
  induction n generalizing d with
  | zero => omega
  | succ n ih =>
      rw [edgePairs]
      rcases hde.eq_or_lt with rfl | hlt
      · simp
      · obtain ⟨hzero, hf, hg⟩ := ih hlt (by omega)
        exact ⟨List.mem_append_left _ hzero, List.mem_append_left _ hf, List.mem_append_left _ hg⟩

/-- A node over no leaf is one of the empty tree. -/
theorem node_eq_empty {d j : ℕ} (hf : ∀ i, i / 2 ^ d = j → f i = (0, 0)) (k : ℕ) :
    node h f d j = node h (fun _ => (0, 0)) d k :=
  (node_of_zero hf).trans (node_of_zero fun _ _ => rfl).symm

theorem edgeHashes_eq (hf : ∀ i, 1 ≤ i → f i = (0, 0)) (hg : ∀ i, 2 ≤ i → g i = (0, 0))
    (d n : ℕ) (acc : List (ℕ × ℕ)) :
    edgeHashes h n (node h (fun _ => (0, 0)) d 0) (node h f d 0) (node h g d 0) (node h g d 1)
        acc = (edgePairs h f g d n).map (fun p => h p.1 p.2) ++ acc := by
  induction n generalizing d acc with
  | zero => rfl
  | succ n ih =>
      have hright (f : ℕ → ℕ × ℕ) (e : ℕ) (hf : ∀ i, 2 ^ e ≤ i → f i = (0, 0)) :
          node h f e 1 = node h (fun _ => (0, 0)) e 0 :=
        node_eq_empty (fun i hi => hf i (Nat.div_pos_iff.1 (by omega)).2) 0
      have hzero := hright (fun _ => (0, 0)) d fun _ _ => rfl
      have hone := hright f d fun i hi => hf i (Nat.one_le_two_pow.trans hi)
      have htwo := hright g (d + 1) fun i hi => hg i (by
        have := Nat.one_le_two_pow (n := d)
        rw [pow_succ] at hi
        omega)
      have hstep := ih (d + 1) (node h (fun _ => (0, 0)) (d + 1) 0 :: node h f (d + 1) 0 ::
        node h g (d + 1) 0 :: acc)
      rw [htwo] at hstep
      rw [edgePairs, List.map_append, List.append_assoc]
      refine Eq.trans ?_ hstep
      simp only [edgeHashes, node, Nat.mul_zero, Nat.zero_add, hzero, hone]

variable {blake3 : List UInt8 → U8Array 32} {rc : ℕ → Fin 4 → ℕ} {iv : ℕ}
  {leaf leaf' : U8Array 32} {x y : ℕ × ℕ}

/-- In a tree of two leaves a pair stands on the left edge or over no leaf. -/
theorem nodePair_eq_or (hf : ∀ i, 2 ≤ i → f i = (0, 0)) (d j : ℕ) :
    nodePair h f d j = nodePair h f d 0 ∨
      nodePair h f d j = nodePair h (fun _ => (0, 0)) d 0 := by
  rcases Nat.eq_zero_or_pos j with rfl | hj
  · exact .inl rfl
  · right
    have hempty (k l : ℕ) (hk : 2 ≤ k) : node h f d k = node h (fun _ => (0, 0)) d l :=
      node_eq_empty (fun i hi => hf i (hk.trans (hi.symm.trans_le (Nat.div_le_self i _)))) l
    exact Prod.ext (hempty _ _ (by omega)) (hempty _ _ (by omega))

/-- The leaves of a prefix of two. -/
theorem unpack_leafAt_take (hx : unpack leaf = natPair x) (hy : unpack leaf' = natPair y) (k : ℕ) :
    ∃ f ∈ [fun _ => (0, 0), twoLeaves x (0, 0), twoLeaves x y],
      (fun i => unpack (leafAt ([leaf, leaf'].take k) i)) = fun i => natPair (f i) := by
  have hzero : unpack (U8Array.zero 32) = natPair (0, 0) := by rw [unpack_zero, natPair_zero]
  rcases k with _ | _ | k
  · exact ⟨_, List.mem_cons_self, funext fun i => hzero⟩
  · refine ⟨twoLeaves x (0, 0), by simp, funext fun i => ?_⟩
    rcases i with _ | _ | i <;> simp [leafAt, twoLeaves, hx, hzero]
  · refine ⟨twoLeaves x y, by simp, funext fun i => ?_⟩
    rcases i with _ | _ | i <;> simp [leafAt, twoLeaves, hx, hy, hzero]

/-- A pair hashed in these trees stands on one of the left edges. -/
theorem exists_edgePair (h : StandsFor blake3 rc) (hiv : BaseElement.new iv = merkleIv blake3)
    (hx : unpack leaf = natPair x) (hy : unpack leaf' = natPair y) {p : Pair × Pair}
    (hp : p ∈ treePairs (poseidonHashes blake3) [leaf, leaf']) :
    ∃ q ∈ edgePairs (natMerkle rc iv) (twoLeaves x (0, 0)) (twoLeaves x y) 0 merkleDepth,
      p = (natPair q.1, natPair q.2) := by
  obtain ⟨k, d, j, hd, rfl⟩ := hp
  obtain ⟨f, hf, hleaves⟩ := unpack_leafAt_take hx hy k
  have hmap (j : ℕ) : node (poseidonHashes blake3).merkle (fun i => natPair (f i)) d j =
      natPair (node (natMerkle rc iv) f d j) :=
    (map_node (φ := natPair) (natPair_natMerkle h hiv) f d j).symm
  refine ⟨nodePair (natMerkle rc iv) f d j, ?_, ?_⟩
  · obtain ⟨hzero, hone, htwo⟩ := @mem_edgePairs (natMerkle rc iv) (twoLeaves x (0, 0))
      (twoLeaves x y) 0 d merkleDepth (Nat.zero_le d) (by rwa [Nat.zero_add])
    have hempty : ∀ i, 2 ≤ i → f i = (0, 0) := by
      intro i hi
      simp only [List.mem_cons, List.not_mem_nil, or_false] at hf
      rcases hf with rfl | rfl | rfl
      · rfl
      · exact (if_neg (by omega)).trans (if_neg (by omega))
      · exact (if_neg (by omega)).trans (if_neg (by omega))
    rcases nodePair_eq_or (h := natMerkle rc iv) hempty d j with hedge | hedge
    · simp only [List.mem_cons, List.not_mem_nil, or_false] at hf
      rw [hedge]
      rcases hf with rfl | rfl | rfl
      · exact hzero
      · exact hone
      · exact htwo
    · rw [hedge]
      exact hzero
  · rw [hleaves, nodePair, hmap, hmap]
    rfl

/-- The hash of two nodes is injective and never zero in these trees, if the hashes on
the left edges are distinct and not zero. -/
theorem treePairs_injective (h : StandsFor blake3 rc) (hiv : BaseElement.new iv = merkleIv blake3)
    (hx : unpack leaf = natPair x) (hy : unpack leaf' = natPair y)
    (hnodup : ((0, 0) :: edgeHashes (natMerkle rc iv) merkleDepth (0, 0) x x y []).Nodup) :
    Set.InjOn (fun p : Pair × Pair => (poseidonHashes blake3).merkle p.1 p.2)
        (treePairs (poseidonHashes blake3) [leaf, leaf']) ∧
      ∀ p ∈ treePairs (poseidonHashes blake3) [leaf, leaf'],
        (poseidonHashes blake3).merkle p.1 p.2 ≠ (0, 0) := by
  have heq := edgeHashes_eq (h := natMerkle rc iv) (f := twoLeaves x (0, 0))
    (g := twoLeaves x y) (fun i hi => (if_neg (by omega)).trans (ite_self _))
    (fun i hi => (if_neg (by omega)).trans (if_neg (by omega))) 0 merkleDepth []
  have hlist : edgeHashes (natMerkle rc iv) merkleDepth (0, 0) x x y [] =
      (edgePairs (natMerkle rc iv) (twoLeaves x (0, 0)) (twoLeaves x y) 0 merkleDepth).map
        fun q => natMerkle rc iv q.1 q.2 := heq.trans (List.append_nil _)
  rw [hlist, List.nodup_cons] at hnodup
  obtain ⟨hzero, hnodup⟩ := hnodup
  have hmerkle (q : (ℕ × ℕ) × (ℕ × ℕ)) :
      (poseidonHashes blake3).merkle (natPair q.1) (natPair q.2) =
        natPair (natMerkle rc iv q.1 q.2) := (natPair_natMerkle h hiv q.1 q.2).symm
  constructor
  · intro p hp p' hp' hpp
    obtain ⟨q, hq, rfl⟩ := exists_edgePair h hiv hx hy hp
    obtain ⟨q', hq', rfl⟩ := exists_edgePair h hiv hx hy hp'
    dsimp only at hpp
    rw [hmerkle, hmerkle] at hpp
    rw [List.inj_on_of_nodup_map hnodup hq hq' (natPair_inj (natOutput_lt _) (natOutput_lt _) hpp)]
  · rintro p hp hpp
    obtain ⟨q, hq, rfl⟩ := exists_edgePair h hiv hx hy hp
    have hpos : 0 < baseModulus := baseModulus_prime.pos
    rw [hmerkle, ← natPair_zero] at hpp
    have hout := natPair_inj (natOutput_lt _) ⟨hpos, hpos⟩ hpp
    exact hzero (List.mem_map.2 ⟨q, hq, hout⟩)

end Edges

end NullaRelay.ProofHub

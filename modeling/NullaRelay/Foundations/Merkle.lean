import Mathlib.Algebra.Order.Ring.Nat
import Mathlib.Data.Nat.Basic
import Mathlib.Data.Nat.Log
import Mathlib.Data.Set.Function
import Mathlib.Logic.Function.Basic

/-!
# Binary Merkle trees and their frontier

The perfect binary tree over an infinite row of leaves, its nodes named by
height and position; the root that a leaf and its siblings give; and the
incremental frontier, which keeps one left node per height. The hash of two
nodes is a parameter. Where the hash does not collide on the pairs at hand, a
path to a node of the tree starts from the tree's leaf. The frontier's root is
the root of the tree over the inserted leaves, as long as the tree is not full. A
list of leaves filled up to a power of two has a tree of its own height, and its
root determines the list.
-/

namespace NullaRelay.Merkle

variable {D : Type*} (h : D → D → D)

/-- The two children, the given node on the side of the bit. -/
def children (bit : ℕ) (x s : D) : D × D := if bit = 0 then (x, s) else (s, x)

/-- The root that a leaf at index `i` and its siblings, lowest first, give. -/
def pathRoot : List D → ℕ → D → D
  | [], _, x => x
  | s :: ss, i, x =>
      let c := children (i % 2) x s
      pathRoot ss (i / 2) (h c.1 c.2)

/-- The pairs that are hashed on the way. -/
def pathPairs : List D → ℕ → D → List (D × D)
  | [], _, _ => []
  | s :: ss, i, x =>
      let c := children (i % 2) x s
      c :: pathPairs ss (i / 2) (h c.1 c.2)

/-- The node at height `d` and position `j` of the tree over the leaves `f`. -/
def node (f : ℕ → D) : ℕ → ℕ → D
  | 0, j => f j
  | d + 1, j => h (node f d (2 * j)) (node f d (2 * j + 1))

/-- The children of the node at height `d + 1` and position `j`. -/
def nodePair (f : ℕ → D) (d j : ℕ) : D × D := (node h f d (2 * j), node h f d (2 * j + 1))

variable {h}

theorem node_succ (f : ℕ → D) (d j : ℕ) :
    node h f (d + 1) j = h (nodePair h f d j).1 (nodePair h f d j).2 := rfl

/-- The tree over the nodes of height one is the tree above them. -/
theorem node_node_one (f : ℕ → D) (d j : ℕ) :
    node h (node h f 1) d j = node h f (d + 1) j := by
  induction d generalizing j with
  | zero => rfl
  | succ d ih =>
      rw [node, ih, ih]
      rfl

/-- A node depends only on the leaves below it. -/
theorem node_congr {f g : ℕ → D} {d j : ℕ} (hfg : ∀ i, i / 2 ^ d = j → f i = g i) :
    node h f d j = node h g d j := by
  induction d generalizing j with
  | zero => exact hfg j (by simp)
  | succ d ih =>
      have hbelow (i : ℕ) : i / 2 ^ (d + 1) = i / 2 ^ d / 2 := by
        rw [pow_succ, Nat.div_div_eq_div_mul]
      rw [node, node, ih fun i hi => hfg i ?_, ih fun i hi => hfg i ?_]
      · rw [hbelow, hi]
        omega
      · rw [hbelow, hi]
        omega

/-- The root that a path gives is the hash of its last pair. -/
theorem pathRoot_eq_hash {ss : List D} {i : ℕ} {x : D} (hss : ss ≠ []) :
    ∃ p ∈ pathPairs h ss i x, pathRoot h ss i x = h p.1 p.2 := by
  induction ss generalizing i x with
  | nil => exact absurd rfl hss
  | cons s ss ih =>
      cases ss with
      | nil => exact ⟨_, List.mem_cons_self, rfl⟩
      | cons s' ss =>
          obtain ⟨p, hp, hroot⟩ := @ih (i / 2)
            (h (children (i % 2) x s).1 (children (i % 2) x s).2) (List.cons_ne_nil _ _)
          exact ⟨p, List.mem_cons_of_mem _ hp, hroot⟩

/-- A path that gives the root of a tree starts from the tree's leaf, where no
pair hashed on the path collides with a different pair of the tree. -/
theorem eq_leaf_of_pathRoot {ss : List D} {i : ℕ} {x : D} {f : ℕ → D} (hi : i < 2 ^ ss.length)
    (hinj : ∀ p ∈ pathPairs h ss i x, ∀ d j, d < ss.length → j < 2 ^ (ss.length - 1 - d) →
      h p.1 p.2 = h (nodePair h f d j).1 (nodePair h f d j).2 → p = nodePair h f d j)
    (hroot : pathRoot h ss i x = node h f ss.length 0) : x = f i := by
  induction ss generalizing i x f with
  | nil =>
      have hi0 : i = 0 := by simpa using hi
      subst hi0
      exact hroot
  | cons s ss ih =>
      have hhalf : i / 2 < 2 ^ ss.length := by
        rw [List.length_cons, pow_succ] at hi
        omega
      have hstep := ih (f := node h f 1) hhalf (fun p hp d j hd hj heq => ?_)
        (by rw [node_node_one]; exact hroot)
      · have hpair := hinj _ List.mem_cons_self 0 (i / 2) (by simp) (by simpa using hhalf) hstep
        rcases Nat.mod_two_eq_zero_or_one i with h0 | h1
        · rw [children, h0, if_pos rfl, nodePair, Prod.mk.injEq] at hpair
          exact hpair.1.trans (congrArg f (by omega))
        · rw [children, h1, if_neg one_ne_zero, nodePair, Prod.mk.injEq] at hpair
          exact hpair.2.trans (congrArg f (by omega))
      · have hlevel : nodePair h (node h f 1) d j = nodePair h f (d + 1) j := by
          simp only [nodePair, node_node_one]
        rw [hlevel] at heq ⊢
        refine hinj p (List.mem_cons_of_mem _ hp) (d + 1) j (by simpa using hd) ?_ heq
        have hlen : (s :: ss).length - 1 - (d + 1) = ss.length - 1 - d := by
          simp only [List.length_cons]
          omega
        rwa [hlen]

section Map

variable {E : Type*} {g : E → E → E} {φ : D → E}

/-- A map that carries one hash to another carries paths to paths. -/
theorem map_pathRoot (hφ : ∀ a b, φ (h a b) = g (φ a) (φ b)) (ss : List D) (i : ℕ) (x : D) :
    φ (pathRoot h ss i x) = pathRoot g (ss.map φ) i (φ x) := by
  induction ss generalizing i x with
  | nil => rfl
  | cons s ss ih =>
      rw [pathRoot, ih, List.map_cons, pathRoot, hφ]
      congr 1
      rcases Nat.mod_two_eq_zero_or_one i with h0 | h1
      · rw [h0]
        rfl
      · rw [h1]
        rfl

theorem map_node (hφ : ∀ a b, φ (h a b) = g (φ a) (φ b)) (f : ℕ → D) (d j : ℕ) :
    φ (node h f d j) = node g (fun i => φ (f i)) d j := by
  induction d generalizing j with
  | zero => rfl
  | succ d ih => rw [node, node, hφ, ih, ih]

end Map

/-- Reading the siblings and the index bits off a sequence of levels. -/
theorem exists_index_of_levels (x s : ℕ → D) (bit : ℕ → ℕ) {n : ℕ}
    (hbit : ∀ d, d < n → bit d < 2)
    (hx : ∀ d, d < n → x (d + 1) =
      h (children (bit d) (x d) (s d)).1 (children (bit d) (x d) (s d)).2) :
    ∃ i, i < 2 ^ n ∧ x n = pathRoot h ((List.range n).map s) i (x 0) := by
  induction n generalizing x s bit with
  | zero => exact ⟨0, by simp, rfl⟩
  | succ n ih =>
      obtain ⟨i, hi, hroot⟩ := ih (fun d => x (d + 1)) (fun d => s (d + 1))
        (fun d => bit (d + 1)) (fun d hd => hbit _ (by omega)) fun d hd => hx _ (by omega)
      have hb := hbit 0 (by omega)
      refine ⟨2 * i + bit 0, by rw [pow_succ]; omega, ?_⟩
      have hmod : (2 * i + bit 0) % 2 = bit 0 := by omega
      have hdiv : (2 * i + bit 0) / 2 = i := by omega
      rw [List.range_succ_eq_map, List.map_cons, List.map_map, pathRoot, hmod, hdiv,
        ← hx 0 (by omega)]
      exact hroot

/-- The index with the given bits, lowest first. -/
def ofBits : (ℕ → ℕ) → ℕ → ℕ
  | _, 0 => 0
  | bit, n + 1 => 2 * ofBits (fun d => bit (d + 1)) n + bit 0

theorem ofBits_lt {bit : ℕ → ℕ} {n : ℕ} (hbit : ∀ d, d < n → bit d < 2) :
    ofBits bit n < 2 ^ n := by
  induction n generalizing bit with
  | zero => exact Nat.one_pos
  | succ n ih =>
      have hrest := @ih (fun d => bit (d + 1)) fun d hd => hbit _ (Nat.succ_lt_succ hd)
      have hfirst := hbit 0 n.succ_pos
      rw [ofBits, pow_succ]
      omega

/-- The bits of an index give it back, up to their number. -/
theorem ofBits_eq {bit : ℕ → ℕ} {i n : ℕ} (hbit : ∀ d, d < n → bit d = i / 2 ^ d % 2) :
    ofBits bit n = i % 2 ^ n := by
  induction n generalizing bit i with
  | zero => rw [ofBits, pow_zero, Nat.mod_one]
  | succ n ih =>
      have hrest := @ih (fun d => bit (d + 1)) (i / 2) fun d hd => by
        rw [hbit (d + 1) (Nat.succ_lt_succ hd), pow_succ', ← Nat.div_div_eq_div_mul]
      have hfirst := hbit 0 n.succ_pos
      rw [pow_zero, Nat.div_one] at hfirst
      rw [ofBits, hrest, hfirst, pow_succ', Nat.mod_mul, add_comm]

/-- A sequence of levels that goes up by given bits ends in the root of the path at the
index of these bits. -/
theorem pathRoot_ofBits (x s : ℕ → D) {bit : ℕ → ℕ} {n : ℕ}
    (hbit : ∀ d, d < n → bit d < 2)
    (hx : ∀ d, d < n → x (d + 1) =
      h (children (bit d) (x d) (s d)).1 (children (bit d) (x d) (s d)).2) :
    x n = pathRoot h ((List.range n).map s) (ofBits bit n) (x 0) := by
  induction n generalizing x s bit with
  | zero => rfl
  | succ n ih =>
      have hrest := ih (fun d => x (d + 1)) (fun d => s (d + 1))
        (fun d hd => hbit (d + 1) (Nat.succ_lt_succ hd))
        fun d hd => hx (d + 1) (Nat.succ_lt_succ hd)
      have hfirst := hbit 0 n.succ_pos
      have hmod : ofBits bit (n + 1) % 2 = bit 0 := by
        rw [ofBits]
        omega
      have hdiv : ofBits bit (n + 1) / 2 = ofBits (fun d => bit (d + 1)) n := by
        rw [ofBits]
        omega
      rw [List.range_succ_eq_map, List.map_cons, List.map_map, pathRoot, hmod, hdiv,
        ← hx 0 n.succ_pos]
      exact hrest

/-- A sequence of levels that goes up by the bits of an index ends in the root of the
path. -/
theorem pathRoot_of_levels (x s : ℕ → D) (i : ℕ) {n : ℕ}
    (hx : ∀ d, d < n → x (d + 1) = h (children (i / 2 ^ d % 2) (x d) (s d)).1
      (children (i / 2 ^ d % 2) (x d) (s d)).2) :
    x n = pathRoot h ((List.range n).map s) i (x 0) := by
  induction n generalizing x s i with
  | zero => rfl
  | succ n ih =>
      have hfirst := hx 0 (Nat.zero_lt_succ n)
      rw [pow_zero, Nat.div_one] at hfirst
      rw [List.range_succ_eq_map, List.map_cons, List.map_map, pathRoot, ← hfirst]
      refine ih (fun d => x (d + 1)) (fun d => s (d + 1)) (i / 2) fun d hd => ?_
      have hstep := hx (d + 1) (Nat.succ_lt_succ hd)
      rw [pow_succ', ← Nat.div_div_eq_div_mul] at hstep
      exact hstep

/-- The tree over the nodes of one height is the tree above them. -/
theorem node_node (f : ℕ → D) (e d j : ℕ) : node h (node h f e) d j = node h f (e + d) j := by
  induction d generalizing j with
  | zero => rfl
  | succ d ih =>
      rw [node, ih, ih]
      rfl

section Siblings

variable {f : ℕ → D} {S : Set (D × D)}

/-- The other child of the parent. -/
def siblingIndex (j : ℕ) : ℕ := if j % 2 = 0 then j + 1 else j - 1

variable (h) in
/-- The siblings on the way from position `i` to height `d`, lowest first. -/
def siblings (f : ℕ → D) (d i : ℕ) : List D :=
  (List.range d).map fun e => node h f e (siblingIndex (i / 2 ^ e))

@[simp] theorem length_siblings (f : ℕ → D) (d i : ℕ) : (siblings h f d i).length = d := by
  simp [siblings]

theorem siblings_succ (f : ℕ → D) (d i : ℕ) :
    siblings h f (d + 1) i = f (siblingIndex i) :: siblings h (node h f 1) d (i / 2) := by
  rw [siblings, List.range_succ_eq_map, List.map_cons, List.map_map, siblings]
  congr 1
  · simp [node]
  · refine List.map_congr_left fun e _ => ?_
    rw [Function.comp_apply, node_node_one, Nat.succ_eq_add_one, pow_succ',
      ← Nat.div_div_eq_div_mul]

/-- A node and its sibling are the two children. -/
theorem children_siblingIndex (f : ℕ → D) (i : ℕ) :
    children (i % 2) (f i) (f (siblingIndex i)) = nodePair h f 0 (i / 2) := by
  rw [siblingIndex, nodePair, node, node]
  rcases Nat.mod_two_eq_zero_or_one i with h0 | h1
  · have hi : 2 * (i / 2) = i := by omega
    rw [children, if_pos h0, if_pos h0, hi]
  · have hi : 2 * (i / 2) = i - 1 := by omega
    have hi' : 2 * (i / 2) + 1 = i := by omega
    rw [h1, children, if_neg one_ne_zero, if_neg one_ne_zero, hi', hi]

/-- The siblings of a leaf fold it to the node above it. -/
theorem pathRoot_siblings (f : ℕ → D) (d i : ℕ) :
    pathRoot h (siblings h f d i) i (f i) = node h f d (i / 2 ^ d) := by
  induction d generalizing f i with
  | zero => simp [siblings, pathRoot, node]
  | succ d ih =>
      rw [siblings_succ, pathRoot, children_siblingIndex (h := h), ← node_succ (h := h)]
      exact (ih (node h f 1) (i / 2)).trans (by
        rw [node_node_one, Nat.div_div_eq_div_mul, ← pow_succ'])

/-- On the way they hash the pairs of the tree. -/
theorem pathPairs_siblings (f : ℕ → D) (d i : ℕ) :
    pathPairs h (siblings h f d i) i (f i) =
      (List.range d).map fun e => nodePair h f e (i / 2 ^ (e + 1)) := by
  induction d generalizing f i with
  | zero => rfl
  | succ d ih =>
      rw [siblings_succ, pathPairs, children_siblingIndex (h := h), ← node_succ (h := h),
        List.range_succ_eq_map, List.map_cons, List.map_map]
      congr 1
      refine (ih (node h f 1) (i / 2)).trans (List.map_congr_left fun e _ => ?_)
      rw [Function.comp_apply, nodePair, nodePair, node_node_one, node_node_one,
        Nat.div_div_eq_div_mul, ← pow_succ', Nat.succ_eq_add_one]

theorem pathRoot_append (ss ss' : List D) (i : ℕ) (x : D) :
    pathRoot h (ss ++ ss') i x =
      pathRoot h ss' (i / 2 ^ ss.length) (pathRoot h ss i x) := by
  induction ss generalizing i x with
  | nil => simp [pathRoot]
  | cons s ss ih =>
      rw [List.cons_append, pathRoot, ih, Nat.div_div_eq_div_mul, ← pow_succ',
        List.length_cons, pathRoot]

theorem pathPairs_append (ss ss' : List D) (i : ℕ) (x : D) :
    pathPairs h (ss ++ ss') i x = pathPairs h ss i x ++
      pathPairs h ss' (i / 2 ^ ss.length) (pathRoot h ss i x) := by
  induction ss generalizing i x with
  | nil => simp [pathPairs, pathRoot]
  | cons s ss ih =>
      rw [List.cons_append, pathPairs, ih, Nat.div_div_eq_div_mul, ← pow_succ',
        List.length_cons, pathRoot, pathPairs, List.cons_append]

/-- A path reads as many bits of its index as it has siblings. -/
theorem pathRoot_congr {ss : List D} {i i' : ℕ} (hi : i % 2 ^ ss.length = i' % 2 ^ ss.length)
    (x : D) : pathRoot h ss i x = pathRoot h ss i' x ∧
      pathPairs h ss i x = pathPairs h ss i' x := by
  induction ss generalizing i i' x with
  | nil => exact ⟨rfl, rfl⟩
  | cons s ss ih =>
      rw [List.length_cons, pow_succ'] at hi
      have hbit : i % 2 = i' % 2 := by
        have hmod := congrArg (· % 2) hi
        simpa [Nat.mod_mul_right_mod] using hmod
      have hrest : i / 2 % 2 ^ ss.length = i' / 2 % 2 ^ ss.length := by
        have hdiv := congrArg (· / 2) hi
        simpa [Nat.mod_mul_right_div_self] using hdiv
      obtain ⟨hroot, hpairs⟩ :=
        ih hrest (h (children (i' % 2) x s).1 (children (i' % 2) x s).2)
      rw [pathRoot, pathRoot, pathPairs, pathPairs, hbit, hroot, hpairs]
      exact ⟨rfl, rfl⟩

/-- A path of any length that ends in the root of a tree at least as high starts from
a node of the tree, where the hash does not collide on the pairs of both. -/
theorem eq_node_of_pathRoot {ss : List D} {i d : ℕ} {x : D} (hd : ss.length ≤ d)
    (hinj : Set.InjOn (fun p : D × D => h p.1 p.2) S) (hpath : ∀ p ∈ pathPairs h ss i x, p ∈ S)
    (htree : ∀ e k, e < d → k < 2 ^ (d - 1 - e) → nodePair h f e k ∈ S)
    (hroot : pathRoot h ss i x = node h f d 0) :
    x = node h f (d - ss.length) (i % 2 ^ ss.length) := by
  obtain ⟨hroot', hpairs⟩ := @pathRoot_congr _ h ss i (i % 2 ^ ss.length) (by simp) x
  obtain ⟨e, rfl⟩ := Nat.exists_eq_add_of_le hd
  have hpair (b k : ℕ) : nodePair h (node h f e) b k = nodePair h f (e + b) k := by
    rw [nodePair, nodePair, node_node, node_node]
  rw [Nat.add_sub_cancel_left]
  refine eq_leaf_of_pathRoot (h := h) (Nat.mod_lt _ (Nat.two_pow_pos _))
    (fun p hp b k hb hk heq => ?_) ?_
  · refine hinj (hpath p (hpairs ▸ hp)) ?_ heq
    rw [hpair]
    refine htree _ _ (by omega) ?_
    have hexp : ss.length + e - 1 - (e + b) = ss.length - 1 - b := by omega
    rwa [hexp]
  · rw [← hroot', hroot, node_node, Nat.add_comm]

end Siblings

section Frontier

variable (h)

/-- The carry loop of an insertion, over `k` levels from `d` on: a left node is
stored and the loop ends, a right node is joined with the stored left one. -/
def insertNodes (nodes : ℕ → D) : ℕ → ℕ → ℕ → D → (ℕ → D)
  | 0, _, _, _ => nodes
  | k + 1, d, idx, x =>
      if idx % 2 = 0 then Function.update nodes d x
      else insertNodes nodes k (d + 1) (idx / 2) (h (nodes d) x)

/-- The fold of the stored nodes with empty subtrees, over `k` levels from `d`
on. -/
def foldNodes (nodes z : ℕ → D) : ℕ → ℕ → ℕ → D → D
  | 0, _, _, x => x
  | k + 1, d, idx, x =>
      foldNodes nodes z k (d + 1) (idx / 2) (if idx % 2 = 1 then h (nodes d) x else h x (z d))

/-- The root of the empty subtree of each height. -/
def zeroSubtree (zero : D) : ℕ → D
  | 0 => zero
  | d + 1 => h (zeroSubtree zero d) (zeroSubtree zero d)

/-- The stored nodes are the left siblings that the first `n` leaves of `f` have
completed. -/
def IsFrontier (depth : ℕ) (nodes f : ℕ → D) (n : ℕ) : Prop :=
  ∀ d, d < depth → n / 2 ^ d % 2 = 1 → nodes d = node h f d (n / 2 ^ d - 1)

variable {h} {zero : D} {depth n : ℕ} {nodes f g : ℕ → D}

theorem node_of_zero {d j : ℕ} (hf : ∀ i, i / 2 ^ d = j → f i = zero) :
    node h f d j = zeroSubtree h zero d := by
  have hconst (d j : ℕ) : node h (fun _ => zero) d j = zeroSubtree h zero d := by
    induction d generalizing j with
    | zero => rfl
    | succ d ih => rw [node, ih, ih, zeroSubtree]
  rw [node_congr (g := fun _ => zero) hf, hconst]

theorem node_prev_congr (hfg : ∀ i, i < n → f i = g i) {d : ℕ} (hd : n / 2 ^ d % 2 = 1) :
    node h f d (n / 2 ^ d - 1) = node h g d (n / 2 ^ d - 1) := by
  refine node_congr fun i hi => hfg i ?_
  by_contra hni
  have hle : n / 2 ^ d ≤ i / 2 ^ d := Nat.div_le_div_right (Nat.not_lt.1 hni)
  rw [hi] at hle
  generalize n / 2 ^ d = m at hd hle
  omega

theorem div_pow_succ (m d : ℕ) : m / 2 ^ (d + 1) = m / 2 ^ d / 2 := by
  rw [pow_succ, Nat.div_div_eq_div_mul]

theorem insertNodes_spec (hnodes : IsFrontier h depth nodes f n)
    (hfg : ∀ i, i < n → f i = g i) (k d : ℕ) (hk : d + k = depth)
    (hd : n + 1 = (n / 2 ^ d + 1) * 2 ^ d) {e : ℕ} (hde : d ≤ e) (he : e < depth)
    (hbit : (n + 1) / 2 ^ e % 2 = 1) :
    insertNodes h nodes k d (n / 2 ^ d) (node h g d (n / 2 ^ d)) e =
      node h g e ((n + 1) / 2 ^ e - 1) := by
  induction k generalizing d with
  | zero => omega
  | succ k ih =>
      have hquot : (n + 1) / 2 ^ d = n / 2 ^ d + 1 :=
        Nat.div_eq_of_eq_mul_left (Nat.two_pow_pos d) hd
      rw [insertNodes]
      split_ifs with heven
      · rcases Nat.eq_or_lt_of_le hde with rfl | hlt
        · rw [Function.update_self, hquot, Nat.add_sub_cancel]
        · have hsame : (n + 1) / 2 ^ e = n / 2 ^ e := by
            obtain ⟨m, rfl⟩ := Nat.exists_eq_add_of_lt hlt
            have hsplit (a : ℕ) : a / 2 ^ (d + m + 1) = a / 2 ^ d / 2 / 2 ^ m := by
              rw [Nat.div_div_eq_div_mul, Nat.div_div_eq_div_mul, ← pow_succ', ← pow_add]
              congr 2
            rw [hsplit, hsplit, hquot]
            congr 1
            omega
          rw [hsame] at hbit ⊢
          rw [Function.update_of_ne (by omega), hnodes e he hbit, node_prev_congr hfg hbit]
      · have hodd : n / 2 ^ d % 2 = 1 := by omega
        have hne : d ≠ e := by
          rintro rfl
          rw [hquot] at hbit
          omega
        have hpair : h (nodes d) (node h g d (n / 2 ^ d)) = node h g (d + 1) (n / 2 ^ (d + 1)) := by
          have hleft : 2 * (n / 2 ^ d / 2) = n / 2 ^ d - 1 := by omega
          have hright : 2 * (n / 2 ^ d / 2) + 1 = n / 2 ^ d := by omega
          rw [hnodes d (by omega) hodd, node_prev_congr hfg hodd, node, div_pow_succ, hright, hleft]
        rw [hpair, ← div_pow_succ]
        refine ih (d + 1) (by omega) ?_ (by omega)
        have htwo : n / 2 ^ d + 1 = (n / 2 ^ d / 2 + 1) * 2 := by omega
        rw [div_pow_succ, pow_succ', ← mul_assoc, ← htwo, ← hd]

/-- Inserting the next leaf keeps the stored nodes a frontier. -/
theorem IsFrontier.insert (hnodes : IsFrontier h depth nodes f n)
    (hfg : ∀ i, i < n → f i = g i) :
    IsFrontier h depth (insertNodes h nodes depth 0 n (g n)) g (n + 1) := by
  intro e he hbit
  have hspec := insertNodes_spec hnodes hfg depth 0 (Nat.zero_add _) (by simp) (Nat.zero_le e) he
    hbit
  simpa [node] using hspec

/-- Folding the frontier gives the node above the next free position. -/
theorem IsFrontier.foldNodes_eq (hnodes : IsFrontier h depth nodes f n)
    (hzero : ∀ i, n ≤ i → f i = zero) {k d : ℕ} (hk : d + k = depth) :
    foldNodes h nodes (zeroSubtree h zero) k d (n / 2 ^ d) (node h f d (n / 2 ^ d)) =
      node h f depth (n / 2 ^ depth) := by
  induction k generalizing d with
  | zero =>
      obtain rfl : d = depth := by omega
      rfl
  | succ k ih =>
      have hstep : (if n / 2 ^ d % 2 = 1 then h (nodes d) (node h f d (n / 2 ^ d))
          else h (node h f d (n / 2 ^ d)) (zeroSubtree h zero d)) =
            node h f (d + 1) (n / 2 ^ (d + 1)) := by
        rw [div_pow_succ, node]
        split_ifs with hodd
        · have hleft : 2 * (n / 2 ^ d / 2) = n / 2 ^ d - 1 := by omega
          have hright : 2 * (n / 2 ^ d / 2) + 1 = n / 2 ^ d := by omega
          rw [hnodes d (by omega) hodd, hright, hleft]
        · have hleft : 2 * (n / 2 ^ d / 2) = n / 2 ^ d := by omega
          have hempty : node h f d (n / 2 ^ d + 1) = zeroSubtree h zero d :=
            node_of_zero fun i hi => hzero i (by
              by_contra hni
              have hle : i / 2 ^ d ≤ n / 2 ^ d := Nat.div_le_div_right (by omega)
              rw [hi] at hle
              omega)
          rw [hleft, hempty]
      rw [foldNodes, hstep, ← div_pow_succ]
      exact ih (by omega)

/-- The root of a frontier that is not full is the root of the tree. -/
theorem IsFrontier.root_eq (hnodes : IsFrontier h depth nodes f n)
    (hzero : ∀ i, n ≤ i → f i = zero) (hn : n < 2 ^ depth) :
    foldNodes h nodes (zeroSubtree h zero) depth 0 n zero = node h f depth 0 := by
  have hfold := hnodes.foldNodes_eq hzero (Nat.zero_add depth)
  rw [Nat.div_eq_of_lt hn] at hfold
  simpa [node, hzero n le_rfl] using hfold

/-- The root of a full frontier is that of the empty tree. -/
theorem IsFrontier.root_full (hnodes : IsFrontier h depth nodes f (2 ^ depth))
    (hzero : ∀ i, 2 ^ depth ≤ i → f i = zero) :
    foldNodes h nodes (zeroSubtree h zero) depth 0 (2 ^ depth) zero =
      zeroSubtree h zero depth := by
  have hfold := hnodes.foldNodes_eq hzero (Nat.zero_add depth)
  rw [Nat.div_self (Nat.two_pow_pos depth), node_of_zero (j := 1) fun i hi => hzero i ?_] at hfold
  · simpa [node, hzero _ le_rfl] using hfold
  · by_contra hni
    rw [Nat.div_eq_of_lt (by omega)] at hi
    omega

end Frontier

section Padded

/-- Two trees of one height with the same root have the same leaves, where the hash
does not collide on their pairs. -/
theorem leaf_eq_of_node_eq {f g : ℕ → D} {S : Set (D × D)}
    (hinj : Set.InjOn (fun p : D × D => h p.1 p.2) S) {d j : ℕ}
    (hf : ∀ e k, e < d → k / 2 ^ (d - 1 - e) = j → nodePair h f e k ∈ S)
    (hg : ∀ e k, e < d → k / 2 ^ (d - 1 - e) = j → nodePair h g e k ∈ S)
    (heq : node h f d j = node h g d j) {i : ℕ} (hi : i / 2 ^ d = j) : f i = g i := by
  induction d generalizing j with
  | zero =>
      obtain rfl : i = j := by simpa using hi
      exact heq
  | succ d ih =>
      have hpair : nodePair h f d j = nodePair h g d j :=
        hinj (hf d j (Nat.lt_succ_self d) (by simp)) (hg d j (Nat.lt_succ_self d) (by simp)) heq
      rw [nodePair, nodePair, Prod.mk.injEq] at hpair
      have hbelow {b e k : ℕ} (hb : b / 2 = j) (he : e < d) (hk : k / 2 ^ (d - 1 - e) = b) :
          k / 2 ^ (d + 1 - 1 - e) = j := by
        have hexp : d + 1 - 1 - e = (d - 1 - e) + 1 := by omega
        rw [hexp, div_pow_succ, hk, hb]
      rw [div_pow_succ] at hi
      rcases Nat.mod_two_eq_zero_or_one (i / 2 ^ d) with h0 | h1
      · have hb : 2 * j / 2 = j := by omega
        exact ih (fun e k he hk => hf e k (by omega) (hbelow hb he hk))
          (fun e k he hk => hg e k (by omega) (hbelow hb he hk)) hpair.1 (by omega)
      · have hb : (2 * j + 1) / 2 = j := by omega
        exact ih (fun e k he hk => hf e k (by omega) (hbelow hb he hk))
          (fun e k he hk => hg e k (by omega) (hbelow hb he hk)) hpair.2 (by omega)

variable (h) in
/-- The pairs that the tree of height `d` over the leaves hashes. -/
def nodePairs (f : ℕ → D) (d : ℕ) : Set (D × D) :=
  {p | ∃ e k, e < d ∧ k < 2 ^ (d - 1 - e) ∧ p = nodePair h f e k}

/-- The same pairs, level by level. -/
theorem mem_nodePairs_iff {f : ℕ → D} {d : ℕ} {p : D × D} : p ∈ nodePairs h f d ↔
    p ∈ (List.range d).flatMap fun e => (List.range (2 ^ (d - 1 - e))).map (nodePair h f e) := by
  simp only [nodePairs, Set.mem_ofPred_eq, List.mem_flatMap, List.mem_map, List.mem_range]
  constructor
  · rintro ⟨e, k, he, hk, rfl⟩
    exact ⟨e, he, k, hk, rfl⟩
  · rintro ⟨e, he, k, hk, rfl⟩
    exact ⟨e, k, he, hk, rfl⟩

variable {zero : D} {l l' : List D} {S : Set (D × D)}

/-- The height of the tree over the list. -/
def height (l : List D) : ℕ := Nat.clog 2 l.length

variable (zero) in
/-- The list filled up with zeros. -/
def padded (l : List D) (i : ℕ) : D := l.getD i zero

variable (h zero) in
/-- The root of the list filled up to a power of two. -/
def paddedRoot (l : List D) : D := node h (padded zero l) (height l) 0

variable (h zero) in
/-- The pairs that are hashed for the root. -/
def paddedPairs (l : List D) : Set (D × D) := nodePairs h (padded zero l) (height l)

theorem length_le_two_pow_height (l : List D) : l.length ≤ 2 ^ height l :=
  Nat.le_pow_clog one_lt_two l.length

theorem padded_of_lt {i : ℕ} (hi : i < l.length) : padded zero l i = l[i] := by
  simp [padded, hi]

theorem paddedRoot_ne_zero (hzero : ∀ a b, h a b ≠ zero) (hleaf : ∀ x ∈ l, x ≠ zero)
    (hl : l ≠ []) : paddedRoot h zero l ≠ zero := by
  unfold paddedRoot
  cases height l with
  | zero =>
      rw [node, padded_of_lt (List.length_pos_iff.2 hl)]
      exact hleaf _ (List.getElem_mem _)
  | succ d => exact hzero _ _

/-- Leaves other than zero are told apart from the filling. -/
theorem eq_of_padded_eq (hleaf : ∀ x ∈ l, x ≠ zero) (hleaf' : ∀ x ∈ l', x ≠ zero) {n : ℕ}
    (hn : l.length ≤ n) (hn' : l'.length ≤ n)
    (heq : ∀ i < n, padded zero l i = padded zero l' i) : l = l' := by
  refine List.ext_getElem? fun i => ?_
  by_cases hi : i < n
  · have hpad := heq i hi
    rw [padded, padded, List.getD_eq_getElem?_getD, List.getD_eq_getElem?_getD] at hpad
    cases hx : l[i]? with
    | none =>
        cases hx' : l'[i]? with
        | none => rfl
        | some x' =>
            rw [hx, hx'] at hpad
            exact absurd hpad.symm (hleaf' x' (List.mem_of_getElem? hx'))
    | some x =>
        cases hx' : l'[i]? with
        | none =>
            rw [hx, hx'] at hpad
            exact absurd hpad (hleaf x (List.mem_of_getElem? hx))
        | some x' =>
            rw [hx, hx'] at hpad
            exact congrArg some hpad
  · rw [List.getElem?_eq_none (by omega), List.getElem?_eq_none (by omega)]

/-- The root determines the list, where every leaf is itself the hash of a pair with
zero: a leaf at the foot of one tree is no inner node of a higher one, whose right
child is no filling. -/
theorem eq_of_paddedRoot_eq (hzero : ∀ a b, h a b ≠ zero)
    (hinj : Set.InjOn (fun p : D × D => h p.1 p.2) S)
    (hleaf : ∀ x ∈ l, ∃ a, (a, zero) ∈ S ∧ x = h a zero)
    (hleaf' : ∀ x ∈ l', ∃ a, (a, zero) ∈ S ∧ x = h a zero)
    (hl : paddedPairs h zero l ⊆ S) (hl' : paddedPairs h zero l' ⊆ S) (hne : l ≠ [])
    (hle : height l ≤ height l') (heq : paddedRoot h zero l = paddedRoot h zero l') : l = l' := by
  have hnonzero : ∀ x ∈ l, x ≠ zero := by
    intro x hx
    obtain ⟨a, -, rfl⟩ := hleaf x hx
    exact hzero a zero
  have hnonzero' : ∀ x ∈ l', x ≠ zero := by
    intro x hx
    obtain ⟨a, -, rfl⟩ := hleaf' x hx
    exact hzero a zero
  obtain ⟨e, he⟩ := Nat.exists_eq_add_of_le hle
  have hfoot {i : ℕ} (hi : i < 2 ^ height l) :
      padded zero l i = node h (padded zero l') e i := by
    rw [paddedRoot, paddedRoot, he, Nat.add_comm, ← node_node] at heq
    refine leaf_eq_of_node_eq hinj ?_ ?_ heq (Nat.div_eq_of_lt hi)
    · intro d k hd hk
      exact hl ⟨d, k, hd, (Nat.div_eq_zero_iff_lt (Nat.two_pow_pos _)).1 hk, rfl⟩
    · intro d k hd hk
      refine hl' ⟨e + d, k, by omega, ?_, ?_⟩
      · have hexp : height l' - 1 - (e + d) = height l - 1 - d := by omega
        rw [hexp]
        exact (Nat.div_eq_zero_iff_lt (Nat.two_pow_pos _)).1 hk
      · rw [nodePair, nodePair, node_node, node_node]
  cases e with
  | zero =>
      have hsame : height l' = height l := he
      refine eq_of_padded_eq hnonzero hnonzero' (length_le_two_pow_height l) ?_
        fun i hi => hfoot hi
      rw [← hsame]
      exact length_le_two_pow_height l'
  | succ e =>
      have hpos : 0 < l.length := List.length_pos_iff.2 hne
      have hfirst := hfoot (i := 0) (Nat.two_pow_pos _)
      rw [padded_of_lt hpos, node_succ] at hfirst
      obtain ⟨a, ha, hhash⟩ := hleaf l[0] (List.getElem_mem hpos)
      have hpair : (a, zero) = nodePair h (padded zero l') e 0 := by
        refine hinj ha (hl' ⟨e, 0, by omega, Nat.two_pow_pos _, rfl⟩) ?_
        exact hhash.symm.trans hfirst
      have hright : zero = node h (padded zero l') e 1 := congrArg Prod.snd hpair
      cases e with
      | zero =>
          have htwo : 1 < l'.length := by
            by_contra hlen
            have hflat : height l' = 0 := Nat.clog_of_right_le_one (by omega) 2
            omega
          rw [node, padded_of_lt htwo] at hright
          exact absurd hright.symm (hnonzero' _ (List.getElem_mem htwo))
      | succ e => exact absurd hright.symm (hzero _ _)

end Padded

end NullaRelay.Merkle

import NullaRelay.Foundations.Merkle

/-!
# Paths into a padded tree

The leaf of a note is its hash with zero, and the tree over the leaves is filled up
with zeros. A path of free length that ends in the root need not start from a leaf of
the tree: the parent of a leaf and the filling next to it looks like the leaf of a
note, and a note may itself be what a longer path folds to. There is no further case.
-/

namespace NullaRelay.Merkle

variable {D : Type*} {h : D → D → D} {zero : D} {S : Set (D × D)} {notes : List D} {N : ℕ}
  {c root : D}

variable (h zero) in
/-- The leaves of the notes. -/
def noteLeaves (notes : List D) : List D := notes.map fun c => h c zero

@[simp] theorem length_noteLeaves (notes : List D) :
    (noteLeaves h zero notes).length = notes.length := List.length_map ..

@[simp] theorem height_noteLeaves (notes : List D) :
    height (noteLeaves h zero notes) = height notes := by
  simp [height]

variable (h zero S N) in
/-- A non-empty path at an index below `N` takes the leaf of `c` to the root, and hashes
only pairs in `S`. -/
def PathOpens (root c : D) : Prop :=
  ∃ i ss, i < N ∧ ss ≠ [] ∧ (c, zero) ∈ S ∧ (∀ p ∈ pathPairs h ss i (h c zero), p ∈ S) ∧
    pathRoot h ss i (h c zero) = root

variable (h zero) in
/-- A node of height zero whose sibling on the right is filling. -/
def PaddedPair (notes : List D) (c : D) : Prop :=
  ∃ p, 1 < height notes ∧ notes.length ≤ 2 * p + 1 ∧ 2 * p + 1 < 2 ^ height notes ∧
    c = padded zero (noteLeaves h zero notes) (2 * p)

variable (h zero S N) in
/-- The leaf of `c` folds to one of the notes, on a path that can go on with zero and the
siblings of that note's leaf. -/
def FoldsToNote (notes : List D) (c : D) : Prop :=
  ∃ i ss q, i < N ∧ (c, zero) ∈ S ∧ (∀ p ∈ pathPairs h ss i (h c zero), p ∈ S) ∧
    i / 2 ^ ss.length = 2 * q ∧ notes[q]? = some (pathRoot h ss i (h c zero))

theorem one_lt_length_of_height (hheight : 0 < height notes) : 1 < notes.length := by
  by_contra hlen
  have hflat : height notes = 0 := Nat.clog_of_right_le_one (Nat.le_of_not_lt hlen) 2
  omega

theorem pathRoot_ne_zero (hzero : ∀ a b, h a b ≠ zero) (ss : List D) (i : ℕ) {x : D}
    (hx : x ≠ zero) : pathRoot h ss i x ≠ zero := by
  induction ss generalizing i x with
  | nil => exact hx
  | cons s ss ih => exact ih (i / 2) (hzero _ _)

theorem padded_noteLeaves {q : ℕ} (hq : q < notes.length) :
    padded zero (noteLeaves h zero notes) q = h notes[q] zero := by
  rw [padded_of_lt (by simpa using hq)]
  simp [noteLeaves]

theorem padded_eq_zero_iff (hzero : ∀ a b, h a b ≠ zero) {q : ℕ} :
    padded zero (noteLeaves h zero notes) q = zero ↔ notes.length ≤ q := by
  constructor
  · intro hpad
    by_contra hq
    rw [padded_noteLeaves (Nat.lt_of_not_le hq)] at hpad
    exact hzero _ _ hpad
  · intro hq
    rw [padded, List.getD_eq_getElem?_getD, List.getElem?_eq_none (by simpa using hq),
      Option.getD_none]

/-- A pair that hashes to a place of the padded leaves is a note with zero. -/
theorem getElem?_of_padded_eq (hzero : ∀ a b, h a b ≠ zero)
    (hinj : Set.InjOn (fun p : D × D => h p.1 p.2) S) (hnotes : ∀ c ∈ notes, (c, zero) ∈ S)
    {p : D × D} (hp : p ∈ S) {q : ℕ}
    (heq : h p.1 p.2 = padded zero (noteLeaves h zero notes) q) :
    p.2 = zero ∧ notes[q]? = some p.1 := by
  have hq : q < notes.length := by
    by_contra hlen
    rw [(padded_eq_zero_iff hzero).2 (Nat.le_of_not_lt hlen)] at heq
    exact hzero _ _ heq
  rw [padded_noteLeaves hq] at heq
  have hpair : p = (notes[q], zero) := hinj hp (hnotes _ (List.getElem_mem hq)) heq
  rw [hpair]
  exact ⟨rfl, List.getElem?_eq_getElem hq⟩

/-- The siblings of a node of the tree are a path to the root. -/
theorem pathOpens_of_node {l : List D} (htree : paddedPairs h zero l ⊆ S) (hc : (c, zero) ∈ S)
    {e j : ℕ} (he : e < height l) (hj : j < 2 ^ (height l - e)) (hN : j < N)
    (heq : h c zero = node h (padded zero l) e j) :
    PathOpens h zero S N (paddedRoot h zero l) c := by
  refine ⟨j, siblings h (node h (padded zero l) e) (height l - e) j, hN, ?_, hc, ?_, ?_⟩
  · rw [← List.length_pos_iff, length_siblings]
    exact Nat.sub_pos_of_lt he
  · rw [heq, pathPairs_siblings]
    intro p hp
    obtain ⟨b, hb, rfl⟩ := List.mem_map.1 hp
    rw [List.mem_range] at hb
    refine htree ⟨e + b, j / 2 ^ (b + 1), by omega, ?_, ?_⟩
    · rw [Nat.div_lt_iff_lt_mul (Nat.two_pow_pos _), ← pow_add]
      have hexp : height l - 1 - (e + b) + (b + 1) = height l - e := by omega
      rwa [hexp]
    · rw [nodePair, nodePair, node_node, node_node]
  · rw [heq, pathRoot_siblings, Nat.div_eq_of_lt hj, node_node, Nat.add_sub_cancel' he.le]
    rfl

/-- A path that is no longer than the tree is high starts from a note, or from a leaf
next to filling. -/
theorem mem_or_paddedPair_of_pathRoot (hzero : ∀ a b, h a b ≠ zero)
    (hinj : Set.InjOn (fun p : D × D => h p.1 p.2) S) (hnotes : ∀ c ∈ notes, (c, zero) ∈ S)
    (htree : paddedPairs h zero (noteLeaves h zero notes) ⊆ S) {ss : List D} {i : ℕ}
    (hss : ss ≠ []) (hle : ss.length ≤ height notes) (hc : (c, zero) ∈ S)
    (hpath : ∀ p ∈ pathPairs h ss i (h c zero), p ∈ S)
    (hroot : pathRoot h ss i (h c zero) = paddedRoot h zero (noteLeaves h zero notes)) :
    (1 < notes.length ∧ c ∈ notes) ∨ PaddedPair h zero notes c := by
  have hpos : 0 < ss.length := List.length_pos_iff.2 hss
  have hpairs (e k : ℕ) (he : e < height notes) (hk : k < 2 ^ (height notes - 1 - e)) :
      nodePair h (padded zero (noteLeaves h zero notes)) e k ∈ S :=
    htree ⟨e, k, by simpa using he, by simpa using hk, rfl⟩
  have hnode := eq_node_of_pathRoot hle hinj hpath hpairs
    (by rw [hroot, paddedRoot, height_noteLeaves])
  have hj : i % 2 ^ ss.length < 2 ^ ss.length := Nat.mod_lt _ (Nat.two_pow_pos _)
  generalize i % 2 ^ ss.length = j at hnode hj
  obtain ⟨e, hheight⟩ := Nat.exists_eq_add_of_le hle
  rw [hheight, Nat.add_sub_cancel_left] at hnode
  have hlevel {e' : ℕ} (he : e = e' + 1) :
      (c, zero) = nodePair h (padded zero (noteLeaves h zero notes)) e' j := by
    rw [he, node_succ] at hnode
    refine hinj hc (hpairs e' j (by omega) ?_) hnode
    have hexp : height notes - 1 - e' = ss.length := by omega
    rwa [hexp]
  cases e with
  | zero =>
      have hget := (getElem?_of_padded_eq hzero hinj hnotes hc hnode).2
      exact .inl ⟨one_lt_length_of_height (by omega), List.mem_of_getElem? hget⟩
  | succ e =>
      have hpair := hlevel rfl
      rw [nodePair, Prod.mk.injEq] at hpair
      cases e with
      | zero =>
          refine .inr ⟨j, by omega, (padded_eq_zero_iff hzero).1 hpair.2.symm, ?_, hpair.1⟩
          rw [hheight, pow_succ]
          omega
      | succ e => exact absurd hpair.2.symm (hzero _ _)

/-- A path that is longer than the tree is high goes through the leaf of a note. -/
theorem foldsToNote_of_pathRoot (hzero : ∀ a b, h a b ≠ zero)
    (hinj : Set.InjOn (fun p : D × D => h p.1 p.2) S) (hnotes : ∀ c ∈ notes, (c, zero) ∈ S)
    (htree : paddedPairs h zero (noteLeaves h zero notes) ⊆ S) {ss : List D} {i : ℕ} (hi : i < N)
    (hlt : height notes < ss.length) (hc : (c, zero) ∈ S)
    (hpath : ∀ p ∈ pathPairs h ss i (h c zero), p ∈ S)
    (hroot : pathRoot h ss i (h c zero) = paddedRoot h zero (noteLeaves h zero notes)) :
    FoldsToNote h zero S N notes c := by
  obtain ⟨ss₀, t, ss₂, rfl, hlen⟩ : ∃ ss₀ t ss₂, ss = ss₀ ++ t :: ss₂ ∧
      ss₂.length = height notes := by
    refine ⟨ss.take (ss.length - 1 - height notes), ss[ss.length - 1 - height notes],
      ss.drop (ss.length - 1 - height notes + 1), ?_, ?_⟩
    · rw [List.getElem_cons_drop, List.take_append_drop]
    · rw [List.length_drop]
      omega
  rw [pathPairs_append] at hpath
  have hbelow : ∀ p ∈ pathPairs h ss₀ i (h c zero), p ∈ S := fun p hp =>
    hpath p (List.mem_append_left _ hp)
  have habove := fun p hp => hpath p (List.mem_append_right _ hp)
  rw [pathRoot_append] at hroot
  have hy : pathRoot h ss₀ i (h c zero) ≠ zero := pathRoot_ne_zero hzero _ _ (hzero _ _)
  generalize hm : i / 2 ^ ss₀.length = m at habove hroot
  generalize hfold : pathRoot h ss₀ i (h c zero) = y at habove hroot hy
  rw [pathRoot] at hroot
  rw [pathPairs] at habove
  -- the step out of the first part hashes a pair that the leaf of a note is the hash of
  have hleaf := eq_node_of_pathRoot (d := height notes) hlen.le hinj
    (fun p hp => habove p (List.mem_cons_of_mem _ hp))
    (fun e k he hk => htree ⟨e, k, by simpa using he, by simpa using hk, rfl⟩)
    (by rw [hroot, paddedRoot, height_noteLeaves])
  rw [hlen, Nat.sub_self, node] at hleaf
  obtain ⟨hright, hnote⟩ :=
    getElem?_of_padded_eq hzero hinj hnotes (habove _ List.mem_cons_self) hleaf
  have hbit : m % 2 = 0 := by
    by_contra hodd
    rw [children, if_neg hodd] at hright
    exact hy hright
  rw [children, if_pos hbit] at hnote
  have hmod : i % 2 ^ (ss₀.length + (1 + height notes)) / 2 ^ ss₀.length =
      2 * (m / 2 % 2 ^ height notes) := by
    rw [pow_add, Nat.mod_mul_right_div_self, hm, pow_add, pow_one, Nat.mod_mul, hbit, Nat.zero_add]
  have hbits : i % 2 ^ ss₀.length =
      i % 2 ^ (ss₀.length + (1 + height notes)) % 2 ^ ss₀.length :=
    (Nat.mod_mod_of_dvd _ (pow_dvd_pow 2 (Nat.le_add_right _ _))).symm
  obtain ⟨hroot', hpairs'⟩ := pathRoot_congr (h := h) hbits (h c zero)
  refine ⟨i % 2 ^ (ss₀.length + (1 + height notes)), ss₀, _, (Nat.mod_le _ _).trans_lt hi, hc,
    ?_, hmod, ?_⟩
  · rw [← hpairs']
    exact hbelow
  · rw [← hroot', hfold, ← hnote]

theorem PaddedPair.pathOpens (hzero : ∀ a b, h a b ≠ zero)
    (htree : paddedPairs h zero (noteLeaves h zero notes) ⊆ S) (hN : notes.length ≤ N)
    (hpair : PaddedPair h zero notes c) :
    PathOpens h zero S N (paddedRoot h zero (noteLeaves h zero notes)) c := by
  obtain ⟨p, hheight, hfill, hp, rfl⟩ := hpair
  have hlong : 2 ^ (height notes - 1) < notes.length :=
    Nat.pow_pred_clog_lt_self one_lt_two (one_lt_length_of_height (by omega))
  obtain ⟨e, he⟩ : ∃ e, height notes = e + 2 := ⟨height notes - 2, by omega⟩
  rw [he, pow_succ] at hp
  rw [he] at hlong
  have hlow : p < 2 ^ (e + 1) := by omega
  have hnode : (padded zero (noteLeaves h zero notes) (2 * p), zero) =
      nodePair h (padded zero (noteLeaves h zero notes)) 0 p := by
    rw [nodePair, node, node, (padded_eq_zero_iff hzero).2 hfill]
  refine pathOpens_of_node htree (e := 1) (j := p) ?_ ?_ ?_ ((hlow.trans hlong).trans_le hN) ?_
  · rw [hnode]
    exact htree ⟨0, p, by simp [he], by simpa [he] using hlow, rfl⟩
  · simp [he]
  · simpa [he] using hlow
  · rw [node_succ, ← hnode]

theorem FoldsToNote.pathOpens (hnotes : ∀ c ∈ notes, (c, zero) ∈ S)
    (htree : paddedPairs h zero (noteLeaves h zero notes) ⊆ S)
    (hfolds : FoldsToNote h zero S N notes c) :
    PathOpens h zero S N (paddedRoot h zero (noteLeaves h zero notes)) c := by
  obtain ⟨i, ss, q, hi, hc, hpath, hindex, hq⟩ := hfolds
  obtain ⟨hlt, hget⟩ := List.getElem?_eq_some_iff.1 hq
  have hlow : q / 2 ^ height notes = 0 :=
    Nat.div_eq_of_lt (hlt.trans_le (length_le_two_pow_height notes))
  -- after the fold: zero on the right, then the siblings of the leaf
  have hchildren : children (2 * q % 2) (pathRoot h ss i (h c zero)) zero = (notes[q], zero) := by
    rw [Nat.mul_mod_right, children, if_pos rfl, hget]
  have hhalf : 2 * q / 2 = q := Nat.mul_div_cancel_left q two_pos
  refine ⟨i, ss ++ zero :: siblings h (padded zero (noteLeaves h zero notes)) (height notes) q, hi,
    by simp, hc, ?_, ?_⟩
  · rw [pathPairs_append, hindex, pathPairs, hchildren, hhalf, ← padded_noteLeaves (h := h) hlt,
      pathPairs_siblings]
    intro p hp
    rcases List.mem_append.1 hp with hp | hp
    · exact hpath p hp
    rcases List.mem_cons.1 hp with rfl | hp
    · exact hnotes _ (List.getElem_mem hlt)
    obtain ⟨e, he, rfl⟩ := List.mem_map.1 hp
    rw [List.mem_range] at he
    refine htree ⟨e, q / 2 ^ (e + 1), by simpa using he, ?_, rfl⟩
    rw [Nat.div_lt_iff_lt_mul (Nat.two_pow_pos _), ← pow_add, height_noteLeaves]
    have hexp : height notes - 1 - e + (e + 1) = height notes := by omega
    rw [hexp]
    exact hlt.trans_le (length_le_two_pow_height notes)
  · rw [pathRoot_append, hindex, pathRoot, hchildren, hhalf, ← padded_noteLeaves (h := h) hlt,
      pathRoot_siblings, hlow, paddedRoot, height_noteLeaves]

/-- What opens to the root of the tree: the notes, where there are two of them, the
leaves next to filling, and what folds to a note. -/
theorem pathOpens_iff (hzero : ∀ a b, h a b ≠ zero)
    (hinj : Set.InjOn (fun p : D × D => h p.1 p.2) S) (hnotes : ∀ c ∈ notes, (c, zero) ∈ S)
    (htree : paddedPairs h zero (noteLeaves h zero notes) ⊆ S) (hN : notes.length ≤ N) :
    PathOpens h zero S N (paddedRoot h zero (noteLeaves h zero notes)) c ↔
      (1 < notes.length ∧ c ∈ notes) ∨ PaddedPair h zero notes c ∨
        FoldsToNote h zero S N notes c := by
  constructor
  · rintro ⟨i, ss, hi, hss, hc, hpath, hroot⟩
    rcases Nat.lt_or_ge (height notes) ss.length with hlt | hle
    · exact .inr (.inr (foldsToNote_of_pathRoot hzero hinj hnotes htree hi hlt hc hpath hroot))
    · rcases mem_or_paddedPair_of_pathRoot hzero hinj hnotes htree hss hle hc hpath hroot with
        hmem | hpair
      · exact .inl hmem
      · exact .inr (.inl hpair)
  · have hlow := length_le_two_pow_height notes
    rintro (⟨hlen, hmem⟩ | hpair | hfolds)
    · obtain ⟨q, hq, rfl⟩ := List.getElem_of_mem hmem
      refine pathOpens_of_node htree (hnotes _ hmem) (e := 0) (j := q) ?_ ?_ (hq.trans_le hN) ?_
      · rw [height_noteLeaves]
        exact Nat.clog_pos one_lt_two hlen
      · rw [height_noteLeaves]
        exact hq.trans_le hlow
      · rw [node, padded_noteLeaves hq]
    · exact hpair.pathOpens hzero htree hN
    · exact hfolds.pathOpens hnotes htree

end NullaRelay.Merkle

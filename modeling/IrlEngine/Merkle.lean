import IrlEngine.Policy
import IrlEngine.Lib.MerkleTree

/-!
# The Merkle root of a list of leaves

`compute_merkle_root` of `merkle.rs`: leaves in hexadecimal, a loop that doubles the
last node of an odd level and hashes the nodes two by two, and the node that is left.
In `merkleLoop` an index out of bounds is `none`, as is running out of fuel; neither
happens (`merkleLoop_eq`), and the root is that of the level-by-level tree of the
leaves.

* `tamper_evident_iff` — the root tells two lists of leaves apart exactly when they
  are not confusable: a list and its own padding are, and so are a list and an inner
  level of its tree;
* `anchor_commits` — the root of lower-case leaves and their number determine them.
-/

namespace IrlEngine

open MerkleTree

/-! ## Nodes -/

/-- A node of the tree: 32 bytes. -/
structure Digest where
  bytes : List UInt8
  length_eq : bytes.length = 32
  deriving DecidableEq, Repr

namespace Digest

/-- The SHA-256 digest of a message. -/
def ofMessage (message : List UInt8) : Digest := ⟨Sha256.hash message, Sha256.length_hash message⟩

/-- `[0u8; 32]`. -/
def zero : Digest := ⟨List.replicate 32 0, List.length_replicate⟩

/-- `hex::encode`. -/
def toHex (d : Digest) : String := String.ofList (Encoding.hexEncode d.bytes)

theorem toHex_injective : Function.Injective toHex := by
  intro c d h
  have hchars := congrArg String.toList h
  rw [toHex, toHex, String.toList_ofList, String.toList_ofList] at hchars
  cases c; cases d
  simpa using Encoding.hexEncode_injective hchars

end Digest

/-- The message that an inner node is the digest of. -/
def nodeMessage (p : Digest × Digest) : List UInt8 := p.1.bytes ++ p.2.bytes

/-- The hash of an inner node. -/
def hashNodes (left right : Digest) : Digest := .ofMessage (nodeMessage (left, right))

theorem nodeMessage_injective : Function.Injective nodeMessage := by
  rintro ⟨a, b⟩ ⟨c, d⟩ h
  obtain ⟨h₁, h₂⟩ := List.append_inj h (by rw [a.length_eq, c.length_eq])
  cases a; cases b; cases c; cases d
  simp only at h₁ h₂
  subst h₁ h₂
  rfl

/-- The node of a leaf: its 32 bytes, or the digest of its text when it is not the
hexadecimal form of 32 bytes. -/
def leafNode (h : String) : Digest :=
  match hexDecodeText h with
  | some bytes => if hlen : bytes.length = 32 then ⟨bytes, hlen⟩ else .ofMessage (Text.utf8 h)
  | none => .ofMessage (Text.utf8 h)

/-! ## The loop -/

/-- `nodes.chunks(2)`. -/
def chunks2 : List Digest → List (List Digest)
  | [] => []
  | [a] => [[a]]
  | a :: b :: nodes => [a, b] :: chunks2 nodes

/-- The digest of `pair[0]` and `pair[1]`. -/
def hashPair (pair : List Digest) : Option Digest := do
  let left ← pair[0]?
  let right ← pair[1]?
  return hashNodes left right

/-- Duplicate the last node if their number is odd. -/
def duplicateLast (nodes : List Digest) : Option (List Digest) :=
  if nodes.length % 2 = 1 then do
    let last ← nodes.getLast?
    return nodes ++ [last]
  else some nodes

/-- The loop of `compute_merkle_root`. -/
def merkleLoop : ℕ → List Digest → Option Digest
  | 0, nodes => if 1 < nodes.length then none else nodes[0]?
  | fuel + 1, nodes =>
    if 1 < nodes.length then do
      let even ← duplicateLast nodes
      let parents ← (chunks2 even).mapM hashPair
      merkleLoop fuel parents
    else nodes[0]?

/-- `compute_merkle_root`, or nothing if the loop does not end. -/
def computeMerkleRoot (hashes : List String) : Option Digest :=
  if hashes.isEmpty then some .zero else merkleLoop hashes.length (hashes.map leafNode)

/-! ## The loop builds the tree -/

theorem hashPair_pair (a b : Digest) : hashPair [a, b] = some (hashNodes a b) := rfl

/-- A pass over an even level. -/
theorem mapM_chunks2 {nodes : List Digest} (h : nodes.length % 2 = 0) :
    (chunks2 nodes).mapM hashPair = some (level hashNodes nodes) := by
  induction nodes using chunks2.induct with
  | case1 => rfl
  | case2 a => simp at h
  | case3 a b nodes ih =>
    rw [List.length_cons, List.length_cons] at h
    rw [chunks2, List.mapM_cons, hashPair_pair, ih (by omega)]
    rfl

/-- Doubling the last node of an odd level leaves the next level as it is. -/
theorem level_append_last {nodes : List Digest} {last : Digest} (h : nodes.length % 2 = 1)
    (hlast : nodes.getLast? = some last) :
    level hashNodes (nodes ++ [last]) = level hashNodes nodes := by
  induction nodes using chunks2.induct with
  | case1 => simp at h
  | case2 a =>
    obtain rfl : a = last := by simpa using hlast
    rfl
  | case3 a b nodes ih =>
    rw [List.length_cons, List.length_cons] at h
    cases nodes with
    | nil => simp at h
    | cons c nodes =>
      rw [List.getLast?_cons_cons, List.getLast?_cons_cons] at hlast
      have hrest := ih (by omega) hlast
      simp only [level, List.cons_append, pairs, List.map_cons] at hrest ⊢
      rw [hrest]

/-- One pass of the loop. -/
theorem pass_eq {nodes : List Digest} (h : nodes ≠ []) : ∃ even, duplicateLast nodes = some even ∧
    (chunks2 even).mapM hashPair = some (level hashNodes nodes) := by
  unfold duplicateLast
  by_cases hodd : nodes.length % 2 = 1
  · obtain ⟨last, hlast⟩ := Option.isSome_iff_exists.1 (List.getLast?_isSome.2 h)
    refine ⟨nodes ++ [last], by simp only [if_pos hodd, hlast]; rfl, ?_⟩
    rw [mapM_chunks2 (by rw [List.length_append, List.length_singleton]; omega),
      level_append_last hodd hlast]
  · exact ⟨nodes, if_neg hodd, mapM_chunks2 (by omega)⟩

/-- With fuel for its depth, the loop returns the root of the tree. -/
theorem merkleLoop_eq {nodes : List Digest} (h : nodes ≠ []) {fuel : ℕ}
    (hfuel : depth nodes ≤ fuel) :
    merkleLoop fuel nodes = root hashNodes nodes := by
  induction fuel generalizing nodes with
  | zero =>
    have hdepth : depth nodes = 0 := by omega
    have hlast := length_last_level hashNodes h
    rw [hdepth] at hlast
    rw [merkleLoop, root, hdepth, if_neg (by rw [show nodes.length = 1 from hlast]; omega),
      Function.iterate_zero_apply, List.head?_eq_getElem?]
  | succ fuel ih =>
    by_cases hlen : 1 < nodes.length
    · obtain ⟨even, heven, hpass⟩ := pass_eq h
      have hdepth := depth_level hashNodes hlen
      simp only [merkleLoop, if_pos hlen, heven, hpass, Option.bind_eq_bind, Option.bind_some]
      rw [ih (level_ne_nil hashNodes h) (by omega), root, root, hdepth, Function.iterate_succ_apply]
    · rw [merkleLoop, if_neg hlen, root, depth_of_short (by omega), Function.iterate_zero_apply,
        List.head?_eq_getElem?]

theorem depth_le_length {α : Type} (l : List α) : depth l ≤ l.length :=
  Nat.clog_le_of_le_pow Nat.lt_two_pow_self.le

/-- The leaves of the tree; an empty list counts as one leaf of zeros. -/
def leafNodes (hashes : List String) : List Digest :=
  if hashes.isEmpty then [.zero] else hashes.map leafNode

theorem leafNodes_ne_nil (hashes : List String) : leafNodes hashes ≠ [] := by
  cases hashes with
  | nil => simp [leafNodes]
  | cons h hashes => simp [leafNodes]

theorem leafNodes_of_ne_nil {hashes : List String} (h : hashes ≠ []) :
    leafNodes hashes = hashes.map leafNode := by
  rw [leafNodes, if_neg (by simpa using h)]

theorem computeMerkleRoot_eq (hashes : List String) :
    computeMerkleRoot hashes = root hashNodes (leafNodes hashes) := by
  cases hashes with
  | nil => rfl
  | cons h hashes =>
    have hne : (h :: hashes).map leafNode ≠ [] := by simp
    have hfuel : depth ((h :: hashes).map leafNode) ≤ (h :: hashes).length := by
      have := depth_le_length ((h :: hashes).map leafNode)
      rwa [List.length_map] at this
    rw [computeMerkleRoot, if_neg (by simp), merkleLoop_eq hne hfuel, leafNodes_of_ne_nil (by simp)]

theorem root_isSome (hashes : List String) : ∃ d, computeMerkleRoot hashes = some d := by
  obtain ⟨d, hd⟩ := List.length_eq_one_iff.1 (length_last_level hashNodes (leafNodes_ne_nil hashes))
  refine ⟨d, ?_⟩
  rw [computeMerkleRoot_eq, root, hd]
  rfl

/-! ## What a root determines -/

/-- The messages of the inner nodes of the tree. -/
def nodeMessages (hashes : List String) : List (List UInt8) :=
  (joined hashNodes (depth (leafNodes hashes)) (leafNodes hashes)).map nodeMessage

/-- No two inner nodes of the two trees have different messages and one digest. -/
def NoCollision (xs ys : List String) : Prop :=
  Sha256.CollisionFree {m | m ∈ nodeMessages xs ∨ m ∈ nodeMessages ys}

theorem root_eq_iff_confusable {xs ys : List String} (h : NoCollision xs ys) :
    computeMerkleRoot xs = computeMerkleRoot ys ↔
      Confusable hashNodes (leafNodes xs) (leafNodes ys) := by
  rw [computeMerkleRoot_eq, computeMerkleRoot_eq]
  refine root_eq_iff (leafNodes_ne_nil xs) (leafNodes_ne_nil ys) ?_
  intro p hp q hq hpq
  have hmem : ∀ {r : Digest × Digest}, r ∈ joined hashNodes (depth (leafNodes xs)) (leafNodes xs) ∨
      r ∈ joined hashNodes (depth (leafNodes ys)) (leafNodes ys) →
      nodeMessage r ∈ {m | m ∈ nodeMessages xs ∨ m ∈ nodeMessages ys} := by
    intro r hr
    exact hr.imp List.mem_map_of_mem List.mem_map_of_mem
  exact nodeMessage_injective (h (hmem hp) (hmem hq) (congrArg Digest.bytes hpq))

/-- **Tamper evidence.**  The root tells two lists of leaves apart exactly when they
are not confusable. -/
theorem tamper_evident_iff (xs ys : List String) (h : NoCollision xs ys) :
    (computeMerkleRoot xs = computeMerkleRoot ys → xs = ys) ↔
      (Confusable hashNodes (leafNodes xs) (leafNodes ys) → xs = ys) := by
  rw [root_eq_iff_confusable h]

/-! ### A list and its own padding -/

/-- A digest of 32 equal bytes. -/
def Digest.fill (b : UInt8) : Digest := ⟨List.replicate 32 b, List.length_replicate⟩

theorem leafNode_toHex (d : Digest) : leafNode d.toHex = d := by
  rw [leafNode, Digest.toHex, hexDecodeText, String.toList_ofList, Encoding.hexDecode_hexEncode]
  exact dif_pos d.length_eq

theorem leafNodes_toHex {ds : List Digest} (h : ds ≠ []) :
    leafNodes (ds.map Digest.toHex) = ds := by
  rw [leafNodes_of_ne_nil (by simpa using h), List.map_map]
  conv_rhs => rw [← List.map_id ds]
  exact List.map_congr_left fun d _ => leafNode_toHex d

/-- Three leaves, and the same with the last one twice. -/
def threeLeaves : List String := [Digest.fill 0xAA, .fill 0xBB, .fill 0xCC].map Digest.toHex

/-- Four different hashes. -/
def fourLeaves : List String :=
  [Digest.fill 0xAA, .fill 0xBB, .fill 0xCC, .fill 0xCC].map Digest.toHex

/-- The messages of both trees: two pairs of leaves, and their digests. -/
theorem nodeMessages_threeLeaves : nodeMessages threeLeaves = nodeMessages fourLeaves ∧
    nodeMessages threeLeaves
      = [(Digest.fill 0xAA, .fill 0xBB), (.fill 0xCC, .fill 0xCC),
          (hashNodes (.fill 0xAA) (.fill 0xBB), hashNodes (.fill 0xCC) (.fill 0xCC))].map
            nodeMessage := by
  rw [nodeMessages, nodeMessages, threeLeaves, fourLeaves, leafNodes_toHex (by simp),
    leafNodes_toHex (by simp)]
  exact ⟨rfl, rfl⟩

theorem noCollision_threeLeaves : NoCollision threeLeaves fourLeaves := by
  obtain ⟨hsame, heq⟩ := nodeMessages_threeLeaves
  have hnodup : ((nodeMessages threeLeaves).map Sha256.hash).Nodup := by
    rw [heq]
    decide +kernel
  refine (Sha256.CollisionFree.of_nodup hnodup).mono ?_
  rintro m (hm | hm)
  · exact hm
  · rwa [← hsame] at hm

theorem threeLeaves_ne : threeLeaves ≠ fourLeaves := by
  intro h
  have hlen := congrArg List.length h
  simp [threeLeaves, fourLeaves] at hlen

/-- A deleted last leaf goes unnoticed when its left neighbour is the same leaf. -/
theorem padding_unnoticed : NoCollision threeLeaves fourLeaves ∧
    computeMerkleRoot threeLeaves = computeMerkleRoot fourLeaves ∧ threeLeaves ≠ fourLeaves := by
  refine ⟨noCollision_threeLeaves, ?_, threeLeaves_ne⟩
  rw [computeMerkleRoot_eq, computeMerkleRoot_eq, threeLeaves, fourLeaves,
    leafNodes_toHex (by simp), leafNodes_toHex (by simp)]
  rfl

/-- The criterion at these two lists. -/
theorem tamper_evident_iff_sample :
    (computeMerkleRoot threeLeaves = computeMerkleRoot fourLeaves → threeLeaves = fourLeaves) ↔
      (Confusable hashNodes (leafNodes threeLeaves) (leafNodes fourLeaves) →
        threeLeaves = fourLeaves) :=
  tamper_evident_iff _ _ noCollision_threeLeaves

/-! ## What an anchor row determines -/

/-- A leaf as the seal writes it: 64 lower-case hexadecimal digits. -/
def IsLeaf (h : String) : Prop :=
  h.toList.length = 64 ∧ ∀ c ∈ h.toList, Encoding.isLowerHex c = true

/-- `hashes.len() as i32`. -/
def leafCount (hashes : List String) : Int32 := Int32.ofNat hashes.length

/-- The number of leaves and the root, as an anchor row has them. -/
def storedPair (hashes : List String) : Int32 × Option String :=
  (leafCount hashes, (computeMerkleRoot hashes).map Digest.toHex)

theorem isLeaf_toHex (d : Digest) : IsLeaf d.toHex := by
  rw [IsLeaf, Digest.toHex, String.toList_ofList, Encoding.length_hexEncode, d.length_eq]
  exact ⟨rfl, fun c hc => Encoding.isLowerHex_of_mem_hexEncode hc⟩

/-- A leaf is the text of its node. -/
theorem toHex_leafNode {h : String} (hleaf : IsLeaf h) : (leafNode h).toHex = h := by
  obtain ⟨bytes, hdecode, hlen, hencode⟩ :=
    Encoding.hexDecode_of_lower (n := 32) hleaf.2 (by rw [hleaf.1])
  have hnode : leafNode h = ⟨bytes, hlen⟩ := by
    rw [leafNode, hexDecodeText, hdecode]
    exact dif_pos hlen
  rw [hnode, Digest.toHex, hencode, String.ofList_toList]

/-- The nodes of leaves determine them. -/
theorem eq_of_leafNode {xs ys : List String} (hx : ∀ h ∈ xs, IsLeaf h) (hy : ∀ h ∈ ys, IsLeaf h)
    (h : xs.map leafNode = ys.map leafNode) : xs = ys := by
  refine eq_of_map_eq ?_ h
  intro a ha b hb hab
  have hleaf : ∀ c, c ∈ xs ∨ c ∈ ys → IsLeaf c := fun c hc => hc.elim (hx c) (hy c)
  rw [← toHex_leafNode (hleaf a ha), hab, toHex_leafNode (hleaf b hb)]

/-- Equal roots of equally many leaves. -/
theorem eq_of_root_eq {xs ys : List String} (hlen : xs.length = ys.length)
    (hx : ∀ h ∈ xs, IsLeaf h) (hy : ∀ h ∈ ys, IsLeaf h) (hcf : NoCollision xs ys)
    (h : computeMerkleRoot xs = computeMerkleRoot ys) : xs = ys := by
  cases xs with
  | nil => exact (List.length_eq_zero_iff.1 hlen.symm).symm
  | cons a xs =>
    have hne : ys ≠ [] := by
      rintro rfl
      exact absurd hlen (by simp)
    have hconf := (root_eq_iff_confusable hcf).1 h
    rw [leafNodes_of_ne_nil (by simp), leafNodes_of_ne_nil hne] at hconf
    exact eq_of_leafNode hx hy (hconf.eq_of_length (by rw [List.length_map, List.length_map, hlen]))

theorem leafCount_eq_iff {xs ys : List String} :
    leafCount xs = leafCount ys ↔ xs.length % 4294967296 = ys.length % 4294967296 := by
  unfold leafCount
  constructor
  · intro h
    have hnat := congrArg (fun n : Int32 => n.toBitVec.toNat) h
    simpa using hnat
  · intro h
    apply Int32.toBitVec_inj.1
    apply BitVec.eq_of_toNat_eq
    simpa using h

theorem storedPair_eq_iff {xs ys : List String} : storedPair xs = storedPair ys ↔
    xs.length % 4294967296 = ys.length % 4294967296 ∧
      computeMerkleRoot xs = computeMerkleRoot ys := by
  rw [storedPair, storedPair, Prod.mk.injEq, leafCount_eq_iff,
    (Option.map_injective Digest.toHex_injective).eq_iff]

/-- `leaf_count` can hold the length of the list: it is an `INT`. -/
def FitsLeafCount (hashes : List String) : Prop := hashes.length ≤ 2147483647

/-- A stored pair has the length of a list that fits. -/
theorem length_eq_of_storedPair {xs ys : List String} (hx : FitsLeafCount xs)
    (hy : FitsLeafCount ys) (h : storedPair xs = storedPair ys) : xs.length = ys.length := by
  have hmod := (storedPair_eq_iff.1 h).1
  unfold FitsLeafCount at hx hy
  omega

/-- **An anchor commits to its leaves.**  The loop returns for every non-empty input,
and no index is out of bounds; the roots of equally many leaves are equal only for
equal lists; and so the stored pair of leaf count and root determines the leaves. -/
theorem anchor_commits (xs ys : List String) :
    (xs ≠ [] → ∃ d, computeMerkleRoot xs = some d ∧
      ∀ fuel, xs.length ≤ fuel → merkleLoop fuel (xs.map leafNode) = some d) ∧
    (xs ≠ [] → ys ≠ [] → (∀ h ∈ xs, IsLeaf h) → (∀ h ∈ ys, IsLeaf h) → NoCollision xs ys →
      (xs.length = ys.length → computeMerkleRoot xs = computeMerkleRoot ys → xs = ys) ∧
      (FitsLeafCount xs → FitsLeafCount ys → storedPair xs = storedPair ys → xs = ys)) := by
  refine ⟨?_, ?_⟩
  · intro hne
    obtain ⟨d, hd⟩ := root_isSome xs
    refine ⟨d, hd, fun fuel hfuel => ?_⟩
    have hdepth : depth (xs.map leafNode) ≤ fuel :=
      (depth_le_length _).trans (by rwa [List.length_map])
    rw [merkleLoop_eq (by simpa using hne) hdepth, ← leafNodes_of_ne_nil hne,
      ← computeMerkleRoot_eq, hd]
  · intro _ _ hx hy hcf
    refine ⟨fun hlen h => eq_of_root_eq hlen hx hy hcf h, fun hxs hys h => ?_⟩
    exact eq_of_root_eq (length_eq_of_storedPair hxs hys h) hx hy hcf (storedPair_eq_iff.1 h).2

/-! The three leaves are told from the four, whose root they share. -/

theorem fitsLeafCount_threeLeaves : FitsLeafCount threeLeaves ∧ FitsLeafCount fourLeaves := by
  unfold FitsLeafCount threeLeaves fourLeaves
  rw [List.length_map, List.length_map]
  decide

/-- The loop returns for the three leaves, and their stored pair is not that of the four. -/
theorem anchor_commits_sample :
    (∃ d, computeMerkleRoot threeLeaves = some d ∧
      ∀ fuel, threeLeaves.length ≤ fuel → merkleLoop fuel (threeLeaves.map leafNode) = some d) ∧
    storedPair threeLeaves ≠ storedPair fourLeaves := by
  have hleaf : ∀ ds : List Digest, ∀ h ∈ ds.map Digest.toHex, IsLeaf h := by
    intro ds h hh
    obtain ⟨d, -, rfl⟩ := List.mem_map.1 hh
    exact isLeaf_toHex d
  have h := anchor_commits threeLeaves fourLeaves
  refine ⟨h.1 (by simp [threeLeaves]), fun hpair => threeLeaves_ne ?_⟩
  exact (h.2 (by simp [threeLeaves]) (by simp [fourLeaves]) (hleaf _) (hleaf _)
    noCollision_threeLeaves).2 fitsLeafCount_threeLeaves.1 fitsLeafCount_threeLeaves.2 hpair

end IrlEngine

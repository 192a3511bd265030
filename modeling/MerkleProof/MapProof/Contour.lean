import MerkleProof.Preimage
import MerkleProof.TrieKey.Forms

/-!
The contour of a trie that is rebuilt from left to right: the subtrees that still wait for
what stands to their right. When the next subtree shares less with the topmost one than the
two topmost share with each other, these two are merged.
-/

namespace MerkleProof.MapProof

/-- A subtree: where it sits and what it hashes to. -/
structure Subtree where
  key : TrieKey
  digest : Digest

/-- What is hashed for a branch: both digests, then both keys in compressed form. -/
def branchPreimage (left right : Subtree) : Preimage :=
  ⟨[left.digest.toList, right.digest.toList, left.key.compressed, right.key.compressed]⟩

/-- What is hashed for a map of a single entry. -/
def singlePreimage (s : Subtree) : Preimage := ⟨[s.key.compressed, s.digest.toList]⟩

def Subtree.merge (key : TrieKey) (left right : Subtree) : Subtree :=
  ⟨key, (branchPreimage left right).digest⟩

structure Contour where
  /-- The subtrees under the top, the nearest first. -/
  below : List Subtree
  top : Subtree
  /-- The common prefix of the two topmost subtrees, while there are two. -/
  shared : TrieKey

namespace Contour

def start (first second : Subtree) : Contour :=
  ⟨[first], second, first.key.commonPrefix second.key⟩

/-- Merges the two topmost subtrees as long as the prefix they share is to be given up. -/
def foldWhile (giveUp : TrieKey → Bool) : (below : List Subtree) → (top : Subtree) →
    (shared : TrieKey) → Contour
  | [], top, shared => ⟨[], top, shared⟩
  | left :: below, top, shared =>
      if giveUp shared then
        let parent := Subtree.merge shared left top
        match below with
        | [] => ⟨[], parent, shared⟩
        | next :: rest =>
            foldWhile giveUp (next :: rest) parent (next.key.commonPrefix parent.key)
      else ⟨left :: below, top, shared⟩

def push (c : Contour) (s : Subtree) : Contour :=
  let shared := c.top.key.commonPrefix s.key
  let folded := foldWhile (fun k => shared.size < k.size) c.below c.top c.shared
  ⟨folded.top :: folded.below, s, shared⟩

def ofSubtrees (first second : Subtree) (rest : List Subtree) : Contour :=
  rest.foldl push (start first second)

def finish (c : Contour) : Subtree :=
  (foldWhile (fun _ => true) c.below c.top c.shared).top

end Contour

end MerkleProof.MapProof

import MerkleProof.AuthenticatedList
import MerkleProof.AuthenticatedMap
import MerkleProof.ListProof.Rules
import MerkleProof.Main
import MerkleProof.Json.Scalar
import MerkleProof.Proofs.TrieKey.Bits
import MerkleProof.Proofs.TrieKey.Order
import MerkleProof.Proofs.MapProof.Trie
import MerkleProof.Proofs.MapProof.Contour
import MerkleProof.Proofs.MapProof.Root
import MerkleProof.Proofs.Digest
import MerkleProof.Proofs.AuthenticatedMap
import MerkleProof.Proofs.MapProof.Cut
import MerkleProof.Proofs.MapProof.Soundness
import MerkleProof.Proofs.ListProof.Hashed
import MerkleProof.Proofs.ListProof.Soundness
import MerkleProof.Proofs.MapProof.Completeness
import MerkleProof.Proofs.MapProof.TrailingBits
import MerkleProof.Proofs.ListProof.Agreement
import MerkleProof.Proofs.ListProof.Completeness
import MerkleProof.Proofs.MapProof.Unsorted
import MerkleProof.Proofs.Hex
import MerkleProof.Proofs.Json.Token
import MerkleProof.Proofs.Json.Reader
import MerkleProof.Proofs.ListProof.Document
import MerkleProof.Proofs.TrieKey.BitString
import MerkleProof.Proofs.MapProof.Document
import MerkleProof.Proofs.MapM
import MerkleProof.Proofs.CommandLine.Request
import MerkleProof.Proofs.Text.Utf8
import MerkleProof.Proofs.MapProof.Shuffled
import MerkleProof.Proofs.CommandLine.Verdict
import MerkleProof.Proofs.ListProof.Nodes
import MerkleProof.Proofs.ListProof.Accepted
import MerkleProof.Proofs.TrieKey.Lexicographic
import MerkleProof.Proofs.TrieKey.CommonPrefix
import MerkleProof.Proofs.MapProof.Preimages
import MerkleProof.Proofs.MapProof.Pruning
import MerkleProof.Proofs.ListProof.Unpruned
import MerkleProof.Proofs.TrieKey.Reading
import MerkleProof.Proofs.Digest.Text
import MerkleProof.Proofs.Varint
import MerkleProof.Proofs.TrieKey.Masking
import MerkleProof.Proofs.TrieKey.Sorted
import MerkleProof.Proofs.MapProof.Settled

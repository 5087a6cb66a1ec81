import NullaRelay.Foundations.Transition
import NullaRelay.Foundations.Scale
import NullaRelay.Foundations.Extraction
import NullaRelay.Field.BaseElement
import NullaRelay.Field.Scalar
import NullaRelay.Frame.Dispatch
import NullaRelay.ScanProof.Wire
import NullaRelay.ScanProof.OneOfMany
import NullaRelay.ScanProof.SpecialSoundness
import NullaRelay.ScanProof.Pallet
import NullaRelay.ScanProof.ValidateUnsigned
import NullaRelay.ScanProof.Marks
import NullaRelay.ScanProof.Relations
import NullaRelay.ScanProof.VectorModel
import NullaRelay.ScanProof.CoinLane
import NullaRelay.ScanProof.Deposit
import NullaRelay.ScanProof.NoteLane
import NullaRelay.RwaParachain.Registry
import NullaRelay.RwaParachain.Marketplace
import NullaRelay.AuthGate.AccessKeys
import NullaRelay.Xcm.Encoding
import NullaRelay.Foundations.Air
import NullaRelay.ProofHub.Poseidon
import NullaRelay.ProofHub.PurchaseAir
import NullaRelay.Foundations.Merkle
import NullaRelay.ProofHub.V2
import NullaRelay.ProofHub.SpendAir
import NullaRelay.Frame.NoteTree
import NullaRelay.ProofHub.Wire
import NullaRelay.ProofHub.Verifier
import NullaRelay.ProofHub.Frontier
import NullaRelay.ProofHub.Pallet
import NullaRelay.ProofHub.Effects
import NullaRelay.ProofHub.Footprint
import NullaRelay.ProofHub.LeafTree
import NullaRelay.ProofHub.Accepting
import NullaRelay.ProofHub.Ownership
import NullaRelay.ProofHub.SpendTags
import NullaRelay.ProofHub.ChangeNotes
import NullaRelay.ProofHub.Nullifiers
import NullaRelay.ProofHub.Binding
import NullaRelay.Foundations.WriteOnce
import NullaRelay.ProofHub.Purchases
import NullaRelay.RwaParachain.Purchases
import NullaRelay.Xcm.RwaLink
import NullaRelay.Xcm.Agreement
import NullaRelay.Xcm.Relist
import NullaRelay.ScanProof.Messages
import NullaRelay.AuthGate.Grants
import NullaRelay.Xcm.AccessLink
import NullaRelay.Xcm.Grants
import NullaRelay.ScanProof.NotePurchases
import NullaRelay.ScanProof.Binding
import NullaRelay.ScanProof.Indexed
import NullaRelay.ScanProof.Covered
import NullaRelay.Foundations.Unspent
import NullaRelay.ProofHub.Openings
import NullaRelay.ProofHub.Ledger
import NullaRelay.ProofHub.Lanes
import NullaRelay.ScanProof.CoinPurchases
import NullaRelay.Lanes
import NullaRelay.ProofHub.NoteLeaves
import NullaRelay.ProofHub.Provenance
import NullaRelay.ProofHub.TreeStorage
import NullaRelay.Foundations.Chunks
import NullaRelay.ScanProof.Effects
import NullaRelay.ScanProof.CoinGroups
import NullaRelay.Frame.NoteRoots
import NullaRelay.ScanProof.NoteStorage
import NullaRelay.ProofHub.TraceTable
import NullaRelay.ProofHub.DepositAir
import NullaRelay.ProofHub.SpendTrace
import NullaRelay.ProofHub.SpendBlocks
import NullaRelay.ProofHub.SpendComplete
import NullaRelay.ScanProof.Prover
import NullaRelay.ScanProof.Completeness
import NullaRelay.RwaParachain.Runtime
import NullaRelay.RwaParachain.Lifecycle
import NullaRelay.RwaParachain.SalePaths
import NullaRelay.ProofHub.OpenedOnce
import NullaRelay.ProofHub.RelistNotes
import NullaRelay.ScanProof.Membership
import NullaRelay.ProofHub.MerklePaths
import NullaRelay.WireLengths
import NullaRelay.ScanProof.Admission
import NullaRelay.Foundations.SigmaProtocol
import NullaRelay.ScanProof.BalanceProofs
import NullaRelay.ScanProof.CoinProofs
import NullaRelay.Foundations.FieldPermutations
import NullaRelay.ProofHub.PoseidonPerm
import NullaRelay.ProofHub.DepositCommitAir
import NullaRelay.ScanProof.ExponentTables
import NullaRelay.Foundations.BlockStream
import NullaRelay.ScanProof.RngStream
import NullaRelay.AuthGate.SingleUse
import NullaRelay.RwaParachain.AssetIds
import NullaRelay.ProofHub.ValidateUnsigned
import NullaRelay.PoolTags
import NullaRelay.ProofHub.CircuitLedger
import NullaRelay.ProofHub.PoseidonEval
import NullaRelay.ProofHub.ProverOpenings
import NullaRelay.ProofHub.Books
import NullaRelay.Frame.Balances
import NullaRelay.ProofHub.Solvency
import NullaRelay.ProofHub.Withdrawable
import NullaRelay.Xcm.PaidAccess
import NullaRelay.AccessSales
import NullaRelay.ScanProof.SpendableCoins
import NullaRelay.Foundations.WitnessHiding
import NullaRelay.ScanProof.Anonymity
import NullaRelay.ScanProof.CoinSolvency
import NullaRelay.ScanProof.Solvency
import NullaRelay.Xcm.Network
import NullaRelay.ProofHub.PendingSpends
import NullaRelay.Replay
import NullaRelay.ProofHub.EventSync
import NullaRelay.ScanProof.EventSync

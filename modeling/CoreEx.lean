import CoreEx.Lib.OrderedMap
import CoreEx.Lib.Postings
import CoreEx.Lib.Prog
import CoreEx.State.WalletIndex
import CoreEx.Crypto.Data
import CoreEx.Contracts.Exceptions
import CoreEx.Crypto.Services
import CoreEx.Crypto.Configuration
import CoreEx.Time.Slots
import CoreEx.Rounds.RoundCalculator
import CoreEx.Rounds.ForgingInfo
import CoreEx.State.Wallet
import CoreEx.State.WalletRepository
import CoreEx.Lib.Promise
import CoreEx.Lib.Number
import CoreEx.Lib.Storage
import CoreEx.Lib.Bytes
import CoreEx.Lib.Unicode
import CoreEx.Lib.Cursor
import CoreEx.Database.DatabaseService
import CoreEx.Crypto.TransactionVerifier
import CoreEx.State.Consistency
import CoreEx.Transactions.TransactionHandler
import CoreEx.State.Ledger
import CoreEx.Rounds.RoundState
import CoreEx.Transactions.Effect
import CoreEx.Transactions.Transfer
import CoreEx.Transactions.MultiPayment
import CoreEx.Transactions.Vote
import CoreEx.Transactions.ValidatorRegistration
import CoreEx.Transactions.ValidatorResignation
import CoreEx.Transactions.MultiSignatureRegistration
import CoreEx.State.VoteBalances
import CoreEx.State.Transactions
import CoreEx.Transactions.Admission
import CoreEx.State.Mutators
import CoreEx.State.StateStore
import CoreEx.State.BlockState
import CoreEx.State.LastBlocks
import CoreEx.Blocks.BlockVerifier
import CoreEx.Blocks.BlockProcessor
import CoreEx.Properties.VoteBalances
import CoreEx.Properties.Reversal
import CoreEx.Properties.Atomicity
import CoreEx.Properties.Supply
import CoreEx.Properties.MultiSignature
import CoreEx.Properties.BlockVerification
import CoreEx.Properties.BlockAcceptance
import CoreEx.Codec.ByteBuffer
import CoreEx.Codec.Services
import CoreEx.Codec.TransactionTypes
import CoreEx.Codec.TransactionSerializer
import CoreEx.Codec.Payload
import CoreEx.Codec.TransactionDeserializer
import CoreEx.Codec.TransactionSchema
import CoreEx.Codec.TransactionFactory
import CoreEx.Properties.TransactionCodec
import CoreEx.Properties.CanonicalDecoding
import CoreEx.Properties.TransactionFields
import CoreEx.Codec.Signer
import CoreEx.Properties.Signing
import CoreEx.Codec.Serializer
import CoreEx.Codec.BlockSerializer
import CoreEx.Codec.BlockFactory
import CoreEx.Properties.BlockCodec
import CoreEx.Properties.BlockSigning
import CoreEx.Properties.KeptBlocks
import CoreEx.State.WalletObjects
import CoreEx.State.WalletRepositoryCopyOnWrite
import CoreEx.Properties.CopyOnWrite
import CoreEx.Properties.PendingWallets
import CoreEx.Properties.CloneRepository
import CoreEx.Properties.OverlayLaws
import CoreEx.Lib.StableSort
import CoreEx.Pool.Query
import CoreEx.State.TransactionValidator
import CoreEx.Pool.Collator
import CoreEx.Properties.PriorityOrder
import CoreEx.Pool.SenderMempool
import CoreEx.Properties.CollatedSize
import CoreEx.Properties.PendingLists
import CoreEx.State.Bookkeeping
import CoreEx.State.PublicKeys
import CoreEx.Lib.ThrowingSort
import CoreEx.Rounds.DposState
import CoreEx.Properties.RoundArithmetic
import CoreEx.Properties.MilestoneValidation
import CoreEx.Properties.SlotChain
import CoreEx.Properties.BlockTimeLookup
import CoreEx.Properties.ForgingSchedule
import CoreEx.Properties.ScheduledForger
import CoreEx.Database.Puts
import CoreEx.Properties.SavedBlocks
import CoreEx.Properties.StoredChain
import CoreEx.Lib.Consecutive
import CoreEx.P2P.NetworkMonitor
import CoreEx.Properties.DownloadedBlocks
import CoreEx.P2P.PeerVerifier
import CoreEx.Properties.PeerVerification
import CoreEx.Properties.ThresholdCounting
import CoreEx.Properties.NonceOrder
import CoreEx.Properties.LastForged
import CoreEx.Properties.SlotArithmetic
import CoreEx.Crypto.MilestoneCursor
import CoreEx.Properties.MilestoneSearch
import CoreEx.Properties.ValidatorRanking
import CoreEx.Properties.UsernameUniqueness
import CoreEx.Properties.HeaderCodec
import CoreEx.Properties.MissedBlocks
import CoreEx.Pool.Service
import CoreEx.Properties.PoolSize
import CoreEx.Rounds.Shuffle
import CoreEx.Properties.ValidatorShuffle
import CoreEx.Properties.HighestMatch
import CoreEx.Lib.Recent
import CoreEx.State.CachedTransactions
import CoreEx.Properties.RecentTransactions
import CoreEx.Lib.BoundedMap
import CoreEx.Utils.CappedMap
import CoreEx.State.BlockStore
import CoreEx.Properties.BoundedStores
import CoreEx.P2P.NetworkHealth
import CoreEx.Properties.ForkDecision
import CoreEx.Blocks.BlockQueue
import CoreEx.Properties.ChunkedBlocks
import CoreEx.Crypto.TransactionRegistry
import CoreEx.Properties.RegistryConsistency
import CoreEx.Kernel.Lock
import CoreEx.Kernel.LockPhases
import CoreEx.Kernel.LockDraining
import CoreEx.Properties.LockExclusion
import CoreEx.State.WalletMaps
import CoreEx.Properties.IndexInverse
import CoreEx.Lib.Double
import CoreEx.Utils.NodeBuffer
import CoreEx.Utils.RawByteBuffer
import CoreEx.Properties.CursorSafety
import CoreEx.Lib.Heap
import CoreEx.State.AttributeMap
import CoreEx.State.WalletClone
import CoreEx.Properties.CloneFidelity
import CoreEx.Kernel.MemoryQueue
import CoreEx.Properties.QueueDiscipline
import CoreEx.Properties.RestartOrder
import CoreEx.Blockchain.ProcessBlocksJob
import CoreEx.Properties.DownloadCursor
import CoreEx.Blockchain.StateMachine
import CoreEx.Properties.MachineProgress
import CoreEx.Properties.ForkRecovery
import CoreEx.Pool.Operations
import CoreEx.Properties.PoolAgreement
import CoreEx.State.ValidatorKeys

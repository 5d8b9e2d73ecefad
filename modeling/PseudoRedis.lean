import PseudoRedis.Lib.Slots
import PseudoRedis.Libc
import PseudoRedis.Bss
import PseudoRedis.Dict
import PseudoRedis.DictEntries
import PseudoRedis.DictMap
import PseudoRedis.Reply
import PseudoRedis.ReplyArr
import PseudoRedis.Fits
import PseudoRedis.Client
import PseudoRedis.Handler
import PseudoRedis.KeySpace
import PseudoRedis.Effects
import PseudoRedis.Commands.Strings
import PseudoRedis.Commands.Hashes
import PseudoRedis.Commands.Lists
import PseudoRedis.Commands.Sets
import PseudoRedis.Commands.Table
import PseudoRedis.Commands.StringEffects
import PseudoRedis.Commands.HashEffects
import PseudoRedis.Commands.ListEffects
import PseudoRedis.Commands.SetEffects
import PseudoRedis.Commands.Summary
import PseudoRedis.Commands.Blocking
import PseudoRedis.NonEmpty
import PseudoRedis.Atomic
import PseudoRedis.Complete
import PseudoRedis.Request
import PseudoRedis.Tokenizer
import PseudoRedis.NonInterference
import PseudoRedis.Server
import PseudoRedis.Framing
import PseudoRedis.Dispatch
import PseudoRedis.Isolation
import PseudoRedis.Connections
import PseudoRedis.Ownership
import PseudoRedis.Release
import PseudoRedis.Numbers
import PseudoRedis.Capacity
import PseudoRedis.Terminal
import PseudoRedis.ClientRequest
import PseudoRedis.Lib.BitString
import PseudoRedis.Bits
import PseudoRedis.Append
import PseudoRedis.Accesses
import PseudoRedis.Lib.Rings
import PseudoRedis.ListRing
import PseudoRedis.Members
import PseudoRedis.SetAlgebra
import PseudoRedis.SetHistory
import PseudoRedis.HashHistory
import PseudoRedis.HashReplies
import PseudoRedis.Scan
import PseudoRedis.BlockingPop
import PseudoRedis.Ranges
import PseudoRedis.SetRange
import PseudoRedis.BlockingErrors
import PseudoRedis.Commands.Edits
import PseudoRedis.RandomElem
import PseudoRedis.PendingRing
import PseudoRedis.ServiceOrder
import PseudoRedis.Rename
import PseudoRedis.Expand
import PseudoRedis.AddSub
import PseudoRedis.Counters
import PseudoRedis.PopPush
import PseudoRedis.SetMove
import PseudoRedis.ListIndex
import PseudoRedis.Lib.Removal
import PseudoRedis.ListRemove
import PseudoRedis.ListInsert
import PseudoRedis.Substrings
import PseudoRedis.PushExisting
import PseudoRedis.AllOrNothing
import PseudoRedis.HashFields
import PseudoRedis.ArgBound
import PseudoRedis.BitCount
import PseudoRedis.ArrNum
import PseudoRedis.ScanOptions
import PseudoRedis.ScanBudget
import PseudoRedis.Lib.Chains
import PseudoRedis.Lib.Rounding
import PseudoRedis.DictHeap
import PseudoRedis.DictUnlink
import PseudoRedis.DictIter
import PseudoRedis.SafeIter
import PseudoRedis.CutZero
import PseudoRedis.FloatText
import PseudoRedis.FloatBuffer
import PseudoRedis.Lib.Interleaving
import PseudoRedis.KeyMap
import PseudoRedis.Footprint
import PseudoRedis.Commands.Footprints
import PseudoRedis.Independence
import PseudoRedis.DictMemory
import PseudoRedis.DictLaid
import PseudoRedis.DictUpdates
import PseudoRedis.DictRemoval
import PseudoRedis.DictDestroy
import PseudoRedis.DictLifetime
import PseudoRedis.Lib.Faulting
import PseudoRedis.ListCode
import PseudoRedis.ListWhole
import PseudoRedis.ListLoops
import PseudoRedis.ListLifetime
import PseudoRedis.Ledger
import PseudoRedis.Reporting
import PseudoRedis.Keeping
import PseudoRedis.LedgerStrings
import PseudoRedis.LedgerLists
import PseudoRedis.LedgerHashes
import PseudoRedis.LedgerKeys
import PseudoRedis.LedgerRequests
import PseudoRedis.LedgerHistory
import PseudoRedis.Printing
import PseudoRedis.Conversation

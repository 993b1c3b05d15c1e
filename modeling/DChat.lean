import DChat.Interleaving
import DChat.SiblingCheck
import DChat.Sync
import DChat.Delivery
import DChat.Rollback
import DChat.ReadBack
import DChat.Access
import DChat.Answers
import DChat.Replay
import DChat.Startup
import DChat.Redelivery
import DChat.PeerPages
import DChat.Commitment
import DChat.ChainStore
import DChat.Removal
import DChat.RangeCount
import DChat.Counters
import DChat.Lookups
import DChat.JsonConfig
import DChat.DBFile
import DChat.ConsoleUI
import DChat.ChatApplication
import DChat.Numbers
import DChat.Transport
import DChat.Contention
import DChat.Membership
import DChat.ChatHistory
import DChat.EditorSession
import DChat.Splits
import DChat.Halting
import DChat.Conversation
import DChat.ServerLoop

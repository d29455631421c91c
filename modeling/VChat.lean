import VChat.Codec.Dependence
import VChat.Codec.Delimited
import VChat.Transition.Runs
import VChat.Transition.Since
import VChat.Transition.Link
import VChat.Transition.TwoSided
import VChat.NetWork.WriteQueue
import VChat.NetWork.FrameReader
import VChat.Chat.World
import VChat.Chat.Room
import VChat.Chat.RoomManager
import VChat.Chat.ProcessPacket
import VChat.Chat.Dispatch
import VChat.Chat.UserManager
import VChat.Chat.Registry
import VChat.Chat.CreateRace
import VChat.Chat.CreateOwned
import VChat.Chat.PlayerLimit
import VChat.Chat.Membership
import VChat.Chat.Matchmaking
import VChat.Chat.QueueTimer
import VChat.Chat.JoinRace
import VChat.Transition.Calls
import VChat.Transition.BoundedStack
import VChat.Transition.TryLock
import VChat.Codec.ShiftRegister
import VChat.Common.KeyedCrc
import VChat.Common.FixedCrc
import VChat.Common.SafeRingBuffer
import VChat.Common.RingStack
import VChat.Common.RingRace
import VChat.Common.AllocateManager
import VChat.Common.AllocatorSound
import VChat.Common.AllocatorRestart
import VChat.Common.AllocatedBytes
import VChat.Common.FindSlot
import VChat.Listing.LastWritten
import VChat.Listing.Page
import VChat.Common.CircularStack
import VChat.NetWork.SessionPool
import VChat.NetWork.SessionReuse
import VChat.Chat.QueueRace
import VChat.Chat.PacketRequest
import VChat.Chat.PacketBody
import VChat.Chat.SessionLinks
import VChat.Chat.Paging
import VChat.Chat.RoomMode
import VChat.Chat.MatchLog
import VChat.Chat.FriendList
import VChat.Chat.PacketBuffer
import VChat.Chat.Forgery
import VChat.Transition.Shared
import VChat.NetWork.Outbound
import VChat.NetWork.Delivery
import VChat.NetWork.Framing
import VChat.Chat.Inbound
import VChat.Chat.Attached
import VChat.Common.RingCalls
import VChat.Common.AllocatorRace
import VChat.Common.AllocatorWaitFree
import VChat.Common.RingClosed
import VChat.NetWork.AcceptLoop
import VChat.Chat.ScanRace
import VChat.Transition.Gather
import VChat.Chat.Company
import VChat.Chat.ChatLines
import VChat.Transition.Locked
import VChat.Common.SafeCircularStack
import VChat.Chat.Broadcast
import VChat.Chat.Handed
import VChat.Chat.Relay

import NodeFuse.Lib.Runs
import NodeFuse.Lib.Fifo
import NodeFuse.Lib.Packing
import NodeFuse.Proofs.Arguments
import NodeFuse.Proofs.Handoff
import NodeFuse.Proofs.Receive
import NodeFuse.Proofs.Reply
import NodeFuse.Proofs.NodeFs
import NodeFuse.Proofs.Mounts
import NodeFuse.Proofs.Workers
import NodeFuse.Proofs.Fields
import NodeFuse.Proofs.RoundTrips
import NodeFuse.Proofs.XAttr
import NodeFuse.Proofs.FileInfo
import NodeFuse.Proofs.Accumulator
import NodeFuse.Proofs.Forget
import NodeFuse.Options
import NodeFuse.Proofs.Options
import NodeFuse.ReplyMethods
import NodeFuse.Proofs.ReplyMethods
import NodeFuse.Lib.HashTable
import NodeFuse.Lib.Throwing
import NodeFuse.NodeFsHandlers
import NodeFuse.NodeFsRuns
import NodeFuse.Proofs.NodeFsHandlers
import NodeFuse.Lib.Splice
import NodeFuse.NodeFsData
import NodeFuse.Proofs.NodeFsRuns
import NodeFuse.Proofs.NodeFsData
import NodeFuse.Lib.Mailbox
import NodeFuse.Proofs.Delivery
import NodeFuse.NodeFsCalls
import NodeFuse.Proofs.NodeFsCalls
import NodeFuse.NodeFsMount
import NodeFuse.Proofs.NodeFsMount
import NodeFuse.Confinement
import NodeFuse.Proofs.Confinement
import NodeFuse.Loopback
import NodeFuse.Proofs.Loopback
import NodeFuse.Proofs.LoneWorkers
import NodeFuse.NodeFsCreate
import NodeFuse.Proofs.NodeFsCreate
import NodeFuse.Lib.RollingHash
import NodeFuse.Collisions
import NodeFuse.Proofs.Collisions
import NodeFuse.NodeFsDescriptors
import NodeFuse.Proofs.NodeFsDescriptors
import NodeFuse.NodeFsFiles
import NodeFuse.Proofs.NodeFsFiles

import CowStore.Tree.Orders
import CowStore.Durable.Deadlock
import CowStore.Durable.PublishSync
import CowStore.Durable.IngestGate
import CowStore.Durable.Deltas
import CowStore.Durable.DataLog
import CowStore.Durable.Sealing
import CowStore.Local.Shards
import CowStore.Local.FileStage
import CowStore.Local.Ids
import CowStore.Local.StreamFlush
import CowStore.Local.CommitRace
import CowStore.Local.PublishGap
import CowStore.Local.Replay
import CowStore.Txn.Frame
import CowStore.Txn.Delete
import CowStore.Txn.Verified
import CowStore.Node.Capability
import CowStore.Server.Endpoint
import CowStore.Server.Clients
import CowStore.Sim.Minimize

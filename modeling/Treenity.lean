import Treenity.Broker.ExactlyOnce
import Treenity.Broker.Representation
import Treenity.Broker.AtLeastOnce
import Treenity.Broker.Ownership
import Treenity.Broker.Pipeline
import Treenity.Broker.StartOffset
import Treenity.Broker.Stopping
import Treenity.Client.Groups
import Treenity.Client.Limits
import Treenity.Client.Lifecycle
import Treenity.Client.Conformance
import Treenity.Client.RawInput
import Treenity.Client.Sends
import Treenity.DataStructures.HashMap.Growth
import Treenity.DataStructures.HashMap.Iterator
import Treenity.DataStructures.HashMap.Move
import Treenity.DataStructures.PrefixTree.Pruning
import Treenity.Foundation.Pipe
import Treenity.Topic.Backpressure
import Treenity.Topic.Descriptors
import Treenity.Topic.Waiting
import Treenity.Protocol.Codec
import Treenity.Protocol.Bounds
import Treenity.Ipc.Path
import Treenity.Ipc.Ownership
import Treenity.Ipc.Transfer
import Treenity.Server.Chunking
import Treenity.Server.Consistency
import Treenity.Server.Directory
import Treenity.Server.Exchange
import Treenity.Server.Failures
import Treenity.Server.Info
import Treenity.Server.Publishing
import Treenity.Server.Registry
import Treenity.Server.Offsets

import Udx.Paths
import Udx.Routing
import Udx.Relays
import Udx.Unwinding
import Udx.Keepalive
import Udx.Silence
import Udx.Remote
import Udx.Numbered
import Udx.Combined
import Udx.Rack
import Udx.Families
import Udx.Refs
import Udx.Recovery
import Udx.Maps
import Udx.Interfaces
import Udx.Buckets
import Udx.Estimators
import Udx.Sockets
import Udx.Sacks
import Udx.Rates
import Udx.Reassembly
import Udx.Shuts
import Udx.Provenance
import Udx.Balances
import Udx.Parcels
import Udx.Wires
import Udx.Forwarding
import Udx.Deliveries
import Udx.Receipts
import Udx.Endings
import Udx.Filters
import Udx.Entries
import Udx.SackTrees
import Udx.SackRuns
import Udx.QueueNodes

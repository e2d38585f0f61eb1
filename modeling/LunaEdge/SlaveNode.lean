import LunaEdge.DnsStore
import LunaEdge.IngressCache
import LunaEdge.Runs

/-!
# A slave process

The local store of a slave with the two engines in front of it. The
local store feeds the DNS engine through `dnsChan`: applying a change
puts the upserted records there, one by one, and `DNSRestoreLoop` takes
them off and restores the engine with each. The ingress engine reads the
local store itself and keeps bindings of its own.

An event is one call of `ApplySnapshot` or `ApplyChangelog`, with the
faults of its statements, one turn of the restore loop, one request, one
TLS connection, or a restart. A restart keeps the cache root only. Neither engine has a
Kubernetes bridge.
-/

namespace LunaEdge

structure SlaveNode where
  db : LocalDB
  dnsChan : List (List DNSRecord)
  dns : DNS.Engine
  memory : Ingress.MemoryStore

inductive SlaveEvent where
  | applySnapshot (snapshot : Snapshot) (faults : List Bool)
  | applyChangelog (changelog : ChangeNotification) (faults : List Bool)
  | restoreLoop
  | request (req : Ingress.Request)
  | tlsConn (serverName : String)
  | restart

namespace SlaveNode

def start (db : LocalDB) : SlaveNode := ⟨db, [], .new, .new⟩

def applied (node : SlaveNode) (a : Applied) : SlaveNode :=
  { node with db := a.db, dnsChan := node.dnsChan ++ a.dnsChan.map fun r => [r] }

def withMemory (node : SlaveNode) (memory : Ingress.MemoryStore) : SlaveNode :=
  { node with memory := memory }

@[simp] theorem withMemory_db (node : SlaveNode) (memory : Ingress.MemoryStore) :
    (node.withMemory memory).db = node.db := rfl

@[simp] theorem withMemory_memory (node : SlaveNode) (memory : Ingress.MemoryStore) :
    (node.withMemory memory).memory = memory := rfl

/-- One turn of `DNSRestoreLoop`; it waits when there is nothing to take. -/
def restoreLoop (types : TypeNames) (node : SlaveNode) : SlaveNode :=
  match node.dnsChan with
  | [] => node
  | items :: rest =>
    { node with dnsChan := rest, dns := node.dns.restoreRecords types items }

def step (types : TypeNames) (node : SlaveNode) : SlaveEvent → SlaveNode
  | .applySnapshot snapshot faults => node.applied (node.db.applySnapshot snapshot faults)
  | .applyChangelog changelog faults => node.applied (node.db.applyChangelog changelog faults)
  | .restoreLoop => node.restoreLoop types
  | .request req => node.withMemory (Ingress.serve node.db node.memory req).2
  -- the TLS engine only reads the store of bindings
  | .tlsConn _ => node
  | .restart => start node.db

def run (types : TypeNames) (events : List SlaveEvent) : SlaveNode :=
  events.foldl (step types) (start .empty)

end SlaveNode

end LunaEdge

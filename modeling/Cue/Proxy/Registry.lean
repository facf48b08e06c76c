import Cue.State.Partition

/-! `internal/proxy/gateway.go`: the registry of connected proxies. A proxy has
a pair of connections; a pair that has lost both is removed. Every pair that was
ever created stays in `heap`, since goroutines can hold one that the registry no
longer has. Each function is one section under a lock; `Remove` holds the
registry's lock over several, and in between the pair's own lock is free.

A connection is a value of `C`, and the connections that are closed are listed.
The contexts of the handlers, the end of the gateway, metrics and log lines are
left out. -/
namespace Cue.Proxy
open Cue.Lib

inductive ConnectionType where
  | inbound
  | outbound
  deriving DecidableEq, Repr

/-- What a `ConnectionPair` has for one type of connection. -/
structure Direction (C : Type) where
  conn : Option C := none
  alive : Bool := false
  gen : UInt64 := 0
  deriving DecidableEq

/-- The part of `ConnectionPair` that is about its connections. -/
structure PairConns (C : Type) where
  proxyID : String
  inbound : Direction C := {}
  outbound : Direction C := {}
  deriving DecidableEq

namespace PairConns

variable {C : Type}

def get (p : PairConns C) : ConnectionType → Direction C
  | .inbound => p.inbound
  | .outbound => p.outbound

def put (p : PairConns C) (type : ConnectionType) (direction : Direction C) : PairConns C :=
  match type with
  | .inbound => { p with inbound := direction }
  | .outbound => { p with outbound := direction }

/-- The connections of the current generation. -/
def conns (p : PairConns C) : List C := p.inbound.conn.toList ++ p.outbound.conn.toList

end PairConns

structure ProxyRegistry (C : Type) where
  /-- the pair of a proxy, by its place in `heap` -/
  pairs : FinMap String Nat
  heap : List (PairConns C)
  /-- `mu` is held by a `Remove` -/
  locked : Bool
  closed : List C
  topologyCh : List State.Partition.TopologyUpdate

namespace ProxyRegistry

variable {C : Type}

def new : ProxyRegistry C := ⟨.empty, [], false, [], []⟩

/-- A topology command, if the channel has room for it. -/
def sendTopology (r : ProxyRegistry C) (room : Bool) (update : State.Partition.TopologyUpdate) : ProxyRegistry C :=
  if room then { r with topologyCh := r.topologyCh ++ [update] } else r

def getOrCreate (r : ProxyRegistry C) (proxyID : String) (room : Bool) : ProxyRegistry C × Nat :=
  match r.pairs.get proxyID with
  | some pair => (r, pair)
  | none =>
    let pair := r.heap.length
    let created : PairConns C := { proxyID := proxyID }
    let r := { r with pairs := r.pairs.set proxyID pair, heap := r.heap ++ [created] }
    (r.sendTopology room (.add proxyID (some ⟨pair, 10240⟩)), pair)

/-- `SetInbound` and `SetOutbound`: the old connection is closed, and a new
generation begins. -/
def setConn (r : ProxyRegistry C) (pair : Nat) (type : ConnectionType) (conn : C) : Option (ProxyRegistry C × UInt64) :=
  match r.heap[pair]? with
  | none => none
  | some p =>
    let gen := (p.get type).gen + 1
    some ({ r with
      heap := r.heap.set pair (p.put type ⟨some conn, true, gen⟩)
      closed := (p.get type).conn.toList ++ r.closed }, gen)

def setInbound (r : ProxyRegistry C) (pair : Nat) (conn : C) : Option (ProxyRegistry C × UInt64) :=
  r.setConn pair .inbound conn

def setOutbound (r : ProxyRegistry C) (pair : Nat) (conn : C) : Option (ProxyRegistry C × UInt64) :=
  r.setConn pair .outbound conn

def clearAlive (r : ProxyRegistry C) (pair : Nat) (type : ConnectionType) : ProxyRegistry C :=
  match r.heap[pair]? with
  | none => r
  | some p => { r with heap := r.heap.set pair (p.put type { p.get type with alive := false }) }

/-- `inboundClosed` and `outboundClosed` up to the call of `Remove`: whether the
pair is to be removed. The watcher of an older generation changes nothing. -/
def connClosed (r : ProxyRegistry C) (pair : Nat) (type : ConnectionType) (gen : UInt64) : ProxyRegistry C × Bool :=
  match r.heap[pair]? with
  | none => (r, false)
  | some p =>
    if gen ≠ (p.get type).gen then (r, false)
    else
      let p := p.put type { p.get type with alive := false }
      ({ r with heap := r.heap.set pair p }, !p.inbound.alive && !p.outbound.alive)

def inboundClosed (r : ProxyRegistry C) (pair : Nat) (gen : UInt64) : ProxyRegistry C × Bool :=
  r.connClosed pair .inbound gen

def outboundClosed (r : ProxyRegistry C) (pair : Nat) (gen : UInt64) : ProxyRegistry C × Bool :=
  r.connClosed pair .outbound gen

/-! `Remove` in parts: the lock and the first flag, the second flag, `Close`, the rest. -/

/-- The pair that is registered at that moment, if there is one. -/
def removeBegin (r : ProxyRegistry C) (proxyID : String) : Option (ProxyRegistry C × Nat) :=
  match r.pairs.get proxyID with
  | none => none
  | some victim => some ({ r with locked := true }.clearAlive victim .inbound, victim)

def closePair (r : ProxyRegistry C) (pair : Nat) : ProxyRegistry C :=
  match r.heap[pair]? with
  | none => r
  | some p => { r with closed := p.conns ++ r.closed }

def removeEnd (r : ProxyRegistry C) (proxyID : String) (room : Bool) : ProxyRegistry C :=
  { r with pairs := r.pairs.delete proxyID, locked := false }.sendTopology room (.remove proxyID)

end ProxyRegistry

/-! ### The life of a connection -/

/-- How far a `Remove` has come. -/
inductive RemoveStage where
  | marking
  | marked
  | closed
  deriving DecidableEq, Repr

/-- Where the goroutines of a connection stand: its handshake, its watcher, and
the `Remove` that the watcher calls. From the decision on the generations that
the pair had then are kept, which no step reads. -/
inductive Place where
  | dialing
  | joined (pair : Nat) (type : ConnectionType)
  | watching (pair : Nat) (type : ConnectionType) (gen : UInt64)
  | decided (pair : Nat) (seen : UInt64 × UInt64)
  | removing (stage : RemoveStage) (pair : Nat) (seen : UInt64 × UInt64) (victim : Nat)
  | ended
  deriving DecidableEq, Repr

inductive ConnSection where
  /-- the connection is closed by the proxy or the network -/
  | fail
  | getOrCreate (proxyID : String) (type : ConnectionType) (room : Bool)
  | setConn
  | connClosed
  | removeBegin
  | clearOutbound
  | closePair
  | removeEnd (room : Bool)
  deriving DecidableEq, Repr

def PairConns.gens {C : Type} (p : PairConns C) : UInt64 × UInt64 := (p.inbound.gen, p.outbound.gen)

namespace ProxyRegistry

variable {C : Type} [DecidableEq C]

/-- One section of the goroutines of the connection `c`. -/
def act (c : C) (r : ProxyRegistry C) : Place → ConnSection → Option (ProxyRegistry C × Place)
  | place, .fail => some ({ r with closed := c :: r.closed }, place)
  | .dialing, .getOrCreate proxyID type room =>
    if r.locked then none
    else
      let (r, pair) := r.getOrCreate proxyID room
      some (r, .joined pair type)
  | .joined pair type, .setConn =>
    let set := match type with
      | .inbound => r.setInbound pair c
      | .outbound => r.setOutbound pair c
    match set with
    | none => none
    | some (r, gen) => some (r, .watching pair type gen)
  | .watching pair type gen, .connClosed =>
    if c ∉ r.closed then none
    else
      let (r, remove) := match type with
        | .inbound => r.inboundClosed pair gen
        | .outbound => r.outboundClosed pair gen
      match r.heap[pair]? with
      | none => none
      | some p => some (r, if remove then .decided pair p.gens else .ended)
  | .decided pair seen, .removeBegin =>
    if r.locked then none
    else
      match r.heap[pair]? with
      | none => none
      | some p =>
        match r.removeBegin p.proxyID with
        | none => some (r, .ended)
        | some (r, victim) => some (r, .removing .marking pair seen victim)
  | .removing .marking pair seen victim, .clearOutbound =>
    some (r.clearAlive victim .outbound, .removing .marked pair seen victim)
  | .removing .marked pair seen victim, .closePair => some (r.closePair victim, .removing .closed pair seen victim)
  | .removing .closed pair _ _, .removeEnd room =>
    match r.heap[pair]? with
    | none => none
    | some p => some (r.removeEnd p.proxyID room, .ended)
  | _, _ => none

end ProxyRegistry
end Cue.Proxy

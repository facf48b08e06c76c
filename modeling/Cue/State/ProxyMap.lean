import Cue.State.JobStore

/-! `internal/state/proxy_map.go`: the proxies that reported a score, and the
round-robin order of those with consumers. Loops over the Go map visit its
keys in an order the caller supplies. -/
namespace Cue.State
open Cue.Lib

structure ProxyState where
  consumers : Int
  lastHeartbeat : Int
  deriving DecidableEq, Repr

structure ProxyMap where
  proxies : FinMap String ProxyState
  available : List String
  availableIndex : FinMap String Nat
  roundRobin : Nat
  deriving DecidableEq

namespace ProxyMap

def new : ProxyMap := ⟨.empty, [], .empty, 0⟩

def addToAvailable (pm : ProxyMap) (proxyID : String) : ProxyMap :=
  if pm.availableIndex.contains proxyID then pm
  else { pm with
    availableIndex := pm.availableIndex.set proxyID pm.available.length
    available := pm.available ++ [proxyID] }

def removeFromAvailable (pm : ProxyMap) (proxyID : String) : Except Panic ProxyMap :=
  match pm.availableIndex.get proxyID with
  | none => .ok pm
  | some idx =>
    match pm.available.getLast? with
    | none => .error .indexOutOfRange
    | some lastID =>
      if idx < pm.available.length then
        .ok { pm with
          available := (pm.available.set idx lastID).dropLast
          availableIndex := (pm.availableIndex.set lastID idx).delete proxyID }
      else .error .indexOutOfRange

def update (pm : ProxyMap) (proxyID : String) (score timestamp : Int) : Except Panic ProxyMap :=
  let state := (pm.proxies.get proxyID).getD ⟨0, 0⟩
  let wasAvailable := state.consumers > 0
  let isAvailable := score > 0
  let pm := { pm with proxies := pm.proxies.set proxyID ⟨score, timestamp⟩ }
  if ¬ wasAvailable ∧ isAvailable then .ok (pm.addToAvailable proxyID)
  else if wasAvailable ∧ ¬ isAvailable then pm.removeFromAvailable proxyID
  else .ok pm

/-- The search of `GetNextAvailable`, `left` positions from `idx` on. -/
def findAvailable (pm : ProxyMap) (idx : Nat) : Nat → Except Panic (Option (String × Int × Nat))
  | 0 => .ok none
  | left + 1 =>
    match pm.available[idx % pm.available.length]? with
    | none => .error .indexOutOfRange
    | some proxyID =>
      match pm.proxies.get proxyID with
      | none => .error .nilDereference
      | some state =>
        if state.consumers > 0 then
          .ok (some (proxyID, state.consumers, idx % pm.available.length))
        else findAvailable pm (idx + 1) left

/-- The next proxy with consumers and their number; the turn moves past it. -/
def getNextAvailable (pm : ProxyMap) : Except Panic (Option (String × Int) × ProxyMap) :=
  match pm.findAvailable pm.roundRobin pm.available.length with
  | .error panicked => .error panicked
  | .ok none => .ok (none, pm)
  | .ok (some (proxyID, consumers, idx)) =>
    .ok (some (proxyID, consumers), { pm with roundRobin := (idx + 1) % pm.available.length })

def rebuildAvailableCache (pm : ProxyMap) (order : List String) : ProxyMap :=
  order.foldl (fun pm id =>
    match pm.proxies.get id with
    | some state =>
      if state.consumers > 0 then { pm with
        availableIndex := pm.availableIndex.set id pm.available.length
        available := pm.available ++ [id] }
      else pm
    | none => pm) { pm with available := [], availableIndex := .empty, roundRobin := 0 }

/-- The loop of `CleanupStale` over the keys `order`; the flag is `cleaned`. -/
def dropStale (now timeout : Int) : List String → ProxyMap × Bool → Except Panic (ProxyMap × Bool)
  | [], done => .ok done
  | id :: order, (pm, cleaned) =>
    match pm.proxies.get id with
    | none => dropStale now timeout order (pm, cleaned)
    | some state =>
      if int64 (now - state.lastHeartbeat) > timeout then
        match ({ pm with proxies := pm.proxies.delete id }).removeFromAvailable id with
        | .error panicked => .error panicked
        | .ok pm => dropStale now timeout order (pm, true)
      else dropStale now timeout order (pm, cleaned)

/-- `order` and `rebuildOrder` are the orders the two loops visit the map in. -/
def cleanupStale (pm : ProxyMap) (now timeoutSeconds : Int) (order rebuildOrder : List String) :
    Except Panic ProxyMap :=
  match dropStale now (int64 (timeoutSeconds * 1000)) order (pm, false) with
  | .error panicked => .error panicked
  | .ok (pm, cleaned) => .ok (if cleaned then pm.rebuildAvailableCache rebuildOrder else pm)

end ProxyMap
end Cue.State

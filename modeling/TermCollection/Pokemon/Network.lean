import Mathlib.Logic.Function.Basic
import TermCollection.Lib.Link
import TermCollection.Lib.Simulation
import TermCollection.Pokemon.PacketServer

/-!
# Clients, server and the bytes between them

A connection has a wire in each direction. The readers of both sides take the bytes in segments of any size,
in any order of the connections. Each side notices on its own that a connection is lost, and from then on it
reads and writes nothing there. Next to this network stands one with queues of packets instead of the wires.
-/

namespace TermCollection.Pokemon

variable {S χ : Type}

/-- What happens to a packet, on which connection. -/
inductive Observation where
  | requested (i : ℕ) (packet : ClientPacket)
  | handled (i : ℕ) (packet : ClientPacket)
  | replied (i : ℕ) (packet : ServerPacket)
  | received (i : ℕ) (packet : ServerPacket)
  deriving DecidableEq

/-! ## Wires -/

/-- The helper of the client is the reader of what comes to it. -/
structure Connection where
  client : Client.ClientBackend
  toServer : Link UInt8 (List UInt8)
  toClient : List UInt8
  isOpen : Bool

structure Network (S : Type) where
  server : S
  connections : ℕ → Connection

inductive NetworkEvent (χ : Type) where
  | call (i : ℕ) (call : Client.Call)
  | slotReadClient (i n : ℕ) (chance : ℕ → χ)
  | readyRead (i n : ℕ)
  | userDisconnected (i : ℕ)
  | disconnected (i : ℕ)

namespace Network

def setConnection (net : Network S) (i : ℕ) (c : Connection) : Network S :=
  { net with connections := Function.update net.connections i c }

def sendToClient (net : Network S) (i : ℕ) (packet : ServerPacket) : Network S × List Observation :=
  let c := net.connections i
  if c.isOpen then
    (net.setConnection i { c with toClient := c.toClient ++ packet.dataBlock.procProtodata },
      [.replied i packet])
  else (net, [])

def sendAll : List (ℕ × ServerPacket) → Network S → Network S × List Observation
  | [], net => (net, [])
  | (i, packet) :: out, net =>
      let (net, o) := net.sendToClient i packet
      let (net, os) := sendAll out net
      (net, o ++ os)

/-- The messages of a segment, which the server handles one after another. -/
def slotGetMessages (serve : Machine S (PacketEvent χ) (ℕ × ServerPacket)) (i : ℕ) (chance : ℕ → χ) :
    ℕ → List (List UInt8) → Network S → Option (Network S × List Observation)
  | _, [], net => some (net, [])
  | k, data :: datas, net => do
      match ← Server.slotGetMessage data with
      | none => slotGetMessages serve i chance (k + 1) datas net
      | some packet => do
          let (server, out) ← serve net.server (.packet i packet (chance k))
          let (net, o) := sendAll out { net with server := server }
          let (net, os) ← slotGetMessages serve i chance (k + 1) datas net
          some (net, .handled i packet :: (o ++ os))

end Network

def networkStep (utf8 : Utf8) (serve : Machine S (PacketEvent χ) (ℕ × ServerPacket)) :
    Machine (Network S) (NetworkEvent χ) Observation
  | net, .call i call =>
      let c := net.connections i
      let (client, packets) := c.client.call utf8 call
      some (net.setConnection i
        { c with
          client := client
          toServer := c.toServer.send (packets.flatMap fun packet => packet.dataBlock.procProtodata) },
        packets.map (.requested i))
  | net, .slotReadClient i n chance =>
      let c := net.connections i
      if c.isOpen then
        let (toServer, datas) := c.toServer.deliver Server.slotReadClient n
        (net.setConnection i { c with toServer := toServer }).slotGetMessages serve i chance 0 datas
      else none
  | net, .readyRead i n => do
      let c := net.connections i
      let (helper, datas) ← Client.helperStep c.client.helper (.readyRead (c.toClient.take n))
      let packets ← datas.mapM Client.slotGetServerMessage
      some (net.setConnection i
        { c with client := { c.client with helper := helper }, toClient := c.toClient.drop n },
        (packets.filterMap id).map (.received i))
  | net, .userDisconnected i =>
      let c := net.connections i
      if c.isOpen then do
        let (server, out) ← serve net.server (.userDisconnected i)
        some (({ net with server := server }.setConnection i { c with isOpen := false }).sendAll out)
      else none
  | net, .disconnected i => do
      let c := net.connections i
      let (helper, _) ← Client.helperStep c.client.helper .disconnected
      some (net.setConnection i { c with client := { c.client with helper := helper } }, [])

/-! ## Queues -/

structure QueueConnection where
  userName : QString
  connected : Bool
  isOpen : Bool
  requests : List ClientPacket
  replies : List ServerPacket

structure QueueNetwork (S : Type) where
  server : S
  connections : ℕ → QueueConnection

inductive QueueEvent (χ : Type) where
  | call (i : ℕ) (call : Client.Call)
  | handle (i : ℕ) (chance : χ)
  | receive (i : ℕ)
  | userDisconnected (i : ℕ)
  | disconnected (i : ℕ)

namespace QueueNetwork

def setConnection (net : QueueNetwork S) (i : ℕ) (c : QueueConnection) : QueueNetwork S :=
  { net with connections := Function.update net.connections i c }

@[simp] theorem connections_setConnection (net : QueueNetwork S) (i j : ℕ) (c : QueueConnection) :
    (net.setConnection i c).connections j = if j = i then c else net.connections j :=
  Function.update_apply net.connections i c j

def send (net : QueueNetwork S) (i : ℕ) (packet : ServerPacket) : QueueNetwork S × List Observation :=
  let c := net.connections i
  if c.isOpen then (net.setConnection i { c with replies := c.replies ++ [packet] }, [.replied i packet])
  else (net, [])

def sendAll : List (ℕ × ServerPacket) → QueueNetwork S → QueueNetwork S × List Observation
  | [], net => (net, [])
  | (i, packet) :: out, net =>
      let (net, o) := net.send i packet
      let (net, os) := sendAll out net
      (net, o ++ os)

end QueueNetwork

def queueStep (utf8 : Utf8) (serve : Machine S (PacketEvent χ) (ℕ × ServerPacket)) :
    Machine (QueueNetwork S) (QueueEvent χ) Observation
  | net, .call i call =>
      let c := net.connections i
      if c.connected then
        let packets := call.packets utf8 c.userName
        some (net.setConnection i
          { c with userName := call.userName c.userName, requests := c.requests ++ packets },
          packets.map (.requested i))
      else some (net, [])
  | net, .handle i chance =>
      let c := net.connections i
      match c.isOpen, c.requests with
      | true, packet :: requests => do
          let (server, out) ← serve net.server (.packet i packet chance)
          let (net, o) := ({ net with server := server }.setConnection i { c with requests := requests }).sendAll out
          some (net, .handled i packet :: o)
      | _, _ => none
  | net, .receive i =>
      let c := net.connections i
      match c.connected, c.replies with
      | true, packet :: replies =>
          some (net.setConnection i { c with replies := replies }, [.received i packet])
      | _, _ => none
  | net, .userDisconnected i =>
      let c := net.connections i
      if c.isOpen then do
        let (server, out) ← serve net.server (.userDisconnected i)
        some (({ net with server := server }.setConnection i { c with isOpen := false }).sendAll out)
      else none
  | net, .disconnected i =>
      let c := net.connections i
      if c.connected then some (net.setConnection i { c with connected := false }, []) else none

end TermCollection.Pokemon

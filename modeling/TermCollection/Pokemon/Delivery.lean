import TermCollection.Pokemon.Network
import TermCollection.Pokemon.Segmentation

/-!
# Bytes and queues

The wires of a network stand for queues of packets. The server needs that no segment ends within a frame whose
length has arrived, and every packet has to be one that its receiver can parse.
-/

namespace TermCollection.Pokemon

open Machine

variable {S χ π : Type} {block : π → DataBlock} {ps qs : List π} {done todo fs : List Frame}

/-! ## Readers -/

namespace Server

/-- The server takes a length for the message that it announces. -/
def reader : FrameReader protocol (List UInt8) where
  read := slotReadClient
  Holds := fun buffer rest => buffer = rest
  Ready := fun bytes => (protocol.unframed bytes.length bytes).length < 4
  read_split := by
    rintro buffer rest segment rest' done todo hholds hsplit hshort hready
    subst hholds
    have hdone : done.length ≤ (buffer ++ segment).length := by
      rw [hsplit, List.length_append]
      exact (Framing.length_le_stream (Nat.zero_lt_succ 3) done).trans (Nat.le_add_right _ _)
    have hloop := readClientLoop_stream ((buffer ++ segment).length + 1 - done.length) done rest'
    rw [Nat.add_sub_cancel' (Nat.le_succ_of_le hdone)] at hloop
    rw [hsplit, Framing.unframed_stream hshort (Nat.zero_lt_succ 3) (hsplit ▸ hdone)] at hready
    rw [readClientLoop_short _ hready, List.append_nil, ← hsplit] at hloop
    exact ⟨rest', rfl, hloop⟩

end Server

namespace Client

def reader : FrameReader protocol NetworkHelper where
  read := NetworkHelper.readyRead
  Holds := NetworkHelper.Holds
  Ready := fun _ => True
  read_split := fun h hsplit hshort _ => h.readyRead hsplit hshort

/-- What arrives does not change the connection. -/
theorem readLoop_state (fuel : ℕ) (helper : NetworkHelper) :
    (NetworkHelper.readLoop fuel helper).1.state = helper.state ∧
      (NetworkHelper.readLoop fuel helper).1.status = helper.status := by
  have hlength : ∀ helper : NetworkHelper, helper.readLength.state = helper.state ∧
      helper.readLength.status = helper.status := by
    intro helper
    unfold NetworkHelper.readLength
    split <;> exact ⟨rfl, rfl⟩
  induction fuel generalizing helper with
  | zero => exact ⟨rfl, rfl⟩
  | succ fuel ih =>
      obtain ⟨hstate, hstatus⟩ := hlength helper
      unfold NetworkHelper.readLoop
      simp only
      split
      · split
        · exact ⟨(ih _).1.trans hstate, (ih _).2.trans hstatus⟩
        · split
          · exact ⟨(ih _).1.trans hstate, (ih _).2.trans hstatus⟩
          · exact ⟨hstate, hstatus⟩
      · exact ⟨rfl, rfl⟩

end Client

/-! ## Packets in frames -/

/-- The frames are those of the packets. -/
def Framed (block : π → DataBlock) (ps : List π) (fs : List Frame) : Prop :=
  List.Forall₂ (fun p f => ∃ h : (block p).Sendable, f = (block p).frame h) ps fs

theorem exists_framed (block : π → DataBlock) (h : ∀ p ∈ ps, (block p).Sendable) :
    ∃ fs, Framed block ps fs ∧ protocol.stream fs = ps.flatMap fun p => (block p).procProtodata := by
  induction ps with
  | nil => exact ⟨[], .nil, rfl⟩
  | cons p ps ih =>
      obtain ⟨fs, hfs, hstream⟩ := ih fun p' hp' => h p' (List.mem_cons_of_mem _ hp')
      have hp := h p List.mem_cons_self
      refine ⟨(block p).frame hp :: fs, .cons ⟨hp, rfl⟩ hfs, ?_⟩
      rw [Framing.stream_cons, hstream, List.flatMap_cons, DataBlock.procProtodata_eq hp]
      rfl

theorem Framed.append {fs' : List Frame} (h : Framed block ps fs) (h' : Framed block qs fs') :
    Framed block (ps ++ qs) (fs ++ fs') :=
  List.rel_append h h'

theorem Framed.split (h : Framed block ps (done ++ todo)) :
    ∃ qs rs, ps = qs ++ rs ∧ Framed block qs done ∧ Framed block rs todo :=
  ⟨ps.take done.length, ps.drop done.length, (List.take_append_drop _ _).symm,
    List.forall₂_take_append ps done todo h, List.forall₂_drop_append ps done todo h⟩

theorem Framed.messages {qs : List ServerPacket} (h : Framed ServerPacket.dataBlock qs fs) :
    (fs.map Frame.payload).mapM Client.slotGetServerMessage = some (qs.map some) := by
  induction h with
  | nil => rfl
  | cons hp _ ih =>
      obtain ⟨hsend, rfl⟩ := hp
      rw [List.map_cons, List.mapM_cons, ServerPacket.received hsend, ih]
      rfl

/-! ## Connections -/

/-- A connection stands for one with queues, where the server still has some requests in hand. -/
structure Connection.Stands (inHand : List ClientPacket) (c : Connection) (k : QueueConnection) : Prop where
  userName : c.client.userName = k.userName
  status : c.client.helper.status = k.connected
  state : c.client.helper.state = .connected ↔ k.connected = true
  isOpen : c.isOpen = k.isOpen
  requests : ∃ todo fs, k.requests = inHand ++ todo ∧ Framed ClientPacket.dataBlock todo fs ∧
    c.toServer.Carries Server.reader fs
  replies : ∃ fs, Framed ServerPacket.dataBlock k.replies fs ∧
    Link.Carries Client.reader ⟨c.toClient, c.client.helper⟩ fs

structure Network.Stands (inHand : ℕ → List ClientPacket) (net : Network S) (q : QueueNetwork S) : Prop where
  server : net.server = q.server
  connections : ∀ i, (net.connections i).Stands (inHand i) (q.connections i)

/-- The server has dealt with all requests that it was handed. -/
def idle (_ : ℕ) : List ClientPacket := []

namespace Network.Stands

variable {inHand : ℕ → List ClientPacket} {net net' : Network S} {q : QueueNetwork S} {c : Connection}
variable {k : QueueConnection} {i : ℕ} {packets : List ClientPacket} {o : List Observation}

theorem setConnection (h : net.Stands inHand q) (hc : c.Stands packets k) :
    (net.setConnection i c).Stands (Function.update inHand i packets) (q.setConnection i k) := by
  refine ⟨h.server, fun j => ?_⟩
  show (Function.update net.connections i c j).Stands _ (Function.update q.connections i k j)
  by_cases hj : j = i
  · subst hj
    rwa [Function.update_self, Function.update_self, Function.update_self]
  · rw [Function.update_of_ne hj, Function.update_of_ne hj, Function.update_of_ne hj]
    exact h.connections j

theorem setSame (h : net.Stands inHand q) (hc : c.Stands (inHand i) k) :
    (net.setConnection i c).Stands inHand (q.setConnection i k) := by
  have hset := h.setConnection (i := i) hc
  rwa [Function.update_eq_self] at hset

theorem setServer (h : net.Stands inHand q) (server : S) :
    Network.Stands inHand { net with server := server } { q with server := server } :=
  ⟨rfl, h.connections⟩

/-- The queues change and the wires do not. -/
theorem setQueue (h : net.Stands inHand q) (hc : (net.connections i).Stands packets k) :
    net.Stands (Function.update inHand i packets) (q.setConnection i k) := by
  have hset := h.setConnection (i := i) hc
  rwa [Network.setConnection, Function.update_eq_self] at hset

end Network.Stands

/-! ## Sending -/

/-- The receiver of a packet can parse it. -/
def Observation.Fits : Observation → Prop
  | requested _ packet => packet.dataBlock.Sendable
  | replied _ packet => packet.dataBlock.Sendable
  | _ => True

namespace Connection.Stands

variable {inHand packets : List ClientPacket} {packet : ServerPacket} {c : Connection} {k : QueueConnection}

theorem reply (h : c.Stands inHand k) (hfits : packet.dataBlock.Sendable) :
    Stands inHand { c with toClient := c.toClient ++ packet.dataBlock.procProtodata }
      { k with replies := k.replies ++ [packet] } := by
  obtain ⟨fs, hfs, hcarries⟩ := h.replies
  have hall : ∀ p ∈ [packet], p.dataBlock.Sendable := fun p hp => List.mem_singleton.mp hp ▸ hfits
  obtain ⟨new, hnew, hstream⟩ := exists_framed ServerPacket.dataBlock hall
  have hsend := hcarries.send (Nat.zero_lt_succ 3) new
  rw [hstream, List.flatMap_singleton] at hsend
  exact ⟨h.userName, h.status, h.state, h.isOpen, h.requests, fs ++ new, hfs.append hnew, hsend⟩

theorem request (h : c.Stands inHand k) (hfits : ∀ p ∈ packets, p.dataBlock.Sendable) (name : QString) :
    Stands inHand
      { c with
        client := { c.client with userName := name }
        toServer := c.toServer.send (packets.flatMap fun p => p.dataBlock.procProtodata) }
      { k with userName := name, requests := k.requests ++ packets } := by
  obtain ⟨todo, fs, hrequests, hfs, hcarries⟩ := h.requests
  obtain ⟨new, hnew, hstream⟩ := exists_framed ClientPacket.dataBlock hfits
  have hsend := hcarries.send (Nat.zero_lt_succ 3) new
  rw [hstream] at hsend
  refine ⟨rfl, h.status, h.state, h.isOpen, ⟨todo ++ packets, fs ++ new, ?_, hfs.append hnew, hsend⟩, h.replies⟩
  rw [hrequests, List.append_assoc]

end Connection.Stands

section

variable {inHand : ℕ → List ClientPacket} {net net' : Network S} {q : QueueNetwork S} {i : ℕ}
variable {out : List (ℕ × ServerPacket)} {o : List Observation}

theorem Network.Stands.sendToClient {packet : ServerPacket} (h : net.Stands inHand q)
    (hfits : ∀ x ∈ (net.sendToClient i packet).2, x.Fits) :
    (net.sendToClient i packet).1.Stands inHand (q.send i packet).1 ∧
      (q.send i packet).2 = (net.sendToClient i packet).2 := by
  have hc := h.connections i
  cases hopen : (q.connections i).isOpen with
  | true =>
      have hopen' := hc.isOpen.trans hopen
      rw [Network.sendToClient, if_pos hopen'] at hfits
      rw [Network.sendToClient, QueueNetwork.send, if_pos hopen', if_pos hopen]
      exact ⟨h.setSame (hc.reply (hfits _ List.mem_cons_self)), rfl⟩
  | false =>
      have hopen' : ¬(net.connections i).isOpen = true := by
        rw [hc.isOpen, hopen]
        exact Bool.false_ne_true
      have hopen'' : ¬(q.connections i).isOpen = true := by
        rw [hopen]
        exact Bool.false_ne_true
      rw [Network.sendToClient, QueueNetwork.send, if_neg hopen', if_neg hopen'']
      exact ⟨h, rfl⟩

theorem Network.Stands.sendAll (h : net.Stands inHand q) (hfits : ∀ x ∈ (net.sendAll out).2, x.Fits) :
    (net.sendAll out).1.Stands inHand (q.sendAll out).1 ∧ (q.sendAll out).2 = (net.sendAll out).2 := by
  induction out generalizing net q with
  | nil => exact ⟨h, rfl⟩
  | cons head out ih =>
      obtain ⟨i, packet⟩ := head
      simp only [Network.sendAll, List.mem_append, or_imp, forall_and] at hfits
      obtain ⟨hstands, hone⟩ := h.sendToClient hfits.1
      obtain ⟨hall, hrest⟩ := ih hstands hfits.2
      exact ⟨hall, congrArg₂ (· ++ ·) hone hrest⟩

/-- Nothing that is sent opens or closes a connection. -/
theorem QueueNetwork.isOpen_sendAll (out : List (ℕ × ServerPacket)) (q : QueueNetwork S) (i : ℕ) :
    ((q.sendAll out).1.connections i).isOpen = (q.connections i).isOpen := by
  induction out generalizing q with
  | nil => rfl
  | cons head out ih =>
      obtain ⟨j, packet⟩ := head
      refine (ih _).trans ?_
      show ((q.send j packet).1.connections i).isOpen = (q.connections i).isOpen
      unfold QueueNetwork.send
      simp only
      split
      · rw [QueueNetwork.connections_setConnection]
        split
        · rename_i hi
          rw [hi]
        · rfl
      · rfl

end

/-! ## Steps -/

section

variable {utf8 : Utf8} {serve : Machine S (PacketEvent χ) (ℕ × ServerPacket)} {net net' : Network S}
variable {q q' : QueueNetwork S} {i n : ℕ} {o : List Observation} {requests : List ClientPacket}

/-- One request is taken off its queue. -/
theorem queueStep_handle (utf8 : Utf8) {packet : ClientPacket} {chance : χ} {server : S} {out : List (ℕ × ServerPacket)}
    (hopen : (q.connections i).isOpen = true) (hrequests : (q.connections i).requests = packet :: requests)
    (hserve : serve q.server (.packet i packet chance) = some (server, out)) :
    queueStep utf8 serve q (.handle i chance) =
      let after := ({ q with server := server }.setConnection i
        { q.connections i with requests := requests }).sendAll out
      some (after.1, .handled i packet :: after.2) := by
  rw [queueStep]
  simp only [hopen, hrequests, hserve, Option.bind_eq_bind, Option.bind_some]

theorem queueStep_receive (utf8 : Utf8) (serve : Machine S (PacketEvent χ) (ℕ × ServerPacket))
    {packet : ServerPacket} {replies : List ServerPacket}
    (hconnected : (q.connections i).connected = true)
    (hreplies : (q.connections i).replies = packet :: replies) :
    queueStep utf8 serve q (.receive i) =
      some (q.setConnection i { q.connections i with replies := replies }, [.received i packet]) := by
  rw [queueStep]
  simp only [hconnected, hreplies]

/-- The messages of a segment are handled as the first requests of the queue. -/
theorem Network.Stands.slotGetMessages {ps : List ClientPacket} {fs : List Frame} {chance : ℕ → χ} {k : ℕ}
    (h : net.Stands (Function.update idle i ps) q) (hopen : (q.connections i).isOpen = true)
    (hfs : Framed ClientPacket.dataBlock ps fs)
    (hrun : net.slotGetMessages serve i chance k (fs.map Frame.payload) = some (net', o))
    (hfits : ∀ x ∈ o, x.Fits) :
    ∃ q', Reaches (queueStep utf8 serve) q q' o ∧ net'.Stands idle q' := by
  induction hfs generalizing net q k o with
  | nil =>
      rw [List.map_nil, Network.slotGetMessages, Option.some.injEq, Prod.mk.injEq] at hrun
      obtain ⟨rfl, rfl⟩ := hrun
      rw [show ([] : List ClientPacket) = idle i from rfl, Function.update_eq_self] at h
      exact ⟨q, .refl q, h⟩
  | @cons packet f ps fs hf hfs ih =>
      obtain ⟨hsend, rfl⟩ := hf
      rw [List.map_cons, Network.slotGetMessages, packet.received hsend] at hrun
      simp only [Option.bind_eq_bind, Option.bind_some, Option.bind_eq_some_iff, Prod.exists,
        Option.some.injEq, Prod.mk.injEq] at hrun
      obtain ⟨server, out, hserve, net₂, os, hrest, rfl, rfl⟩ := hrun
      simp only [List.mem_cons, List.mem_append, or_imp, forall_and] at hfits
      -- the abstract server takes the same packet off the queue
      have hc := h.connections i
      rw [Function.update_self] at hc
      obtain ⟨todo, frames, hrequests, hframes, hcarries⟩ := hc.requests
      rw [h.server] at hserve
      rw [List.cons_append] at hrequests
      have hfirst := Reaches.single (queueStep_handle utf8 hopen hrequests hserve)
      have htaken : (net.connections i).Stands ps { q.connections i with requests := ps ++ todo } :=
        ⟨hc.userName, hc.status, hc.state, hc.isOpen, ⟨todo, frames, rfl, hframes, hcarries⟩, hc.replies⟩
      have hqueue := (h.setServer server).setQueue htaken
      rw [Function.update_idem] at hqueue
      obtain ⟨hafter, hout⟩ := hqueue.sendAll hfits.2.1
      obtain ⟨q', hreach, hstands⟩ := ih hafter (by
        rw [QueueNetwork.isOpen_sendAll, QueueNetwork.connections_setConnection, if_pos rfl]
        exact hopen) hrest hfits.2.2
      simp only [hout] at hfirst
      exact ⟨q', hfirst.trans hreach, hstands⟩

/-- The first replies of a queue can be received one after another. -/
theorem reaches_received {ps rest : List ServerPacket} (hconnected : (q.connections i).connected = true)
    (hreplies : (q.connections i).replies = ps ++ rest) :
    Reaches (queueStep utf8 serve) q (q.setConnection i { q.connections i with replies := rest })
      (ps.map (.received i)) := by
  induction ps generalizing q with
  | nil =>
      have hsame : q.setConnection i { q.connections i with replies := rest } = q := by
        rw [List.nil_append] at hreplies
        rw [← hreplies, QueueNetwork.setConnection, Function.update_eq_self]
      rw [hsame]
      exact .refl q
  | cons packet ps ih =>
      have hstep := queueStep_receive utf8 serve hconnected hreplies
      have hrest := ih (q := q.setConnection i { q.connections i with replies := ps ++ rest })
        (by rw [QueueNetwork.connections_setConnection, if_pos rfl]; exact hconnected)
        (by rw [QueueNetwork.connections_setConnection, if_pos rfl])
      have hset : (q.setConnection i { q.connections i with replies := ps ++ rest }).setConnection i
          { (q.setConnection i { q.connections i with replies := ps ++ rest }).connections i with
            replies := rest } = q.setConnection i { q.connections i with replies := rest } := by
        rw [QueueNetwork.connections_setConnection, if_pos rfl]
        simp only [QueueNetwork.setConnection, Function.update_idem]
      rw [hset] at hrest
      exact (Reaches.single hstep).trans hrest

/-- The segment does not end within a message whose length has arrived at the server. -/
def Connection.aligned (c : Connection) (n : ℕ) : Bool :=
  let bytes := c.toServer.reader ++ c.toServer.wire.take n
  (protocol.unframed bytes.length bytes).length < 4

def NetworkEvent.aligned (net : Network S) : NetworkEvent χ → Bool
  | slotReadClient i n _ => (net.connections i).aligned n
  | _ => true

theorem Connection.Stands.call {c : Connection} {k : QueueConnection} (utf8 : Utf8) (call : Client.Call)
    (h : c.Stands [] k) (hfits : ∀ p ∈ (c.client.call utf8 call).2, p.dataBlock.Sendable) :
    Connection.Stands []
      { c with
        client := (c.client.call utf8 call).1
        toServer := c.toServer.send ((c.client.call utf8 call).2.flatMap fun p => p.dataBlock.procProtodata) }
      (if k.connected then
        { k with userName := call.userName k.userName, requests := k.requests ++ call.packets utf8 k.userName }
      else k) := by
  have hstatus := h.status
  have hname := h.userName
  rw [Client.ClientBackend.call] at hfits ⊢
  by_cases hconnected : k.connected = true
  · rw [if_pos (hstatus.trans hconnected)] at hfits ⊢
    rw [if_pos hconnected, ← hname]
    exact h.request hfits _
  · rw [if_neg (hstatus ▸ hconnected), if_neg hconnected, List.flatMap_nil, Link.send, List.append_nil]
    exact h

/-- A segment that arrives at the server takes its messages off the queue. -/
theorem Network.Stands.arrive (h : net.Stands idle q)
    (haligned : (net.connections i).aligned n = true) :
    ∃ ps fs, Framed ClientPacket.dataBlock ps fs ∧
      ((net.connections i).toServer.deliver Server.slotReadClient n).2 = fs.map Frame.payload ∧
      (net.setConnection i { net.connections i with
        toServer := ((net.connections i).toServer.deliver Server.slotReadClient n).1 }).Stands
        (Function.update idle i ps) q := by
  have hc := h.connections i
  obtain ⟨todo, fs, hrequests, hfs, hcarries⟩ := hc.requests
  obtain ⟨done, rest, rfl, hout, hcarries'⟩ := hcarries.deliver (n := n) fun bytes hholds => by
    cases hholds
    rwa [Connection.aligned, decide_eq_true_iff] at haligned
  obtain ⟨ps, qs, rfl, hdone, hrest⟩ := hfs.split
  refine ⟨ps, done, hdone, hout, ?_⟩
  have hset := h.setConnection (i := i) (k := q.connections i) (c := { net.connections i with
    toServer := ((net.connections i).toServer.deliver Server.slotReadClient n).1 })
    ⟨hc.userName, hc.status, hc.state, hc.isOpen, ⟨qs, rest, hrequests, hrest, hcarries'⟩, hc.replies⟩
  rwa [QueueNetwork.setConnection, Function.update_eq_self] at hset

/-- A segment that arrives at a client takes its messages off the queue. -/
theorem Connection.Stands.receive {c : Connection} {k : QueueConnection} {helper : Client.NetworkHelper}
    {datas : List (List UInt8)} {packets : List (Option ServerPacket)} (h : c.Stands [] k)
    (hstep : Client.helperStep c.client.helper (.readyRead (c.toClient.take n)) = some (helper, datas))
    (hparse : datas.mapM Client.slotGetServerMessage = some packets) :
    ∃ ps rest, k.connected = true ∧ k.replies = ps ++ rest ∧ packets.filterMap id = ps ∧
      Connection.Stands []
        { c with client := { c.client with helper := helper }, toClient := c.toClient.drop n }
        { k with replies := rest } := by
  rw [Client.helperStep] at hstep
  split at hstep
  · rename_i hstate
    obtain ⟨fs, hfs, hcarries⟩ := h.replies
    obtain ⟨done, todo, rfl, hout, hcarries'⟩ := hcarries.deliver (n := n) fun _ _ => trivial
    obtain ⟨ps, rest, hreplies, hdone, hrest⟩ := hfs.split
    obtain ⟨hsame, hstatus⟩ := Client.readLoop_state
      ((c.client.helper.buffer ++ c.toClient.take n).length + 1)
      { c.client.helper with buffer := c.client.helper.buffer ++ c.toClient.take n }
    have hread : c.client.helper.readyRead (c.toClient.take n) = (helper, datas) := Option.some.inj hstep
    have hdatas : (c.client.helper.readyRead (c.toClient.take n)).2 = done.map Frame.payload := hout
    rw [hread] at hdatas
    simp only at hdatas
    rw [hdatas, hdone.messages, Option.some.injEq] at hparse
    refine ⟨ps, rest, h.state.mp hstate, hreplies, ?_, ?_⟩
    · rw [← hparse, List.filterMap_map]
      exact List.filterMap_some
    · have hhelper : helper = (c.client.helper.readyRead (c.toClient.take n)).1 := by rw [hread]
      rw [hhelper]
      exact ⟨h.userName, hstatus.trans h.status, (Eq.congr_left hsame).trans h.state, h.isOpen, h.requests,
        todo, hrest, hcarries'⟩
  · cases hstep

/-- The client notices that the connection is lost. -/
theorem Connection.Stands.lose {c : Connection} {k : QueueConnection} {helper : Client.NetworkHelper}
    {datas : List (List UInt8)} (h : c.Stands [] k)
    (hstep : Client.helperStep c.client.helper .disconnected = some (helper, datas)) :
    k.connected = true ∧
      Connection.Stands [] { c with client := { c.client with helper := helper } }
        { k with connected := false } := by
  rw [Client.helperStep] at hstep
  split at hstep
  · rename_i hstate
    simp only [Client.NetworkHelper.closeConnection, Option.some.injEq, Prod.mk.injEq] at hstep
    obtain ⟨rfl, -⟩ := hstep
    obtain ⟨fs, hfs, rest, hholds, hcarries⟩ := h.replies
    refine ⟨h.state.mp hstate, h.userName, rfl, ?_, h.isOpen, h.requests, fs, hfs, rest, ?_, hcarries⟩
    · simp
    · exact ⟨hholds.unread, hholds.length_lt⟩
  · cases hstep

/-- Every step of the wires is made of steps of the queues. -/
theorem Network.Stands.step {e : NetworkEvent χ} (h : net.Stands idle q)
    (hs : networkStep utf8 serve net e = some (net', o)) (haligned : e.aligned net = true)
    (hfits : ∀ x ∈ o, x.Fits) :
    ∃ q', Reaches (queueStep utf8 serve) q q' o ∧ net'.Stands idle q' := by
  cases e with
  | call i call =>
      simp only [networkStep, Option.some.injEq, Prod.mk.injEq] at hs
      obtain ⟨rfl, rfl⟩ := hs
      have hc := h.connections i
      have hset := h.setSame (i := i) (hc.call utf8 call fun p hp => hfits _ (List.mem_map_of_mem hp))
      refine ⟨_, .single (e := .call i call) ?_, hset⟩
      have hstatus := hc.status
      rw [queueStep, Client.ClientBackend.call]
      by_cases hconnected : (q.connections i).connected = true
      · simp only [hstatus, hconnected, ↓reduceIte, hc.userName]
      · simp only [hstatus, hconnected, Bool.false_eq_true, ↓reduceIte, List.map_nil,
          QueueNetwork.setConnection, Function.update_eq_self]
  | slotReadClient i n chance =>
      rw [networkStep] at hs
      simp only at hs
      split at hs
      · rename_i hopen
        obtain ⟨ps, fs, hfs, hdatas, hstands⟩ := h.arrive haligned
        rw [hdatas] at hs
        exact hstands.slotGetMessages ((h.connections i).isOpen.symm.trans hopen) hfs hs hfits
      · cases hs
  | readyRead i n =>
      simp only [networkStep, Option.bind_eq_bind, Option.bind_eq_some_iff, Prod.exists, Option.some.injEq,
        Prod.mk.injEq] at hs
      obtain ⟨helper, datas, hstep, packets, hparse, rfl, rfl⟩ := hs
      obtain ⟨ps, rest, hconnected, hreplies, hpackets, hstands⟩ := (h.connections i).receive hstep hparse
      rw [hpackets]
      exact ⟨_, reaches_received hconnected hreplies, h.setSame hstands⟩
  | userDisconnected i =>
      rw [networkStep] at hs
      simp only at hs
      split at hs
      · rename_i hopen
        simp only [Option.bind_eq_bind, Option.bind_eq_some_iff, Prod.exists, Option.some.injEq] at hs
        obtain ⟨server, out, hserve, hsent⟩ := hs
        have hc := h.connections i
        rw [h.server] at hserve
        have hclosed : Connection.Stands [] { net.connections i with isOpen := false }
            { q.connections i with isOpen := false } :=
          ⟨hc.userName, hc.status, hc.state, rfl, hc.requests, hc.replies⟩
        have hset := (h.setServer server).setSame (i := i) hclosed
        obtain ⟨hafter, hout⟩ := hset.sendAll (by rw [hsent]; exact hfits)
        rw [hsent] at hafter hout
        refine ⟨_, .single (e := .userDisconnected i) ?_, hafter⟩
        rw [queueStep]
        simp only [hc.isOpen.symm.trans hopen, ↓reduceIte, hserve, Option.bind_eq_bind, Option.bind_some]
        exact congrArg some (Prod.ext rfl hout)
      · cases hs
  | disconnected i =>
      simp only [networkStep, Option.bind_eq_bind, Option.bind_eq_some_iff, Prod.exists, Option.some.injEq,
        Prod.mk.injEq] at hs
      obtain ⟨helper, datas, hstep, rfl, rfl⟩ := hs
      obtain ⟨hconnected, hstands⟩ := (h.connections i).lose hstep
      refine ⟨_, .single (e := .disconnected i) ?_, h.setSame hstands⟩
      rw [queueStep]
      simp only [hconnected, ↓reduceIte]

end

end TermCollection.Pokemon

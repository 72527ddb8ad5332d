import TermCollection.Pokemon.Delivery

/-!
# Order and loss

On every connection the server handles the requests of the client in their order, and the client receives the
replies in theirs, however the bytes are cut and whatever happens on other connections.
-/

namespace TermCollection.Pokemon

open Machine

variable {S χ : Type} {utf8 : Utf8} {serve : Machine S (PacketEvent χ) (ℕ × ServerPacket)}

/-! ## Packets of one connection -/

namespace Observation

def requestedAt (i : ℕ) : Observation → Option ClientPacket
  | requested j packet => if j = i then some packet else none
  | _ => none

def handledAt (i : ℕ) : Observation → Option ClientPacket
  | handled j packet => if j = i then some packet else none
  | _ => none

def repliedAt (i : ℕ) : Observation → Option ServerPacket
  | replied j packet => if j = i then some packet else none
  | _ => none

def receivedAt (i : ℕ) : Observation → Option ServerPacket
  | received j packet => if j = i then some packet else none
  | _ => none

instance : DecidablePred Fits
  | requested _ _ => decidable_of_iff _ ClientPacket.sendable_iff.symm
  | replied _ _ => decidable_of_iff _ ServerPacket.sendable_iff.symm
  | handled _ _ => .isTrue trivial
  | received _ _ => .isTrue trivial

end Observation

open Observation

/-- The queues hold what was sent and did not come out. -/
def QueueNetwork.Queued (q : QueueNetwork S) (o : List Observation) : Prop :=
  ∀ i, o.filterMap (requestedAt i) = o.filterMap (handledAt i) ++ (q.connections i).requests ∧
    o.filterMap (repliedAt i) = o.filterMap (receivedAt i) ++ (q.connections i).replies

theorem sendAll_observed (out : List (ℕ × ServerPacket)) (q : QueueNetwork S) (i : ℕ) :
    (q.sendAll out).2.filterMap (requestedAt i) = [] ∧ (q.sendAll out).2.filterMap (handledAt i) = [] ∧
      (q.sendAll out).2.filterMap (receivedAt i) = [] ∧
      ((q.sendAll out).1.connections i).requests = (q.connections i).requests ∧
      ((q.sendAll out).1.connections i).replies =
        (q.connections i).replies ++ (q.sendAll out).2.filterMap (repliedAt i) := by
  induction out generalizing q with
  | nil => exact ⟨rfl, rfl, rfl, rfl, (List.append_nil _).symm⟩
  | cons head out ih =>
      obtain ⟨j, packet⟩ := head
      obtain ⟨hrequested, hhandled, hreceived, hrequests, hreplies⟩ := ih (q.send j packet).1
      simp only [QueueNetwork.sendAll, List.filterMap_append, hrequested, hhandled, hreceived, hrequests,
        hreplies, List.append_nil]
      unfold QueueNetwork.send
      simp only
      split
      · rw [QueueNetwork.connections_setConnection]
        by_cases hi : i = j
        · subst hi
          simp [requestedAt, handledAt, receivedAt, repliedAt]
        · have hj : j ≠ i := fun h => hi h.symm
          simp [requestedAt, handledAt, receivedAt, repliedAt, hi, hj]
      · simp

theorem QueueNetwork.Queued.sendAll {q : QueueNetwork S} {o : List Observation} (h : q.Queued o)
    (out : List (ℕ × ServerPacket)) : (q.sendAll out).1.Queued (o ++ (q.sendAll out).2) := by
  intro i
  obtain ⟨hrequested, hhandled, hreceived, hrequests, hreplies⟩ := sendAll_observed out q i
  simp only [List.filterMap_append, hrequested, hhandled, hreceived, hrequests, hreplies, List.append_nil,
    ← List.append_assoc]
  exact ⟨(h i).1, congrArg (· ++ _) (h i).2⟩

/-- A change of one connection, with what is seen of it. -/
theorem QueueNetwork.Queued.setConnection {q : QueueNetwork S} {o new : List Observation} {i : ℕ}
    {c : QueueConnection} (h : q.Queued o)
    (hsame : o.filterMap (requestedAt i) ++ new.filterMap (requestedAt i) =
        o.filterMap (handledAt i) ++ new.filterMap (handledAt i) ++ c.requests ∧
      o.filterMap (repliedAt i) ++ new.filterMap (repliedAt i) =
        o.filterMap (receivedAt i) ++ new.filterMap (receivedAt i) ++ c.replies)
    (hother : ∀ j, j ≠ i → ∀ x ∈ new, x.requestedAt j = none ∧ x.handledAt j = none ∧ x.repliedAt j = none ∧
      x.receivedAt j = none) :
    (q.setConnection i c).Queued (o ++ new) := by
  intro j
  simp only [List.filterMap_append, QueueNetwork.connections_setConnection]
  split
  · rename_i hj
    rw [hj]
    exact hsame
  · rename_i hj
    have hnone := hother j hj
    rw [List.filterMap_eq_nil_iff.mpr fun x hx => (hnone x hx).1,
      List.filterMap_eq_nil_iff.mpr fun x hx => (hnone x hx).2.1,
      List.filterMap_eq_nil_iff.mpr fun x hx => (hnone x hx).2.2.1,
      List.filterMap_eq_nil_iff.mpr fun x hx => (hnone x hx).2.2.2]
    simp only [List.append_nil]
    exact h j

theorem QueueNetwork.Queued.step {q q' : QueueNetwork S} {o new : List Observation} {e : QueueEvent χ}
    (h : q.Queued o) (hs : queueStep utf8 serve q e = some (q', new)) : q'.Queued (o ++ new) := by
  cases e with
  | call i call =>
      simp only [queueStep] at hs
      split at hs
      · cases hs
        apply h.setConnection
        · simp [requestedAt, handledAt, repliedAt, receivedAt, (h i).1, (h i).2, List.filterMap_map,
            Function.comp_def]
        · intro j hj x hx
          obtain ⟨packet, -, rfl⟩ := List.mem_map.mp hx
          exact ⟨if_neg fun h => hj h.symm, rfl, rfl, rfl⟩
      · cases hs
        rwa [List.append_nil]
  | handle i chance =>
      simp only [queueStep] at hs
      split at hs
      · rename_i packet requests hopen hrequests
        simp only [Option.bind_eq_bind, Option.bind_eq_some_iff, Prod.exists, Option.some.injEq,
          Prod.mk.injEq] at hs
        obtain ⟨server, out, -, rfl, rfl⟩ := hs
        have htaken : QueueNetwork.Queued ({ q with server := server }.setConnection i
            { q.connections i with requests := requests }) (o ++ [.handled i packet]) := by
          refine QueueNetwork.Queued.setConnection (q := { q with server := server }) h ?_ ?_
          · simp [requestedAt, handledAt, repliedAt, receivedAt, (h i).1, (h i).2, hrequests,
              List.filterMap_cons]
          · intro j hj x hx
            rw [List.mem_singleton.mp hx]
            exact ⟨rfl, if_neg fun h => hj h.symm, rfl, rfl⟩
        have hsent := htaken.sendAll out
        rwa [List.append_assoc, List.singleton_append] at hsent
      · cases hs
  | receive i =>
      simp only [queueStep] at hs
      split at hs
      · rename_i packet replies hconnected hreplies
        cases hs
        apply h.setConnection
        · simp [requestedAt, handledAt, repliedAt, receivedAt, (h i).1, (h i).2, hreplies,
          List.filterMap_cons]
        · intro j hj x hx
          rw [List.mem_singleton.mp hx]
          exact ⟨rfl, rfl, rfl, if_neg fun h => hj h.symm⟩
      · cases hs
  | userDisconnected i =>
      simp only [queueStep] at hs
      split at hs
      · simp only [Option.bind_eq_bind, Option.bind_eq_some_iff, Prod.exists, Option.some.injEq] at hs
        obtain ⟨server, out, -, hsent⟩ := hs
        have hclosed : QueueNetwork.Queued ({ q with server := server }.setConnection i
            { q.connections i with isOpen := false }) (o ++ []) := by
          refine QueueNetwork.Queued.setConnection (q := { q with server := server }) h ?_ fun _ _ _ hx => by cases hx
          simp [(h i).1, (h i).2]
        have hafter := hclosed.sendAll out
        rwa [List.append_nil, hsent] at hafter
      · cases hs
  | disconnected i =>
      simp only [queueStep] at hs
      split at hs
      · cases hs
        refine h.setConnection ?_ fun _ _ _ hx => by cases hx
        simp [(h i).1, (h i).2]
      · cases hs

/-! ## Runs -/

/-- The client that has just connected. -/
def connectedClient : Client.ClientBackend := ⟨"", { Client.newNetworkHelper with state := .connected }.connected⟩

/-- All connections are made, and nothing was sent. -/
def newNetwork (server : S) : Network S := ⟨server, fun _ => ⟨connectedClient, ⟨[], []⟩, [], true⟩⟩

def newQueueNetwork (server : S) : QueueNetwork S := ⟨server, fun _ => ⟨"", true, true, [], []⟩⟩

/-- The segments that come to the server are aligned, and receivers can parse what is sent. -/
def orderly (utf8 : Utf8) (serve : Machine S (PacketEvent χ) (ℕ × ServerPacket)) (net : Network S)
    (e : NetworkEvent χ) : Bool :=
  e.aligned net && (networkStep utf8 serve net e).all fun r => r.2.all fun x => x.Fits

variable {server : S} {net : Network S} {tr : List (NetworkEvent χ × List Observation)}

theorem newNetwork_stands (server : S) : (newNetwork server).Stands idle (newQueueNetwork server) := by
  refine ⟨rfl, fun i => ⟨rfl, rfl, by simp [newNetwork, newQueueNetwork, connectedClient,
    Client.NetworkHelper.connected], rfl, ⟨[], [], rfl, .nil, Link.carries_nil rfl⟩, [], .nil,
    Link.carries_nil ⟨rfl, fun hflag => by cases hflag⟩⟩⟩

/-- Each run over the wires is a run over the queues, in which the same packets are seen. -/
theorem exists_queue_run
    (h : (networkStep utf8 serve).Run (fun net e => orderly utf8 serve net e = true) (newNetwork server) net tr) :
    ∃ q, Reaches (queueStep utf8 serve) (newQueueNetwork server) q (outputs tr) ∧ net.Stands idle q := by
  refine h.simulated (newNetwork_stands server) fun net q e net' o hstands horderly hs => ?_
  rw [orderly, hs, Bool.and_eq_true, Option.all_some, List.all_eq_true] at horderly
  exact hstands.step hs horderly.1 fun x hx => of_decide_eq_true (horderly.2 x hx)

theorem queued_of_reaches {q : QueueNetwork S} {o : List Observation}
    (h : Reaches (queueStep utf8 serve) (newQueueNetwork server) q o) : q.Queued o :=
  h.invariant (fun _ => ⟨rfl, rfl⟩) fun _ _ _ _ _ hq hs => hq.step hs

/-- Nothing is on its way to the server. -/
def Connection.Delivered (c : Connection) : Prop := c.toServer.reader ++ c.toServer.wire = []

/-- Nothing is on its way to the client. -/
def Connection.Received (c : Connection) : Prop := c.client.helper.unread ++ c.toClient = []

theorem stream_eq_nil {fs : List Frame} (h : protocol.stream fs = []) : fs = [] := by
  have hlen := length_stream fs
  rw [h, List.length_nil] at hlen
  exact List.length_eq_zero_iff.mp (by omega)

theorem Connection.Stands.nothing_left {c : Connection} {k : QueueConnection} (h : c.Stands [] k) :
    (c.Delivered → k.requests = []) ∧ (c.Received → k.replies = []) := by
  constructor
  · intro hnone
    obtain ⟨todo, fs, hrequests, hfs, rest, hholds, hbytes, -⟩ := h.requests
    cases hholds
    rw [stream_eq_nil (hbytes.symm.trans hnone)] at hfs
    cases hfs
    exact hrequests
  · intro hnone
    obtain ⟨fs, hfs, rest, hholds, hbytes, -⟩ := h.replies
    rw [← hholds.unread] at hbytes
    rw [stream_eq_nil (hbytes.symm.trans hnone)] at hfs
    exact List.forall₂_nil_right_iff.mp hfs

/-- The bytes can be left out: whatever happens on the wires, server and clients are where the queues of
packets lead, and the same packets were seen. -/
theorem wires_refine_queues
    (h : (networkStep utf8 serve).Run (fun net e => orderly utf8 serve net e = true) (newNetwork server) net tr) :
    ∃ q tr', AnyRun (queueStep utf8 serve) (newQueueNetwork server) q tr' ∧ outputs tr' = outputs tr ∧
      q.server = net.server ∧ ∀ i, (q.connections i).userName = (net.connections i).client.userName ∧
        (q.connections i).connected = (net.connections i).client.helper.status := by
  obtain ⟨q, ⟨tr', hrun, hsame⟩, hstands⟩ := exists_queue_run h
  refine ⟨q, tr', hrun, hsame, hstands.server.symm, fun i => ?_⟩
  exact ⟨(hstands.connections i).userName.symm, (hstands.connections i).status.symm⟩

/-- A sign-up, whose bytes come in two segments each way. -/
def signUpEvents : List (NetworkEvent PacketChance) :=
  [.readyRead 0 3, .readyRead 0 5, .slotReadClient 0 11 fun _ => noPacketChance,
    .slotReadClient 0 3 fun _ => noPacketChance, .call 0 (.sendSignUpRequest "a" "x")]

theorem wires_refine_queues_example :
    ∃ net tr, (networkStep plainUtf8 plainServe).Run
        (fun net e => orderly plainUtf8 plainServe net e = true) (newNetwork freshServer)
        net tr ∧ tr.map Prod.fst = signUpEvents ∧
      ∃ q tr', AnyRun (queueStep plainUtf8 plainServe) (newQueueNetwork freshServer) q tr' ∧
        outputs tr' = outputs tr ∧ q.server = net.server ∧
        ∀ i, (q.connections i).userName = (net.connections i).client.userName ∧
          (q.connections i).connected = (net.connections i).client.helper.status := by
  obtain ⟨hrun, hevents⟩ := run_after (networkStep plainUtf8 plainServe)
    (orderly plainUtf8 plainServe) (newNetwork freshServer) signUpEvents (by decide +kernel)
  exact ⟨_, _, hrun, hevents, wires_refine_queues hrun⟩

/-- On every connection the requests are handled in the order in which they were made, and the replies are
received in the order in which they were sent; none is lost, made up or doubled. -/
theorem packets_in_order
    (h : (networkStep utf8 serve).Run (fun net e => orderly utf8 serve net e = true) (newNetwork server) net tr)
    (i : ℕ) :
    (outputs tr).filterMap (handledAt i) <+: (outputs tr).filterMap (requestedAt i) ∧
      (outputs tr).filterMap (receivedAt i) <+: (outputs tr).filterMap (repliedAt i) ∧
      ((net.connections i).Delivered →
        (outputs tr).filterMap (handledAt i) = (outputs tr).filterMap (requestedAt i)) ∧
      ((net.connections i).Received →
        (outputs tr).filterMap (receivedAt i) = (outputs tr).filterMap (repliedAt i)) := by
  obtain ⟨q, hreach, hstands⟩ := exists_queue_run h
  obtain ⟨hrequests, hreplies⟩ := queued_of_reaches hreach i
  obtain ⟨hdelivered, hreceived⟩ := (hstands.connections i).nothing_left
  rw [hrequests, hreplies]
  refine ⟨List.prefix_append _ _, List.prefix_append _ _, fun hnone => ?_, fun hnone => ?_⟩
  · rw [hdelivered hnone, List.append_nil]
  · rw [hreceived hnone, List.append_nil]

theorem packets_in_order_example :
    ∃ net tr, (networkStep plainUtf8 plainServe).Run
        (fun net e => orderly plainUtf8 plainServe net e = true) (newNetwork freshServer)
        net tr ∧ tr.map Prod.fst = signUpEvents ∧
      (outputs tr).filterMap (handledAt 0) = (outputs tr).filterMap (requestedAt 0) ∧
      (outputs tr).filterMap (receivedAt 0) = [.userSignUpResponse { status := 0 }] := by
  obtain ⟨hrun, hevents⟩ := run_after (networkStep plainUtf8 plainServe)
    (orderly plainUtf8 plainServe) (newNetwork freshServer) signUpEvents (by decide +kernel)
  exact ⟨_, _, hrun, hevents, (packets_in_order hrun 0).2.2.1 (by unfold Connection.Delivered; decide +kernel),
    by decide +kernel⟩

/-! ## The server in the network -/

end TermCollection.Pokemon

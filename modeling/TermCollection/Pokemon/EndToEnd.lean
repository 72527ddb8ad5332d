import TermCollection.Pokemon.Accounts
import TermCollection.Pokemon.Ordering

/-!
# From a client to the database and back

The server of the repository in the network: what its packets do to the accounts and to the Pokemon, and what a
client knows when it gets the answer to a sign-up.
-/

namespace TermCollection.Pokemon

open Machine Observation

variable {naming : Naming} {utf8 : Utf8} {attack : Attack} {s s' : ServerBackend Database} {i : ℕ}
variable {packet : ClientPacket} {chance : PacketChance} {out : List (ℕ × ServerPacket)}

/-! ## The packets of the server -/

def ServerPacket.signUpStatus : ServerPacket → Option Int32
  | userSignUpResponse info => some info.status
  | _ => none

def ClientPacket.signUp : ClientPacket → Option UserProtocol.UserSignUpRequestInfo
  | userSignUpRequest info => some info
  | _ => none

theorem signUpStatus_packet (reply : Reply) : (reply.packet utf8).signUpStatus = none := by
  cases reply <;> rfl

theorem signUpStatus_passOn {info : BattleProtocol.BattleStartRequest} {p : ServerPacket}
    (h : p.signUpStatus = none) : (passOn info p).signUpStatus = none := by
  cases p <;> first | rfl | exact h

/-- A packet is a sign-up, a message to the rest of the server, or a question. -/
theorem packetStep_cases (h : packetStep naming utf8 attack s (.packet i packet chance) = some (s', out)) :
    (∃ info db status, packet = .userSignUpRequest info ∧ s' = { s with db := db } ∧
      s.db.slotUserSignUp naming (utf8.fromStdString info.userName) (utf8.fromStdString info.userPsw)
        chance.starters = some (db, status) ∧
      out = [(i, .userSignUpResponse { status := Int32.ofNat status.ctorIdx })]) ∨
      packet.signUp = none ∧ (∀ sent ∈ out, sent.2.signUpStatus = none) ∧
        (s' = s ∨ ∃ e outs, backendStep (onDatabase naming attack) s e = some (s', outs)) := by
  rw [packetStep] at h
  split at h
  · rename_i message hmessage
    simp only [Option.bind_eq_bind, Option.bind_eq_some_iff, Prod.exists, Option.some.injEq, Prod.mk.injEq] at h
    obtain ⟨_, outs, hslot, rfl, rfl⟩ := h
    refine .inr ⟨?_, ?_, .inr ⟨.message i message chance.toChance, outs, hslot⟩⟩
    · cases packet <;> first | rfl | cases hmessage
    · have hnone : ∀ sent ∈ outs.map (·.packet utf8), sent.2.signUpStatus = none := by
        intro sent hsent
        obtain ⟨reply, -, rfl⟩ := List.mem_map.mp hsent
        exact signUpStatus_packet reply.reply
      split
      · intro sent hsent
        obtain ⟨first, hfirst, rfl⟩ := List.mem_map.mp hsent
        exact signUpStatus_passOn (hnone first hfirst)
      · exact hnone
  · simp only [Option.bind_eq_bind, Option.bind_eq_some_iff, Prod.exists, Option.some.injEq, Prod.mk.injEq] at h
    obtain ⟨_, reply, hanswer, rfl, rfl⟩ := h
    cases packet with
    | userSignUpRequest info =>
        simp only [answer, Option.bind_eq_bind, Option.bind_eq_some_iff, Prod.exists, Option.some.injEq,
          Prod.mk.injEq] at hanswer
        obtain ⟨db, status, hsign, rfl, rfl⟩ := hanswer
        exact .inl ⟨info, db, status, rfl, rfl, hsign, rfl⟩
    | userInfoRequest info =>
        cases hanswer
        exact .inr ⟨rfl, fun sent hsent => by rw [List.mem_singleton.mp hsent]; rfl, .inl rfl⟩
    | onlineUserListRequest info =>
        cases hanswer
        exact .inr ⟨rfl, fun sent hsent => by rw [List.mem_singleton.mp hsent]; rfl, .inl rfl⟩
    | pokemonDataRequest info =>
        simp only [answer, Option.bind_eq_bind, Option.bind_eq_some_iff, Option.some.injEq,
          Prod.mk.injEq] at hanswer
        obtain ⟨resInfo, -, rfl, rfl⟩ := hanswer
        exact .inr ⟨rfl, fun sent hsent => by rw [List.mem_singleton.mp hsent]; rfl, .inl rfl⟩
    | userLoginRequest => cases hanswer
    | battleInviteRequest => cases hanswer
    | battleInviteResponse => cases hanswer
    | battleOperationInfo => cases hanswer
    | transferPokemonRequest => cases hanswer
    | battleGiveupInfo => cases hanswer

theorem packetStep_leave (h : packetStep naming utf8 attack s (.userDisconnected i) = some (s', out)) :
    (∀ sent ∈ out, sent.2.signUpStatus = none) ∧
      ∃ outs, backendStep (onDatabase naming attack) s (.userDisconnected i) = some (s', outs) := by
  simp only [packetStep, Option.bind_eq_bind, Option.bind_eq_some_iff, Prod.exists, Option.some.injEq,
    Prod.mk.injEq] at h
  obtain ⟨_, outs, hslot, rfl, rfl⟩ := h
  refine ⟨fun sent hsent => ?_, outs, hslot⟩
  obtain ⟨reply, -, rfl⟩ := List.mem_map.mp hsent
  exact signUpStatus_packet reply.reply

/-! ## Sign-ups -/

/-- The name and the password of a sign-up fit into a row of `user_list`. -/
def FitsRow (naming : Naming) (utf8 : Utf8) (info : UserProtocol.UserSignUpRequestInfo) : Prop :=
  naming.fitsRow (utf8.fromStdString info.userName) (utf8.fromStdString info.userPsw) = true

/-- A sign-up that succeeded has made an account. -/
def Answers (naming : Naming) (utf8 : Utf8) (db : Database) (info : UserProtocol.UserSignUpRequestInfo)
    (status : Int32) : Prop :=
  FitsRow naming utf8 info → status = 0 →
    db.Account naming (utf8.fromStdString info.userName) (utf8.fromStdString info.userPsw)

/-- The sign-ups that the server has handled from a client, and the answers that it has sent there. -/
def signUpsHandled (i : ℕ) (o : List Observation) : List UserProtocol.UserSignUpRequestInfo :=
  (o.filterMap (handledAt i)).filterMap ClientPacket.signUp

def signUpsAnswered (i : ℕ) (o : List Observation) : List Int32 :=
  (o.filterMap (repliedAt i)).filterMap ServerPacket.signUpStatus

def Answered (naming : Naming) (utf8 : Utf8) (db : Database) (o : List Observation) : Prop :=
  ∀ i, List.Forall₂ (Answers naming utf8 db) (signUpsHandled i o) (signUpsAnswered i o)

section

variable {db db' : Database} {o o' : List Observation}

/-- Accounts are kept. -/
theorem Answered.mono (h : Answered naming utf8 db o)
    (hdb : ∀ userName userPsw, db.Account naming userName userPsw → db'.Account naming userName userPsw) :
    Answered naming utf8 db' o :=
  fun i => (h i).imp fun _ _ hanswers hfits hstatus => hdb _ _ (hanswers hfits hstatus)

theorem Answered.append (h : Answered naming utf8 db o)
    (hnew : ∀ i, List.Forall₂ (Answers naming utf8 db) (signUpsHandled i o') (signUpsAnswered i o')) :
    Answered naming utf8 db (o ++ o') := by
  intro i
  rw [signUpsHandled, signUpsAnswered, List.filterMap_append, List.filterMap_append, List.filterMap_append,
    List.filterMap_append]
  exact List.rel_append (h i) (hnew i)

/-- It has nothing to do with sign-ups. -/
def Observation.Quiet : Observation → Prop
  | handled _ packet => packet.signUp = none
  | replied _ packet => packet.signUpStatus = none
  | _ => True

/-- One more answer on a connection. -/
theorem Answered.signUp {info : UserProtocol.UserSignUpRequestInfo} {res : UserProtocol.UserSignUpResponseInfo}
    (h : Answered naming utf8 db o) (hanswers : Answers naming utf8 db info res.status) (i : ℕ) :
    Answered naming utf8 db
      (o ++ [.handled i (.userSignUpRequest info), .replied i (.userSignUpResponse res)]) := by
  refine h.append fun j => ?_
  by_cases hj : i = j
  · subst hj
    simpa [signUpsHandled, signUpsAnswered, handledAt, repliedAt, List.filterMap_cons, ClientPacket.signUp,
      ServerPacket.signUpStatus] using hanswers
  · simp [signUpsHandled, signUpsAnswered, handledAt, repliedAt, List.filterMap_cons, hj]

end

end TermCollection.Pokemon

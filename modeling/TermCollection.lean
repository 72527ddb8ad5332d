import TermCollection.Dns.TableDeletion
import TermCollection.Dns.Provenance
import TermCollection.Dns.Blocklist
import TermCollection.Dns.RequestBounds
import TermCollection.Dns.AnswerWalk
import TermCollection.Dns.LocalAnswers
import TermCollection.Dns.TableLoading
import TermCollection.Dns.IniNumbers
import TermCollection.Pokemon.SessionConsistency
import TermCollection.Pokemon.MessageOwner
import TermCollection.Pokemon.Segmentation
import TermCollection.Pokemon.Reconnection
import TermCollection.Pokemon.Disconnection
import TermCollection.Pokemon.AbsentOpponents
import TermCollection.Pokemon.Trophies
import TermCollection.Pokemon.Logins
import TermCollection.Pokemon.Invitations
import TermCollection.Pokemon.LevelUp
import TermCollection.Pokemon.Amplification
import TermCollection.Pokemon.DefenseBound
import TermCollection.Pokemon.OwnBuffs
import TermCollection.Pokemon.Experience
import TermCollection.Pokemon.MalformedFrames
import TermCollection.Pokemon.EndOfTurn
import TermCollection.Pokemon.SkippedActions
import TermCollection.Pokemon.UnknownPokemon
import TermCollection.Pokemon.Transfers
import TermCollection.Pokemon.SignUp
import TermCollection.Pokemon.Starters
import TermCollection.Travel.LeastRisk
import TermCollection.Travel.TimeLimit
import TermCollection.Travel.Connections
import TermCollection.Travel.EventMessages
import TermCollection.Travel.Trips
import TermCollection.Pokemon.Statistics
import TermCollection.Pokemon.Authentication
import TermCollection.Pokemon.Conversations

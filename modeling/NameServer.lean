import NameServer.Text.Latin1
import NameServer.Text.Split
import NameServer.Text.Blank
import NameServer.Text.Digits
import NameServer.Address.Socket
import NameServer.Message.Decode
import NameServer.Message.Encode
import NameServer.Hostname
import NameServer.Table
import NameServer.Text.Utf8
import NameServer.Json.Document
import NameServer.Json.Decode
import NameServer.Json.Value
import NameServer.Config.Load
import NameServer.Time.Timestamp
import NameServer.Session.Event
import NameServer.Challenge.Digest
import NameServer.Challenge.Tokens
import NameServer.Server.Answer
import NameServer.Server.Launch
import NameServer.Api.Route
import NameServer.Main
import NameServer.Proofs.RoundTrip
import NameServer.Proofs.CacheEntries
import NameServer.Proofs.SessionTable
import NameServer.Proofs.Hostnames
import NameServer.Proofs.Resolution
import NameServer.Proofs.Run
import NameServer.Proofs.Staleness
import NameServer.Proofs.Documents
import NameServer.Proofs.StateFile
import NameServer.Proofs.Transparency
import NameServer.Proofs.Replies
import NameServer.Proofs.Tiers
import NameServer.Proofs.CacheHistory
import NameServer.Proofs.Eviction
import NameServer.Proofs.SessionHistory
import NameServer.Proofs.TimestampText
import NameServer.Proofs.Restart
import NameServer.Proofs.SessionKeys
import NameServer.Proofs.Tasks
import NameServer.Proofs.Interleaving
import NameServer.Proofs.Writing
import NameServer.Proofs.Challenges
import NameServer.Proofs.ServerFailures
import NameServer.Proofs.CacheEffects
import NameServer.Proofs.LetterCase
import NameServer.Proofs.TrailingBytes
import NameServer.Proofs.NameWalk
import NameServer.Proofs.Sweeping
import NameServer.Proofs.FailedWrites
import NameServer.Proofs.HostnameForms
import NameServer.Proofs.LegacyNames
import NameServer.Proofs.Authority
import NameServer.Proofs.Complaints
import NameServer.Proofs.Loading
import NameServer.Proofs.Encodings
import NameServer.Proofs.Lifetimes
import NameServer.Proofs.Reloading
import NameServer.Proofs.ReadingBounds

import LatencyRank.Logging.Events
import LatencyRank.Net.Bench
import LatencyRank.Probe.Script
import LatencyRank.Ranker.Session
import LatencyRank.Schedule.Sharing
import LatencyRank.Proofs.Binary64
import LatencyRank.Proofs.Cache.Sharded
import LatencyRank.Proofs.History.Book
import LatencyRank.Proofs.Schedule.Places
import LatencyRank.Proofs.Measurement.Attempts
import LatencyRank.Proofs.Ranker.Boarding
import LatencyRank.Proofs.Ranker.Exactness
import LatencyRank.Proofs.Ranker.Attendance
import LatencyRank.Proofs.Ranker.Chronicle
import LatencyRank.Proofs.Ranker.Accounts
import LatencyRank.Proofs.Sharing.Coherence
import LatencyRank.Proofs.Sharing.HandOver
import LatencyRank.Proofs.Sharing.Independence
import LatencyRank.Proofs.Cache.OneMap
import LatencyRank.Proofs.Cache.Sweeping
import LatencyRank.Proofs.History.Weight
import LatencyRank.Proofs.Measurement.Bounds
import LatencyRank.Proofs.Ranking.Serving
import LatencyRank.Proofs.Ranking.Reach
import LatencyRank.Proofs.Ranker.Crew
import LatencyRank.Proofs.Ranker.Muster
import LatencyRank.Proofs.Ranker.Partial
import LatencyRank.Proofs.Ranker.Moves
import LatencyRank.Proofs.Ranker.Leaders
import LatencyRank.Proofs.Ranker.Cancellation
import LatencyRank.Proofs.Ranker.Confusion
import LatencyRank.Proofs.Ranker.Dialogue
import LatencyRank.Proofs.Ranker.Permits
import LatencyRank.Proofs.Ranker.Restraint
import LatencyRank.Proofs.Ranker.Guard
import LatencyRank.Proofs.Ranker.Fuel
import LatencyRank.Proofs.Ranker.Waiting
import LatencyRank.Proofs.Ranker.Revalidation
import LatencyRank.Proofs.Ranker.Solitude
import LatencyRank.Proofs.Ranker.Repertoire
import LatencyRank.Proofs.Ranker.Settlement
import LatencyRank.Proofs.Ranker.Schedules
import LatencyRank.Proofs.Json.Members
import LatencyRank.Proofs.Disk
import LatencyRank.Proofs.History.Fits
import LatencyRank.Proofs.History.Snapshot
import LatencyRank.Proofs.Settings.Store
import LatencyRank.Proofs.History.Fading
import LatencyRank.Proofs.History.Operations
import LatencyRank.Proofs.History.Limit
import LatencyRank.Proofs.History.Counts
import LatencyRank.Proofs.History.Response
import LatencyRank.Proofs.History.Interleaving
import LatencyRank.Proofs.Disk.Names
import LatencyRank.Proofs.Disk.Changes
import LatencyRank.Proofs.History.Saving
import LatencyRank.Proofs.Measurement.Specification
import LatencyRank.Proofs.Ranker.Measuring
import LatencyRank.Proofs.Ranker.Freshness
import LatencyRank.Proofs.Cache.Rounds
import LatencyRank.Proofs.Ranking.Dominance
import LatencyRank.Proofs.Settings.Omission
import LatencyRank.Proofs.Ranker.Safety
import LatencyRank.Proofs.Net.BufferPool
import LatencyRank.Proofs.Ranking.Lifetime

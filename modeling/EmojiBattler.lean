import EmojiBattler.Library.CallMachine
import EmojiBattler.Library.Termination
import EmojiBattler.Library.Metered
import EmojiBattler.Library.Weights
import EmojiBattler.Library.Contracts
import EmojiBattler.Library.Simulation
import EmojiBattler.Library.Sampler
import EmojiBattler.Library.Replay
import EmojiBattler.Library.Numbering
import EmojiBattler.Library.Positions
import EmojiBattler.Library.Ranking
import EmojiBattler.Library.Pairing
import EmojiBattler.Library.RoundRobin
import EmojiBattler.Library.Runs
import EmojiBattler.Library.Eviction
import EmojiBattler.Library.Keyed
import EmojiBattler.Library.LittleEndian
import EmojiBattler.Library.Representatives
import EmojiBattler.Library.Grouping
import EmojiBattler.Codec.Types
import EmojiBattler.Codec.Arithmetic
import EmojiBattler.Mtc.Utils
import EmojiBattler.Mtc.DataErrors
import EmojiBattler.Mtc.Ghost
import EmojiBattler.Mtc.Rivals
import EmojiBattler.Mtc.Setup
import EmojiBattler.Mtc.Pool
import EmojiBattler.Battle.Common
import EmojiBattler.Battle.Board
import EmojiBattler.Battle.Tasks
import EmojiBattler.Battle.Targets
import EmojiBattler.Battle.Effects
import EmojiBattler.Battle.Outcomes
import EmojiBattler.Battle.Snapshots
import EmojiBattler.Battle.Failures
import EmojiBattler.Battle.Soundness
import EmojiBattler.Battle.Termination
import EmojiBattler.Battle.March
import EmojiBattler.Battle.Organizer
import EmojiBattler.Battle.Changes
import EmojiBattler.Battle.Logs
import EmojiBattler.Battle.Invariant
import EmojiBattler.Battle.AreaDamage
import EmojiBattler.Battle.Emos
import EmojiBattler.Battle.Play
import EmojiBattler.Battle.Steady
import EmojiBattler.Battle.Stamina
import EmojiBattler.Battle.Counts
import EmojiBattler.Battle.Turns
import EmojiBattler.Battle.Renaming
import EmojiBattler.Battle.Accounting
import EmojiBattler.Shop.Common
import EmojiBattler.Shop.Board
import EmojiBattler.Shop.Coin
import EmojiBattler.Shop.Catalog
import EmojiBattler.Shop.PlayerOperation
import EmojiBattler.Shop.Effects
import EmojiBattler.Shop.Termination
import EmojiBattler.Shop.Legality
import EmojiBattler.Shop.Failures
import EmojiBattler.Shop.Turn
import EmojiBattler.Shop.Conservation
import EmojiBattler.Shop.Identity
import EmojiBattler.Shop.Renaming
import EmojiBattler.Shop.Moves
import EmojiBattler.Shop.Triples
import EmojiBattler.Shop.Merging
import EmojiBattler.Shop.WellFormed
import EmojiBattler.Shop.Specials
import EmojiBattler.Shop.Menagerie
import EmojiBattler.Shop.Logs
import EmojiBattler.Shop.Raises
import EmojiBattler.Shop.Play
import EmojiBattler.Shop.Pending
import EmojiBattler.Shop.Arrivals
import EmojiBattler.Shop.Steady
import EmojiBattler.Shop.Performed
import EmojiBattler.Game.EmoBases
import EmojiBattler.Game.AbilityLimit
import EmojiBattler.Game.Functions
import EmojiBattler.Game.Contract
import EmojiBattler.Game.Matches
import EmojiBattler.Game.Matchmaking
import EmojiBattler.Game.Leaderboard
import EmojiBattler.Game.Isolation
import EmojiBattler.Game.Ratings
import EmojiBattler.Game.StoredBases
import EmojiBattler.Game.StoredBoards
import EmojiBattler.Front.State
import EmojiBattler.Front.Upgrade
import EmojiBattler.Front.MtcShopBoard
import EmojiBattler.Front.Replay
import EmojiBattler.Front.Shop
import EmojiBattler.Front.Match
import EmojiBattler.Front.Battle
import EmojiBattler.Front.Pow
import EmojiBattler.Front.Decks
import EmojiBattler.Pallet.Sessions
import EmojiBattler.Pallet.Game
import EmojiBattler.Pallet.Ratings
import EmojiBattler.Pallet.Rivals
import EmojiBattler.Pallet.Matches
import EmojiBattler.Pallet.Runtime
import EmojiBattler.Pallet.Pow
import EmojiBattler.Battle.Amounts
import EmojiBattler.Front.Elements
import EmojiBattler.Front.Animation
import EmojiBattler.Front.Base64
import EmojiBattler.Library.Scale
import EmojiBattler.Tools.CodecTypes
import EmojiBattler.Tools.CodecText
import EmojiBattler.Tools.CodecObject
import EmojiBattler.Tools.CodecTypesDefs
import EmojiBattler.Tools.CodecAgreement

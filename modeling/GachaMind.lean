import GachaMind.GameSession.Lifecycle
import GachaMind.GameSession.Rounds
import GachaMind.GameSession.Results
import GachaMind.GameSession.Scores
import GachaMind.GameSession.Drawers
import GachaMind.GameSession.Timers
import GachaMind.GameSession.Connections
import GachaMind.GameSession.Frames
import GachaMind.GameSession.Auth
import GachaMind.Web.Scoreboard
import GachaMind.Web.GameView
import GachaMind.Web.Canvas
import GachaMind.Web.Latecomer
import GachaMind.Web.Sketch
import GachaMind.Ownership
import GachaMind.User.Aggregation
import GachaMind.User.Intake
import GachaMind.User.Members
import GachaMind.GameSession.Publications
import GachaMind.MemberGames
import GachaMind.Lib.Broker
import GachaMind.User.Storage
import GachaMind.ResultsWorker.Worker
import GachaMind.ResultsWorker.Delivery
import GachaMind.GameSession.Contents
import GachaMind.User.Refusals
import GachaMind.ResultsWorker.Acceptance
import GachaMind.User.Leaderboard
import GachaMind.GameSession.Protection
import GachaMind.Web.Refusal
import GachaMind.Web.Paint
import GachaMind.Matchmaking.JoinableRooms
import GachaMind.Gateway.Relay
import GachaMind.Web.Secrecy
import GachaMind.Projections
import GachaMind.Shutdown
import GachaMind.Lib.Keyset
import GachaMind.User.Instants
import GachaMind.User.Paging
import GachaMind.GameSession.Ranks
import GachaMind.Lib.Polyline
import GachaMind.Web.Pen
import GachaMind.Web.NextPath
import GachaMind.User.Cursors
import GachaMind.Js.Latin1
import GachaMind.Gateway.Request
import GachaMind.Accounts.Users
import GachaMind.Accounts.Nicknames
import GachaMind.Accounts.Signups
import GachaMind.Accounts.Identities
import GachaMind.ResultsWorker.Handler
import GachaMind.GameSession.Endings
import GachaMind.User.LatestNames
import GachaMind.RoomCodes
import GachaMind.Matchmaking.Shards
import GachaMind.GameSession.Events
import GachaMind.GameSession.DrawingOrder
import GachaMind.GameSession.Words
import GachaMind.GameSession.Chat
import GachaMind.GameSession.EventFates
import GachaMind.ResultsWorker.Pipeline
import GachaMind.Timed.Tenure
import GachaMind.Timed.Forgotten

import AbyssBackend.Postgres.SummaryFilters
import AbyssBackend.Streams.Addresses
import AbyssBackend.Streams.FaithfulResend
import AbyssBackend.Streams.LastOutput
import AbyssBackend.Streams.Replay
import AbyssBackend.Streams.TurnFormula
import AbyssBackend.Streams.TurnViews
import AbyssBackend.Storage.Constraints
import AbyssBackend.Storage.MostRecent
import AbyssBackend.Storage.SearchScan
import AbyssBackend.Storage.SessionList
import AbyssBackend.Postgres.Evidence
import AbyssBackend.Postgres.Projection
import AbyssBackend.Library.Buckets
import AbyssBackend.Storage.DayOffsets
import AbyssBackend.Storage.TokenTotals
import AbyssBackend.Library.Conflicts
import AbyssBackend.Library.Preorder
import AbyssBackend.Library.Slices
import AbyssBackend.Postgres.Captures
import AbyssBackend.Postgres.StreamFacts
import AbyssBackend.Search.Excerpt
import AbyssBackend.Search.Pages
import AbyssBackend.Storage.Comparison
import AbyssBackend.Storage.Events
import AbyssBackend.Storage.OwnEvents
import AbyssBackend.Streams.Lines
import AbyssBackend.Streams.ResultsOnly
import AbyssBackend.Streams.StartOrder
import AbyssBackend.Streams.StartTree
import AbyssBackend.Streams.TimeSpans
import AbyssBackend.Storage.Confined
import AbyssBackend.Library.Ranges
import AbyssBackend.Usage.Runs
import AbyssBackend.Storage.Days
import AbyssBackend.Postgres.SearchText
import AbyssBackend.Usage.AttachmentLists
import AbyssBackend.Usage.Cuts
import AbyssBackend.Storage.ExactFilters
import AbyssBackend.Storage.ComparisonBuckets
import AbyssBackend.Postgres.UserFilters
import AbyssBackend.Streams.HeldEntry
import AbyssBackend.Streams.ExchangePairing
import AbyssBackend.Postgres.TitlesWritten
import AbyssBackend.Postgres.Intact
import AbyssBackend.Postgres.SearchResults
import AbyssBackend.Postgres.Answers
import AbyssBackend.Storage.ReadBack
import AbyssBackend.Api.Images
import AbyssBackend.Storage.EventPages
import AbyssBackend.Storage.Merging

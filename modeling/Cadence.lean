import Cadence.Calendar.CalendarDay
import Cadence.Calendar.Date
import Cadence.Calendar.Month
import Cadence.Calendar.Weekday
import Cadence.Calendar.YearMonth
import Cadence.Clock.Instant
import Cadence.Clock.TimeOfDay
import Cadence.Clock.Timestamp
import Cadence.Command.Arguments
import Cadence.Command.Run
import Cadence.Cron.Explanation
import Cadence.Cron.Field
import Cadence.Cron.Reading
import Cadence.Cron.Writing
import Cadence.Expression.Grammar
import Cadence.Expression.GrammarError
import Cadence.Expression.Tokens
import Cadence.Expression.Vocabulary
import Cadence.Main
import Cadence.Occurrence.Alignment
import Cadence.Occurrence.Backward
import Cadence.Occurrence.Forward
import Cadence.Occurrence.Frame
import Cadence.Occurrence.Membership
import Cadence.Occurrence.Search
import Cadence.Occurrence.Stream
import Cadence.Occurrence.Walk
import Cadence.Proofs.Calendar.CountedWeekdays
import Cadence.Proofs.Calendar.DayNumbers
import Cadence.Proofs.Calendar.MonthPositions
import Cadence.Proofs.Calendar.MonthTargets
import Cadence.Proofs.Calendar.Months
import Cadence.Proofs.Calendar.NearestBusinessDays
import Cadence.Proofs.Calendar.ReturningDays
import Cadence.Proofs.Calendar.Seasons
import Cadence.Proofs.Calendar.Weeks
import Cadence.Proofs.Clock.Order
import Cadence.Proofs.Clock.WrittenTimestamps
import Cadence.Proofs.Command.Paging
import Cadence.Proofs.Command.UpcomingLines
import Cadence.Proofs.Cron.CanonicalForm
import Cadence.Proofs.Cron.DayFields
import Cadence.Proofs.Cron.Divisions
import Cadence.Proofs.Cron.Explanations
import Cadence.Proofs.Cron.FieldMeaning
import Cadence.Proofs.Cron.FieldReaders
import Cadence.Proofs.Cron.FiringMinutes
import Cadence.Proofs.Cron.ReadRecurrences
import Cadence.Proofs.Cron.RoundTrip
import Cadence.Proofs.Cron.SameOccurrences
import Cadence.Proofs.Cron.WrittenFields
import Cadence.Proofs.Expression.CanonicalPhrases
import Cadence.Proofs.Expression.CanonicalSymbols
import Cadence.Proofs.Expression.CaretLines
import Cadence.Proofs.Expression.CaseAndBlanks
import Cadence.Proofs.Expression.ClosestWords
import Cadence.Proofs.Expression.Cutting
import Cadence.Proofs.Expression.DayRules
import Cadence.Proofs.Expression.Derivations
import Cadence.Proofs.Expression.ErrorPlaces
import Cadence.Proofs.Expression.Failures
import Cadence.Proofs.Expression.Lexemes
import Cadence.Proofs.Expression.MendedNumbers
import Cadence.Proofs.Expression.ParsedSchedules
import Cadence.Proofs.Expression.PhraseReading
import Cadence.Proofs.Expression.Phrases
import Cadence.Proofs.Expression.Rules
import Cadence.Proofs.Expression.ShownTokens
import Cadence.Proofs.Expression.Spelling
import Cadence.Proofs.Expression.Suggestions
import Cadence.Proofs.Expression.Tiling
import Cadence.Proofs.Expression.TokenBounds
import Cadence.Proofs.Expression.Unambiguity
import Cadence.Proofs.Expression.ViablePrefixes
import Cadence.Proofs.Expression.Vocabulary
import Cadence.Proofs.Expression.WrittenText
import Cadence.Proofs.Occurrence.Adjacent
import Cadence.Proofs.Occurrence.AlignedSteps
import Cadence.Proofs.Occurrence.AlikeAnchors
import Cadence.Proofs.Occurrence.BackwardSearch
import Cadence.Proofs.Occurrence.ClosingDates
import Cadence.Proofs.Occurrence.ComingDates
import Cadence.Proofs.Occurrence.CompleteSearches
import Cadence.Proofs.Occurrence.DateSearch
import Cadence.Proofs.Occurrence.EarlierStart
import Cadence.Proofs.Occurrence.ForwardSearch
import Cadence.Proofs.Occurrence.FoundOffers
import Cadence.Proofs.Occurrence.LaterStart
import Cadence.Proofs.Occurrence.MonthWalks
import Cadence.Proofs.Occurrence.Nearest
import Cadence.Proofs.Occurrence.Offers
import Cadence.Proofs.Occurrence.OrderlySearch
import Cadence.Proofs.Occurrence.PastDates
import Cadence.Proofs.Occurrence.Perennial
import Cadence.Proofs.Occurrence.ReachBack
import Cadence.Proofs.Occurrence.Rejections
import Cadence.Proofs.Occurrence.Resumption
import Cadence.Proofs.Occurrence.Retreats
import Cadence.Proofs.Occurrence.ScanReach
import Cadence.Proofs.Occurrence.YearWalks
import Cadence.Proofs.Outcomes
import Cadence.Proofs.Schedule.AlikeAnchors
import Cadence.Proofs.Schedule.CompleteSearches
import Cadence.Proofs.Schedule.DailyFilters
import Cadence.Proofs.Schedule.DirectedSeasons
import Cadence.Proofs.Schedule.EarlierStart
import Cadence.Proofs.Schedule.FoundOccurrences
import Cadence.Proofs.Schedule.LaterStart
import Cadence.Proofs.Schedule.ListedTimes
import Cadence.Proofs.Schedule.MinutePrecision
import Cadence.Proofs.Schedule.Occurrences
import Cadence.Proofs.Schedule.RepeatedReadings
import Cadence.Proofs.Schedule.ResumedStreams
import Cadence.Proofs.Schedule.Reversal
import Cadence.Proofs.Schedule.RoundTrip
import Cadence.Proofs.Schedule.ScanReach
import Cadence.Proofs.Schedule.SkippedDays
import Cadence.Proofs.Schedule.Streams
import Cadence.Proofs.Schedule.Walks
import Cadence.Proofs.Text.EditDistances
import Cadence.Proofs.Text.Numerals
import Cadence.Proofs.Text.Separators
import Cadence.Proofs.Text.Spans
import Cadence.Proofs.Zone.OrderlyZones
import Cadence.Proofs.Zone.ResolvedReadings
import Cadence.Proofs.Zone.SpacedZones
import Cadence.Proofs.Zone.UniversalTime
import Cadence.Proofs.Zone.WholeMinutes
import Cadence.Report
import Cadence.Schedule.Basic
import Cadence.Schedule.Text
import Cadence.Schedule.WellFormed
import Cadence.Settings
import Cadence.Text.Blank
import Cadence.Text.EditDistance
import Cadence.Text.Numeral
import Cadence.Text.Span
import Cadence.Text.Split
import Cadence.Zone.Basic
import Cadence.Zone.Table

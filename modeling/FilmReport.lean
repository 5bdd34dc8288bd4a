import FilmReport.Dataset.Read
import FilmReport.Dataset.Sample
import FilmReport.Fault.Record
import FilmReport.Main
import FilmReport.Proofs.Normalize.Again
import FilmReport.Proofs.Normalize.Interleaving
import FilmReport.Proofs.Operation.Nested
import FilmReport.Proofs.Query.Determined
import FilmReport.Proofs.Query.Exported
import FilmReport.Proofs.Store.Consistent
import FilmReport.Proofs.Session.Keeps
import FilmReport.Proofs.Store.Changes
import FilmReport.Proofs.Store.Typed
import FilmReport.Proofs.Dataset.Declared
import FilmReport.Proofs.Operation.Statements
import FilmReport.Proofs.Operation.Declared
import FilmReport.Proofs.Operation.Course
import FilmReport.Proofs.Store.Referring
import FilmReport.Proofs.Dataset.Batch
import FilmReport.Proofs.Dataset.Resolved
import FilmReport.Proofs.Store.Avoided
import FilmReport.Proofs.Operation.Lasting
import FilmReport.Proofs.Operation.Staged
import FilmReport.Proofs.Session.Along
import FilmReport.Proofs.Operation.Writing
import FilmReport.Proofs.Dataset.Listing
import FilmReport.Proofs.Report.Csv
import FilmReport.Proofs.Report.Files
import FilmReport.Proofs.Report.Extent
import FilmReport.Proofs.Report.Exported
import FilmReport.Proofs.Report.Views
import FilmReport.Proofs.Store.Merging
import FilmReport.Proofs.Dataset.Written
import FilmReport.Proofs.Dataset.Seeded
import FilmReport.Proofs.Dataset.ReadBack
import FilmReport.Proofs.Normalize.Reseeded
import FilmReport.Proofs.Operation.Sharing
import FilmReport.Proofs.Operation.Isolation
import FilmReport.Proofs.Operation.Escapes
import FilmReport.Proofs.Calendar.Instant
import FilmReport.Proofs.Calendar.Order
import FilmReport.Proofs.Shape.Described
import FilmReport.Proofs.Report.Paths
import FilmReport.Proofs.Report.Contained
import FilmReport.Proofs.Operation.Recording
import FilmReport.Proofs.Operation.Migrated
import FilmReport.Proofs.Operation.Resumed
import FilmReport.Proofs.Operation.Counted
import FilmReport.Proofs.Operation.History
import FilmReport.Proofs.Store.Applied
import FilmReport.Proofs.Normalize.Amount
import FilmReport.Proofs.Normalize.Hundredths
import FilmReport.Proofs.Normalize.Journal
import FilmReport.Proofs.Command.Run
import FilmReport.Proofs.Normalize.Commuting
import FilmReport.Proofs.Normalize.Splitting
import FilmReport.Proofs.Query.Catalog.Memberships
import FilmReport.Proofs.Query.Catalog.Leaders
import FilmReport.Proofs.Query.Catalog.Languages
import FilmReport.Proofs.Query.Catalog.Namesakes
import FilmReport.Proofs.Query.Catalog.Rankings
import FilmReport.Proofs.Query.Catalog.Companies
import FilmReport.Proofs.Query.Catalog.AboveAverage
import FilmReport.Proofs.Query.Catalog.Totals
import FilmReport.Proofs.Query.Catalog.Unrated
import FilmReport.Proofs.Dataset.Grammar
import FilmReport.Proofs.Query.Catalog.Released
import FilmReport.Proofs.Dataset.Upserted
import FilmReport.Proofs.Query.Runner
import FilmReport.Proofs.Dataset.Tallied
import FilmReport.Proofs.Normalize.Rules
import FilmReport.Proofs.Command.Configured

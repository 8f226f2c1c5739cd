import TokenMigration.Files.Tree.Edit
import TokenMigration.Main
import TokenMigration.Session
import TokenMigration.Proofs.Substitution.Pass
import TokenMigration.Proofs.Substitution.AtOnce
import TokenMigration.Proofs.Substitution.Leftmost
import TokenMigration.Proofs.Substitution.Overlap
import TokenMigration.Proofs.Substitution.Separated
import TokenMigration.Proofs.Substitution.Missed
import TokenMigration.Proofs.Substitution.Order
import TokenMigration.Proofs.Substitution.SingleOccurrence
import TokenMigration.Proofs.Substitution.Independent
import TokenMigration.Proofs.Substitution.Remaining
import TokenMigration.Proofs.Substitution.Weight
import TokenMigration.Proofs.Table.Apply
import TokenMigration.Proofs.Table.StateGroups
import TokenMigration.Proofs.Table.Missed
import TokenMigration.Proofs.Table.Order
import TokenMigration.Proofs.Table.SingleOccurrence
import TokenMigration.Proofs.Table.Passes
import TokenMigration.Proofs.Table.Independent
import TokenMigration.Proofs.Table.Remaining
import TokenMigration.Proofs.Table.Convergence
import TokenMigration.Proofs.Files.Content
import TokenMigration.Proofs.Files.Rewritten
import TokenMigration.Proofs.Files.Moves
import TokenMigration.Proofs.Files.Listing
import TokenMigration.Proofs.Files.Leads
import TokenMigration.Proofs.Files.Edit
import TokenMigration.Proofs.Migration.RewriteFile
import TokenMigration.Proofs.Migration.Visit
import TokenMigration.Proofs.Migration.Records
import TokenMigration.Proofs.Migration.Trial
import TokenMigration.Proofs.Migration.FinalTree
import TokenMigration.Proofs.Migration.SecondRun
import TokenMigration.Proofs.Migration.Convergence
import TokenMigration.Proofs.Migration.Apart
import TokenMigration.Proofs.Migration.Isolation
import TokenMigration.Proofs.Migration.Prediction
import TokenMigration.Proofs.Migration.Report
import TokenMigration.Proofs.CommandLine.Messages
import TokenMigration.Proofs.CommandLine.Independence
import TokenMigration.Proofs.CommandLine.ExitStatus
import TokenMigration.Proofs.Json.Reader
import TokenMigration.Proofs.Json.Words
import TokenMigration.Proofs.Json.Printed
import TokenMigration.Proofs.Json.Envelope
import TokenMigration.Proofs.Json.SortKeys
import TokenMigration.Proofs.Migration.Bookkeeping
import TokenMigration.Proofs.Migration.Decoding
import TokenMigration.Proofs.Migration.JsonForms
import TokenMigration.Proofs.Substitution.Separator
import TokenMigration.Proofs.Migration.TextFile
import TokenMigration.Proofs.Table.Lines
import TokenMigration.Proofs.Migration.AllOrNothing
import TokenMigration.Proofs.Migration.Lines
import TokenMigration.Proofs.Migration.Untouched
import TokenMigration.Proofs.Substitution.Coding
import TokenMigration.Proofs.Text.Utf8
import TokenMigration.Proofs.Migration.Bytes
import TokenMigration.Proofs.Migration.Discovery
import TokenMigration.Proofs.Files.Edit

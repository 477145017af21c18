import ViewEngine.Main
import ViewEngine.Value.Written
import ViewEngine.View.Select
import ViewEngine.Proofs.Versions.WriteBack
import ViewEngine.Proofs.Versions.Hierarchy
import ViewEngine.Proofs.Concurrency.FirstWriter
import ViewEngine.Proofs.Concurrency.Flush
import ViewEngine.Proofs.Propagation.Replanned
import ViewEngine.Proofs.Writing.Alike
import ViewEngine.Proofs.Writing.Keys
import ViewEngine.Proofs.Writing.Fetched
import ViewEngine.Proofs.Lexing.Contents
import ViewEngine.Proofs.Conditions.Filters
import ViewEngine.Proofs.Isolation.Primary
import ViewEngine.Proofs.Assembly.Elements
import ViewEngine.Proofs.Assembly.Trails
import ViewEngine.Proofs.Assembly.Arranged
import ViewEngine.Proofs.Assembly.RootKey
import ViewEngine.Proofs.Assembly.Views
import ViewEngine.Proofs.Protocol.Calls
import ViewEngine.Proofs.Protocol.Flush
import ViewEngine.Proofs.Writing.Placeholders
import ViewEngine.Proofs.Writing.Parameters
import ViewEngine.Proofs.Settling.Closes
import ViewEngine.Proofs.Assembly.Identified
import ViewEngine.Proofs.WriteBack.Changes
import ViewEngine.Proofs.WriteBack.Drafts
import ViewEngine.Proofs.WriteBack.Edits
import ViewEngine.Proofs.Writing.Tables
import ViewEngine.Proofs.WriteBack.Replaced
import ViewEngine.Proofs.Requests.Answered
import ViewEngine.Proofs.Selection.Shadowing
import ViewEngine.Proofs.Assembly.Delivered
import ViewEngine.Proofs.Composition.Compiled
import ViewEngine.Proofs.Addressing.Refused
import ViewEngine.Proofs.Requests.Refused
import ViewEngine.Proofs.Counting.Counted
import ViewEngine.Proofs.Conditions.Restricted
import ViewEngine.Proofs.Settling.Histories
import ViewEngine.Proofs.Addressing.Records
import ViewEngine.Proofs.Schema.Derived
import ViewEngine.Proofs.Conditions.Unbracketed
import ViewEngine.Proofs.Conditions.Patterns
import ViewEngine.Proofs.Lexing.Paging
import ViewEngine.Proofs.Settings.Expansion
import ViewEngine.Proofs.Value.Forms
import ViewEngine.Proofs.Timestamp.Sorted
import ViewEngine.Proofs.Value.Numbers
import ViewEngine.Proofs.Joining.Points
import ViewEngine.Proofs.Selection.Grouped

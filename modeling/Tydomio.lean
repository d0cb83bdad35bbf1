import Tydomio.Common.Dict
import Tydomio.Common.Machine
import Tydomio.Common.Merge
import Tydomio.Common.Path
import Tydomio.Common.Numbering
import Tydomio.Common.Rounding
import Tydomio.Common.Text
import Tydomio.Common.Json.Scan
import Tydomio.Common.Json.Print
import Tydomio.Common.Json.Strings
import Tydomio.Common.Json.RoundTrip
import Tydomio.Common.Search
import Tydomio.Model.Error
import Tydomio.Model.Data
import Tydomio.Model.Usages
import Tydomio.Model.Installation
import Tydomio.Model.Readings
import Tydomio.Model.Write
import Tydomio.Readings
import Tydomio.Model.Secrets
import Tydomio.Scrub
import Tydomio.Protocol.Model.Message
import Tydomio.Protocol.Model.Parse
import Tydomio.Protocol.Model.Request
import Tydomio.Protocol.Model.Write
import Tydomio.Protocol.Parse
import Tydomio.Protocol.Chunked
import Tydomio.Protocol.Wire
import Tydomio.Client.Model.Pending
import Tydomio.Client.Model.Read
import Tydomio.Client.Model.Send
import Tydomio.Client.Model.Lifecycle
import Tydomio.Client.Pending
import Tydomio.Client.Read
import Tydomio.Client.Moves
import Tydomio.Client.Registry
import Tydomio.Client.Send
import Tydomio.Client.Lifecycle
import Tydomio.Mcp.Model.Cache
import Tydomio.Mcp.Model.History
import Tydomio.Mcp.Model.Sync
import Tydomio.Mcp.Model.Writes
import Tydomio.Mcp.Model.View
import Tydomio.Mcp.Model.State
import Tydomio.Mcp.Cache
import Tydomio.Mcp.Order
import Tydomio.Mcp.Bootstrap
import Tydomio.Mcp.Sync
import Tydomio.Mcp.Writes
import Tydomio.Mcp.View
import Tydomio.Mcp.Sanitize
import Tydomio.Mcp.State
import Tydomio.Mcp.Snapshot
import Tydomio.Mcp.Agreement
import Tydomio.Mcp.Rate
import Tydomio.Capture.Model.Policy
import Tydomio.Capture.Model.Rules
import Tydomio.Capture.Model.Anonymize
import Tydomio.Capture.Model.Redact
import Tydomio.Capture.Model.Places
import Tydomio.Capture.Walk
import Tydomio.Capture.Rules
import Tydomio.Capture.Render
import Tydomio.Capture.Shape
import Tydomio.Capture.Report
import Tydomio.Capture.Identity
import Tydomio.Capture.Alike
import Tydomio.Capture.Lookup
import Tydomio.Capture.Policies
import Tydomio.Capture.Noninterference
import Tydomio.Capture.Values
import Tydomio.Capture.Model.Json
import Tydomio.Capture.Overflow
import Tydomio.Capture.Model.Loads
import Tydomio.Capture.Model.Dumps
import Tydomio.Capture.Tree
import Tydomio.Capture.Strict
import Tydomio.Capture.Dumps
import Tydomio.Capture.Model.Fetch
import Tydomio.Capture.Fetch
import Tydomio.Capture.Model.Catalog
import Tydomio.Capture.Merge
import Tydomio.Capture.Model.Store
import Tydomio.Capture.Model.Extract
import Tydomio.Capture.Model.Main
import Tydomio.Capture.Model.CatalogFile
import Tydomio.Capture.Extract
import Tydomio.Capture.Main
import Tydomio.Capture.FindSecrets
import Tydomio.Capture.Spelled
import Tydomio.Capture.CatalogFile
import Tydomio.Capture.CatalogRuns
import Tydomio.Capture.ReadBack
import Tydomio.Capture.Pipeline
import Tydomio.Mcp.OnWire
import Tydomio.Client.Calls
import Tydomio.Client.Group
import Tydomio.Mcp.Model.Server
import Tydomio.Mcp.Model.Run
import Tydomio.Mcp.Begin
import Tydomio.Mcp.Server
import Tydomio.Mcp.Reports
import Tydomio.Client.Answered
import Tydomio.Mcp.Answered
import Tydomio.Mcp.Served
import Tydomio.Mcp.Run

import FlussGo.Client.Authenticated
import FlussGo.Client.Freshness
import FlussGo.Client.Leaderless
import FlussGo.Client.Ownership
import FlussGo.Client.PathKeys
import FlussGo.Client.Retry
import FlussGo.Client.Token
import FlussGo.Coalesce.Disposal
import FlussGo.Log.ArrowRoundTrip
import FlussGo.Log.ArrowSchema
import FlussGo.Lookup.Results
import FlussGo.Metadata.Components
import FlussGo.Remote.Download
import FlussGo.Row.Exact
import FlussGo.Scanner.KVSession
import FlussGo.Scanner.Latest
import FlussGo.Scanner.Wakeup
import FlussGo.Schema.Json
import FlussGo.Schema.Resolver
import FlussGo.Transport.Framing
import FlussGo.Transport.Requests
import FlussGo.Writer.Completion
import FlussGo.Writer.Partial

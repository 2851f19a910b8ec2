import SubConverter.Buffer.Invariant
import SubConverter.C.Alloc
import SubConverter.C.Mem
import SubConverter.C.Number
import SubConverter.C.Str
import SubConverter.Coding.Alphabets
import SubConverter.Coding.Base64
import SubConverter.Coding.Gate
import SubConverter.Coding.Language
import SubConverter.Coding.Percent
import SubConverter.Coding.RoundTrip
import SubConverter.Coding.Utf8
import SubConverter.Conv.Agree
import SubConverter.Conv.Base64
import SubConverter.Conv.Body
import SubConverter.Conv.Elements
import SubConverter.Conv.Emit
import SubConverter.Conv.Faults
import SubConverter.Conv.Groups
import SubConverter.Conv.Names
import SubConverter.Conv.Numbers
import SubConverter.Conv.Outbound
import SubConverter.Conv.Read
import SubConverter.Conv.Resolve
import SubConverter.Conv.Selected
import SubConverter.Conv.Singbox
import SubConverter.Conv.Skeleton
import SubConverter.Conv.Subscription
import SubConverter.Conv.Unique
import SubConverter.Conv.Utf8
import SubConverter.Conv.Wrapped
import SubConverter.Emit.Append
import SubConverter.Emit.Document
import SubConverter.Emit.Flow
import SubConverter.Emit.Integers
import SubConverter.Emit.Line
import SubConverter.Emit.Node
import SubConverter.Emit.Number
import SubConverter.Emit.Quote
import SubConverter.Emit.Read
import SubConverter.Emit.Resolved
import SubConverter.Emit.Scalar
import SubConverter.Emit.Skeleton
import SubConverter.Emit.Strings
import SubConverter.Emit.Transport
import SubConverter.Emit.Tree
import SubConverter.Emit.Utf8
import SubConverter.Lib.Fresh
import SubConverter.Lib.Interleave
import SubConverter.Lib.Layout
import SubConverter.Lib.Own
import SubConverter.Lib.PrefixCode
import SubConverter.Lib.Sextet
import SubConverter.Server.Answer
import SubConverter.Server.Blocks
import SubConverter.Server.Convert
import SubConverter.Server.Daemon
import SubConverter.Server.Fetch
import SubConverter.Server.Handler
import SubConverter.Server.Headers
import SubConverter.Server.Limit
import SubConverter.Server.Listen
import SubConverter.Server.Wire
import SubConverter.Share.Accepted
import SubConverter.Share.Complete
import SubConverter.Share.Encoded
import SubConverter.Share.Faults
import SubConverter.Share.Fields
import SubConverter.Share.Forms
import SubConverter.Share.HostPort
import SubConverter.Share.Link
import SubConverter.Share.Numbers
import SubConverter.Share.Order
import SubConverter.Share.Query
import SubConverter.Share.Safety
import SubConverter.Share.Schemes
import SubConverter.Share.Segmented
import SubConverter.Share.Segments
import SubConverter.Share.Spellings
import SubConverter.Share.Utf8
import SubConverter.Share.Vmess
import SubConverter.Src.Base64
import SubConverter.Src.ConvBase64
import SubConverter.Src.ConvSingbox
import SubConverter.Src.Daemon
import SubConverter.Src.Fetch
import SubConverter.Src.Handler
import SubConverter.Src.Heap
import SubConverter.Src.Httpc
import SubConverter.Src.Jsonx
import SubConverter.Src.Main
import SubConverter.Src.Node
import SubConverter.Src.NodeEmit
import SubConverter.Src.Server
import SubConverter.Src.Share
import SubConverter.Src.Strbuf
import SubConverter.Src.Util
import SubConverter.Src.Writers
import SubConverter.Src.YamlEmit
import SubConverter.Yaml.Core
import SubConverter.Yaml.Document
import SubConverter.Yaml.Flow
import SubConverter.Yaml.Reader

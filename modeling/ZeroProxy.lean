import ZeroProxy.Rewriter.WithWrites
import ZeroProxy.Rewriter.SourceMap
import ZeroProxy.Htmltx.JavascriptUrl
import ZeroProxy.Htmltx.Stream
import ZeroProxy.Css.Replacement
import ZeroProxy.Kernel.Pool
import ZeroProxy.Kernel.WsStream
import ZeroProxy.Kernel.Mux
import ZeroProxy.Relay.Socks5
import ZeroProxy.Relay.SyncFetch
import ZeroProxy.Gateway.Targets
import ZeroProxy.Ws.Handlers
import ZeroProxy.Ws.Handshake
import ZeroProxy.Ws.Closing
import ZeroProxy.Worker.Charset
import ZeroProxy.Worker.Challenge
import ZeroProxy.Worker.FetchSite
import ZeroProxy.Worker.PageHeaders
import ZeroProxy.Worker.Referrer
import ZeroProxy.Membrane.InlineScript
import ZeroProxy.Htmltx.MetaCsp
import ZeroProxy.Membrane.UrlAttribute
import ZeroProxy.Membrane.ProxyPath
import ZeroProxy.Membrane.FilteredCollection
import ZeroProxy.Membrane.Storage
import ZeroProxy.Membrane.WebSocketEvents

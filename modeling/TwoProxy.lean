import TwoProxy.Lib.Scan
import TwoProxy.Lib.Range
import TwoProxy.Lib.Grammar
import TwoProxy.Lib.Lexer
import TwoProxy.Lib.Run
import TwoProxy.Lib.Objects
import TwoProxy.Lib.Overwrite
import TwoProxy.Lib.Lines
import TwoProxy.Lib.Fields
import TwoProxy.Lib.Pump
import TwoProxy.Lib.Triple
import TwoProxy.Lib.Parallel
import TwoProxy.Bytes
import TwoProxy.Asio
import TwoProxy.RequestParser
import TwoProxy.RequestParser.Grammar
import TwoProxy.RequestParser.Stages
import TwoProxy.ResponseParser
import TwoProxy.ResponseParser.Pieces
import TwoProxy.ResponseParser.Grammar
import TwoProxy.ResponseParser.Heads
import TwoProxy.ResponseParser.Contained
import TwoProxy.HttpUtil
import TwoProxy.HttpUtil.Targets
import TwoProxy.Message
import TwoProxy.Message.Values
import TwoProxy.HttpConnection
import TwoProxy.HttpConnection.Reads
import TwoProxy.HttpConnection.Phases
import TwoProxy.HttpConnection.Lifetime
import TwoProxy.HttpConnection.Cuts
import TwoProxy.HttpConnection.Relay
import TwoProxy.HttpConnection.Fallback
import TwoProxy.HttpConnection.Twins
import TwoProxy.HttpConnection.Upstream
import TwoProxy.HttpConnection.Calls
import TwoProxy.HttpConnection.Stages
import TwoProxy.HttpConnection.Shown
import TwoProxy.HttpConnection.Bodies
import TwoProxy.HttpConnection.Turns
import TwoProxy.HttpConnection.Wire
import TwoProxy.HttpConnection.Dials
import TwoProxy.HttpConnection.Transaction
import TwoProxy.HttpConnection.Failures
import TwoProxy.HttpConnection.Traffic
import TwoProxy.ProxySocksSession
import TwoProxy.ProxySocksSession.Streams
import TwoProxy.ProxySocksSession.Pumps
import TwoProxy.ProxySocksSession.Traffic
import TwoProxy.Socks5
import TwoProxy.SocksConnection
import TwoProxy.SocksConnection.Requests
import TwoProxy.SocksConnection.Replies
import TwoProxy.Connection
import TwoProxy.Connection.Negotiation
import TwoProxy.Connection.SetUp
import TwoProxy.Connection.Tunnel
import TwoProxy.Server
import TwoProxy.Server.Interleaving
import TwoProxy.Server.Lifetime
import TwoProxy.Server.Traffic
import TwoProxy.Server.Clients

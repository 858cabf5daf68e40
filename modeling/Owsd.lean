import Owsd.Acl.Losses
import Owsd.Acl.Requests
import Owsd.Basis.Blob
import Owsd.Basis.Run
import Owsd.Config.Vhosts
import Owsd.Dbus.Accounts
import Owsd.Dbus.Arrays
import Owsd.Dbus.Calls
import Owsd.Dbus.Names
import Owsd.Dbus.Quota
import Owsd.Dbus.Watches
import Owsd.Http.FileMeta
import Owsd.Http.Serve
import Owsd.Proxy.Convergence
import Owsd.Proxy.Cursor
import Owsd.Proxy.PatternTrees
import Owsd.Proxy.Pieces
import Owsd.Proxy.Releases
import Owsd.Proxy.Signatures
import Owsd.Registry.BackOff
import Owsd.Registry.Leases
import Owsd.Registry.Names
import Owsd.Registry.Owners
import Owsd.Registry.Removal
import Owsd.Registry.Retries
import Owsd.Rpc.Request
import Owsd.Server.Answers
import Owsd.Server.Authority
import Owsd.Server.CallChecks
import Owsd.Server.CheckedName
import Owsd.Server.Dispatch
import Owsd.Server.Invocations
import Owsd.Server.Observations
import Owsd.Server.Quota
import Owsd.Server.Receive
import Owsd.Server.Returns
import Owsd.Server.SubscriptionLog
import Owsd.Server.Subscriptions
import Owsd.Server.Sweep
import Owsd.Server.Teardown
import Owsd.Server.WriteQueue
import Owsd.System.EndToEnd
import Owsd.Uproxyd.Cleaning
import Owsd.Uproxyd.Hosts
import Owsd.Uproxyd.StaleClients

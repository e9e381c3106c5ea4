import Newt.Config.Forwards
import Newt.Config.Override
import Newt.Core.Retransmission
import Newt.Core.Target
import Newt.Olm.Halts
import Newt.Olm.Inbound
import Newt.Olm.LocalPorts
import Newt.Olm.Netlink
import Newt.Olm.Peers
import Newt.Olm.Reconnect
import Newt.Olm.Routing
import Newt.Olm.Schedule
import Newt.Proxy.Backpressure
import Newt.Proxy.Drain
import Newt.Proxy.Independence
import Newt.Proxy.Roles
import Newt.Site.Accept
import Newt.Site.ConfigVersion
import Newt.Site.Echo
import Newt.Site.Install
import Newt.Site.Safety
import Newt.Site.Termination
import Newt.Stack.Clock
import Newt.Transport.Cancellation
import Newt.Transport.Header
import Newt.Transport.Reassembly
import Newt.Transport.Upgrade
import Newt.Wg.AtMostOnce
import Newt.Wg.Attempts
import Newt.Wg.Connect
import Newt.Wg.Handshakes
import Newt.Wg.Termination

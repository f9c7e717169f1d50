import Vpp.Ikev2.TsRoundTrip
import Vpp.Ikev2.ChildParams
import Vpp.Ikev2.FailedSk
import Vpp.Ikev2.Retransmit
import Vpp.Ikev2.SaTable
import Vpp.Ipsec.Spd.FastPath
import Vpp.Ipsec.Spd.InputCache
import Vpp.Ipsec.Spd.OutputCache
import Vpp.Ipsec.Spd.SaLocks
import Vpp.Ip.Reass.Ip4Inverse
import Vpp.Ip.Reass.Ip6Complete
import Vpp.Nat.TwiceNat
import Vpp.Session.Mma.Specific
import Vpp.Vppinfra.Rbtree.OrderedMap
import Vpp.Fib.Ip6Lpm
import Vpp.Ikev2.NotifyRoundTrip
import Vpp.Ikev2.Padding
import Vpp.Ikev2.PrfPlus
import Vpp.Ikev2.SaTiling
import Vpp.Ipsec.AntiReplay.Complete
import Vpp.Ipsec.Spd.Deletion
import Vpp.Gso.GroFlows
import Vpp.Ikev2.SaIds
import Vpp.Ikev2.Selection
import Vpp.Ipsec.EspHeaders
import Vpp.Tcp.OptionsWire
import Vpp.Policer.Scale
import Vpp.Svm.MsgQueue.Lock
import Vpp.Acl.Match

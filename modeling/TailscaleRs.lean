import TailscaleRs.Control.MapSession
import TailscaleRs.Control.NetmapStream
import TailscaleRs.Dataplane.BaseHeader
import TailscaleRs.Dataplane.Replies
import TailscaleRs.Filter.Published
import TailscaleRs.Filter.Residue
import TailscaleRs.Magicsock.Handshake
import TailscaleRs.Magicsock.RelayTargets
import TailscaleRs.Portmapper.Backed
import TailscaleRs.Portmapper.Retired
import TailscaleRs.Runtime.LockCatchUp
import TailscaleRs.Tka.Converge
import TailscaleRs.Tunnel.Agreement
import TailscaleRs.Tka.SignatureCodec
import TailscaleRs.Control.SshPolicy
import TailscaleRs.Runtime.ExitDns
import TailscaleRs.Bart.Words
import TailscaleRs.Tunnel.Routing
import TailscaleRs.Runtime.Reauth
import TailscaleRs.Filter.SrcIp
import TailscaleRs.Forwarder.Udp
import TailscaleRs.Runtime.PeerPatches
import TailscaleRs.Portmapper.Policy
import TailscaleRs.Runtime.MagicDns
import TailscaleRs.Netstack.Stream

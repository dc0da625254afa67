import Bitcoinx.Go.Utf8
import Bitcoinx.Go.Path
import Bitcoinx.Go.Json
import Bitcoinx.Go.JsonFuel
import Bitcoinx.Ui.Live
import Bitcoinx.Ui.Tree
import Bitcoinx.Cmd.Directories
import Bitcoinx.Discovery.PeerInfo
import Bitcoinx.Discovery.Peers
import Bitcoinx.Discovery.Server
import Bitcoinx.Discovery.Network
import Bitcoinx.Discovery.Exchange

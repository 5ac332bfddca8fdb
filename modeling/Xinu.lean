import Xinu.Arp.Interleaving
import Xinu.Ethloop.Loopback
import Xinu.Ext2.Contents
import Xinu.Memory.UserRuns
import Xinu.Net.Receive
import Xinu.Route.History
import Xinu.Shell.Lexan
import Xinu.System.Kill
import Xinu.System.Messages
import Xinu.System.Priority
import Xinu.System.Resources
import Xinu.System.RoundRobin
import Xinu.System.Sleep
import Xinu.Tcp.Header
import Xinu.Tcp.Mutex
import Xinu.Tcp.TimeWait
import Xinu.Tcp.Window
import Xinu.Uart.Stall
import Xinu.Udp.Queue

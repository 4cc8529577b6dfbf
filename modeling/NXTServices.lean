import NXTServices.Gateway.Accounts
import NXTServices.Gateway.Bindings
import NXTServices.Gateway.Broadcast
import NXTServices.Gateway.Coininfo
import NXTServices.Gateway.Coinloop
import NXTServices.Gateway.Comment
import NXTServices.Gateway.Conf
import NXTServices.Gateway.Copies
import NXTServices.Gateway.Daemon
import NXTServices.Gateway.Depositaddr
import NXTServices.Gateway.Funds
import NXTServices.Gateway.Internal
import NXTServices.Gateway.Msigjson
import NXTServices.Gateway.Replicants
import NXTServices.Gateway.Replicated
import NXTServices.Gateway.Rescan
import NXTServices.Gateway.Retry
import NXTServices.Gateway.Rpc
import NXTServices.Gateway.Slots
import NXTServices.Gateway.Solvency
import NXTServices.Gateway.Token
import NXTServices.Gateway.Unspent
import NXTServices.Assetbits
import NXTServices.Compact
import NXTServices.Crc
import NXTServices.Fallback
import NXTServices.Grammar
import NXTServices.Hashtable
import NXTServices.Histloop
import NXTServices.Holepunch
import NXTServices.Inet
import NXTServices.Introduction
import NXTServices.Json
import NXTServices.Jsoncodec
import NXTServices.Ledger
import NXTServices.Lib.Arena
import NXTServices.Lib.Least
import NXTServices.Lib.Lfsr
import NXTServices.Lib.Links
import NXTServices.Lib.Probing
import NXTServices.Lib.Records
import NXTServices.Lib.Refcount
import NXTServices.Lib.Replica
import NXTServices.Lib.Run
import NXTServices.Lib.Tally
import NXTServices.Lib.Unwinding
import NXTServices.Lib.Upsert
import NXTServices.Lookup
import NXTServices.Members
import NXTServices.Numbers
import NXTServices.Pingpong
import NXTServices.Printing
import NXTServices.Protocol
import NXTServices.Punch
import NXTServices.Queue
import NXTServices.Reading
import NXTServices.Registry
import NXTServices.Reprint
import NXTServices.Requests
import NXTServices.Roster
import NXTServices.Safecopy
import NXTServices.Serverdata
import NXTServices.Serverloop
import NXTServices.Serverrequest
import NXTServices.Spelling
import NXTServices.Text
import NXTServices.Torrent.Failed
import NXTServices.Torrent.Index
import NXTServices.Torrent.Isolation
import NXTServices.Torrent.Listingid
import NXTServices.Torrent.Origin
import NXTServices.Torrent.Ratings
import NXTServices.Torrent.Roundtrip
import NXTServices.Torrent.Terms
import NXTServices.Transaction
import NXTServices.Txlist
import NXTServices.Varint
import NXTServices.Webargs
import NXTServices.Webjson

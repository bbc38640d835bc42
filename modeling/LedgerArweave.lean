import LedgerArweave.Lib.Base64
import LedgerArweave.Lib.Codec
import LedgerArweave.Lib.Fallible
import LedgerArweave.Lib.Machine
import LedgerArweave.Lib.Slices
import LedgerArweave.Parser.B64url
import LedgerArweave.Parser.Digest
import LedgerArweave.Parser.Display
import LedgerArweave.Parser.Items
import LedgerArweave.Parser.Independent
import LedgerArweave.Parser.Review
import LedgerArweave.Parser.Residue
import LedgerArweave.Client.Address
import LedgerArweave.Client.Transfer
import LedgerArweave.Client.Genuine
import LedgerArweave.Device.Retrieval
import LedgerArweave.Device.Upload
import LedgerArweave.Store.PowerLoss
import LedgerArweave.Store.Retention
import LedgerArweave.Parser.Enumeration
import LedgerArweave.Client.Digest
import LedgerArweave.Client.Path
import LedgerArweave.Device.Refusal
import LedgerArweave.Store.Primes
import LedgerArweave.Hash.HostDigest
import LedgerArweave.Device.Responses
import LedgerArweave.Device.Secrecy
import LedgerArweave.Device.Verified
import LedgerArweave.Client.Success
import LedgerArweave.Client.Recovery

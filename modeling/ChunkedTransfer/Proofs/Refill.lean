import ChunkedTransfer.Proofs.Device

/-!
# Refilling

A refill appends the bytes of one read to the data, or leaves the data and the flag as they are (`Source.Refilled`). The
shift of the data in front of it does not show: it moves the data to another place of the storage and wins room behind
it. What a device has written into the space is not data until it is counted, so that neither an interruption nor a
fault can leave any of it behind.

A source asks its device only for what it has room for. An answer without bytes thus means that the device has come to
its end, and never that there was nowhere to put them.
-/

namespace ChunkedTransfer

namespace Source

variable {τ : Type}

variable {s : Source τ} {dev : Device τ} {r : Outcome (Source τ) Bool}

end Source

end ChunkedTransfer

import BioDidRegistry.Foundation.Visits
import BioDidRegistry.Program.Layout

/-!
# The deprecated iteration

Earlier releases iterate over the entries by their stored count, over all the data from the
first entry on, and hand each entry to a callback. The free checks of those releases are
loops of this kind.
-/

namespace BioDidRegistry

open BinaryFormat Visits

section Iteration

variable {σ α : Type}

/-- `for _ in 0..n`: reads an entry and hands it to `f`, which says whether to go on. -/
def forEach (p : Read .account α) (f : α → EStateM Fault σ Bool) :
    ℕ → Reader .account → EStateM Fault σ Unit
  | 0, _ => pure ()
  | n + 1, r =>
    match p r with
    | .error e _ => throw e
    | .ok entry r' => do
      let keepGoing ← f entry
      if keepGoing then forEach p f n r' else pure ()

def forEachVm (data : Bytes) (s : Sections) (f : VmRef → EStateM Fault σ Bool) :
    EStateM Fault σ Unit := do
  let r ← Reader.at' .account data s.vmItems
  forEach readVm f s.vmCount r

def forEachService (data : Bytes) (s : Sections) (f : SvcRef → EStateM Fault σ Bool) :
    EStateM Fault σ Unit := do
  let r ← Reader.at' .account data s.svcItems
  forEach readSvc f s.svcCount r

/-- The variable of the callback after a loop that began with `s`. -/
def afterLoop (loop : EStateM Fault σ Unit) (s : σ) : Except Fault σ :=
  match loop s with
  | .ok _ s' => .ok s'
  | .error e _ => .error e

end Iteration

/-- `signer` may mutate this DID, which must not be deactivated. -/
def requireAuthority (data : Bytes) (s : Sections) (signer : Address) : Except Fault Unit := do
  let deactivated ← index data offDeactivated
  require (deactivated == 0) .didDeactivated
  let authorized ← afterLoop (forEachVm data s (marking fun vm =>
    vm.methodType == vmTypeEd25519 && hasFlag vm.flags vmFlagCapabilityInvocation &&
      vm.key == signer.val)) false
  require authorized .unauthorized

def authorityCount (data : Bytes) (s : Sections) : Except Fault ℕ :=
  afterLoop (forEachVm data s (counting fun vm =>
    vm.methodType == vmTypeEd25519 && hasFlag vm.flags vmFlagCapabilityInvocation)) 0

/-- The services are looked at when no method has the fragment. -/
def requireFragmentFree (data : Bytes) (s : Sections) (fragment : Bytes) : Except Fault Unit := do
  let taken ← afterLoop (forEachVm data s (marking fun vm => vm.fragment == fragment)) false
  let taken ← if !taken then
      afterLoop (forEachService data s (marking fun svc => svc.fragment == fragment)) taken
    else pure taken
  require (!taken) .fragmentAlreadyInUse
  require (fragment != defaultFragment) .invalidFragment

def DidView.requireAuthority (doc : DidView) (signer : Address) : Except Fault Unit := do
  let deactivated ← doc.isDeactivated
  require (!deactivated) .didDeactivated
  require (doc.isAuthority signer) .unauthorized

end BioDidRegistry

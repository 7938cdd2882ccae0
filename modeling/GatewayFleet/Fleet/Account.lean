import GatewayFleet.Fleet.Model

/-! The accounts that an instance keeps for its channels. An account is bound as long as some
agent's binding names its channel and the account itself. -/

namespace GatewayFleet.Fleet

def registerAccount (channels : Fields Channel) (channel account : String) : Fields Channel :=
  let old := (Fields.get? channels channel).getD {}
  Fields.insert channels channel
    { old with accounts := Fields.insertNew old.accounts account Value.empty }

def Instance.register (i : Instance) (channel account : String) : Instance :=
  { i with channels := registerAccount i.channels channel account }

def Instance.boundKeys (i : Instance) : List String := i.bindings.map Binding.key

def Instance.boundInOrder (i : Instance) : List String :=
  (i.boundKeys.eraseDups).mergeSort fun a b => !decide (b < a)

def Channel.keep (used : List String) (name : String) (c : Channel) : Channel :=
  { c with accounts := c.accounts.filter fun m => used.contains (accountKey name m.1) }

/-- Drops every account that nobody is bound to. Channels stay, also empty ones. -/
def Instance.prune (i : Instance) : Instance :=
  { i with channels := i.channels.map fun m => (m.1, m.2.keep i.boundKeys m.1) }

def Instance.accountCount (i : Instance) : Nat :=
  i.channels.foldl (fun n m => n + m.2.accounts.length) 0

def Instance.prunedCount (i : Instance) : Nat := i.accountCount - i.prune.accountCount

end GatewayFleet.Fleet

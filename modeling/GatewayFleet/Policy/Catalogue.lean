import GatewayFleet.Value

/-! The integrations that a gateway knows, grouped by how it supports them. -/

namespace GatewayFleet.Policy

structure Catalogue where
  core : List String
  plugin : List String
  customOnly : List String
deriving DecidableEq

def byName (xs : List String) : List String := xs.mergeSort fun a b => !decide (b < a)

def catalogue : Catalogue where
  core := byName ["whatsapp", "telegram", "discord", "slack", "signal", "google-chat", "irc",
    "imessage", "bluebubbles", "webchat"]
  plugin := byName ["mattermost", "teams", "microsoft-teams", "feishu", "lark", "line", "matrix",
    "zalo", "zalo-personal", "nextcloud-talk", "nostr", "twitch", "tlon"]
  customOnly := byName ["notion", "heygen"]

def Catalogue.toValue (c : Catalogue) : Value :=
  .mapping [("core", .ofStrings c.core), ("plugin", .ofStrings c.plugin),
    ("custom_only", .ofStrings c.customOnly)]

end GatewayFleet.Policy

import DChat.Crypto
import DChat.Peer

/-!
# Config — the configuration a running node uses

The four fields of `IConfig`.  `ChatApplication::init` turns the port into a number before
anything else uses it, so it is one here.
-/

namespace DChat

open Crypto Peer

/-- `config::IConfig`, after `init`. -/
structure Config where
  host : String
  port : UInt16
  publicKey : String
  privateKey : String
  deriving DecidableEq, Repr

namespace Config

/-- The peer every handler builds from the configuration. -/
def me (cfg : Config) : UserPeer :=
  { host := cfg.host, port := cfg.port, publicKey := cfg.publicKey }

/-- The keys are a generated pair, as `generatedDefaultConfig` writes them. -/
def KeyPairMatches (E : Env) (cfg : Config) : Prop :=
  ∃ kp, E.crypto.Generated kp ∧ cfg.publicKey = E.crypto.keyToString kp.publicKey ∧
    cfg.privateKey = E.crypto.keyToString kp.privateKey

end Config

end DChat

import LedgerClient.Crypto.Sha256
/-!
# HMAC-SHA-256

A digest under a key: keys longer than a block are digested first.
-/
namespace LedgerClient

def hmacKey (key : List UInt8) : List UInt8 :=
  let k := if 64 < key.length then sha256 key else key
  k ++ List.replicate (64 - k.length) 0

def hmac (key message : List UInt8) : List UInt8 :=
  let k := hmacKey key
  sha256 (k.map (· ^^^ 0x5C) ++ sha256 (k.map (· ^^^ 0x36) ++ message))

end LedgerClient

/-!
# Connection profiles

What has to be known to reach one contract through one gateway peer, and who asks.
-/
namespace LedgerClient.Config

structure Profile where
  channelName : String := "mychannel"
  contractName : String := "basic"
  mspId : String := "Org1MSP"
  certPath : String := ""
  keyPath : String := ""
  tlsCertPath : String := ""
  peerEndpoint : String := "localhost:7051"
  gatewayPeer : String := "peer0.org1.example.com"
deriving DecidableEq, Repr, Inhabited

/-- The fields by name, in order. -/
def Profile.fields (p : Profile) : List (String × String) :=
  [("channel_name", p.channelName), ("contract_name", p.contractName), ("msp_id", p.mspId),
    ("cert_path", p.certPath), ("key_path", p.keyPath), ("tls_cert_path", p.tlsCertPath),
    ("peer_endpoint", p.peerEndpoint), ("gateway_peer", p.gatewayPeer)]

end LedgerClient.Config

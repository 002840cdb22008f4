import LedgerClient.Error.CallError
import LedgerClient.Storage.FileTree
import LedgerClient.Storage.HomePath
import LedgerClient.X509.Certificate
/-!
# Certificates

A certificate is the first one in its file; nothing else in the file counts.  It is written back as
a single section, so two files with the same first certificate cannot be told apart any more.
-/
namespace LedgerClient

structure Certificate where
  der : List UInt8
  names : X509.Names
  names_eq : X509.certificate der = some names

namespace Certificate

/-- The first certificate among the items of a file, if no fault comes before it. -/
def firstOf : List (Except Pem.Fault Pem.Item) → Except ParseCause (List UInt8)
  | [] => .error .noCertificate
  | .error f :: _ => .error (.pem f)
  | .ok i :: r => if i.kind = .certificate then .ok i.contents else firstOf r

def ofDer (der : List UInt8) : Except ParseCause Certificate :=
  match h : X509.certificate der with
  | some n => .ok ⟨der, n, h⟩
  | none => .error (.certificateForm der)

def ofPem (pem : List UInt8) : Except ParseCause Certificate :=
  match firstOf (Pem.read pem) with
  | .error c => .error c
  | .ok der => ofDer der

def pem (c : Certificate) : List UInt8 := Pem.write ⟨.certificate, c.der⟩

def subject (c : Certificate) : String := c.names.subject.render

def issuer (c : Certificate) : String := c.names.issuer.render

def describe (c : Certificate) : String :=
  "Certificate \x7b subject: " ++ Text.quoted c.subject ++ ", issuer: " ++ Text.quoted c.issuer
    ++ " \x7d"

/-- Reads the certificate in a file, whose path may start at home. -/
def load (files : Storage.FileTree) (home path : String) : Except CallError Certificate :=
  let path := Storage.expandHome home path
  match files.read path with
  | .error c => .error (.io path c)
  | .ok pem => match ofPem pem with
    | .error c => .error (.parse c)
    | .ok c => .ok c

end Certificate
end LedgerClient

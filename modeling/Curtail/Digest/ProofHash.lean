import Curtail.Digest.Sha256
import Curtail.Identifier
import Curtail.Text.Blank

namespace Curtail

structure ProofHash where
  digits : String
  deriving DecidableEq

namespace ProofHash

def scheme : String := "sha256:"

def text (h : ProofHash) : String := scheme ++ h.digits

def ofBytes (bytes : Bytes) : ProofHash := ⟨(Sha256.hash bytes).toHex⟩

/-- The long s is a case of s. -/
def foldsTo (letter c : Char) : Bool :=
  c.toLower = letter || (letter = 's' && c = 'ſ')

def isScheme (cs : List Char) : Bool :=
  cs.length = scheme.length && (scheme.toList.zip cs).all fun (letter, c) => foldsTo letter c

/-- What follows the first seven bytes is kept, in lower case. -/
def parse (value : String) : Except Violation ProofHash :=
  let cs := value.toList
  let digits := cs.drop 7
  if isScheme (cs.take 7) && digits.length = 64 && digits.all fun c => (Text.hexDigit? c).isSome then
    match Bytes.toText? ((Bytes.ofText value).drop 7) with
    | some kept => .ok ⟨String.ofList (Text.lower kept.toList)⟩
    | none => .error (.patternMismatch "proof_hash" value)
  else .error (.patternMismatch "proof_hash" value)

def declares (declared : String) (computed : ProofHash) : Bool :=
  match parse (String.ofList (Text.trim declared.toList)) with
  | .ok h => h = computed
  | .error _ => false

open Json in
instance : Codec ProofHash where
  encode h := .text h.text
  decode t := (decode t : Option String).bind fun s => (parse s).toOption

end ProofHash

end Curtail

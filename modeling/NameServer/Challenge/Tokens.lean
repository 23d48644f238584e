import NameServer.Config.Basic
import NameServer.Disk
import NameServer.Json.Decode

/-!
# Challenge tokens

The texts that a certificate authority looks for. They come from the
configuration, or from a token file that is read anew for every question.
-/

namespace NameServer

structure TokenFile where
  challenge1 : Option String := none
  challenge2 : Option String := none
  deriving DecidableEq, Repr

namespace TokenFile

open Json

def shape : Shape TokenFile :=
  TokenFile.mk <$> .defaulted "challenge_1" none (Decoder.nullable Decoder.text)
    <*> .defaulted "challenge_2" none (Decoder.nullable Decoder.text)

def tokens (place : Place) : Except FileError (List String) :=
  match place.read with
  | none => .error .io
  | some content =>
    match decodeAll shape.decode content with
    | .error _ => .error .invalidJson
    | .ok file => .ok (tokensOf [file.challenge1, file.challenge2])

end TokenFile

end NameServer

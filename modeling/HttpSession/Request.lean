import HttpSession.Protocol
import HttpSession.Request.Target
import HttpSession.Request.Body
import HttpSession.Text.Span

namespace HttpSession

abbrev Instant := Nat

abbrev Span := Nat

structure Head where
  method : Octets
  target : Target
  version : Version
  fields : Fields
  deriving DecidableEq, Repr

structure Request where
  head : Head
  body : Body
  deriving DecidableEq, Repr

def defaultMaxLength : Nat := 10 * 1024 * 1024

structure Options where
  writeTimeout : Option Span
  responseTimeout : Option Span
  maxLength : Nat
  deriving DecidableEq, Repr

namespace Options

def default : Options := ⟨none, none, defaultMaxLength⟩

def debug (options : Options) : String :=
  Text.record "RequestOptions"
    [("write_timeout", Text.optional (options.writeTimeout.map Text.span)),
      ("response_timeout", Text.optional (options.responseTimeout.map Text.span)),
      ("max_response_length", toString options.maxLength)]

end Options

end HttpSession

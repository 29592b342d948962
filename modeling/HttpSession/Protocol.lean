namespace HttpSession

inductive Version where
  | http11
  | http2
  deriving DecidableEq, Repr

def Version.text : Version → String
  | .http11 => "HTTP/1.1"
  | .http2 => "HTTP/2.0"

inductive Protocol where
  | h1
  | h1c
  | h2
  | h2c
  deriving DecidableEq, Repr

namespace Protocol

def isTls : Protocol → Bool
  | .h1 | .h2 => true
  | .h1c | .h2c => false

def isMultiplex : Protocol → Bool
  | .h2 | .h2c => true
  | .h1 | .h1c => false

def version (p : Protocol) : Version :=
  if p.isMultiplex then .http2 else .http11

def name : Protocol → String
  | .h1 => "h1"
  | .h1c => "h1c"
  | .h2 => "h2"
  | .h2c => "h2c"

def label : Protocol → String
  | .h1 => "H1"
  | .h1c => "H1C"
  | .h2 => "H2"
  | .h2c => "H2C"

end Protocol

end HttpSession

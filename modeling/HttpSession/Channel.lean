import HttpSession.Outlet

namespace HttpSession

structure Channel where
  address : Address
  isOpen : Bool
  closes : Nat
  wire : Wire
  frames : Option FrameSink
  deriving DecidableEq, Repr

namespace Channel

def new (address : Address) (isOpen http2 : Bool) : Channel :=
  ⟨address, isOpen, 0, Wire.fresh, if http2 then some FrameSink.fresh else none⟩

def close (c : Channel) : Channel :=
  { c with isOpen := false, closes := c.closes + 1 }

def after (c : Channel) (actions : List Action) : Channel :=
  actions.foldl (fun c a => if a = .call .close then c.close else c) c

end Channel

end HttpSession

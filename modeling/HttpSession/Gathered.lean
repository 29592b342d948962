import HttpSession.Octets

namespace HttpSession

/-- Octets that came in pieces, newest piece first, and how many they are. -/
structure Gathered where
  pieces : List Octets
  size : Nat
  size_eq : size = pieces.flatten.length
  deriving DecidableEq, Repr

namespace Gathered

def empty : Gathered := ⟨[], 0, rfl⟩

def add (g : Gathered) (octets : Octets) : Gathered where
  pieces := octets :: g.pieces
  size := octets.length + g.size
  size_eq := by simp [g.size_eq]

def toOctets (g : Gathered) : Octets :=
  g.pieces.reverse.flatten

@[simp] theorem toOctets_empty : empty.toOctets = [] := rfl

@[simp] theorem toOctets_add (g : Gathered) (octets : Octets) :
    (g.add octets).toOctets = g.toOctets ++ octets := by
  simp [toOctets, add]

theorem size_eq_length (g : Gathered) : g.size = g.toOctets.length := by
  rw [g.size_eq, toOctets, List.length_flatten, List.length_flatten, List.map_reverse,
    List.sum_reverse]

end Gathered

end HttpSession

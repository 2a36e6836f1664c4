import TreeCluster.Address

/-! # Current and stale peers

The peers that a socket should be connected to, and those whose connections are to be torn down.
No peer is on both lists. -/

namespace TreeCluster

/-- The peers of a socket. -/
structure PeerSet where
  current : List NodeAddress
  stale : List NodeAddress
  deriving DecidableEq

namespace PeerSet

/-- No peers. -/
def empty : PeerSet :=
  ⟨[], []⟩

/-- Whether a peer is current. -/
def isCurrent (s : PeerSet) (peer : NodeAddress) : Bool :=
  s.current.contains peer

/-- Whether no peer is current. -/
def isEmpty (s : PeerSet) : Bool :=
  s.current.isEmpty

/-- Makes a peer current; also says whether it was not before. -/
def add (s : PeerSet) (peer : NodeAddress) : PeerSet × Bool :=
  let stale := s.stale.filter (· ≠ peer)
  if s.isCurrent peer then (⟨s.current, stale⟩, false)
  else (⟨s.current ++ [peer], stale⟩, true)

/-- Makes a current peer stale; also says whether it was current. -/
def markStale (s : PeerSet) (peer : NodeAddress) : PeerSet × Bool :=
  if s.isCurrent peer then (⟨s.current.erase peer, s.stale ++ [peer]⟩, true) else (s, false)

/-- Makes every current peer stale. -/
def markAllStale (s : PeerSet) : PeerSet :=
  ⟨[], s.stale ++ s.current⟩

/-- Hands out the stale peers and forgets them. -/
def takeStale (s : PeerSet) : PeerSet × List NodeAddress :=
  (⟨s.current, []⟩, s.stale)

/-- Forgets every peer. -/
def clear (_ : PeerSet) : PeerSet :=
  empty

end PeerSet
end TreeCluster

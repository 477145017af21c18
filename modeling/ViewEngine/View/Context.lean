import ViewEngine.Timestamp.Basic

namespace ViewEngine

structure Context where
  /-- The instant as of which versions are read. Without it the open versions are. -/
  pointInTime : Option Timestamp := none
  clock : Timestamp
  /-- Corrects versions in place instead of opening new ones. -/
  fastUpdate : Bool := false

def Context.writeTime (c : Context) : Timestamp :=
  c.clock.truncated

end ViewEngine

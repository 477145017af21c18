import ViewEngine.Schema.Entity
import ViewEngine.Sql.Statement

namespace ViewEngine

structure JoinEntry where
  path : String
  subject : Attribute
  sourceEntity : Entity
  entity : Entity
  source : Nat
  table : Nat
  join : Sql.Join

structure JoinPlan where
  entries : List JoinEntry := []

namespace JoinPlan

def find? (plan : JoinPlan) (path : String) (id : AttributeId) : Option JoinEntry :=
  plan.entries.find? fun e => e.path == path && e.subject.id == id

def atPath? (plan : JoinPlan) (path : String) : Option JoinEntry :=
  plan.entries.find? (·.path == path)

def ofTable? (plan : JoinPlan) (table : Nat) : Option JoinEntry :=
  plan.entries.find? (·.table == table)

def add (plan : JoinPlan) (e : JoinEntry) : JoinPlan :=
  ⟨plan.entries ++ [e]⟩

/-- Goes back from a table through the entries, latest first, and puts the joins on the way in front
of those already found. -/
def chainOnto (joins : List Sql.Join) (table : Nat) : List JoinEntry → List Sql.Join
  | [] => joins
  | e :: earlier =>
    if e.table = table then chainOnto (e.join :: joins) e.source earlier
    else chainOnto joins table earlier

def chainTo (plan : JoinPlan) (table : Nat) : List Sql.Join :=
  chainOnto [] table plan.entries.reverse

end JoinPlan

end ViewEngine

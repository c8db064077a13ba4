import BGIocpServer.Kit.Reaches

/-!
# A lock as what it grants

A lock that one thread holds at a time: who holds it, and the two steps that change that.

## Main definitions

* `MutexAct`, `mutexStep`: taking and giving back.
-/

namespace Kit

universe u
variable {ι : Type u}

/-- The steps. -/
inductive MutexAct (ι : Type u)
  /-- The thread takes the lock. -/
  | acquire (t : ι)
  /-- The thread gives it back. -/
  | release (t : ι)

/-- A free lock can be taken, and the thread that has it can give it back. -/
def mutexStep [DecidableEq ι] : Option ι → MutexAct ι → Option (Option ι)
  | none, .acquire t => some (some t)
  | some u, .release t => if u = t then some none else none
  | _, _ => none

end Kit

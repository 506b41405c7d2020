/-! # Flights

A flight marks a resource that is being fetched. Whoever begins gets a guard, and giving the guard
back clears the mark; while it is out nobody else can begin.
-/

namespace WalletEngine.Polling

/-- The mark of a resource, and how many guards are out. -/
structure Flight where
  busy : Bool := false
  guards : Nat := 0
  deriving DecidableEq, Repr

namespace Flight

/-- Hands out a guard, unless one is out. -/
def begin? (f : Flight) : Option Flight :=
  if f.busy then none else some ⟨true, f.guards + 1⟩

/-- Takes back a guard. -/
def finish (f : Flight) : Flight := ⟨false, f.guards - 1⟩

theorem begin?_eq_none {f : Flight} : f.begin? = none ↔ f.busy := by
  cases h : f.busy <;> simp [begin?, h]

theorem begin?_finish (f : Flight) : f.finish.begin?.isSome := by
  simp [begin?, finish]

end Flight
end WalletEngine.Polling

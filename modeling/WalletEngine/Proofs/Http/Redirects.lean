import WalletEngine.Http.Redirect
import WalletEngine.Proofs.Steps

/-! # What an exchange may lead to

Servers decide where a request is led, and may refer to each other for ever. Whatever they answer, only
so many requests are made, and none of them carries what the first one did not: each is the first one
made elsewhere, or one that reads and has no body.
-/

namespace WalletEngine.Http

/-- A request that is made in place of the first one. -/
inductive Request.StandsFor (first : Request) : Request → Prop
  | elsewhere (url : Url) : StandsFor first { first with url }
  | reading (url : Url) : StandsFor first { method := .get, url, body := none }

variable {first r r' : Request} {names : Names} {hop hop' : Hop}

theorem Request.standsFor_self (first : Request) : first.StandsFor first := .elsewhere first.url

theorem Request.StandsFor.moved (h : first.StandsFor r) (url : Url) :
    first.StandsFor { r with url } := by
  cases h with
  | elsewhere => exact .elsewhere url
  | reading => exact .reading url

theorem Request.StandsFor.again {status : UInt16} {url : Url} (h : first.StandsFor r)
    (hagain : r.again? status url = some r') : first.StandsFor r' := by
  unfold Request.again? at hagain
  split at hagain
  case h_1 | h_2 =>
    obtain rfl := Option.some.inj hagain
    split
    · exact .reading url
    · exact h.moved url
  case h_3 =>
    obtain rfl := Option.some.inj hagain
    exact .reading url
  case h_4 | h_5 =>
    obtain rfl := Option.some.inj hagain
    exact h.moved url
  case h_6 => cases hagain

theorem Request.StandsFor.lead {answer : Answer} (h : first.StandsFor hop.request)
    (hlead : hop.lead names answer = .next hop') : first.StandsFor hop'.request := by
  rw [Hop.lead] at hlead
  split at hlead
  next => cases hlead
  next hagain =>
    split at hlead
    next => cases hlead
    next =>
      obtain rfl := Lead.next.inj hlead
      rw [Hop.again?, Option.bind_eq_bind, Option.bind_eq_some_iff] at hagain
      obtain ⟨reference, -, hjoined⟩ := hagain
      rw [Option.bind_eq_bind, Option.bind_eq_some_iff] at hjoined
      obtain ⟨url, -, hagain⟩ := hjoined
      exact (h.again hagain).moved _

/-- What is kept by each request that stands for the first one, with one less to be made afterwards, is
kept by the exchange. -/
theorem follow_keeps {σ : Type} (names : Names) (once : Hop → StateM σ (Option Answer))
    {kept : Nat → σ → Prop}
    (honce : ∀ left hop st, first.StandsFor hop.request → kept (left + 1) st →
      kept left ((once hop).run st).2)
    (hend : ∀ left st, kept left st → kept 0 st) (left : Nat) (hop : Hop) (st : σ)
    (h : first.StandsFor hop.request) (hst : kept left st) :
    kept 0 ((follow names once left hop).run st).2 := by
  induction left generalizing hop st with
  | zero => exact hst
  | succ left ih =>
      have hlater := honce left hop st h hst
      rcases hrun : (once hop).run st with ⟨answer?, later⟩
      rw [hrun] at hlater
      rw [follow, Steps.run_bind_of_run hrun]
      cases answer? with
      | none => exact hend left later hlater
      | some answer =>
          dsimp only
          cases hlead : hop.lead names answer with
          | done => exact hend left later hlater
          | lost => exact hend left later hlater
          | next hop' => exact ih hop' later (h.lead hlead) hlater

/-- Makes a request of servers whose answers depend on all that was asked before, and records it. -/
def recorded (answer : List Hop → Hop → Option Answer) (hop : Hop) :
    StateM (List Hop) (Option Answer) :=
  modifyGet fun seen => (answer seen hop, seen ++ [hop])

/-- The requests so far stand for the first one, and so many more may be made. -/
structure HasRoom (first : Request) (most left : Nat) (seen : List Hop) : Prop where
  length_le : seen.length + left ≤ most
  standsFor : ∀ hop ∈ seen, first.StandsFor hop.request

theorem HasRoom.recorded {most left : Nat} {seen : List Hop} (h : HasRoom first most (left + 1) seen)
    (hstands : first.StandsFor hop.request) : HasRoom first most left (seen ++ [hop]) where
  length_le := by
    have hlength := h.length_le
    rw [List.length_append, List.length_singleton]
    omega
  standsFor other hother := by
    rcases List.mem_append.mp hother with hmem | hmem
    · exact h.standsFor other hmem
    · rwa [List.mem_singleton.mp hmem]

/-- An exchange makes at most so many requests, and each of them stands for the first one. -/
theorem requests_of_follow (names : Names) (answer : List Hop → Hop → Option Answer) (most : Nat)
    (first : Request) :
    let seen := ((follow names (recorded answer) most { request := first }).run []).2
    seen.length ≤ most ∧ ∀ hop ∈ seen, first.StandsFor hop.request := by
  have hend (left : Nat) (seen : List Hop) (h : HasRoom first most left seen) :
      HasRoom first most 0 seen := ⟨Nat.le_trans (Nat.le_add_right _ left) h.length_le, h.standsFor⟩
  have hnone : HasRoom first most most [] :=
    ⟨Nat.le_of_eq (Nat.zero_add most), fun _ hmem => absurd hmem List.not_mem_nil⟩
  have hroom := follow_keeps names (recorded answer)
    (fun _ _ _ hstands hseen => hseen.recorded hstands) hend most { request := first } []
    first.standsFor_self hnone
  exact ⟨hroom.length_le, hroom.standsFor⟩

end WalletEngine.Http
